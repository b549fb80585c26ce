import LivingGuide.FileSystem.Lookup

/-!
# Changing a file system

Making directories and writing files.  The entry to be made is the last name of the path, and the
segments before it must lead to a directory.  Writing follows a link in the last place, so a link to
nothing makes its target.

* `FileSystem.makeDirectory`: one directory
* `FileSystem.makeDirectories`: a directory with the missing ones above it
* `FileSystem.write`: a file with the given text
-/

namespace LivingGuide

/-- Segments without the empty ones that trailing slashes leave. -/
def withoutTrailingSlashes (segments : List String) : List String :=
  (segments.reverse.dropWhile (· == "")).reverse

/-- A directory that was reached: where it is, its entries, and how many more links may be followed. -/
structure Reached where
  location : Location
  entries : List (String × Node)
  links : Nat

/-- The directory that segments lead to. -/
def Node.followToDirectory (root : Node) (links : Nat) (here : Location) (segments : List String) :
    Except Fault Reached :=
  match root.follow links here segments with
  | .error fault => .error fault
  | .ok (there, links) =>
    match root.at? there with
    | some (.directory entries) => .ok ⟨there, entries, links⟩
    | some _ => .error .notDirectory
    | none => .error .notFound

theorem Node.links_le_of_followToDirectory {root : Node} {links : Nat} {here : Location}
    {segments : List String} {reached : Reached}
    (h : root.followToDirectory links here segments = .ok reached) : reached.links ≤ links := by
  unfold Node.followToDirectory at h
  split at h
  · cases h
  · rename_i there left hfollow
    split at h
    · cases h
      exact Node.links_le_of_follow hfollow
    · cases h
    · cases h

/-- **Where a file is written.** The last name may be new, a file that is written over, or a link to
be followed; a directory, a `.`, a `..` and a trailing slash are refused. -/
def Node.writeTarget (root : Node) (links : Nat) (here : Location) (segments : List String) :
    Except Fault Location :=
  let names := withoutTrailingSlashes segments
  match names.getLast? with
  | none => .error .isDirectory
  | some last =>
    match _h : root.followToDirectory links here names.dropLast with
    | .error fault => .error fault
    | .ok ⟨there, entries, left⟩ =>
      if last = "." || last = ".." || names.length < segments.length then .error .isDirectory
      else if maxNameBytes < last.utf8ByteSize then .error .nameTooLong
      else
        match entries.lookup last with
        | none => .ok (there ++ [last])
        | some (.file _) => .ok (there ++ [last])
        | some (.directory _) => .error .isDirectory
        | some (.link target) =>
          match left with
          | 0 => .error .tooManyLinks
          | left + 1 =>
            root.writeTarget left (if target.isAbsolute then [] else there) target.segments
termination_by links
decreasing_by
  have := Node.links_le_of_followToDirectory _h
  simp only at this
  omega

/-- The paths of the directories above a path, nearest first. -/
def Path.above (path : Path) : List Path :=
  go path.segments.length path
where
  /-- At most the given number of steps up. -/
  go : Nat → Path → List Path
    | 0, _ => []
    | n + 1, p =>
      match p.parent? with
      | none => []
      | some q => q :: go n q

namespace FileSystem

/-- The file system with another entry at a location. -/
def put (fs : FileSystem) (here : Location) (node : Node) : FileSystem :=
  { fs with root := fs.root.put here node }

/-- The file system with a new, empty directory. -/
def makeDirectory (fs : FileSystem) (path : Path) : Except Fault FileSystem :=
  match refused? path with
  | some fault => .error fault
  | none =>
    let names := withoutTrailingSlashes path.segments
    match names.getLast? with
    | none => .error .alreadyExists
    | some last =>
      match fs.root.followToDirectory maxLinks (fs.origin path) names.dropLast with
      | .error fault => .error fault
      | .ok ⟨there, entries, _⟩ =>
        if last = "." || last = ".." then .error .alreadyExists
        else if maxNameBytes < last.utf8ByteSize then .error .nameTooLong
        else if (entries.lookup last).isSome then .error .alreadyExists
        else .ok (fs.put (there ++ [last]) (.directory []))

/-- The outcome of making one directory where an existing one is as good. -/
def makeDirectoryUnlessThere (fs : FileSystem) (path : Path) : FileSystem × Except Fault Unit :=
  match fs.makeDirectory path with
  | .ok made => (made, .ok ())
  | .error fault => if fs.isDirectory path then (fs, .ok ()) else (fs, .error fault)

/-- Makes the first of the given paths, and for that, where a directory is missing, the later ones
first. The later paths are those above the first. -/
def makeChain (fs : FileSystem) : List Path → FileSystem × Except Fault Unit
  | [] => (fs, .ok ())
  | path :: above =>
    if path.text.isEmpty then (fs, .ok ())
    else
      match fs.makeDirectory path with
      | .ok made => (made, .ok ())
      | .error .notFound =>
        match fs.makeChain above with
        | (changed, .error fault) => (changed, .error fault)
        | (changed, .ok ()) => changed.makeDirectoryUnlessThere path
      | .error fault => if fs.isDirectory path then (fs, .ok ()) else (fs, .error fault)

/-- **The file system with a directory and the missing ones above it.** Directories made before a
fault stay. -/
def makeDirectories (fs : FileSystem) (path : Path) : FileSystem × Except Fault Unit :=
  fs.makeChain (path :: path.above)

/-- **The file system with the given text in a file**, new or written over. -/
def write (fs : FileSystem) (path : Path) (text : String) : Except Fault FileSystem :=
  match refused? path with
  | some fault => .error fault
  | none =>
    match fs.root.writeTarget maxLinks (fs.origin path) path.segments with
    | .error fault => .error fault
    | .ok here => .ok (fs.put here (.file text.toUTF8))

end FileSystem

end LivingGuide
