import LivingGuide.FileSystem.Basic

/-!
# Following paths

A path leads to a location one segment at a time.  Every segment, a skipped one too, is read inside a
directory, so a slash or a `.` after a file is a fault; `..` goes to the directory above; a link
is replaced by its target.  At most forty links are followed on the way, and a path that is too long is
not followed at all.

* `Node.follow`: the location that segments lead to
* `FileSystem.locate`: the location that a path leads to
* `FileSystem.read`: the text of a file
-/

namespace LivingGuide

/-- How many links a path may lead through. -/
def maxLinks : Nat := 40

/-- How many bytes a name may have. -/
def maxNameBytes : Nat := 255

/-- How many bytes a path may have. -/
def maxPathBytes : Nat := 4095

/-- **The location that segments lead to**, from a location inside a tree, and how many of the links
that may be followed are left. -/
def Node.follow (root : Node) (links : Nat) (here : Location) :
    List String → Except Fault (Location × Nat)
  | [] => .ok (here, links)
  | segment :: rest =>
    match root.at? here with
    | none => .error .notFound
    | some (.file _) => .error .notDirectory
    | some (.link _) => .error .notDirectory
    | some (.directory entries) =>
      if Path.isIdle segment then root.follow links here rest
      else if segment = ".." then root.follow links here.dropLast rest
      else if maxNameBytes < segment.utf8ByteSize then .error .nameTooLong
      else
        match entries.lookup segment with
        | none => .error .notFound
        | some (.link target) =>
          match links with
          | 0 => .error .tooManyLinks
          | links + 1 =>
            root.follow links (if target.isAbsolute then [] else here) (target.segments ++ rest)
        | some _ => root.follow links (here ++ [segment]) rest
termination_by segments => (links, segments.length)

theorem Node.links_le_of_follow {root : Node} {links left : Nat} {here there : Location}
    {segments : List String} (h : root.follow links here segments = .ok (there, left)) :
    left ≤ links := by
  fun_induction Node.follow root links here segments with
  | case1 =>
    cases h
    exact Nat.le_refl _
  | case2 | case3 | case4 | case7 | case8 | case9 => cases h
  | case5 _ _ _ _ _ _ _ ih => exact ih h
  | case6 _ _ _ _ _ _ ih => exact ih h
  | case10 _ _ _ _ _ _ _ _ _ _ _ ih => exact Nat.le_succ_of_le (ih h)
  | case11 _ _ _ _ _ _ _ _ _ _ _ _ ih => exact ih h

namespace FileSystem

variable (fs : FileSystem)

/-- Where reading a path starts. -/
def origin (path : Path) : Location :=
  if path.isAbsolute then [] else fs.workingDirectory

/-- The path of the working directory. -/
def workingPath : Path :=
  Path.ofSegments ("" :: fs.workingDirectory)

/-- A path that cannot name anything: the empty path, one with a zero character, and one that is too
long. -/
def refused? (path : Path) : Option Fault :=
  if path.text.toList.contains '\x00' then some .zeroInName
  else if path.text.isEmpty then some .notFound
  else if maxPathBytes < path.text.utf8ByteSize then some .nameTooLong
  else none

/-- **The location that a path leads to.** -/
def locate (path : Path) : Except Fault Location :=
  match refused? path with
  | some fault => .error fault
  | none => (fs.root.follow maxLinks (fs.origin path) path.segments).map Prod.fst

/-- The entry that a path leads to. -/
def node? (path : Path) : Option Node :=
  match fs.locate path with
  | .ok here => fs.root.at? here
  | .error _ => none

/-- Whether a path leads to anything. -/
def exists? (path : Path) : Bool :=
  (fs.node? path).isSome

/-- Whether a path leads to a directory. -/
def isDirectory (path : Path) : Bool :=
  (fs.node? path).any Node.isDirectory

/-- Whether a path leads to a regular file. -/
def isFile (path : Path) : Bool :=
  (fs.node? path).any fun
    | .file _ => true
    | _ => false

/-- The text of the file that a path leads to. -/
def read (path : Path) : Except Fault String :=
  match fs.locate path with
  | .error fault => .error fault
  | .ok here =>
    match fs.root.at? here with
    | some (.file content) =>
      match String.fromUTF8? content with
      | some text => .ok text
      | none => .error .invalidText
    | some (.directory _) => .error .isDirectory
    | _ => .error .notFound

end FileSystem

end LivingGuide
