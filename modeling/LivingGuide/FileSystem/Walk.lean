import LivingGuide.FileSystem.Lookup

/-!
# Walking a directory

A walk lists the files below a directory: depth first, the entries of each directory in the order
of their names, files and directories mixed.  Names are compared by code point, which is the order of
their bytes.  The path of an entry is the path of its directory continued by its name.

Directories are opened and links are followed by these paths.  A link that cannot be followed, because
it leads nowhere or the path is too long or has too many links, is skipped; so is a link that leads
back to a directory the walk is inside of, and that is why a walk ends.  A directory that cannot be
opened is not one by its path: it is listed like a file, and what lies below it is not found.

* `FileSystem.walk`: the files below a path
-/

namespace LivingGuide

/-- The entries of a directory in the order of their names. -/
def Node.sorted (entries : List (String × Node)) : List (String × Node) :=
  entries.mergeSort fun a b => !decide (b.1 < a.1)

namespace FileSystem

/-- The files below the directory at a path. The locations above are those of the directories that the
walk is inside of, and no more directories are entered inside each other than the first number
says. -/
def walkFrom (fs : FileSystem) : Nat → List Location → Path → List Path
  | 0, _, _ => []
  | depth + 1, above, path =>
    match fs.locate path with
    | .error _ => []
    | .ok here =>
      match fs.root.at? here with
      | some (.directory entries) =>
        (Node.sorted entries).flatMap fun entry =>
          let below := path.join ⟨entry.1⟩
          match entry.2 with
          | .file _ => [below]
          | .directory _ =>
            match fs.locate below with
            | .error _ => [below]
            | .ok _ => fs.walkFrom depth (here :: above) below
          | .link _ =>
            match fs.locate below with
            | .error _ => []
            | .ok there =>
              match fs.root.at? there with
              | some (.file _) => [below]
              | some (.directory _) =>
                if (here :: above).contains there then []
                else fs.walkFrom depth (here :: above) below
              | _ => []
      | _ => []

/-- **Enough depth for any walk.** Between two links a walk goes down the tree, and it never follows
a link to a directory it is inside of. -/
def walkDepth (fs : FileSystem) : Nat :=
  (fs.root.directoryCount + 1) * (fs.root.height + 1)

/-- **The files below a path**; a path to a file lists that file. -/
def walk (fs : FileSystem) (path : Path) : List Path :=
  if fs.isFile path then [path] else fs.walkFrom fs.walkDepth [] path

end FileSystem

end LivingGuide
