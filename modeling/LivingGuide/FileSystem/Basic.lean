import LivingGuide.Path

/-!
# File systems as values

A file system is a tree of named entries together with a working directory.  Commands take one and
return one, so what a command reads and what it leaves behind are both values that can be compared.

An entry is found by its *location*: the names that lead to it from the root, with no links and no
`..` on the way.

* `Node`, `FileSystem`: the tree
* `Node.at?`: the entry at a location
* `Node.put`: the tree with another entry at a location
* `Fault`: why the file system refuses an operation
-/

namespace LivingGuide

/-- An entry of the tree. A directory holds each name once. -/
inductive Node where
  /-- A regular file with its bytes. -/
  | file (content : ByteArray)
  /-- A symbolic link to the path written in it. -/
  | link (target : Path)
  /-- A directory with its named entries. -/
  | directory (entries : List (String × Node))

/-- The names that lead from the root to an entry. -/
abbrev Location := List String

/-- A file system: its root and the directory where relative paths start. -/
structure FileSystem where
  root : Node
  workingDirectory : Location

/-! ### Entries -/

namespace Node

/-- The entry of a directory with the given name. -/
def child? : Node → String → Option Node
  | .directory entries, name => entries.lookup name
  | _, _ => none

/-- **The entry at a location.** -/
def at? : Node → Location → Option Node
  | node, [] => some node
  | node, name :: names => (node.child? name).bind (·.at? names)

/-- A directory listing with another entry under a name, new names last. -/
def setEntry (entries : List (String × Node)) (name : String) (node : Node) :
    List (String × Node) :=
  if entries.any (·.1 == name) then
    entries.map fun entry => if entry.1 == name then (name, node) else entry
  else entries ++ [(name, node)]

/-- The tree with another entry at a location, in directories that are made where they are
missing. A location below something that is no directory changes nothing. -/
def put : Node → Location → Node → Node
  | _, [], new => new
  | .directory entries, name :: names, new =>
    let below := (entries.lookup name).getD (.directory [])
    .directory (setEntry entries name (below.put names new))
  | node, _ :: _, _ => node

/-- Whether the entry is a directory. -/
def isDirectory : Node → Bool
  | .directory _ => true
  | _ => false

/-! ### Measures and views -/

mutual

/-- The number of directories nested in each other. -/
def height : Node → Nat
  | .file _ => 0
  | .link _ => 0
  | .directory entries => entriesHeight entries + 1

/-- The greatest height of an entry. -/
def entriesHeight : List (String × Node) → Nat
  | [] => 0
  | (_, node) :: entries => max node.height (entriesHeight entries)

end

mutual

/-- The number of directories of a tree. -/
def directoryCount : Node → Nat
  | .file _ => 0
  | .link _ => 0
  | .directory entries => entriesDirectoryCount entries + 1

/-- The number of directories of all entries. -/
def entriesDirectoryCount : List (String × Node) → Nat
  | [] => 0
  | (_, node) :: entries => node.directoryCount + entriesDirectoryCount entries

end

mutual

/-- The regular files of a tree with their locations below it. -/
def files : Node → List (Location × ByteArray)
  | .file content => [([], content)]
  | .link _ => []
  | .directory entries => entriesFiles entries

/-- The regular files of all entries. -/
def entriesFiles : List (String × Node) → List (Location × ByteArray)
  | [] => []
  | (name, node) :: entries =>
    node.files.map (fun found => (name :: found.1, found.2)) ++ entriesFiles entries

end

end Node

/-! ### Faults -/

/-- Why the file system refuses an operation. -/
inductive Fault where
  | notFound
  | alreadyExists
  | notDirectory
  | isDirectory
  | nameTooLong
  | tooManyLinks
  | zeroInName
  | invalidText
deriving DecidableEq, Repr

/-- The system's words for a fault. -/
def Fault.message : Fault → String
  | .notFound => "No such file or directory (os error 2)"
  | .alreadyExists => "File exists (os error 17)"
  | .notDirectory => "Not a directory (os error 20)"
  | .isDirectory => "Is a directory (os error 21)"
  | .nameTooLong => "File name too long (os error 36)"
  | .tooManyLinks => "Too many levels of symbolic links (os error 40)"
  | .zeroInName => "file name contained an unexpected NUL byte"
  | .invalidText => "stream did not contain valid UTF-8"

end LivingGuide
