import LivingGuide.Inventory
import LivingGuide.Manifest.Reader

/-!
# Projects

A project is a root directory, the manifest in it, and the stylesheets that belong to its guide.  It is
found in one of two ways: from a directory, whose manifest says where the stylesheets are, or from
paths given one by one, where no manifest is looked for.

* `Project.atRoot`: the project of a directory
* `Project.ofPaths`: the project of given paths
* `Project.find`: the one or the other
-/

namespace LivingGuide

/-- The manifest in a file. -/
def Manifest.load (fs : FileSystem) (path : Path) : Except Error Manifest :=
  match fs.read path with
  | .ok text => Manifest.parse text
  | .error fault => .error (.file path .readManifest fault)

/-- A root, what its manifest declares, and the stylesheets. -/
structure Project where
  root : Path
  /-- The manifest at the root, if there is one. -/
  declared : Option Manifest
  inventory : Inventory
deriving DecidableEq, Repr

namespace Project

/-- The settings of a project: those declared, or else the defaults. -/
def manifest (project : Project) : Manifest :=
  project.declared.getD Manifest.default

/-- Where the manifest of a directory is. -/
def manifestPath (root : Path) : Path :=
  root.join ⟨manifestName⟩

/-- The manifest at a root, if there is one. One that cannot be read is an error. -/
def manifestAt (fs : FileSystem) (root : Path) : Except Error (Option Manifest) :=
  if fs.exists? (manifestPath root) then (Manifest.load fs (manifestPath root)).map some
  else .ok none

/-- The project of a root whose manifest is known. -/
def ofManifest (fs : FileSystem) (root : Path) (declared : Option Manifest) : Project :=
  let manifest := declared.getD Manifest.default
  { root, declared, inventory := Inventory.ofSources fs manifest root manifest.effectiveSources }

/-- **The project of a directory**, with the stylesheets that its manifest names. -/
def atRoot (fs : FileSystem) (root : Path) : Except Error Project :=
  (manifestAt fs root).map (ofManifest fs root)

/-- The inventory with what a given path names: the stylesheets below a directory, or the path
itself, whether or not there is a file. -/
def addPath (fs : FileSystem) (inventory : Inventory) (path : Path) : Inventory :=
  if fs.isDirectory path then inventory.merge (Inventory.ofDirectory fs Manifest.default path)
  else inventory.push path

/-- The root of a project of given paths: the directory of the first. -/
def rootOf (paths : List Path) : Path :=
  (paths.head?.bind Path.parent?).getD ⟨"."⟩

/-- **The project of given paths**, in their order. -/
def ofPaths (fs : FileSystem) (paths : List Path) : Project :=
  { root := rootOf paths, declared := none
    inventory := paths.foldl (addPath fs) Inventory.empty }

/-- The project of the given paths, or that of the working directory when there are none. -/
def find (fs : FileSystem) (paths : List Path) : Except Error Project :=
  if paths.isEmpty then atRoot fs ⟨"."⟩ else .ok (ofPaths fs paths)

end Project

end LivingGuide
