import LivingGuide.FileSystem.Walk
import LivingGuide.Manifest.Basic

/-!
# Inventories

An inventory lists the stylesheets of a project, each path once: a path that is the same as an earlier
one, however it is spelled, is dropped.  The spelling and the place of the first stay.

* `Inventory.push`, `Inventory.merge`: more paths
* `Inventory.ofDirectory`: the stylesheets below a directory
* `Inventory.ofSources`: the stylesheets that sources name
-/

namespace LivingGuide

/-- The stylesheets of a project. -/
structure Inventory where
  files : List Path := []
deriving DecidableEq, Repr

namespace Inventory

/-- The inventory without files. -/
def empty : Inventory := {}

/-- The inventory with a path, unless it holds it already. -/
def push (inventory : Inventory) (path : Path) : Inventory :=
  if inventory.files.any (·.same path) then inventory else ⟨inventory.files ++ [path]⟩

/-- The inventory with the given paths in turn. -/
def pushAll (inventory : Inventory) (paths : List Path) : Inventory :=
  paths.foldl push inventory

/-- The inventory with the paths of another. -/
def merge (inventory other : Inventory) : Inventory :=
  inventory.pushAll other.files

/-- **The stylesheets below a directory** that no pattern leaves out, in the order of the walk. -/
def ofDirectory (fs : FileSystem) (manifest : Manifest) (root : Path) : Inventory :=
  empty.pushAll ((fs.walk root).filter fun path =>
    !manifest.isExcluded path && manifest.isStylesheet path)

/-- The inventory with what a source names: the stylesheets below a directory, or a file whatever its
extension. A source that leads nowhere adds nothing. -/
def addSource (fs : FileSystem) (manifest : Manifest) (root : Path) (inventory : Inventory)
    (source : String) : Inventory :=
  let path := root.join ⟨source⟩
  if fs.isDirectory path then inventory.merge (ofDirectory fs manifest path)
  else if fs.isFile path then inventory.push path
  else inventory

/-- **The stylesheets that sources name**, in the order of the sources. -/
def ofSources (fs : FileSystem) (manifest : Manifest) (root : Path) (sources : List String) :
    Inventory :=
  sources.foldl (addSource fs manifest root) empty

end Inventory

end LivingGuide
