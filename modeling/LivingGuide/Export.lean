import LivingGuide.Block.Basic
import LivingGuide.Json

/-!
# Export of blocks

Blocks as JSON. A *record* holds what a block is made of; the *view* that is exported adds what
follows from it, the class of every modifier and whether the block is a module.

* `Block.record`: a block as it is
* `Block.view`: a block as it is exported
* `exportBlocks`: the export of a list of blocks
-/

namespace LivingGuide

/-- A modifier as it is. -/
def Modifier.record (m : Modifier) : Json :=
  .object [("selector", .string m.selector), ("description", .string m.description)]

/-- A modifier as it is exported. -/
def Modifier.view (m : Modifier) : Json :=
  .object [("selector", .string m.selector), ("description", .string m.description),
    ("markup_class", .string m.markupClass)]

/-- A block as it is. -/
def Block.record (b : Block) : Json :=
  .object [("name", .string b.name), ("description", .string b.description),
    ("modifiers", .array (b.modifiers.map Modifier.record)), ("example", .string b.markup),
    ("section", .string b.sectionText)]

/-- A block as it is exported. -/
def Block.view (b : Block) : Json :=
  .object [("name", .string b.name), ("description", .string b.description),
    ("modifiers", .array (b.modifiers.map Modifier.view)), ("example", .string b.markup),
    ("section", .string b.sectionText), ("is_module", .bool b.isModule)]

/-- **The export of blocks**: an array of their views, in order. -/
def exportBlocks (blocks : List Block) : String :=
  (Json.array (blocks.map Block.view)).pretty

end LivingGuide
