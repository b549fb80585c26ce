import LivingGuide.Modifier
import LivingGuide.SectionNumber

/-!
# Blocks

A block documents one component: its name, what it is for, its modifiers, a piece of example markup
and the section of the guide where it belongs.

* `Block.markupWith`: the example markup for one class
* `Block.number`: the section number that orders blocks
-/

namespace LivingGuide

/-- The documentation of one component. A part that is missing is empty. The section is kept as it is
written. -/
structure Block where
  name : String
  description : String
  modifiers : List Modifier
  markup : String
  sectionText : String
deriving DecidableEq, Repr

namespace Block

/-- The mark in example markup where the class of a modifier goes. -/
def placeholder : String := "$modifier"

/-- Whether the block has only a name and a section. -/
def isModule (b : Block) : Bool :=
  b.description.isEmpty && b.modifiers.isEmpty && b.markup.isEmpty

/-- Whether the example says where the class of a modifier goes. -/
def hasPlaceholder (b : Block) : Bool :=
  Text.contains b.markup placeholder

/-- **The example markup for a class**: every placeholder replaced by the class. -/
def markupWith (b : Block) (markupClass : String) : String :=
  String.ofList
    (Text.replaceAll placeholder.toList markupClass.toList b.markup.toList)

/-- The section number of a block. -/
def number (b : Block) : Except Error SectionNumber :=
  SectionNumber.parse b.sectionText

/-- The depth of the section of a block; a section that is no number lies at the top. -/
def depth (b : Block) : Nat :=
  match b.number with
  | .ok number => number.depth
  | .error _ => 1

end Block

end LivingGuide
