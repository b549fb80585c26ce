import LivingGuide.Finding
import LivingGuide.Guide

/-!
# Checks

Three checks look at a guide: whether two blocks claim one section, whether the modifiers of a block
can show in its example, and whether a block declares a modifier twice.  Reports list their findings
in this order, and inside each check in the order of the blocks.

* `reusedSections`: warnings, one for every block whose section an earlier one has
* `unusedModifiers`: warnings, at most one for a block
* `repeatedModifiers`: errors, one for every repetition
* `Guide.check`: the report of a guide
-/

namespace LivingGuide

/-- The warning that a block claims a section that an earlier block has. -/
def reusedSection (b : Block) (number : SectionNumber) (first : String) : Finding where
  severity := .warning
  code := "styleguide::validate::duplicate-section"
  message := "'" ++ b.name ++ "' reuses section " ++ number.text ++ " already taken by '" ++ first
    ++ "'"
  sectionText := some b.sectionText
  help := some "Give every block its own section number"

/-- Warnings for the blocks whose section an earlier one has, **naming the earliest**. The state holds
the section numbers met so far, each with the name of its first block; a section that is no number
is passed over. -/
def reusedSections (seen : List (SectionNumber × String)) : List Block → List Finding
  | [] => []
  | b :: blocks =>
    match b.number with
    | .error _ => reusedSections seen blocks
    | .ok number =>
      match seen.lookup number with
      | some first => reusedSection b number first :: reusedSections seen blocks
      | none => reusedSections ((number, b.name) :: seen) blocks

/-- The warning about a block whose modifiers cannot show: it has no example, or an example without a
place for them. -/
def unusedModifiers? (b : Block) : Option Finding :=
  if b.modifiers.isEmpty then none
  else if b.markup.isEmpty then
    some {
      severity := .warning
      code := "styleguide::validate::modifiers-without-example"
      message := "'" ++ b.name ++ "' lists modifiers but has no example markup"
      sectionText := some b.sectionText
      help := some "Add example markup starting with `<`" }
  else if !b.hasPlaceholder then
    some {
      severity := .warning
      code := "styleguide::validate::missing-placeholder"
      message := "'" ++ b.name ++ "' lists modifiers but its example never uses "
        ++ Block.placeholder
      sectionText := some b.sectionText
      help := some "Add $modifier to a class attribute in the example" }
  else none

/-- Warnings for the blocks whose modifiers cannot show. -/
def unusedModifiers (blocks : List Block) : List Finding :=
  blocks.filterMap unusedModifiers?

/-- The error that a block declares a modifier again. -/
def repeatedModifier (b : Block) (m : Modifier) : Finding where
  severity := .error
  code := "styleguide::validate::duplicate-modifier"
  message := "'" ++ b.name ++ "' declares modifier " ++ m.selector ++ " more than once"
  sectionText := some b.sectionText

/-- Errors for the modifiers of a block whose selector was met before. -/
def repeatedSelectors (b : Block) (seen : List String) : List Modifier → List Finding
  | [] => []
  | m :: modifiers =>
    if seen.contains m.selector then repeatedModifier b m :: repeatedSelectors b seen modifiers
    else repeatedSelectors b (m.selector :: seen) modifiers

/-- Errors for the modifiers that blocks declare again. -/
def repeatedModifiers (blocks : List Block) : List Finding :=
  blocks.flatMap fun b => repeatedSelectors b [] b.modifiers

/-- **The report of a guide.** -/
def Guide.check (guide : Guide) : Report :=
  ⟨reusedSections [] guide.blocks ++ unusedModifiers guide.blocks
    ++ repeatedModifiers guide.blocks⟩

end LivingGuide
