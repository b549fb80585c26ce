import LivingGuide.Error

/-!
# Section numbers

A section is written as numbers between dots, such as `1.2` or `10.3.1`, and one dot at its end is
ignored.  Section numbers are compared number by number, so `1.2` comes before `1.10` and before
`1.2.1`.

* `SectionNumber.parse`: the section number that a text stands for
* `SectionNumber.text`: the text without leading zeros
-/

namespace LivingGuide

/-- The numbers of a section, outermost first. -/
structure SectionNumber where
  segments : List Nat
deriving DecidableEq, Repr

namespace SectionNumber

instance : Ord SectionNumber where
  compare a b := compare a.segments b.segments

/-- The greatest number that may stand in a section. -/
def maxSegment : Nat := 18446744073709551615

/-- The value of a run of decimal digits. -/
def digitsValue (cs : List Char) : Nat :=
  cs.foldl (fun n c => 10 * n + (c.toNat - '0'.toNat)) 0

/-- The number written by a segment: one or more ASCII digits of a value that is not too great. -/
def segment? (cs : List Char) : Option Nat :=
  if !cs.isEmpty && cs.all Char.isDigit && digitsValue cs ≤ maxSegment then some (digitsValue cs)
  else none

/-- A text without one dot at its end. -/
def dropFinalDot (cs : List Char) : List Char :=
  if cs.getLast? = some '.' then cs.dropLast else cs

/-- **The section number that a text stands for.** The error names the first segment that is no
number. -/
def parse (whole : String) : Except Error SectionNumber := do
  let segments ← ((dropFinalDot whole.toList).splitOn '.').mapM fun cs =>
    match segment? cs with
    | some n => Except.ok n
    | none => .error (.sectionNumber whole (String.ofList cs))
  return ⟨segments⟩

/-- The text of a section number: its numbers between dots. -/
def text (number : SectionNumber) : String :=
  String.intercalate "." (number.segments.map Nat.repr)

/-- How deep a section lies: one at the top. -/
def depth (number : SectionNumber) : Nat :=
  number.segments.length

/-- Whether a section number comes no later than another. -/
def le (a b : SectionNumber) : Bool :=
  (compare a b).isLE

end SectionNumber

end LivingGuide
