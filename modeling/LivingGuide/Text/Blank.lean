/-!
# White space

A character is *blank* when it has the Unicode property `White_Space`.  Trimming, word splitting and
every grammar of this library that speaks of space mean this class: it holds the next-line
character, the no-break space and the typographic spaces, and it does not hold the zero-width
space or the information separators.

* `isBlank`: the class
-/

namespace LivingGuide.Text

/-- Whether a code point lies in one of the given closed ranges. -/
def inRanges (ranges : List (Nat × Nat)) (c : Char) : Bool :=
  ranges.any fun range => range.1 ≤ c.toNat && c.toNat ≤ range.2

/-- The code points with the property `White_Space`. -/
def blankRanges : List (Nat × Nat) :=
  [(0x09, 0x0d), (0x20, 0x20), (0x85, 0x85), (0xa0, 0xa0), (0x1680, 0x1680), (0x2000, 0x200a),
    (0x2028, 0x2029), (0x202f, 0x202f), (0x205f, 0x205f), (0x3000, 0x3000)]

/-- **A blank is a character of the property `White_Space`.** -/
def isBlank (c : Char) : Bool :=
  inRanges blankRanges c

end LivingGuide.Text
