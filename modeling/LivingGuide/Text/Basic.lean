import LivingGuide.Text.Blank

/-!
# Text operations

Cutting, trimming and searching text.  Each operation works on a list of characters, where it is
given by recursion on the data; the versions on `String` only convert.

* `lines`: the lines of a text, without their line ends
* `words`: the maximal runs of non-blank characters
* `trim`, `trimEnd`: a text without the blanks at its ends
* `splitAtFirst`: what stands before and after the first occurrence of a mark
* `replaceAll`: every occurrence of a mark replaced, from left to right
-/

namespace LivingGuide.Text

/-! ### Lines -/

/-- **The lines of a text.** A line feed ends a line, and a carriage return right before it
belongs to the line end. A text that does not end in a line feed has a last line that keeps all its
characters. -/
def lines : List Char → List (List Char)
  | [] => []
  | '\n' :: cs => [] :: lines cs
  | '\r' :: '\n' :: cs => [] :: lines cs
  | c :: cs =>
    match lines cs with
    | [] => [[c]]
    | l :: ls => (c :: l) :: ls

/-- The lines of a string. -/
def linesOf (s : String) : List String :=
  (lines s.toList).map String.ofList

/-! ### Blanks -/

/-- A text without its trailing blanks. -/
def trimEnd (cs : List Char) : List Char :=
  (cs.reverse.dropWhile isBlank).reverse

/-- A text without its leading and trailing blanks. -/
def trim (cs : List Char) : List Char :=
  trimEnd (cs.dropWhile isBlank)

theorem length_dropWhile_le (p : Char → Bool) (cs : List Char) :
    (cs.dropWhile p).length ≤ cs.length :=
  (List.dropWhile_sublist p).length_le

/-- The maximal runs of non-blank characters of a text. -/
def words : List Char → List (List Char)
  | [] => []
  | c :: cs =>
    if isBlank c then words cs
    else (c :: cs.takeWhile (!isBlank ·)) :: words (cs.dropWhile (!isBlank ·))
termination_by cs => cs.length
decreasing_by
  · simp
  · exact Nat.lt_succ_of_le (length_dropWhile_le _ cs)

@[simp]
theorem words_nil : words [] = [] := by
  rw [words]

theorem words_cons (c : Char) (cs : List Char) :
    words (c :: cs) = if isBlank c then words cs
      else (c :: cs.takeWhile (!isBlank ·)) :: words (cs.dropWhile (!isBlank ·)) := by
  rw [words]

/-- The words of a string. -/
def wordsOf (s : String) : List String :=
  (words s.toList).map String.ofList

/-! ### Marks inside a text -/

/-- Whether a mark occurs somewhere in a text. -/
def occursIn (mark : List Char) : List Char → Bool
  | [] => mark.isEmpty
  | c :: cs => mark.isPrefixOf (c :: cs) || occursIn mark cs

theorem occursIn_iff (mark cs : List Char) : occursIn mark cs = true ↔ mark <:+: cs := by
  induction cs with
  | nil => simp [occursIn]
  | cons c cs ih =>
    rw [occursIn, Bool.or_eq_true, List.isPrefixOf_iff_prefix, ih, List.infix_cons_iff]

/-- Whether a string contains another. -/
def contains (s mark : String) : Bool :=
  occursIn mark.toList s.toList

/-- What stands before and after the first occurrence of a mark; `none` when there is none. -/
def splitAtFirst (mark : List Char) : List Char → Option (List Char × List Char)
  | [] => if mark.isEmpty then some ([], []) else none
  | c :: cs =>
    if mark.isPrefixOf (c :: cs) then some ([], (c :: cs).drop mark.length)
    else (splitAtFirst mark cs).map fun parts => (c :: parts.1, parts.2)

/-- Every occurrence of a non-empty mark replaced, from left to right, the replacement itself not
searched again. -/
def replaceAll (mark new : List Char) : List Char → List Char
  | [] => []
  | c :: cs =>
    if mark.isPrefixOf (c :: cs) then new ++ replaceAll mark new (cs.drop (mark.length - 1))
    else c :: replaceAll mark new cs
termination_by cs => cs.length
decreasing_by
  · simp only [List.length_drop, List.length_cons]
    omega
  · simp

@[simp]
theorem replaceAll_nil (mark new : List Char) : replaceAll mark new [] = [] := by
  rw [replaceAll]

theorem replaceAll_cons (mark new : List Char) (c : Char) (cs : List Char) :
    replaceAll mark new (c :: cs) =
      if mark.isPrefixOf (c :: cs) then new ++ replaceAll mark new (cs.drop (mark.length - 1))
      else c :: replaceAll mark new cs := by
  rw [replaceAll]

/-! ### Joining and counting -/

/-- A count with its noun: one thing is named in the singular. -/
def counted (n : Nat) (singular plural : String) : String :=
  n.repr ++ " " ++ if n = 1 then singular else plural

/-- A text moved to the right end of a column, measured in characters. -/
def alignRight (width : Nat) (s : String) : String :=
  String.ofList (List.replicate (width - s.toList.length) ' ') ++ s

end LivingGuide.Text
