/-!
# Reading positions

YAML text is read from left to right.  Where a character stands matters: the column decides on
nesting, and a key has to end on the line where it starts.  A cursor is the rest of the text together
with the position of its first character.

* `isBreak`, `isSpace`: line breaks, and the blanks inside a line
* `Position`, `Cursor`: where reading stands
-/

namespace LivingGuide.Yaml

/-! ### Characters -/

/-- A line break: line feed, carriage return, next line, line separator, paragraph separator. -/
def isBreak (c : Char) : Bool :=
  c == '\n' || c == '\r' || c.toNat == 0x85 || c.toNat == 0x2028 || c.toNat == 0x2029

/-- A blank inside a line: a space or a tab. -/
def isSpace (c : Char) : Bool :=
  c == ' ' || c == '\t'

/-- The text that a line break stands for: separators stand for themselves, all others for a line
feed. -/
def breakText (c : Char) : List Char :=
  if c.toNat == 0x2028 || c.toNat == 0x2029 then [c] else ['\n']

/-- Whether a text is at its end, at a blank or at a line break. -/
def atGap : List Char → Bool
  | [] => true
  | c :: _ => isSpace c || isBreak c

/-- Whether a text is at its end or at a line break. -/
def atLineEnd : List Char → Bool
  | [] => true
  | c :: _ => isBreak c

/-- A letter, a digit, an underscore or a hyphen: what names of anchors and handles are made of. -/
def isNameChar (c : Char) : Bool :=
  c.isAlphanum || c == '_' || c == '-'

/-- The characters that may stand in YAML text. -/
def isAllowed (c : Char) : Bool :=
  let n := c.toNat
  n == 0x09 || n == 0x0a || n == 0x0d || (0x20 ≤ n && n ≤ 0x7e) || n == 0x85
    || (0xa0 ≤ n && n ≤ 0xfffd) || 0x10000 ≤ n

/-- Whether a line starts with the mark of the start or the end of a document. -/
def atDocumentMark : List Char → Bool
  | '-' :: '-' :: '-' :: cs => atGap cs
  | '.' :: '.' :: '.' :: cs => atGap cs
  | _ => false

/-! ### Positions -/

/-- A line, how many characters were read on it, and how many octets they have. -/
structure Position where
  line : Nat := 0
  column : Nat := 0
  octets : Nat := 0
deriving DecidableEq, Repr

/-- The position after a character of the line. -/
def Position.after (p : Position) (c : Char) : Position :=
  ⟨p.line, p.column + 1, p.octets + c.utf8Size⟩

/-- The position after some characters of the line. -/
def Position.afterAll (p : Position) (cs : List Char) : Position :=
  cs.foldl Position.after p

/-- The start of the next line. -/
def Position.newLine (p : Position) : Position :=
  ⟨p.line + 1, 0, 0⟩

/-- The rest of a text and the position where it starts. -/
structure Cursor where
  position : Position
  rest : List Char

namespace Cursor

/-- The cursor after the given number of characters of the line. -/
def advance (cur : Cursor) (n : Nat) : Cursor :=
  ⟨cur.position.afterAll (cur.rest.take n), cur.rest.drop n⟩

/-- The cursor moved right, on its line, to where the given text is left. -/
def moveTo (cur : Cursor) (rest : List Char) : Cursor :=
  ⟨cur.position.afterAll (cur.rest.take (cur.rest.length - rest.length)), rest⟩

/-- The cursor after a run of characters that are no line breaks. -/
def dropWhile (cur : Cursor) (p : Char → Bool) : Cursor :=
  ⟨cur.position.afterAll (cur.rest.takeWhile p), cur.rest.dropWhile p⟩

theorem length_rest_dropWhile_le (cur : Cursor) (p : Char → Bool) :
    (cur.dropWhile p).rest.length ≤ cur.rest.length :=
  (List.dropWhile_sublist p).length_le

/-- The cursor after a line break, if it is at one. -/
def dropBreak (cur : Cursor) : Cursor :=
  match cur.rest with
  | '\r' :: '\n' :: cs => ⟨cur.position.newLine, cs⟩
  | c :: cs => if isBreak c then ⟨cur.position.newLine, cs⟩ else cur
  | [] => cur

theorem length_rest_dropBreak_lt {position : Position} {c : Char} {cs : List Char}
    (h : isBreak c = true) : (dropBreak ⟨position, c :: cs⟩).rest.length < (c :: cs).length := by
  grind [dropBreak]

theorem length_rest_dropBreak_le (cur : Cursor) : cur.dropBreak.rest.length ≤ cur.rest.length := by
  grind [dropBreak]

/-- The cursor after the rest of its line and the break that ends it. -/
def dropLine (cur : Cursor) : Cursor :=
  (cur.dropWhile (!isBreak ·)).dropBreak

/-- **A line takes at least one character**, unless the text is at its end. -/
theorem length_rest_dropLine_lt (cur : Cursor) (h : cur.rest ≠ []) :
    cur.dropLine.rest.length < cur.rest.length := by
  obtain ⟨position, rest⟩ := cur
  cases rest with
  | nil => exact absurd rfl h
  | cons c cs =>
    cases hc : isBreak c with
    | false =>
      calc (dropLine ⟨position, c :: cs⟩).rest.length
          ≤ ((c :: cs).dropWhile (!isBreak ·)).length := length_rest_dropBreak_le _
        _ = (cs.dropWhile (!isBreak ·)).length := by rw [List.dropWhile_cons_of_pos (by simp [hc])]
        _ ≤ cs.length := (List.dropWhile_sublist _).length_le
        _ < (c :: cs).length := Nat.lt_succ_self _
    | true =>
      rw [dropLine, dropWhile, List.dropWhile_cons_of_neg (by simp [hc])]
      exact length_rest_dropBreak_lt hc

/-- The text of the line break at the cursor, empty where there is none. -/
def breakAhead (cur : Cursor) : List Char :=
  match cur.rest with
  | c :: _ => if isBreak c then breakText c else []
  | [] => []

/-- The cursor after blanks and a comment. -/
def dropComment (cur : Cursor) : Cursor :=
  let cur := cur.dropWhile isSpace
  if cur.rest.head? == some '#' then cur.dropWhile (!isBreak ·) else cur

/-- The cursor after the end of a line that holds nothing but blanks and a comment. -/
def endLine? (cur : Cursor) : Option Cursor :=
  let cur := cur.dropComment
  if atLineEnd cur.rest then some cur.dropBreak else none

end Cursor

end LivingGuide.Yaml
