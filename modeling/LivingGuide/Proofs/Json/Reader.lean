import LivingGuide.Json
import Mathlib.Data.List.Basic

/-!
# Reading JSON

What any reader of JSON makes of a text.  The text is first cut into tokens: brackets, braces,
commas, colons, and scalars, with white space between them.  The tokens are then read from left to
right by a machine that keeps a stack of the arrays and objects that are still open, each with what
was read of it so far; so every step takes a token, and nothing is read twice.

* `Datum`: what a text says.  A number is kept as it is written.
* `tokens?`: the tokens of a text.  Strings may hold any character but controls, quotes and
  backslashes, and any escape, pairs of surrogates included.
* `value?`, `after?`: the machine, before and after a value.
* `read?`: the value that a text says, if it is JSON.
-/

namespace LivingGuide.Json

/-- What a JSON text says.  The fields of an object keep their order, and a number its digits. -/
inductive Datum where
  | null
  | bool (value : Bool)
  | number (digits : List Char)
  | string (text : String)
  | array (items : List Datum)
  | object (fields : List (String × Datum))

/-! ### Characters of a string -/

def hexValue? (c : Char) : Option Nat :=
  if c.isDigit then some (c.toNat - 0x30)
  else if 0x61 ≤ c.toNat ∧ c.toNat ≤ 0x66 then some (c.toNat - 0x61 + 10)
  else if 0x41 ≤ c.toNat ∧ c.toNat ≤ 0x46 then some (c.toNat - 0x41 + 10)
  else none

/-- The code unit that four hexadecimal digits write, and what follows them. -/
def codeUnit? : List Char → Option (Nat × List Char)
  | a :: b :: c :: d :: cs =>
    match hexValue? a, hexValue? b, hexValue? c, hexValue? d with
    | some a, some b, some c, some d => some (((a * 16 + b) * 16 + c) * 16 + d, cs)
    | _, _, _, _ => none
  | _ => none

/-- The character that code units write: one that is no surrogate, or a high and a low one. -/
def unicode? (cs : List Char) : Option (Char × List Char) :=
  match codeUnit? cs with
  | none => none
  | some (high, rest) =>
    if high < 0xd800 ∨ 0xe000 ≤ high then some (Char.ofNat high, rest)
    else
      match rest with
      | '\\' :: 'u' :: rest =>
        match codeUnit? rest with
        | none => none
        | some (low, rest) =>
          if high < 0xdc00 ∧ 0xdc00 ≤ low ∧ low < 0xe000 then
            some (Char.ofNat (0x10000 + (high - 0xd800) * 0x400 + (low - 0xdc00)), rest)
          else none
      | _ => none

/-- What the letters behind a backslash stand for, code units apart. -/
def escapes : List (Char × Char) :=
  [('"', '"'), ('\\', '\\'), ('/', '/'), ('b', '\x08'), ('f', '\x0c'), ('n', '\n'), ('r', '\r'),
    ('t', '\t')]

/-- The next character of a string, and what follows it. -/
def character? : List Char → Option (Char × List Char)
  | [] => none
  | '\\' :: [] => none
  | '\\' :: c :: cs =>
    if c = 'u' then unicode? cs else (escapes.lookup c).map fun meant => (meant, cs)
  | c :: cs => if c = '"' ∨ c.toNat < 0x20 then none else some (c, cs)

theorem codeUnit?_length_lt {cs rest : List Char} {n : Nat} (h : codeUnit? cs = some (n, rest)) :
    rest.length < cs.length := by
  rw [codeUnit?.eq_def] at h
  split at h
  · split at h
    · obtain ⟨-, rfl⟩ := Prod.mk.inj (Option.some.inj h)
      simp only [List.length_cons]
      omega
    · cases h
  · cases h

theorem unicode?_length_lt {cs rest : List Char} {c : Char} (h : unicode? cs = some (c, rest)) :
    rest.length < cs.length := by
  rw [unicode?] at h
  split at h
  · cases h
  · next high first hhigh =>
    have hfirst := codeUnit?_length_lt hhigh
    split at h
    · obtain ⟨-, rfl⟩ := Prod.mk.inj (Option.some.inj h)
      exact hfirst
    · split at h
      · split at h
        · cases h
        · next low last hlow =>
          have hlast := codeUnit?_length_lt hlow
          split at h
          · obtain ⟨-, rfl⟩ := Prod.mk.inj (Option.some.inj h)
            simp only [List.length_cons] at hfirst
            omega
          · cases h
      · cases h

theorem character?_length_lt {cs rest : List Char} {c : Char}
    (h : character? cs = some (c, rest)) : rest.length < cs.length := by
  rw [character?.eq_def] at h
  split at h
  · cases h
  · cases h
  · split at h
    · have hrest := unicode?_length_lt h
      simp only [List.length_cons]
      omega
    · obtain ⟨meant, -, he⟩ := Option.map_eq_some_iff.mp h
      obtain ⟨-, rfl⟩ := Prod.mk.inj he
      simp only [List.length_cons]
      omega
  · split at h
    · cases h
    · obtain ⟨-, rfl⟩ := Prod.mk.inj (Option.some.inj h)
      simp

/-- The characters up to the quote that ends a string, and what follows it. -/
def stringRest? (cs : List Char) : Option (List Char × List Char) :=
  if cs.head? = some '"' then some ([], cs.tail)
  else
    match _h : character? cs with
    | none => none
    | some (c, rest) => (stringRest? rest).map fun found => (c :: found.1, found.2)
termination_by cs.length
decreasing_by exact character?_length_lt _h

/-! ### Numbers -/

def isNumberChar (c : Char) : Bool :=
  c.isDigit || c == '-' || c == '+' || c == '.' || c == 'e' || c == 'E'

/-- One or more digits. -/
def isDigits (cs : List Char) : Bool :=
  !cs.isEmpty && cs.all Char.isDigit

/-- Nothing, or an exponent with or without a sign. -/
def isExponent : List Char → Bool
  | [] => true
  | c :: '-' :: cs => (c == 'e' || c == 'E') && isDigits cs
  | c :: '+' :: cs => (c == 'e' || c == 'E') && isDigits cs
  | c :: cs => (c == 'e' || c == 'E') && isDigits cs

/-- What may follow the integral part of a number: a fraction and an exponent. -/
def isNumberTail : List Char → Bool
  | '.' :: cs => isDigits (cs.takeWhile Char.isDigit) && isExponent (cs.dropWhile Char.isDigit)
  | cs => isExponent cs

/-- Whether a text is a number.  Only a lone zero starts with a zero. -/
def isNumber (cs : List Char) : Bool :=
  match if cs.head? = some '-' then cs.tail else cs with
  | '0' :: cs => isNumberTail cs
  | cs => isDigits (cs.takeWhile Char.isDigit) && isNumberTail (cs.dropWhile Char.isDigit)

/-! ### Tokens -/

inductive Token where
  | openArray
  | closeArray
  | openObject
  | closeObject
  | comma
  | colon
  | scalar (value : Datum)

def isSpace (c : Char) : Bool :=
  c == ' ' || c == '\t' || c == '\n' || c == '\r'

/-- The token at the start of a text, and what follows it. -/
def token? : List Char → Option (Token × List Char)
  | '[' :: cs => some (.openArray, cs)
  | ']' :: cs => some (.closeArray, cs)
  | '\x7b' :: cs => some (.openObject, cs)
  | '\x7d' :: cs => some (.closeObject, cs)
  | ',' :: cs => some (.comma, cs)
  | ':' :: cs => some (.colon, cs)
  | '"' :: cs =>
    (stringRest? cs).map fun found => (.scalar (.string (String.ofList found.1)), found.2)
  | 't' :: 'r' :: 'u' :: 'e' :: cs => some (.scalar (.bool true), cs)
  | 'f' :: 'a' :: 'l' :: 's' :: 'e' :: cs => some (.scalar (.bool false), cs)
  | 'n' :: 'u' :: 'l' :: 'l' :: cs => some (.scalar .null, cs)
  | cs =>
    if isNumber (cs.takeWhile isNumberChar) then
      some (.scalar (.number (cs.takeWhile isNumberChar)), cs.dropWhile isNumberChar)
    else none

theorem stringRest?_length_le {cs found rest : List Char}
    (h : stringRest? cs = some (found, rest)) : rest.length ≤ cs.length := by
  fun_induction stringRest? cs generalizing found with
  | case1 cs hquote =>
    obtain ⟨-, rfl⟩ := Prod.mk.inj (Option.some.inj h)
    rw [List.length_tail]
    omega
  | case2 => cases h
  | case3 cs hquote c tail hc ih =>
    obtain ⟨⟨f, r⟩, hfound, he⟩ := Option.map_eq_some_iff.mp h
    obtain ⟨-, rfl⟩ := Prod.mk.inj he
    have hrest := ih hfound
    have htail := character?_length_lt hc
    omega

theorem token?_length_lt {cs rest : List Char} {token : Token}
    (h : token? cs = some (token, rest)) : rest.length < cs.length := by
  rw [token?.eq_def] at h
  split at h
  case h_7 =>
    obtain ⟨⟨f, r⟩, hfound, he⟩ := Option.map_eq_some_iff.mp h
    obtain ⟨-, rfl⟩ := Prod.mk.inj he
    exact Nat.lt_succ_of_le (stringRest?_length_le hfound)
  case h_11 =>
    split at h
    · next hnumber =>
      obtain ⟨-, rfl⟩ := Prod.mk.inj (Option.some.inj h)
      have hne : cs.takeWhile isNumberChar ≠ [] := by
        intro hempty
        rw [hempty] at hnumber
        exact absurd hnumber (by decide)
      have hcut := congrArg List.length (List.takeWhile_append_dropWhile (p := isNumberChar) (l := cs))
      have hpos := List.length_pos_of_ne_nil hne
      rw [List.length_append] at hcut
      omega
    · cases h
  all_goals
    obtain ⟨-, rfl⟩ := Prod.mk.inj (Option.some.inj h)
    simp only [List.length_cons]
    omega

/-- The tokens of a text, white space around them skipped. -/
def tokens? (cs : List Char) : Option (List Token) :=
  match _hcs : cs.dropWhile isSpace with
  | [] => some []
  | c :: tail =>
    match _h : token? (c :: tail) with
    | none => none
    | some (token, rest) => (tokens? rest).map (token :: ·)
termination_by cs.length
decreasing_by
  have hrest := token?_length_lt _h
  have htail := (List.dropWhile_sublist isSpace (l := cs)).length_le
  rw [_hcs] at htail
  omega

/-! ### The machine -/

/-- An array or an object that is open: what was read of it, and the key of the value that
follows. -/
inductive Frame where
  | items (before : List Datum)
  | fields (before : List (String × Datum)) (key : String)

mutual

/-- The value that tokens say when one is to start, inside the open frames. -/
def value? : List Frame → List Token → Option Datum
  | frames, .scalar datum :: tokens => after? frames datum tokens
  | frames, .openArray :: .closeArray :: tokens => after? frames (.array []) tokens
  | frames, .openArray :: tokens => value? (.items [] :: frames) tokens
  | frames, .openObject :: .closeObject :: tokens => after? frames (.object []) tokens
  | frames, .openObject :: .scalar (.string key) :: .colon :: tokens =>
    value? (.fields [] key :: frames) tokens
  | _, _ => none

/-- The value that tokens say when one was just read, inside the open frames. -/
def after? : List Frame → Datum → List Token → Option Datum
  | [], datum, [] => some datum
  | .items before :: frames, datum, .comma :: tokens =>
    value? (.items (before ++ [datum]) :: frames) tokens
  | .items before :: frames, datum, .closeArray :: tokens =>
    after? frames (.array (before ++ [datum])) tokens
  | .fields before key :: frames, datum, .comma :: .scalar (.string next) :: .colon :: tokens =>
    value? (.fields (before ++ [(key, datum)]) next :: frames) tokens
  | .fields before key :: frames, datum, .closeObject :: tokens =>
    after? frames (.object (before ++ [(key, datum)])) tokens
  | _, _, _ => none

end

/-- **What a text says**, if it is JSON. -/
def read? (text : String) : Option Datum :=
  (tokens? text.toList).bind (value? [])

end LivingGuide.Json
