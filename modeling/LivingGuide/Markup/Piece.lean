import LivingGuide.Text.Basic
import LivingGuide.Text.Word

/-!
# Pieces of markup

A piece of markup is plain text or a token with a role: a comment, punctuation, the name of a tag,
the name of an attribute, its operator or its value.  Cutting markup into pieces neither loses nor
adds a character.

A comment runs from `<!--` to the next `-->`.  A tag is `<`, perhaps `/`, a name, and everything up to
the first `>` outside quotes; without such a `>` there is no tag.  Of what lies between the name and
the `>`, the blanks and the slash at its end belong to the tag's end, and the rest is searched for
attributes.  Whatever fits nothing is text.

* `Piece`: text or a token
* `tagBody?`: the inside of a tag
* `attributePieces`: the pieces between the name and the end of a tag
* `pieces`: the pieces of markup
-/

namespace LivingGuide.Markup

/-- The role of a token. -/
inductive Role where
  | comment
  | tagName
  | attributeName
  | operator
  | value
  | punctuation
deriving DecidableEq, Repr

/-- Text, or a token with its role. -/
inductive Piece where
  | text (cs : List Char)
  | token (role : Role) (cs : List Char)
deriving DecidableEq, Repr

/-- The characters of a piece. -/
def Piece.chars : Piece → List Char
  | .text cs => cs
  | .token _ cs => cs

/-- A character of text before pieces. Text that follows takes it in. -/
def consText (c : Char) : List Piece → List Piece
  | .text cs :: rest => .text (c :: cs) :: rest
  | rest => .text [c] :: rest

/-- Text before pieces, with no piece for the empty text. -/
def textThen (cs : List Char) (rest : List Piece) : List Piece :=
  if cs.isEmpty then rest else .text cs :: rest

/-! ### Attributes -/

/-- The quotes that may enclose a value. -/
def isQuote (c : Char) : Bool :=
  c == '"' || c == '\''

/-- The characters of the name of an attribute. -/
def isAttributeChar (c : Char) : Bool :=
  !(Text.isBlank c || c == '=' || c == '/' || c == '>' || isQuote c)

/-- The characters of a value without quotes. -/
def isBareValueChar (c : Char) : Bool :=
  !(Text.isBlank c || c == '>' || isQuote c)

/-- A value and what follows it: a text in quotes, with its quotes, or a run without any. A quote that
is never closed starts no value. -/
def value? : List Char → Option (List Char × List Char)
  | [] => none
  | c :: cs =>
    if isQuote c then
      match cs.dropWhile (· != c) with
      | [] => none
      | q :: rest => some (c :: cs.takeWhile (· != c) ++ [q], rest)
    else if isBareValueChar c then
      some (c :: cs.takeWhile isBareValueChar, cs.dropWhile isBareValueChar)
    else none

/-- The operator and the value after the name of an attribute, and what follows them. Blanks around
the equals sign belong to the operator. -/
def assignment? (cs : List Char) : Option (List Char × List Char × List Char) :=
  match cs.dropWhile Text.isBlank with
  | '=' :: rest =>
    (value? (rest.dropWhile Text.isBlank)).map fun found =>
      (cs.takeWhile Text.isBlank ++ '=' :: rest.takeWhile Text.isBlank, found.1, found.2)
  | _ => none

theorem value?_length_le {cs value rest : List Char} (h : value? cs = some (value, rest)) :
    rest.length ≤ cs.length := by
  cases cs with
  | nil => simp [value?] at h
  | cons c cs =>
    rw [value?] at h
    split at h
    · split at h
      · simp at h
      · next q tail hq =>
        obtain ⟨-, rfl⟩ := Prod.mk.inj (Option.some.inj h)
        have := Text.length_dropWhile_le (· != c) cs
        rw [hq] at this
        simp only [List.length_cons] at this ⊢
        omega
    · split at h
      · obtain ⟨-, rfl⟩ := Prod.mk.inj (Option.some.inj h)
        exact Nat.le_succ_of_le (Text.length_dropWhile_le _ cs)
      · simp at h

theorem assignment?_length_le {cs op value rest : List Char}
    (h : assignment? cs = some (op, value, rest)) : rest.length ≤ cs.length := by
  rw [assignment?] at h
  split at h
  · next tail htail =>
    obtain ⟨⟨v, r⟩, hv, he⟩ := Option.map_eq_some_iff.1 h
    obtain ⟨-, he⟩ := Prod.mk.inj he
    obtain ⟨-, rfl⟩ := Prod.mk.inj he
    have h1 := value?_length_le hv
    have h2 := Text.length_dropWhile_le Text.isBlank tail
    have h3 := Text.length_dropWhile_le Text.isBlank cs
    rw [htail] at h3
    simp only [List.length_cons] at h3 ⊢
    omega
  · simp at h

/-- **The pieces between the name and the end of a tag**: from left to right every attribute name, with
its operator and value where it has one, and text for the rest. -/
def attributePieces : List Char → List Piece
  | [] => []
  | c :: cs =>
    if isAttributeChar c then
      let name := c :: cs.takeWhile isAttributeChar
      match _h : assignment? (cs.dropWhile isAttributeChar) with
      | some (op, value, rest) =>
        .token .attributeName name :: .token .operator op :: .token .value value
          :: attributePieces rest
      | none => .token .attributeName name :: attributePieces (cs.dropWhile isAttributeChar)
    else consText c (attributePieces cs)
termination_by cs => cs.length
decreasing_by
  · exact Nat.lt_succ_of_le
      (Nat.le_trans (assignment?_length_le _h) (Text.length_dropWhile_le _ cs))
  · exact Nat.lt_succ_of_le (Text.length_dropWhile_le _ cs)
  · simp

/-! ### Tags and comments -/

/-- The characters of the name of a tag after its first letter. -/
def isNameChar (c : Char) : Bool :=
  Text.isWord c || c == ':' || c == '.' || c == '-'

/-- **The inside of a tag**: the text before the first `>` outside quotes, and what follows the `>`.
The state is the quote that is open. -/
def tagBody? : Option Char → List Char → Option (List Char × List Char)
  | _, [] => none
  | none, c :: cs =>
    if c == '>' then some ([], cs)
    else (tagBody? (if isQuote c then some c else none) cs).map fun found =>
      (c :: found.1, found.2)
  | some q, c :: cs =>
    (tagBody? (if c == q then none else some q) cs).map fun found => (c :: found.1, found.2)

/-- The inside of a tag without the blanks and the slash at its end, those blanks, and that slash. -/
def cutTagEnd (body : List Char) : List Char × List Char × List Char :=
  let (slash, rest) :=
    match body.reverse with
    | '/' :: rest => (['/'], rest)
    | rest => ([], rest)
  ((rest.dropWhile Text.isBlank).reverse, (rest.takeWhile Text.isBlank).reverse, slash)

/-- The pieces of a tag that opens with the given characters, and what follows it. -/
def tag? (opening : List Char) : List Char → Option (List Piece × List Char)
  | [] => none
  | c :: cs =>
    if c.isAlpha then
      (tagBody? none (cs.dropWhile isNameChar)).map fun found =>
        let (attributes, blanks, slash) := cutTagEnd found.1
        (.token .punctuation opening :: .token .tagName (c :: cs.takeWhile isNameChar)
          :: (attributePieces attributes
            ++ textThen blanks [.token .punctuation (slash ++ ['>'])]), found.2)
    else none

/-- The pieces of the comment or tag that starts with a `<` before the given text, and what follows
it. -/
def construct? : List Char → Option (List Piece × List Char)
  | '!' :: '-' :: '-' :: cs =>
    (Text.splitAtFirst "-->".toList cs).map fun found =>
      ([.token .comment ("<!--".toList ++ found.1 ++ "-->".toList)], found.2)
  | '/' :: cs => tag? ['<', '/'] cs
  | cs => tag? ['<'] cs

theorem tagBody?_length_le {quote : Option Char} {cs body rest : List Char}
    (h : tagBody? quote cs = some (body, rest)) : rest.length ≤ cs.length := by
  induction cs generalizing quote body with
  | nil => simp [tagBody?] at h
  | cons c cs ih =>
    cases quote with
    | none =>
      rw [tagBody?] at h
      split at h
      · obtain ⟨-, rfl⟩ := Prod.mk.inj (Option.some.inj h)
        simp
      · obtain ⟨⟨b, r⟩, hb, he⟩ := Option.map_eq_some_iff.1 h
        obtain ⟨-, rfl⟩ := Prod.mk.inj he
        exact Nat.le_succ_of_le (ih hb)
    | some q =>
      rw [tagBody?] at h
      obtain ⟨⟨b, r⟩, hb, he⟩ := Option.map_eq_some_iff.1 h
      obtain ⟨-, rfl⟩ := Prod.mk.inj he
      exact Nat.le_succ_of_le (ih hb)

theorem splitAtFirst_length_le {mark cs before rest : List Char}
    (h : Text.splitAtFirst mark cs = some (before, rest)) : rest.length ≤ cs.length := by
  induction cs generalizing before with
  | nil =>
    rw [Text.splitAtFirst] at h
    split at h
    · obtain ⟨-, rfl⟩ := Prod.mk.inj (Option.some.inj h)
      simp
    · simp at h
  | cons c cs ih =>
    rw [Text.splitAtFirst] at h
    split at h
    · obtain ⟨-, rfl⟩ := Prod.mk.inj (Option.some.inj h)
      simp
    · obtain ⟨⟨b, r⟩, hb, he⟩ := Option.map_eq_some_iff.1 h
      obtain ⟨-, rfl⟩ := Prod.mk.inj he
      exact Nat.le_succ_of_le (ih hb)

theorem tag?_length_le {opening cs rest : List Char} {found : List Piece}
    (h : tag? opening cs = some (found, rest)) : rest.length ≤ cs.length := by
  cases cs with
  | nil => simp [tag?] at h
  | cons c cs =>
    rw [tag?] at h
    split at h
    · obtain ⟨⟨b, r⟩, hb, he⟩ := Option.map_eq_some_iff.1 h
      obtain ⟨-, rfl⟩ := Prod.mk.inj he
      exact Nat.le_succ_of_le
        (Nat.le_trans (tagBody?_length_le hb) (Text.length_dropWhile_le _ cs))
    · simp at h

theorem construct?_length_le {cs rest : List Char} {found : List Piece}
    (h : construct? cs = some (found, rest)) : rest.length ≤ cs.length := by
  rw [construct?.eq_def] at h
  split at h
  · next tail =>
    obtain ⟨⟨b, r⟩, hb, he⟩ := Option.map_eq_some_iff.1 h
    obtain ⟨-, rfl⟩ := Prod.mk.inj he
    have := splitAtFirst_length_le hb
    simp only [List.length_cons]
    omega
  · exact Nat.le_succ_of_le (tag?_length_le h)
  · exact tag?_length_le h

/-- **The pieces of markup.** From left to right, a comment or a tag where one starts, and text for
the rest. -/
def pieces : List Char → List Piece
  | [] => []
  | c :: cs =>
    if c == '<' then
      match _h : construct? cs with
      | some (found, rest) => found ++ pieces rest
      | none => consText c (pieces cs)
    else consText c (pieces cs)
termination_by cs => cs.length
decreasing_by
  · exact Nat.lt_succ_of_le (construct?_length_le _h)
  · simp
  · simp

end LivingGuide.Markup
