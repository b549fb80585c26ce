import LivingGuide.Yaml.Token

/-!
# Reading tokens outside of brackets

A reader takes one token at a time.  Before it does, it comes to the token (`Reader.arrive?`): blanks
and comments are skipped, places for keys that are out of reach are dropped, and the blocks further
right are closed.  Which token it takes is then decided by the next character, and there is one lemma
for each kind of token of a manifest (`Reader.next?_word`, `Reader.next?_colon`, `Reader.next?_entry`,
`Reader.next?_quote`, `Reader.next?_end`).

Two of the scalars are read in one go.

* `isVerbatim`: the characters that stand for themselves between double quotes.
  **A quoted scalar of such characters is read as written** (`quotedFrom_verbatim`), blanks included.
* `plainFrom_word`: a plain scalar runs to the end of the word.
-/

namespace LivingGuide.Yaml

/-! ### Positions -/

namespace Position

variable (p : Position) (c : Char) (cs : List Char)

@[simp] theorem line_after : (p.after c).line = p.line := rfl

@[simp] theorem column_after : (p.after c).column = p.column + 1 := rfl

@[simp] theorem afterAll_nil : p.afterAll [] = p := rfl

@[simp] theorem afterAll_cons : p.afterAll (c :: cs) = (p.after c).afterAll cs := rfl

@[simp] theorem line_afterAll : (p.afterAll cs).line = p.line := by
  induction cs generalizing p with
  | nil => rfl
  | cons c cs ih => rw [afterAll_cons, ih, line_after]

end Position

/-! ### Scalars -/

/-- A character that stands for itself between double quotes. -/
def isVerbatim (c : Char) : Bool :=
  isAllowed c && !isBreak c && c != '"' && c != '\\'

theorem quotedFrom_of_space {position : Position} {gap : Gap} {read cs : List Char} {c : Char}
    (hspace : isSpace c = true) :
    quotedFrom true position gap read (c :: cs) =
      quotedFrom true (position.after c) (gap.addSpace c) read cs := by
  have hc : c = ' ' ∨ c = '\t' := by simpa [isSpace] using hspace
  rcases hc with rfl | rfl <;> simp [quotedFrom, isSpace]

theorem quotedFrom_of_verbatim {position : Position} {gap : Gap} {read cs : List Char} {c : Char}
    (hcolumn : 0 < position.column) (hspace : isSpace c = false) (hc : isVerbatim c = true) :
    quotedFrom true position gap read (c :: cs) =
      quotedFrom true (position.after c) .empty (c :: (gap.text.reverse ++ read)) cs := by
  simp only [isVerbatim, Bool.and_eq_true, Bool.not_eq_true', bne_iff_ne, ne_eq] at hc
  obtain ⟨⟨⟨-, hbreak⟩, hquote⟩, hslash⟩ := hc
  have hreturn : c ≠ '\r' := by
    rintro rfl
    cases hbreak
  have hzero : (position.column == 0) = false := by
    rw [beq_eq_false_iff_ne]
    omega
  rw [quotedFrom]
  · simp [hspace, hbreak, hzero, hquote, hslash]
  · simp [hreturn]

/-- **A quoted scalar of such characters is read as written.** -/
theorem quotedFrom_verbatim {position : Position} {gap : Gap} {read cs rest : List Char}
    (hcolumn : 0 < position.column) (hgap : gap.hasBreak = false)
    (hcs : ∀ c ∈ cs, isVerbatim c = true) :
    quotedFrom true position gap read (cs ++ '"' :: rest) =
      some ⟨read.reverse ++ gap.text ++ cs, ⟨position.afterAll (cs ++ ['"']), rest⟩, false⟩ := by
  induction cs generalizing position gap read with
  | nil =>
    have hzero : (position.column == 0) = false := by
      rw [beq_eq_false_iff_ne]
      omega
    simp [quotedFrom, isSpace, isBreak, hzero]
  | cons c cs ih =>
    obtain ⟨hc, hcs⟩ := List.forall_mem_cons.mp hcs
    rw [List.cons_append]
    by_cases hspace : isSpace c = true
    · -- blanks are kept back, and come before the next character that is none
      have hgap' : (gap.addSpace c).hasBreak = false ∧ (gap.addSpace c).text = gap.text ++ [c] := by
        cases gap with
        | empty => exact ⟨rfl, rfl⟩
        | spaces blanks => exact ⟨rfl, rfl⟩
        | breaks first later => cases hgap
      rw [quotedFrom_of_space hspace, ih (by simp) hgap'.1 hcs, hgap'.2]
      simp
    · rw [quotedFrom_of_verbatim hcolumn (Bool.not_eq_true _ ▸ hspace) hc, ih (by simp) rfl hcs]
      simp [Gap.text]

/-- A character inside a plain word. -/
def isInner (c : Char) : Bool :=
  !isSpace c && !isBreak c && c != ':'

/-- **A plain scalar runs to the end of the word.** -/
theorem plainFrom_word {indent : Nat} {position : Position} {read word rest : List Char}
    (hword : word.all isInner = true) :
    plainFrom false indent position .empty read (word ++ rest) =
      plainFrom false indent (position.afterAll word) .empty (word.reverse ++ read) rest := by
  induction word generalizing position read with
  | nil => rfl
  | cons c word ih =>
    simp only [List.all_cons, isInner, Bool.and_eq_true, Bool.not_eq_true', bne_iff_ne, ne_eq] at hword
    obtain ⟨⟨⟨hspace, hbreak⟩, hcolon⟩, hword⟩ := hword
    have hreturn : c ≠ '\r' := by
      rintro rfl
      cases hbreak
    rw [List.cons_append, plainFrom]
    · simp [hspace, hbreak, hcolon, ih hword, Gap.text]
    · simp [hreturn]

/-! ### Taking a token -/

namespace Reader

variable {r ready : Reader} {c : Char} {cs : List Char} {fuel : Nat}

/-- The reader at its next token. -/
def arrive? (r : Reader) : Option Reader := do
  let (cursor, keyAllowed) := skipToToken r.inFlow r.keyAllowed r.cursor.position r.cursor.rest
  let r ← { r with cursor, keyAllowed }.dropStale?
  return r.closeBlocks r.column

theorem exists_dropStale? (h : r.arrive? = some ready) :
    ∃ fresh, dropStale?
      { r with
        cursor := (skipToToken r.inFlow r.keyAllowed r.cursor.position r.cursor.rest).1
        keyAllowed := (skipToToken r.inFlow r.keyAllowed r.cursor.position r.cursor.rest).2 } =
          some fresh ∧ fresh.closeBlocks fresh.column = ready := by
  simpa [arrive?, Option.bind_eq_some_iff] using h

theorem next?_word (h : r.arrive? = some ready) (hflow : ready.inFlow = false)
    (hrest : ready.cursor.rest = c :: cs) (hmark : atDocumentMark (c :: cs) = false)
    (hspace : isSpace c = false) (hbreak : isBreak c = false) (hplain : isIndicator c = false) :
    r.next? = ready.readScalar? true (plain false (ready.indent + 1).toNat) := by
  obtain ⟨fresh, hfresh, rfl⟩ := exists_dropStale? h
  simp [isIndicator] at hplain
  simp [next?, hfresh, hflow, hrest, hmark, hspace, hbreak, hplain, startsPlain, isIndicator]

theorem next?_quote (h : r.arrive? = some ready) (hrest : ready.cursor.rest = '"' :: cs) :
    r.next? = ready.readScalar? false (quoted true) := by
  obtain ⟨fresh, hfresh, rfl⟩ := exists_dropStale? h
  simp [next?, hfresh, hrest, atDocumentMark]

theorem next?_colon (h : r.arrive? = some ready) (hrest : ready.cursor.rest = ':' :: cs)
    (hgap : atGap cs = true) : r.next? = ready.readValue? := by
  obtain ⟨fresh, hfresh, rfl⟩ := exists_dropStale? h
  simp [next?, hfresh, hrest, atDocumentMark, hgap]

theorem next?_entry (h : r.arrive? = some ready) (hrest : ready.cursor.rest = '-' :: cs)
    (hgap : atGap cs = true) : r.next? = ready.readEntry? := by
  obtain ⟨fresh, hfresh, rfl⟩ := exists_dropStale? h
  have hmark : atDocumentMark ('-' :: cs) = false := by
    cases cs with
    | nil => rfl
    | cons d cs =>
      have hd : d ≠ '-' := by
        rintro rfl
        cases hgap
      simp [atDocumentMark, hd]
  simp [next?, hfresh, hrest, hmark, hgap]

theorem next?_end (h : r.arrive? = some ready) (hrest : ready.cursor.rest = []) :
    r.next? = ready.readEnd? := by
  obtain ⟨fresh, hfresh, rfl⟩ := exists_dropStale? h
  simp [next?, hfresh, hrest]

/-! ### Skipping -/

section

variable {keyAllowed : Bool} {position : Position} {comment rest : List Char}

theorem skipToToken_break :
    skipToToken false keyAllowed position ('\n' :: rest) =
      skipToToken false true position.newLine rest := by
  have hbreak : isBreak '\n' = true := rfl
  rw [skipToToken]
  · simp [hbreak]
  · simp

theorem skipToToken_space :
    skipToToken false keyAllowed position (' ' :: rest) =
      skipToToken false keyAllowed (position.after ' ') rest := by
  rw [skipToToken]
  · simp
  · simp

theorem skipToToken_comment (h : comment.all (!isBreak ·) = true) :
    skipToToken false keyAllowed position ('#' :: (comment ++ '\n' :: rest)) =
      skipToToken false true position.newLine rest := by
  have htake : (comment ++ '\n' :: rest).takeWhile (!isBreak ·) = comment := by
    rw [List.takeWhile_append_of_pos (List.all_eq_true.mp h), List.takeWhile_cons_of_neg (by decide),
      List.append_nil]
  have hdrop : (comment ++ '\n' :: rest).dropWhile (!isBreak ·) = '\n' :: rest := by
    rw [List.dropWhile_append_of_pos (List.all_eq_true.mp h), List.dropWhile_cons_of_neg (by decide)]
  have hskip : skipToToken false keyAllowed position ('#' :: (comment ++ '\n' :: rest)) =
      skipToToken false keyAllowed ((position.after '#').afterAll comment) ('\n' :: rest) := by
    have hsign : isBreak '#' = false := rfl
    rw [skipToToken]
    · simp [hsign, Cursor.dropWhile, htake, hdrop]
    · simp
  rw [hskip, skipToToken_break]
  simp [Position.newLine]

theorem skipToToken_stop (hspace : isSpace c = false) (hbreak : isBreak c = false) (hsign : c ≠ '#')
    (hmark : c.toNat ≠ 0xfeff) :
    skipToToken false keyAllowed position (c :: cs) = (⟨position, c :: cs⟩, keyAllowed) := by
  have hblank : c ≠ ' ' ∧ c ≠ '\t' := by simpa [isSpace] using hspace
  have hreturn : c ≠ '\r' := by
    rintro rfl
    cases hbreak
  rw [skipToToken]
  · simp [hblank, hbreak, hsign, hmark]
  · simp [hreturn]

end

/-! ### Readers in blocks -/

section

variable {position position' : Position} {rest rest' : List Char} {tokens : List Token}
  {indent indent' : Int} {outer outer' : List Int} {place place' : Option KeyPlace}
  {keyAllowed keyAllowed' : Bool} {closed : Nat}

/-- A reader outside of brackets. -/
def inBlock (position : Position) (rest : List Char) (tokens : List Token) (indent : Int)
    (outer : List Int) (place : Option KeyPlace) (keyAllowed : Bool) : Reader :=
  { cursor := ⟨position, rest⟩, tokens, count := tokens.length, indent, outer, place, keyAllowed }

theorem arrive?_inBlock
    (hskip : skipToToken false keyAllowed position rest = (⟨position', rest'⟩, keyAllowed'))
    (hplace : keepPlace? position' place = some place')
    (hclose : closeRight position'.column indent outer = (indent', outer', closed)) :
    (inBlock position rest tokens indent outer place keyAllowed).arrive? =
      some (inBlock position' rest' (List.replicate closed .blockClose ++ tokens) indent' outer' place'
        keyAllowed') := by
  simp [arrive?, inBlock, inFlow, hskip, dropStale?, hplace, closeBlocks, column, hclose,
    Nat.add_comm]

theorem closeRight_of_le {column : Int} (h : indent ≤ column) :
    closeRight column indent outer = (indent, outer, 0) := by
  cases outer with
  | nil => rfl
  | cons around outer => rw [closeRight, if_neg (Int.not_lt.mpr h)]

/-- No key is required at the place, and the place is not on a line ahead. -/
def Passed (place : Option KeyPlace) (line : Nat) : Prop :=
  ∀ p ∈ place, p.required = false ∧ p.position.line ≤ line

/-- On a later line the place is given up. -/
theorem keepPlace?_of_passed {line : Nat} (h : Passed place line) (hline : line < position.line) :
    keepPlace? position place = some none := by
  cases place with
  | none => rfl
  | some p =>
    obtain ⟨hrequired, hle⟩ := h p rfl
    have hstale : p.position.line < position.line := Nat.lt_of_le_of_lt hle hline
    simp [keepPlace?, KeyPlace.isStale, hstale, hrequired]

theorem readScalar?_key {word : List Char} {margin : Nat} (hword : word.all isInner = true)
    (hgap : atGap rest = true) :
    (inBlock position (word ++ ':' :: rest) tokens indent outer none true).readScalar? true
        (plain false margin) =
      some (inBlock (position.afterAll word) (':' :: rest) (.scalar true (String.ofList word) :: tokens)
        indent outer (some ⟨tokens.length, position, indent == (position.column : Int)⟩) false) := by
  have hplain : plain false margin ⟨position, word ++ ':' :: rest⟩ =
      some ⟨word, ⟨position.afterAll word, ':' :: rest⟩, false⟩ := by
    rw [plain, plainFrom_word hword]
    simp [plainFrom, isSpace, isBreak, hgap, Gap.hasBreak]
  simp [readScalar?, inBlock, savePlace?, dropPlace?, inFlow, column, hplain, emit]

theorem readScalar?_last {word : List Char} {margin : Nat} (hword : word.all isInner = true) :
    (inBlock position (word ++ ['\n']) tokens indent outer none false).readScalar? true
        (plain false margin) =
      some (inBlock position.newLine [] (.scalar true (String.ofList word) :: tokens) indent outer none
        true) := by
  have hplain : plain false margin ⟨position, word ++ ['\n']⟩ =
      some ⟨word, ⟨position.newLine, []⟩, true⟩ := by
    rw [plain, plainFrom_word hword]
    simp [plainFrom, isSpace, isBreak, Gap.addBreak, Gap.hasBreak, Position.newLine]
  simp [readScalar?, inBlock, savePlace?, hplain, emit]

end

theorem readAll?_next (h : r.next? = some ready) (hended : ready.ended = false) :
    readAll? (fuel + 1) r = readAll? fuel ready := by
  simp [readAll?, h, hended]

end Reader

end LivingGuide.Yaml
