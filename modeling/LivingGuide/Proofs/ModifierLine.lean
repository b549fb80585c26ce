import LivingGuide.Proofs.Modifier
import LivingGuide.Proofs.Regex

/-!
# Modifier lines and their expression

A modifier line is also given by an expression: a selector, which may start with a dot or a colon,
blanks, a hyphen, blanks, and a description up to the end of the line (`lineExpression`).  Each of
its repetitions can stop early, so the expression can be tried in many ways.  But a selector is a
word and the blanks behind it end at the hyphen, so there is at most one way to take the line apart,

    line = selector ++ gap ++ "-" ++ gap' ++ description,

and all matches agree (`Decomposed.unique`, `whole?_lineExpression`).  Reading through the
expression, where selector and description are trimmed once more and a line with an empty one is
refused (`readThroughExpression`), is therefore the same as `Modifier.parse`, and nothing is ever
refused for being empty.

* `Decomposed`: a line taken apart.
* `parse_eq_readThroughExpression`: both readers agree on every line.
* `parse_grammar`: **which lines declare a modifier, and how others are reported.**
-/

namespace LivingGuide.Modifier

open Text

/-! ### Lines taken apart -/

/-- **A line taken apart** into a selector, blanks, a hyphen, blanks and a description. -/
structure Decomposed (cs selector gap gap' description : List Char) : Prop where
  joined : cs = selector ++ (gap ++ '-' :: (gap' ++ description))
  isWord : IsWord selector
  before : IsGap gap
  behind : IsGap gap'
  nonempty : description ≠ []
  start : NoLeadingBlank description
  oneLine : '\n' ∉ description

variable {cs selector gap gap' description : List Char}

theorem Decomposed.declares (h : Decomposed cs selector gap gap' description) :
    Declares cs selector description :=
  ⟨gap, gap', h.joined, h.isWord, h.before, h.behind, h.nonempty, h.start, h.oneLine⟩

theorem declares_iff_decomposed :
    Declares cs selector description ↔ ∃ gap gap', Decomposed cs selector gap gap' description := by
  constructor
  · rintro ⟨gap, gap', hcs, hsel, hgap, hgap', hne, hstart, hline⟩
    exact ⟨gap, gap', hcs, hsel, hgap, hgap', hne, hstart, hline⟩
  · rintro ⟨gap, gap', h⟩
    exact h.declares

/-- **There is at most one way to take a line apart.** -/
theorem Decomposed.unique {selector₂ gap₂ gap₂' description₂ : List Char}
    (h : Decomposed cs selector gap gap' description)
    (h₂ : Decomposed cs selector₂ gap₂ gap₂' description₂) :
    selector = selector₂ ∧ gap = gap₂ ∧ gap' = gap₂' ∧ description = description₂ := by
  have hcut := (cut?_of_declares h.declares).symm.trans (cut?_of_declares h₂.declares)
  obtain ⟨rfl, rfl⟩ := Prod.mk.inj (Option.some.inj hcut)
  -- The same selector and description stand around the blanks, and the first ones end at a hyphen.
  have hmiddle := List.append_cancel_left (h.joined.symm.trans h₂.joined)
  have hstop : ∀ rest : List Char, ∀ c ∈ ('-' :: rest).head?, isBlank c = false := by
    intro rest c hc
    obtain rfl := Option.some.inj hc
    rfl
  have hgap : gap = gap₂ := by
    rw [← (span_of_stop h.before.2 (hstop (gap' ++ description))).1, hmiddle]
    exact (span_of_stop h₂.before.2 (hstop (gap₂' ++ description))).1
  subst hgap
  have hbehind := (List.cons.inj (List.append_cancel_left hmiddle)).2
  exact ⟨rfl, rfl, List.append_cancel_right hbehind, rfl⟩

theorem Decomposed.head?_words (h : Decomposed cs selector gap gap' description) :
    (words cs).head? = some selector := by
  have hblank : ∀ c ∈ (gap ++ '-' :: (gap' ++ description)).head?, isBlank c = true := by
    intro c hc
    rw [List.head?_append_of_ne_nil gap h.before.1] at hc
    exact h.before.2 c (List.mem_of_mem_head? hc)
  rw [h.joined, words_append h.isWord hblank, List.head?_cons]

/-! ### The expression -/

/-- A selector: one or more characters that are not blank, perhaps a dot or a colon first. -/
def selectorPart : Regex :=
  .seq (.optional (.char fun c => c == '.' || c == ':')) (.atLeastOnce (.char (!isBlank ·)))

/-- A description: a character that is not blank, and all that follows on the line. -/
def descriptionPart : Regex :=
  .seq (.char (!isBlank ·)) (.many (.char (· != '\n')))

/-- **The expression of modifier lines**, with selector and description as its groups. -/
def lineExpression : Regex :=
  .seq (.group 1 selectorPart) (.seq (.atLeastOnce (.char isBlank)) (.seq (.char (· == '-'))
    (.seq (.atLeastOnce (.char isBlank)) (.group 2 descriptionPart))))

variable {run : List Char} {groups : Groups}

/-- Whether or not a dot or a colon is taken first, a selector is a word. -/
theorem denotes_selectorPart : selectorPart.Denotes run groups ↔ IsWord run ∧ groups = [] := by
  have hword : ∀ w : List Char, (w ≠ [] ∧ ∀ c ∈ w, (!isBlank c) = true) ↔ IsWord w := by
    intro w
    simp only [IsWord, Bool.not_eq_true']
  constructor
  · rintro ⟨x, gx, y, gy, hfirst, hrest, rfl, rfl⟩
    obtain ⟨hne, hy, rfl⟩ := Regex.denotes_atLeastOnce_char.mp hrest
    have hisWord : IsWord y := (hword y).mp ⟨hne, hy⟩
    rcases hfirst with ⟨⟨c, hc, rfl⟩, rfl⟩ | ⟨rfl, rfl⟩
    · have hblank : isBlank c = false := by
        rw [Bool.or_eq_true, beq_iff_eq, beq_iff_eq] at hc
        rcases hc with rfl | rfl
        · rfl
        · rfl
      exact ⟨⟨List.cons_ne_nil c y, List.forall_mem_cons.mpr ⟨hblank, hisWord.2⟩⟩, rfl⟩
    · exact ⟨hisWord, rfl⟩
  · rintro ⟨hrun, rfl⟩
    obtain ⟨hne, hall⟩ := (hword run).mpr hrun
    exact ⟨[], [], run, [], Or.inr ⟨rfl, rfl⟩,
      Regex.denotes_atLeastOnce_char.mpr ⟨hne, hall, rfl⟩, rfl, rfl⟩

theorem denotes_descriptionPart :
    descriptionPart.Denotes run groups ↔
      (run ≠ [] ∧ NoLeadingBlank run ∧ '\n' ∉ run) ∧ groups = [] := by
  constructor
  · rintro ⟨_, _, y, gy, ⟨⟨c, hc, rfl⟩, rfl⟩, hrest, rfl, rfl⟩
    obtain ⟨hy, rfl⟩ := Regex.denotes_many_char.mp hrest
    rw [Bool.not_eq_true'] at hc
    refine ⟨⟨List.cons_ne_nil c y, ?_, ?_⟩, rfl⟩
    · intro d hd
      rwa [← Option.some.inj hd]
    · intro hmem
      rcases List.mem_cons.mp hmem with rfl | hmem
      · exact absurd hc (by decide)
      · exact absurd (hy '\n' hmem) (by decide)
  · rintro ⟨⟨hne, hstart, hline⟩, rfl⟩
    obtain ⟨c, run, rfl⟩ := List.exists_cons_of_ne_nil hne
    refine ⟨[c], [], run, [], ⟨⟨c, ?_, rfl⟩, rfl⟩, Regex.denotes_many_char.mpr ⟨?_, rfl⟩, rfl, rfl⟩
    · show (!isBlank c) = true
      rw [hstart c rfl]
      rfl
    · intro d hd
      rw [bne_iff_ne]
      rintro rfl
      exact hline (List.mem_cons_of_mem c hd)

/-- **The expression describes the lines that can be taken apart**, and keeps their selector and
description. -/
theorem denotes_lineExpression :
    lineExpression.Denotes cs groups ↔
      ∃ selector gap gap' description, Decomposed cs selector gap gap' description ∧
        groups = [(1, selector), (2, description)] := by
  constructor
  · rintro ⟨selector, _, _, _, ⟨_, hselector, rfl⟩, ⟨gap, _, _, _, hgap, ⟨_, _, _, _, hhyphen,
      ⟨gap', _, description, _, hgap', ⟨_, hdescription, rfl⟩, rfl, rfl⟩, rfl, rfl⟩, rfl, rfl⟩,
      rfl, rfl⟩
    obtain ⟨hword, rfl⟩ := denotes_selectorPart.mp hselector
    obtain ⟨hne, hblank, rfl⟩ := Regex.denotes_atLeastOnce_char.mp hgap
    obtain ⟨⟨c, hc, rfl⟩, rfl⟩ := hhyphen
    obtain ⟨hne', hblank', rfl⟩ := Regex.denotes_atLeastOnce_char.mp hgap'
    obtain ⟨⟨hdesc, hstart, hline⟩, rfl⟩ := denotes_descriptionPart.mp hdescription
    obtain rfl := beq_iff_eq.mp hc
    exact ⟨selector, gap, gap', description,
      ⟨rfl, hword, ⟨hne, hblank⟩, ⟨hne', hblank'⟩, hdesc, hstart, hline⟩, rfl⟩
  · rintro ⟨selector, gap, gap', description, h, rfl⟩
    have hgaps : ∀ {g : List Char}, IsGap g →
        (Regex.atLeastOnce (.char isBlank)).Denotes g [] := fun hg =>
      Regex.denotes_atLeastOnce_char.mpr ⟨hg.1, hg.2, rfl⟩
    have hkept : (Regex.group 2 descriptionPart).Denotes description [(2, description)] :=
      ⟨[], denotes_descriptionPart.mpr ⟨⟨h.nonempty, h.start, h.oneLine⟩, rfl⟩, rfl⟩
    refine ⟨selector, [(1, selector)], gap ++ '-' :: (gap' ++ description), [(2, description)],
      ⟨[], denotes_selectorPart.mpr ⟨h.isWord, rfl⟩, rfl⟩, ?_, h.joined, rfl⟩
    refine ⟨gap, [], '-' :: (gap' ++ description), [(2, description)], hgaps h.before, ?_, rfl, rfl⟩
    refine ⟨['-'], [], gap' ++ description, [(2, description)], ⟨⟨'-', rfl, rfl⟩, rfl⟩, ?_, rfl,
      rfl⟩
    exact ⟨gap', [], description, [(2, description)], hgaps h.behind, hkept, rfl, rfl⟩

/-- **The match of the expression is the one way to take the line apart.** -/
theorem whole?_lineExpression {found : Match} :
    lineExpression.whole? cs = some found ↔
      ∃ selector gap gap' description, Decomposed cs selector gap gap' description ∧
        found = ⟨cs, [(1, selector), (2, description)], []⟩ := by
  rw [Regex.whole?_eq_some_iff]
  · constructor
    · rintro ⟨groups, hdenotes, rfl⟩
      obtain ⟨selector, gap, gap', description, h, rfl⟩ := denotes_lineExpression.mp hdenotes
      exact ⟨selector, gap, gap', description, h, rfl⟩
    · rintro ⟨selector, gap, gap', description, h, rfl⟩
      exact ⟨_, denotes_lineExpression.mpr ⟨selector, gap, gap', description, h, rfl⟩, rfl⟩
  · intro g g' hg hg'
    obtain ⟨selector, gap, gap', description, h, rfl⟩ := denotes_lineExpression.mp hg
    obtain ⟨selector₂, gap₂, gap₂', description₂, h₂, rfl⟩ := denotes_lineExpression.mp hg'
    obtain ⟨rfl, -, -, rfl⟩ := h.unique h₂
    rfl

/-! ### Reading through the expression -/

/-- **Reading a line through its expression.**  Selector and description are trimmed once more, and
a line where one of them is empty then is refused. -/
def readThroughExpression (line : String) : Except Error Modifier :=
  match lineExpression.whole? (trim line.toList) with
  | none => .error (.modifier line)
  | some found =>
    let selector := trim (found.group 1)
    let description := trim (found.group 2)
    if selector.isEmpty || description.isEmpty then .error (.modifier line)
    else .ok ⟨String.ofList selector, String.ofList description⟩

variable {line : String}

theorem Decomposed.trim_eq (h : Decomposed (trim line.toList) selector gap gap' description) :
    trim selector = selector ∧ trim description = description := by
  have hparse : parse line = .ok ⟨String.ofList selector, String.ofList description⟩ := by
    rw [parse_eq_ok_iff, String.toList_ofList, String.toList_ofList]
    exact h.declares
  have hend : NoTrailingBlank description := by
    rw [← String.toList_ofList (l := description)]
    exact noTrailingBlank_description hparse
  have hselector : NoTrailingBlank selector := by
    intro c hc
    exact h.isWord.2 c (List.mem_of_getLast? hc)
  have hhead : NoLeadingBlank selector := by
    intro c hc
    exact h.isWord.2 c (List.mem_of_mem_head? hc)
  exact ⟨trim_of_noBlank hhead hselector, trim_of_noBlank h.start hend⟩

/-- **Nothing is refused for being empty.** -/
theorem trim_groups_ne_nil {found : Match}
    (h : lineExpression.whole? (trim line.toList) = some found) :
    trim (found.group 1) ≠ [] ∧ trim (found.group 2) ≠ [] := by
  obtain ⟨selector, gap, gap', description, hline, rfl⟩ := whole?_lineExpression.mp h
  obtain ⟨hselector, hdescription⟩ := hline.trim_eq
  show trim selector ≠ [] ∧ trim description ≠ []
  rw [hselector, hdescription]
  exact ⟨hline.isWord.1, hline.nonempty⟩

theorem readThroughExpression_of_decomposed
    (h : Decomposed (trim line.toList) selector gap gap' description) :
    readThroughExpression line = .ok ⟨String.ofList selector, String.ofList description⟩ := by
  have hwhole := whole?_lineExpression.mpr ⟨selector, gap, gap', description, h, rfl⟩
  have hread : readThroughExpression line =
      if (trim selector).isEmpty || (trim description).isEmpty then .error (.modifier line)
      else .ok ⟨String.ofList (trim selector), String.ofList (trim description)⟩ := by
    rw [readThroughExpression, hwhole]
    rfl
  obtain ⟨hselector, hdescription⟩ := h.trim_eq
  rw [hread, hselector, hdescription, if_neg]
  rw [Bool.or_eq_true, not_or, List.isEmpty_iff, List.isEmpty_iff]
  exact ⟨h.isWord.1, h.nonempty⟩

/-- **Both readers agree on every line.** -/
theorem parse_eq_readThroughExpression (line : String) :
    parse line = readThroughExpression line := by
  rw [parse]
  cases hcut : cut? (trim line.toList) with
  | some parts =>
    obtain ⟨gap, gap', h⟩ := declares_iff_decomposed.mp (declares_of_cut? hcut)
    exact (readThroughExpression_of_decomposed h).symm
  | none =>
    rw [readThroughExpression]
    cases hwhole : lineExpression.whole? (trim line.toList) with
    | none => rfl
    | some found =>
      obtain ⟨selector, gap, gap', description, h, -⟩ := whole?_lineExpression.mp hwhole
      rw [cut?_of_declares h.declares] at hcut
      cases hcut

theorem parse_eq_error_iff {e : Error} :
    parse line = .error e ↔
      (∀ selector gap gap' description,
        ¬ Decomposed (trim line.toList) selector gap gap' description) ∧ e = .modifier line := by
  rw [parse]
  cases hcut : cut? (trim line.toList) with
  | some parts =>
    obtain ⟨gap, gap', h⟩ := declares_iff_decomposed.mp (declares_of_cut? hcut)
    constructor
    · intro herror
      cases herror
    · intro hnot
      exact absurd h (hnot.1 _ _ _ _)
  | none =>
    constructor
    · intro herror
      refine ⟨?_, (Except.error.inj herror).symm⟩
      intro selector gap gap' description h
      rw [cut?_of_declares h.declares] at hcut
      cases hcut
    · rintro ⟨-, rfl⟩
      rfl

/-- **The grammar of modifier lines.**  A line declares a modifier exactly when, blanks around it
ignored, it is a word, blanks, a hyphen, blanks and a description that starts with no blank and has
no line feed; there is only one way to see it so, with the first word as the selector.  Any other
line is reported as it was given.  The reader is the one through the expression, which never finds
an empty selector or description, and the text of a modifier that was read is read as that
modifier. -/
theorem parse_grammar (line : String) :
    (∀ m, parse line = .ok m ↔ ∃ gap gap',
      Decomposed (trim line.toList) m.selector.toList gap gap' m.description.toList) ∧
    (∀ e, parse line = .error e ↔
      (∀ selector gap gap' description,
        ¬ Decomposed (trim line.toList) selector gap gap' description) ∧ e = .modifier line) ∧
    (∀ selector gap gap' description,
      Decomposed (trim line.toList) selector gap gap' description →
        (words (trim line.toList)).head? = some selector ∧
        ∀ selector₂ gap₂ gap₂' description₂,
          Decomposed (trim line.toList) selector₂ gap₂ gap₂' description₂ →
            selector = selector₂ ∧ gap = gap₂ ∧ gap' = gap₂' ∧ description = description₂) ∧
    parse line = readThroughExpression line ∧
    (∀ found, lineExpression.whole? (trim line.toList) = some found →
      trim (found.group 1) ≠ [] ∧ trim (found.group 2) ≠ []) ∧
    ∀ m, parse line = .ok m → parse m.text = .ok m := by
  refine ⟨fun m => parse_eq_ok_iff.trans declares_iff_decomposed, fun e => parse_eq_error_iff, ?_,
    parse_eq_readThroughExpression line, fun found h => trim_groups_ne_nil h,
    fun m h => parse_text h⟩
  intro selector gap gap' description h
  refine ⟨h.head?_words, ?_⟩
  intro selector₂ gap₂ gap₂' description₂ h₂
  exact h.unique h₂

/-- A hyphen for a selector, one between a blank and a line feed, and hyphens in the description. -/
example : parse "\t- -\n- - x " = .ok ⟨"-", "- - x"⟩ := by
  decide +kernel

end LivingGuide.Modifier
