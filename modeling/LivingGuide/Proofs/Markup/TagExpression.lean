import LivingGuide.Proofs.Markup.Attribute
import LivingGuide.Proofs.Regex

/-!
# A tag ends at its first unquoted `>`

What a tag is can be written as a regular expression (`tagExpression`): a name that takes all it
can, a run of characters and quoted texts that takes as little as it can, and blanks and a slash
before the `>`.  Which match such an expression finds is a matter of the order in which the matches
are tried.  The search for tags tries nothing twice: it goes over the text once and remembers the
quote that is open.  Both find the same,

    construct? (slash ++ c :: cs) = (tagExpression.first? ('<' :: (slash ++ c :: cs))).map
      fun m => (tagPieces m, m.rest).

The lazy run goes forward in steps, each a character or a quoted text (`InsideStep`), and at every
place there is one step at most.  It stops before the first place from which blanks and a slash lead
to a `>`.  A step never skips an unquoted `>` (`InsideStep.passes`), and no place inside a step is
such a place (`InsideStep.not_tagEnding`), so the blanks and the slash are the longest there are
(`TagEnd`).  A name that takes less than it can leaves more to the run, but the run then passes over
it, so giving a part of the name back never helps.

* `FirstEnd`: the first `>` outside quotes.  `tagBody?_eq_some_iff`: the search finds it.
* `TagEnd`: the longest blanks and slash at the end.  `cutTagEnd_eq_iff`: they are cut off.
* `first?_inside`: **the expression behind the name ends where the search ends.**
* `tag_ends_at_first_unquoted`: **a tag ends at its first unquoted `>`.**
-/

namespace LivingGuide.Markup

open Text

/-! ### The first unquoted end -/

/-- The quote that is open behind a character.  Outside quotes a quote opens, and it is closed by
the same character. -/
def quoteStep : Option Char → Char → Option Char
  | none, c => if isQuote c then some c else none
  | some quote, c => if c == quote then none else some quote

/-- The quote that is open behind a text. -/
def openQuote (quote : Option Char) (cs : List Char) : Option Char :=
  cs.foldl quoteStep quote

/-- **The first `>` outside quotes**, with the text before it and the text behind it. -/
structure FirstEnd (quote : Option Char) (cs body rest : List Char) : Prop where
  joined : cs = body ++ '>' :: rest
  outside : openQuote quote body = none
  first : ∀ before after : List Char, body = before ++ '>' :: after →
    openQuote quote before ≠ none

theorem tagBody?_cons (quote : Option Char) (c : Char) (cs : List Char) :
    tagBody? quote (c :: cs) =
      if quote = none ∧ c = '>' then some ([], cs)
      else (tagBody? (quoteStep quote c) cs).map fun found => (c :: found.1, found.2) := by
  cases quote with
  | none => simp only [tagBody?, quoteStep, beq_iff_eq, true_and]
  | some q => simp only [tagBody?, quoteStep, reduceCtorEq, false_and, if_false]

theorem firstEnd_cons_iff {quote : Option Char} {c : Char} {cs body rest : List Char}
    (h : ¬ (quote = none ∧ c = '>')) :
    FirstEnd quote (c :: cs) body rest ↔
      ∃ inner, FirstEnd (quoteStep quote c) cs inner rest ∧ c :: inner = body := by
  constructor
  · rintro ⟨hjoined, houtside, hfirst⟩
    cases body with
    | nil => exact absurd ⟨houtside, (List.cons.inj hjoined).1⟩ h
    | cons d body =>
      obtain ⟨rfl, hcs⟩ := List.cons.inj hjoined
      refine ⟨body, ⟨hcs, houtside, ?_⟩, rfl⟩
      intro before after hbody
      exact hfirst (c :: before) after (by rw [hbody]; rfl)
  · rintro ⟨inner, ⟨rfl, houtside, hfirst⟩, rfl⟩
    refine ⟨rfl, houtside, ?_⟩
    intro before after hbody
    cases before with
    | nil => exact fun hquote => h ⟨hquote, (List.cons.inj hbody).1⟩
    | cons d before =>
      obtain ⟨rfl, hinner⟩ := List.cons.inj hbody
      exact hfirst before after hinner

/-- **The search for the end of a tag finds the first `>` outside quotes.** -/
theorem tagBody?_eq_some_iff {quote : Option Char} {cs body rest : List Char} :
    tagBody? quote cs = some (body, rest) ↔ FirstEnd quote cs body rest := by
  induction cs generalizing quote body with
  | nil =>
    constructor
    · intro h
      cases quote with
      | none => cases h
      | some q => cases h
    · intro h
      exact absurd h.joined.symm (List.append_ne_nil_of_right_ne_nil _ (List.cons_ne_nil _ _))
  | cons c cs ih =>
    rw [tagBody?_cons]
    by_cases hend : quote = none ∧ c = '>'
    · rw [if_pos hend]
      obtain ⟨rfl, rfl⟩ := hend
      constructor
      · intro h
        cases h
        exact ⟨rfl, rfl, fun _ _ hbody => absurd hbody.symm (by simp)⟩
      · rintro ⟨hjoined, -, hfirst⟩
        cases body with
        | nil => rw [(List.cons.inj hjoined).2]
        | cons d body =>
          obtain ⟨rfl, -⟩ := List.cons.inj hjoined
          exact absurd rfl (hfirst [] body rfl)
    · rw [if_neg hend, firstEnd_cons_iff hend, Option.map_eq_some_iff, Prod.exists]
      constructor
      · rintro ⟨inner, rest', hinner, heq⟩
        cases heq
        exact ⟨inner, ih.mp hinner, rfl⟩
      · rintro ⟨inner, hinner, rfl⟩
        exact ⟨inner, rest, ih.mpr hinner, rfl⟩

/-! ### The blanks and the slash at the end -/

/-- A slash or nothing. -/
def IsSlash (cs : List Char) : Prop :=
  cs = [] ∨ cs = ['/']

/-- Blanks, and perhaps a slash behind them. -/
def IsTagEnding (cs : List Char) : Prop :=
  ∃ blanks slash, cs = blanks ++ slash ∧ (∀ c ∈ blanks, isBlank c = true) ∧ IsSlash slash

/-- **The longest blanks with a slash at the end of a text**, and the text before them. -/
structure TagEnd (body attributes blanks slash : List Char) : Prop where
  joined : attributes ++ (blanks ++ slash) = body
  blank : ∀ c ∈ blanks, isBlank c = true
  isSlash : IsSlash slash
  longest : ∀ before ending : List Char, body = before ++ ending → IsTagEnding ending →
    ending.length ≤ (blanks ++ slash).length

theorem IsTagEnding.blank_or_slash {cs : List Char} (h : IsTagEnding cs) {c : Char} (hc : c ∈ cs) :
    isBlank c = true ∨ c = '/' := by
  obtain ⟨blanks, slash, rfl, hblanks, rfl | rfl⟩ := h
  · exact .inl (hblanks c (by rwa [List.append_nil] at hc))
  · rcases List.mem_append.mp hc with hc | hc
    · exact .inl (hblanks c hc)
    · exact .inr (List.mem_singleton.mp hc)

theorem IsTagEnding.passes {cs : List Char} (h : IsTagEnding cs) : Passes cs := by
  obtain ⟨blanks, slash, rfl, hblanks, hslash⟩ := h
  apply (passes_blanks hblanks).append
  rcases hslash with rfl | rfl
  · exact passes_nil
  · exact passes_of_forall (List.forall_mem_singleton.mpr (by decide))

theorem IsSlash.noLeadingBlank_append {slash rest : List Char} (h : IsSlash slash)
    (hrest : NoLeadingBlank rest) : NoLeadingBlank (slash ++ rest) := by
  rcases h with rfl | rfl
  · exact hrest
  · intro c hc
    obtain rfl := Option.some.inj hc
    rfl

theorem append_inj_of_stop {p : Char → Bool} {run run' rest rest' : List Char}
    (hrun : ∀ c ∈ run, p c = true) (hrest : ∀ c ∈ rest.head?, p c = false)
    (hrun' : ∀ c ∈ run', p c = true) (hrest' : ∀ c ∈ rest'.head?, p c = false)
    (h : run ++ rest = run' ++ rest') : run = run' ∧ rest = rest' := by
  obtain ⟨htake, hdrop⟩ := span_of_stop hrun hrest
  obtain ⟨htake', hdrop'⟩ := span_of_stop hrun' hrest'
  rw [h] at htake hdrop
  exact ⟨htake.symm.trans htake', hdrop.symm.trans hdrop'⟩

theorem TagEnd.unique {body a b s a' b' s' : List Char} (h : TagEnd body a b s)
    (h' : TagEnd body a' b' s') : a = a' ∧ b = b' ∧ s = s' := by
  have hlength : (b ++ s).length = (b' ++ s').length := Nat.le_antisymm
    (h'.longest a _ h.joined.symm ⟨b, s, rfl, h.blank, h.isSlash⟩)
    (h.longest a' _ h'.joined.symm ⟨b', s', rfl, h'.blank, h'.isSlash⟩)
  obtain ⟨rfl, hend⟩ := List.append_inj' (h.joined.trans h'.joined.symm) hlength
  have hstop : ∀ {slash : List Char}, IsSlash slash → NoLeadingBlank slash := by
    intro slash hslash
    rw [← List.append_nil slash]
    exact hslash.noLeadingBlank_append nofun
  exact ⟨rfl, append_inj_of_stop h.blank (hstop h.isSlash) h'.blank (hstop h'.isSlash) hend⟩

/-- The blanks before the end, with the slash taken off first, are the longest. -/
theorem tagEnd_of_reverse {rest slash : List Char} (hslash : IsSlash slash)
    (hmax : slash = [] → rest.head? ≠ some '/') :
    TagEnd (rest.reverse ++ slash) (rest.dropWhile isBlank).reverse
      (rest.takeWhile isBlank).reverse slash := by
  have hrun : ∀ {before blanks : List Char}, rest.reverse = before ++ blanks →
      (∀ c ∈ blanks, isBlank c = true) → blanks.length ≤ (rest.takeWhile isBlank).length := by
    intro before blanks hrest hblanks
    have hreverse : rest = blanks.reverse ++ before.reverse := by
      rw [← List.reverse_append, ← hrest, List.reverse_reverse]
    rw [hreverse, List.takeWhile_append_of_pos fun c hc => hblanks c (List.mem_reverse.mp hc),
      List.length_append, List.length_reverse]
    omega
  refine ⟨?_, fun c hc => List.mem_takeWhile_imp (List.mem_reverse.mp hc), hslash, ?_⟩
  · rw [← List.append_assoc, ← List.reverse_append, List.takeWhile_append_dropWhile]
  · rintro before ending hbody ⟨blanks, slash', rfl, hblanks, hslash'⟩
    rw [List.length_append, List.length_append, List.length_reverse]
    rw [← List.append_assoc] at hbody
    -- Either both end in a slash or neither does; otherwise one of them is empty.
    rcases hslash with rfl | rfl
    · rcases hslash' with rfl | rfl
      · rw [List.append_nil, List.append_nil] at hbody
        have := hrun hbody hblanks
        omega
      · have hrest : rest = '/' :: (before ++ blanks).reverse := by
          rw [← List.reverse_reverse rest, ← List.append_nil rest.reverse, hbody,
            List.reverse_append]
          rfl
        exact absurd (by rw [hrest]; rfl) (hmax rfl)
    · rcases hslash' with rfl | rfl
      · rcases List.eq_nil_or_concat' blanks with rfl | ⟨blanks, c, rfl⟩
        · exact Nat.zero_le _
        · rw [List.append_nil, ← List.append_assoc] at hbody
          have hc := hblanks c (by simp)
          rw [← List.singleton_inj.mp (List.append_inj' hbody rfl).2] at hc
          exact absurd hc (by decide)
      · have := hrun (List.append_inj' hbody rfl).1 hblanks
        omega

theorem tagEnd_cutTagEnd (body : List Char) :
    TagEnd body (cutTagEnd body).1 (cutTagEnd body).2.1 (cutTagEnd body).2.2 := by
  rw [cutTagEnd]
  split
  next slash rest hcut =>
    split at hcut
    · next htail =>
      cases hcut
      have hbody : body = rest.reverse ++ ['/'] := by
        rw [← List.reverse_reverse body, htail, List.reverse_cons]
      rw [hbody]
      exact tagEnd_of_reverse (.inr rfl) nofun
    · next hother =>
      cases hcut
      have hmax : body.reverse.head? ≠ some '/' := by
        intro hhead
        obtain ⟨tail, htail⟩ := List.head?_eq_some_iff.mp hhead
        exact hother tail htail
      have hend := tagEnd_of_reverse (.inl rfl) fun _ => hmax
      rwa [List.reverse_reverse, List.append_nil] at hend

/-- **The longest blanks and slash at the end are cut off.** -/
theorem cutTagEnd_eq_iff {body attributes blanks slash : List Char} :
    cutTagEnd body = (attributes, blanks, slash) ↔ TagEnd body attributes blanks slash := by
  constructor
  · intro h
    have hcut := tagEnd_cutTagEnd body
    rwa [h] at hcut
  · intro h
    obtain ⟨rfl, rfl, rfl⟩ := h.unique (tagEnd_cutTagEnd body)
    rfl

theorem tagEnd_self {blanks slash : List Char} (hblanks : ∀ c ∈ blanks, isBlank c = true)
    (hslash : IsSlash slash) : TagEnd (blanks ++ slash) [] blanks slash := by
  refine ⟨rfl, hblanks, hslash, ?_⟩
  intro before ending hbody _
  rw [hbody, List.length_append]
  omega

theorem TagEnd.append_left {body a b s : List Char} (h : TagEnd body a b s) {x : List Char}
    (hx : ∀ {before ending : List Char}, x = before ++ ending → ending ≠ [] →
      ¬ IsTagEnding (ending ++ body)) : TagEnd (x ++ body) (x ++ a) b s := by
  refine ⟨by rw [List.append_assoc, h.joined], h.blank, h.isSlash, ?_⟩
  intro before ending hbody hending
  rcases List.append_eq_append_iff.mp hbody with ⟨more, -, hmore⟩ | ⟨more, hmore, rfl⟩
  · exact h.longest more ending hmore hending
  · by_cases hne : more = []
    · subst hne
      exact h.longest [] body rfl hending
    · exact absurd hending (hx hmore hne)

/-! ### The expression -/

/-- A text in quotes of one kind. -/
def quotedPart (quote : Char) : Regex :=
  .seq (.char (· == quote)) (.seq (.many (.char (· != quote))) (.char (· == quote)))

/-- One character that is neither a quote nor a `>`, or one text in quotes. -/
def stepPart : Regex :=
  .alt (.char fun c => !(c == '>' || isQuote c)) (.alt (quotedPart '"') (quotedPart '\''))

/-- A slash or nothing. -/
def slashPart : Regex :=
  .optional (.char (· == '/'))

/-- Blanks and perhaps a slash before a `>`. -/
def endPart : Regex :=
  .seq (.group 4 (.many (.char isBlank))) (.seq (.group 5 slashPart) (.char (· == '>')))

/-- What stands behind the name of a tag. -/
def insidePart : Regex :=
  .seq (.group 3 (.few stepPart)) endPart

/-- The name of a tag. -/
def namePart : Regex :=
  .seq (.char Char.isAlpha) (.many (.char isNameChar))

/-- **The expression for tags.**  It keeps the slash before the name, the name, what is searched for
attributes, the blanks, and the slash before the `>`. -/
def tagExpression : Regex :=
  .seq (.char (· == '<')) (.seq (.group 1 slashPart) (.seq (.group 2 namePart) insidePart))

theorem denotes_slashPart {run : List Char} {groups : Groups} :
    slashPart.Denotes run groups ↔ IsSlash run ∧ groups = [] := by
  constructor
  · rintro (⟨⟨c, hc, rfl⟩, rfl⟩ | ⟨rfl, rfl⟩)
    · exact ⟨.inr (by rw [beq_iff_eq.mp hc]), rfl⟩
    · exact ⟨.inl rfl, rfl⟩
  · rintro ⟨rfl | rfl, rfl⟩
    · exact .inr ⟨rfl, rfl⟩
    · exact .inl ⟨⟨'/', rfl, rfl⟩, rfl⟩

theorem forall_bne_of_notMem {quote : Char} {cs : List Char} (h : quote ∉ cs) :
    ∀ c ∈ cs, (c != quote) = true := by
  intro c hc
  rw [bne_iff_ne]
  rintro rfl
  exact h hc

theorem denotes_quotedPart {quote : Char} {run : List Char} {groups : Groups} :
    (quotedPart quote).Denotes run groups ↔
      (∃ inner, quote ∉ inner ∧ run = quote :: (inner ++ [quote])) ∧ groups = [] := by
  constructor
  · rintro ⟨_, _, _, _, ⟨⟨c, hc, rfl⟩, rfl⟩,
      ⟨inner, _, _, _, hinner, ⟨⟨d, hd, rfl⟩, rfl⟩, rfl, rfl⟩, rfl, rfl⟩
    obtain ⟨hall, rfl⟩ := Regex.denotes_many_char.mp hinner
    rw [beq_iff_eq] at hc hd
    subst hc hd
    exact ⟨⟨inner, fun hmem => bne_iff_ne.mp (hall _ hmem) rfl, rfl⟩, rfl⟩
  · rintro ⟨⟨inner, hclosed, rfl⟩, rfl⟩
    have hinner : (Regex.many (.char (· != quote))).Denotes inner [] :=
      Regex.denotes_many_char.mpr ⟨forall_bne_of_notMem hclosed, rfl⟩
    have hquote : (Regex.char (· == quote)).Denotes [quote] [] :=
      ⟨⟨quote, beq_self_eq_true quote, rfl⟩, rfl⟩
    exact ⟨[quote], [], _, [], hquote, ⟨inner, [], [quote], [], hinner, hquote, rfl, rfl⟩, rfl, rfl⟩

/-- **A step inside a tag**: a character that is neither a quote nor a `>`, or a text in quotes. -/
inductive InsideStep : List Char → Prop
  | plain (c : Char) (noEnd : c ≠ '>') (noQuote : isQuote c = false) : InsideStep [c]
  | quoted (quote : Char) (inner : List Char) (mark : isQuote quote = true)
      (closed : quote ∉ inner) : InsideStep (quote :: (inner ++ [quote]))

theorem InsideStep.ne_nil {x : List Char} (h : InsideStep x) : x ≠ [] := by
  cases h with
  | plain c _ _ => exact List.cons_ne_nil c []
  | quoted q inner _ _ => exact List.cons_ne_nil q _

theorem denotes_stepPart {run : List Char} {groups : Groups} :
    stepPart.Denotes run groups ↔ InsideStep run ∧ groups = [] := by
  show ((∃ c, _ ∧ run = [c]) ∧ groups = []) ∨ (quotedPart '"').Denotes run groups ∨
    (quotedPart '\'').Denotes run groups ↔ _
  rw [denotes_quotedPart, denotes_quotedPart, ← or_and_right, ← or_and_right]
  refine and_congr_left fun _ => ⟨?_, ?_⟩
  · rintro (⟨c, hc, rfl⟩ | ⟨inner, hclosed, rfl⟩ | ⟨inner, hclosed, rfl⟩)
    · rw [Bool.not_eq_true', Bool.or_eq_false_iff, beq_eq_false_iff_ne] at hc
      exact .plain c hc.1 hc.2
    · exact .quoted '"' inner rfl hclosed
    · exact .quoted '\'' inner rfl hclosed
  · rintro (⟨c, hend, hquote⟩ | ⟨quote, inner, hmark, hclosed⟩)
    · refine .inl ⟨c, ?_, rfl⟩
      rw [Bool.not_eq_true', Bool.or_eq_false_iff, beq_eq_false_iff_ne]
      exact ⟨hend, hquote⟩
    · rcases isQuote_iff.mp hmark with rfl | rfl
      · exact .inr (.inl ⟨inner, hclosed, rfl⟩)
      · exact .inr (.inr ⟨inner, hclosed, rfl⟩)

theorem denotes_endPart {run : List Char} {groups : Groups} :
    endPart.Denotes run groups ↔ ∃ blanks slash, (∀ c ∈ blanks, isBlank c = true) ∧
      IsSlash slash ∧ run = blanks ++ (slash ++ ['>']) ∧ groups = [(4, blanks), (5, slash)] := by
  constructor
  · rintro ⟨blanks, _, _, _, ⟨_, hblanks, rfl⟩, ⟨slash, _, _, _, ⟨_, hslash, rfl⟩,
      ⟨⟨c, hc, rfl⟩, rfl⟩, rfl, rfl⟩, rfl, rfl⟩
    obtain ⟨hall, rfl⟩ := Regex.denotes_many_char.mp hblanks
    obtain ⟨hisSlash, rfl⟩ := denotes_slashPart.mp hslash
    exact ⟨blanks, slash, hall, hisSlash, by rw [beq_iff_eq.mp hc], rfl⟩
  · rintro ⟨blanks, slash, hall, hslash, rfl, rfl⟩
    exact ⟨blanks, [(4, blanks)], slash ++ ['>'], [(5, slash)],
      ⟨[], Regex.denotes_many_char.mpr ⟨hall, rfl⟩, rfl⟩,
      ⟨slash, [(5, slash)], ['>'], [], ⟨[], denotes_slashPart.mpr ⟨hslash, rfl⟩, rfl⟩,
        ⟨⟨'>', rfl, rfl⟩, rfl⟩, rfl, rfl⟩, rfl, rfl⟩

/-! ### One step at most -/

/-- **No text starts with two steps.** -/
theorem InsideStep.unique {x x' y y' : List Char} (hx : InsideStep x) (hx' : InsideStep x')
    (h : x ++ y = x' ++ y') : x = x' := by
  cases hx with
  | plain c hend hquote =>
    cases hx' with
    | plain d _ _ => rw [(List.cons.inj h).1]
    | quoted q _ mark _ =>
      rw [(List.cons.inj h).1, mark] at hquote
      cases hquote
  | quoted q inner mark closed =>
    cases hx' with
    | plain d _ hquote =>
      rw [← (List.cons.inj h).1, mark] at hquote
      cases hquote
    | quoted q' inner' _ closed' =>
      obtain ⟨rfl, htail⟩ := List.cons.inj h
      have hstop : ∀ {z}, ∀ c ∈ (q :: z).head?, (c != q) = false := by
        intro z c hc
        obtain rfl := Option.some.inj hc
        exact bne_self_eq_false q
      have hsame : inner ++ q :: y = inner' ++ q :: y' := by
        rw [List.append_cons, List.append_cons inner']
        exact htail
      obtain ⟨rfl, -⟩ := append_inj_of_stop (forall_bne_of_notMem closed) hstop
        (forall_bne_of_notMem closed') hstop hsame
      rfl

theorem sole_stepPart : stepPart.Sole := by
  apply Regex.sole_of_denotes
  intro x y x' y' g g' hx hx' h
  obtain ⟨hstep, rfl⟩ := denotes_stepPart.mp hx
  obtain ⟨hstep', rfl⟩ := denotes_stepPart.mp hx'
  exact ⟨hstep.unique hstep' h, rfl⟩

theorem sole_endPart : endPart.Sole := by
  apply Regex.sole_of_denotes
  intro x y x' y' g g' hx hx' h
  obtain ⟨b, s, hb, hs, rfl, rfl⟩ := denotes_endPart.mp hx
  obtain ⟨b', s', hb', hs', rfl, rfl⟩ := denotes_endPart.mp hx'
  simp only [List.append_assoc, List.singleton_append] at h
  have hstop : ∀ {z}, NoLeadingBlank ('>' :: z) := by
    intro z c hc
    obtain rfl := Option.some.inj hc
    rfl
  obtain ⟨rfl, hslash⟩ := append_inj_of_stop hb (hs.noLeadingBlank_append hstop) hb'
    (hs'.noLeadingBlank_append hstop) h
  have hsame : s = s' := by
    rcases hs with rfl | rfl
    · rcases hs' with rfl | rfl
      · rfl
      · exact absurd (List.cons.inj hslash).1 (by decide)
    · rcases hs' with rfl | rfl
      · exact absurd (List.cons.inj hslash).1 (by decide)
      · rfl
  rw [hsame]
  exact ⟨rfl, rfl⟩

theorem first?_endPart {blanks slash : List Char} (hblanks : ∀ c ∈ blanks, isBlank c = true)
    (hslash : IsSlash slash) (rest : List Char) :
    endPart.first? (blanks ++ (slash ++ '>' :: rest)) =
      some ⟨blanks ++ (slash ++ ['>']), [(4, blanks), (5, slash)], rest⟩ := by
  rw [sole_endPart.first?_eq_some_iff, denotes_endPart]
  refine ⟨?_, blanks, slash, hblanks, hslash, rfl, rfl⟩
  simp only [List.append_assoc, List.singleton_append]

theorem isSome_first?_endPart {cs : List Char} :
    (endPart.first? cs).isSome = true ↔
      ∃ ending rest, IsTagEnding ending ∧ cs = ending ++ '>' :: rest := by
  constructor
  · intro h
    obtain ⟨m, hm⟩ := Option.isSome_iff_exists.mp h
    obtain ⟨hcs, hm⟩ := sole_endPart.first?_eq_some_iff.mp hm
    obtain ⟨b, s, hb, hs, htaken, -⟩ := denotes_endPart.mp hm
    refine ⟨b ++ s, m.rest, ⟨b, s, rfl, hb, hs⟩, ?_⟩
    rw [hcs, htaken]
    simp only [List.append_assoc, List.singleton_append]
  · rintro ⟨_, rest, ⟨b, s, rfl, hb, hs⟩, rfl⟩
    rw [List.append_assoc, first?_endPart hb hs]
    rfl

/-! ### The run inside a tag -/

theorem InsideStep.passes {x : List Char} (h : InsideStep x) : Passes x := by
  cases h with
  | plain c hend hquote =>
    apply passes_of_forall
    rw [List.forall_mem_singleton]
    simp only [List.mem_cons, List.not_mem_nil, or_false, not_or]
    rw [isQuote, Bool.or_eq_false_iff, beq_eq_false_iff_ne, beq_eq_false_iff_ne] at hquote
    exact ⟨hquote.1, hquote.2, hend⟩
  | quoted q inner mark closed => exact (Value.quoted q inner (isQuote_iff.mp mark) closed).passes

/-- **No end starts inside a step** behind which it is possible. -/
theorem InsideStep.not_tagEnding {x body rest : List Char} (h : InsideStep x)
    (hstart : ¬ (endPart.first? (x ++ body ++ '>' :: rest)).isSome = true)
    {before ending : List Char} (hx : x = before ++ ending) (hne : ending ≠ []) :
    ¬ IsTagEnding (ending ++ body) := by
  intro hending
  cases h with
  | plain c _ _ =>
    obtain ⟨rfl, rfl⟩ : before = [] ∧ ending = [c] := by
      rcases List.append_eq_singleton_iff.mp hx.symm with hx | hx
      · exact hx
      · exact absurd hx.2 hne
    exact hstart (isSome_first?_endPart.mpr ⟨[c] ++ body, rest, hending, rfl⟩)
  | quoted q inner mark _ =>
    have hlast : q ∈ ending := by
      rw [← List.cons_append] at hx
      have := congrArg List.getLast? hx
      rw [List.getLast?_concat, List.getLast?_append_of_ne_nil _ hne] at this
      exact List.mem_of_getLast? this.symm
    have hq := hending.blank_or_slash (List.mem_append_left body hlast)
    rcases isQuote_iff.mp mark with rfl | rfl
    · exact absurd hq (by decide)
    · exact absurd hq (by decide)

theorem tagBody?_unclosed {quote : Char} {cs : List Char} (h : quote ∉ cs) :
    tagBody? (some quote) cs = none := by
  induction cs with
  | nil => rfl
  | cons c cs ih =>
    rw [List.mem_cons, not_or] at h
    rw [tagBody?, if_neg fun heq => h.1 (beq_iff_eq.mp heq).symm, ih h.2]
    rfl

theorem tagBody?_of_stuck {cs : List Char} (hend : ¬ (endPart.first? cs).isSome = true)
    (hstep : stepPart.first? cs = none) : tagBody? none cs = none := by
  have hnone : ∀ {x y : List Char}, InsideStep x → cs ≠ x ++ y := by
    rintro x y hx rfl
    have hfirst : stepPart.first? (x ++ y) = some ⟨x, [], y⟩ :=
      sole_stepPart.first?_eq_some_iff.mpr ⟨rfl, denotes_stepPart.mpr ⟨hx, rfl⟩⟩
    rw [hstep] at hfirst
    cases hfirst
  cases cs with
  | nil => rfl
  | cons c cs =>
    have hc : c ≠ '>' := by
      rintro rfl
      have hempty : IsTagEnding [] := ⟨[], [], rfl, List.forall_mem_nil _, .inl rfl⟩
      exact hend (isSome_first?_endPart.mpr ⟨[], cs, hempty, rfl⟩)
    cases hquote : isQuote c with
    | false => exact absurd rfl (hnone (y := cs) (.plain c hc hquote))
    | true =>
      rw [tagBody?, if_neg fun heq => hc (beq_iff_eq.mp heq), if_pos hquote]
      by_cases hmem : c ∈ cs
      · obtain ⟨inner, rest, rfl, hclosed⟩ := List.eq_append_cons_of_mem hmem
        refine absurd ?_ (hnone (y := rest) (.quoted c inner hquote hclosed))
        rw [List.cons_append, List.append_assoc, List.singleton_append]
      · rw [tagBody?_unclosed hmem]
        rfl

/-- **The run stops where the longest blanks and slash before the first unquoted `>` start**, and
without such a `>` it stops nowhere. -/
theorem find?_steps (cs : List Char) :
    ((Regex.few stepPart).found cs).find? (fun m => (endPart.first? m.rest).isSome) =
      (tagBody? none cs).map fun found => ⟨(cutTagEnd found.1).1, [],
        (cutTagEnd found.1).2.1 ++ ((cutTagEnd found.1).2.2 ++ '>' :: found.2)⟩ := by
  have htakes : ∀ {run groups}, stepPart.Denotes run groups → run ≠ [] := fun h =>
    (denotes_stepPart.mp h).1.ne_nil
  -- On the length of the text, as a step can take more than one character.
  induction hn : cs.length using Nat.strong_induction_on generalizing cs with
  | _ n ih =>
    rw [Regex.find?_few sole_stepPart htakes (fun rest => (endPart.first? rest).isSome) cs]
    by_cases hend : (endPart.first? cs).isSome = true
    · rw [if_pos hend]
      obtain ⟨ending, rest, hending, rfl⟩ := isSome_first?_endPart.mp hend
      have hbody : tagBody? none (ending ++ '>' :: rest) = some (ending, rest) := by
        rw [hending.passes, tagBody?_cons, if_pos ⟨rfl, rfl⟩, Option.map_some, List.append_nil]
      obtain ⟨b, s, rfl, hb, hs⟩ := hending
      rw [hbody, Option.map_some, cutTagEnd_eq_iff.mpr (tagEnd_self hb hs), List.append_assoc]
      rfl
    · rw [if_neg hend]
      cases hstep : stepPart.first? cs with
      | none => rw [tagBody?_of_stuck hend hstep]; rfl
      | some m =>
        obtain ⟨hcs, hm⟩ := sole_stepPart.first?_eq_some_iff.mp hstep
        obtain ⟨hinside, hgroups⟩ := denotes_stepPart.mp hm
        have hshorter : m.rest.length < n := by
          have hpos := List.length_pos_of_ne_nil (htakes hm)
          rw [← hn, hcs, List.length_append]
          omega
        rw [Option.bind_some, ih _ hshorter m.rest rfl, hcs, hinside.passes]
        cases hbody : tagBody? none m.rest with
        | none => rfl
        | some found =>
          obtain ⟨body, rest⟩ := found
          have hrest : m.rest = body ++ '>' :: rest := (tagBody?_eq_some_iff.mp hbody).joined
          rw [hcs, hrest, ← List.append_assoc] at hend
          have hcut := cutTagEnd_eq_iff.mpr
            ((tagEnd_cutTagEnd body).append_left (hinside.not_tagEnding hend))
          simp only [Option.map_some, hcut, Match.andThen, hgroups, List.nil_append]

/-- **The expression behind the name of a tag ends where the search ends.** -/
theorem first?_inside (cs : List Char) :
    insidePart.first? cs = (tagBody? none cs).map fun found => ⟨found.1 ++ ['>'],
      [(3, (cutTagEnd found.1).1), (4, (cutTagEnd found.1).2.1), (5, (cutTagEnd found.1).2.2)],
      found.2⟩ := by
  rw [insidePart, Regex.first?_seq_group, find?_steps]
  cases tagBody? none cs with
  | none => rfl
  | some found =>
    have hend := tagEnd_cutTagEnd found.1
    simp only [Option.map_some, Option.bind_some, first?_endPart hend.blank hend.isSlash,
      List.nil_append]
    rw [← List.append_assoc, ← List.append_assoc, List.append_assoc _ _ (cutTagEnd found.1).2.2,
      hend.joined]

/-! ### The name of a tag -/

theorem passes_of_isNameChar {run : List Char} (h : ∀ c ∈ run, isNameChar c = true) :
    Passes run := by
  apply passes_of_forall
  intro c hc hsign
  have hname := h c hc
  simp only [List.mem_cons, List.not_mem_nil, or_false] at hsign
  rcases hsign with rfl | rfl | rfl
  · exact absurd hname (by decide)
  · exact absurd hname (by decide)
  · exact absurd hname (by decide)

/-- **A name takes all it can.**  A shorter one leaves name characters to the run, which passes over
them and ends where it would have ended. -/
theorem first?_named {c : Char} (hc : c.isAlpha = true) (cs : List Char) :
    (Regex.seq (.group 2 namePart) insidePart).first? (c :: cs) =
      (insidePart.first? (cs.dropWhile isNameChar)).map fun k =>
        ⟨c :: cs.takeWhile isNameChar ++ k.taken, (2, c :: cs.takeWhile isNameChar) :: k.groups,
          k.rest⟩ := by
  have hname : namePart.first? (c :: cs) =
      some ⟨c :: cs.takeWhile isNameChar, [], cs.dropWhile isNameChar⟩ :=
    Regex.first?_seq_of_first (Regex.first?_char hc cs) (Regex.first?_many_char isNameChar cs)
  cases hinside : insidePart.first? (cs.dropWhile isNameChar) with
  | some k =>
    have hgroup : (Regex.group 2 namePart).first? (c :: cs) = some
        ⟨c :: cs.takeWhile isNameChar, [(2, c :: cs.takeWhile isNameChar)],
          cs.dropWhile isNameChar⟩ := by
      rw [Regex.first?_group, hname]
      rfl
    rw [Regex.first?_seq_of_first hgroup hinside]
    rfl
  | none =>
    apply Regex.first?_seq_eq_none
    intro m hm
    obtain ⟨hcs, _, ⟨_, _, more, _, ⟨⟨d, -, rfl⟩, rfl⟩, hmore, htaken, -⟩, -⟩ :=
      (Regex.mem_found_iff _ _ m).mp hm
    obtain ⟨hall, -⟩ := Regex.denotes_many_char.mp hmore
    rw [htaken] at hcs
    have htail : cs = more ++ m.rest := (List.cons.inj hcs).2
    have hdrop : cs.dropWhile isNameChar = m.rest.dropWhile isNameChar := by
      rw [htail, List.dropWhile_append_of_pos hall]
    have hpasses : Passes (m.rest.takeWhile isNameChar) :=
      passes_of_isNameChar fun c hc => List.mem_takeWhile_imp hc
    rw [hdrop, first?_inside, Option.map_eq_none_iff] at hinside
    rw [first?_inside, ← List.takeWhile_append_dropWhile (p := isNameChar) (l := m.rest), hpasses,
      hinside]
    rfl

theorem first?_slashPart {slash : List Char} (hslash : IsSlash slash) {c : Char}
    (hc : c.isAlpha = true) (cs : List Char) :
    slashPart.first? (slash ++ c :: cs) = some ⟨slash, [], c :: cs⟩ := by
  rcases hslash with rfl | rfl
  · have hno : ¬ (c == '/') = true := by
      intro heq
      rw [beq_iff_eq.mp heq] at hc
      exact absurd hc (by decide)
    show ((if c == '/' then [_] else []) ++ [Match.here (c :: cs)]).head? = _
    rw [if_neg hno]
    rfl
  · rfl

/-- Without a tag behind its slash there is none.  A slash that is not there cannot be taken, and
one that is left is no name. -/
theorem first?_slashed_eq_none {slash : List Char} (hslash : IsSlash slash) {c : Char}
    (hc : c.isAlpha = true) {cs : List Char}
    (h : (Regex.seq (.group 2 namePart) insidePart).first? (c :: cs) = none) :
    (Regex.seq (.group 1 slashPart) (.seq (.group 2 namePart) insidePart)).first?
      (slash ++ c :: cs) = none := by
  apply Regex.first?_seq_eq_none
  intro m hm
  obtain ⟨hcs, _, hdenotes, -⟩ := (Regex.mem_found_iff _ _ m).mp hm
  rcases hslash with rfl | rfl
  · rcases (denotes_slashPart.mp hdenotes).1 with htaken | htaken
    · rw [htaken] at hcs
      have hrest : m.rest = c :: cs := hcs.symm
      rw [hrest, h]
    · rw [htaken] at hcs
      rw [(List.cons.inj hcs).1] at hc
      exact absurd hc (by decide)
  · rcases (denotes_slashPart.mp hdenotes).1 with htaken | htaken
    · rw [htaken] at hcs
      have hrest : m.rest = '/' :: c :: cs := hcs.symm
      rw [hrest]
      rfl
    · rw [htaken] at hcs
      have hrest : m.rest = c :: cs := (List.cons.inj hcs).2.symm
      rw [hrest, h]

/-- **What the expression for tags finds is what the search for the end finds.** -/
theorem first?_tagExpression {slash : List Char} (hslash : IsSlash slash) {c : Char}
    (hc : c.isAlpha = true) (cs : List Char) :
    tagExpression.first? ('<' :: (slash ++ c :: cs)) =
      (tagBody? none (cs.dropWhile isNameChar)).map fun found =>
        ⟨'<' :: (slash ++ (c :: cs.takeWhile isNameChar ++ (found.1 ++ ['>']))),
          [(1, slash), (2, c :: cs.takeWhile isNameChar), (3, (cutTagEnd found.1).1),
            (4, (cutTagEnd found.1).2.1), (5, (cutTagEnd found.1).2.2)], found.2⟩ := by
  have hnamed := first?_named hc cs
  rw [first?_inside] at hnamed
  cases hbody : tagBody? none (cs.dropWhile isNameChar) with
  | some found =>
    rw [hbody] at hnamed
    have hgroup : (Regex.group 1 slashPart).first? (slash ++ c :: cs) =
        some ⟨slash, [(1, slash)], c :: cs⟩ := by
      rw [Regex.first?_group, first?_slashPart hslash hc]
      rfl
    exact Regex.first?_seq_of_first (Regex.first?_char (beq_self_eq_true '<') _)
      (Regex.first?_seq_of_first hgroup hnamed)
  | none =>
    rw [hbody] at hnamed
    apply Regex.first?_seq_eq_none
    intro m hm
    obtain rfl := List.mem_singleton.mp hm
    exact first?_slashed_eq_none hslash hc hnamed

/-! ### The match of a tag -/

/-- The pieces of a tag from what the groups of its expression kept. -/
def tagPieces (m : Match) : List Piece :=
  .token .punctuation ('<' :: m.group 1) :: .token .tagName (m.group 2) ::
    (attributePieces (m.group 3) ++
      textThen (m.group 4) [.token .punctuation (m.group 5 ++ ['>'])])

/-- **The pieces of a tag are those of its expression.** -/
theorem construct?_eq_first? {slash : List Char} (hslash : IsSlash slash) {c : Char}
    (hc : c.isAlpha = true) (cs : List Char) :
    construct? (slash ++ c :: cs) =
      (tagExpression.first? ('<' :: (slash ++ c :: cs))).map fun m => (tagPieces m, m.rest) := by
  have hconstruct : construct? (slash ++ c :: cs) = tag? ('<' :: slash) (c :: cs) := by
    rcases hslash with rfl | rfl
    · rw [List.nil_append, construct?.eq_def]
      split
      · next h =>
        rw [(List.cons.inj h).1] at hc
        exact absurd hc (by decide)
      · next h =>
        rw [(List.cons.inj h).1] at hc
        exact absurd hc (by decide)
      · rfl
    · rfl
  rw [hconstruct, first?_tagExpression hslash hc, tag?, if_pos hc, Option.map_map]
  rfl

/-- **A tag ends at its first unquoted `>`.**  At a `<`, perhaps a slash and a letter, the
expression for tags matches exactly when a `>` outside quotes stands behind the longest name.  The
match ends with the first such `>`, its name is the longest, and of the text between the two it
keeps the longest blanks and slash at the end, and what stands before them.  Markup is cut
accordingly. -/
theorem tag_ends_at_first_unquoted (markup : String) (i : Nat) (slash : List Char) (c : Char)
    (cs : List Char) (hslash : slash = [] ∨ slash = ['/']) (hc : c.isAlpha = true)
    (hat : markup.toList.drop i = '<' :: (slash ++ c :: cs)) :
    (tagExpression.found (markup.toList.drop i) ≠ [] ↔
      ∃ body rest, FirstEnd none (cs.dropWhile isNameChar) body rest) ∧
    (∀ body rest, FirstEnd none (cs.dropWhile isNameChar) body rest →
      ∃ attributes blanks closing, TagEnd body attributes blanks closing ∧
        tagExpression.first? (markup.toList.drop i) = some
          { taken := '<' :: (slash ++ (c :: cs.takeWhile isNameChar ++ (body ++ ['>'])))
            groups := [(1, slash), (2, c :: cs.takeWhile isNameChar), (3, attributes),
              (4, blanks), (5, closing)]
            rest := rest }) ∧
    construct? (slash ++ c :: cs) =
      (tagExpression.first? (markup.toList.drop i)).map fun m => (tagPieces m, m.rest) := by
  rw [hat]
  have hfirst := first?_tagExpression hslash hc cs
  refine ⟨?_, ?_, construct?_eq_first? hslash hc cs⟩
  · rw [Ne, ← Regex.first?_eq_none_iff, hfirst, Option.map_eq_none_iff]
    constructor
    · intro hsome
      obtain ⟨⟨body, rest⟩, hfound⟩ := Option.ne_none_iff_exists'.mp hsome
      exact ⟨body, rest, tagBody?_eq_some_iff.mp hfound⟩
    · rintro ⟨body, rest, hend⟩ hnone
      rw [tagBody?_eq_some_iff.mpr hend] at hnone
      cases hnone
  · intro body rest hend
    rw [tagBody?_eq_some_iff.mpr hend] at hfirst
    exact ⟨_, _, _, tagEnd_cutTagEnd body, hfirst⟩

/-- A `>` in quotes does not end a tag, and behind a quote that stays open none does. -/
theorem tag_ends_at_first_unquoted_title :
    tagExpression.first? ("go <a title=\"1 > 0\" />on".toList.drop 3) = some
      { taken := "<a title=\"1 > 0\" />".toList
        groups := [(1, []), (2, ['a']), (3, " title=\"1 > 0\"".toList), (4, [' ']), (5, ['/'])]
        rest := "on".toList } ∧
    tagExpression.found ("</p title='1>".toList.drop 0) = [] := by
  constructor
  · obtain ⟨-, hmatch, -⟩ := tag_ends_at_first_unquoted
      "go <a title=\"1 > 0\" />on" 3 [] 'a' " title=\"1 > 0\" />on".toList
      (.inl rfl) rfl (by decide)
    have hend : FirstEnd none (" title=\"1 > 0\" />on".toList.dropWhile isNameChar)
        " title=\"1 > 0\" /".toList "on".toList := tagBody?_eq_some_iff.mp (by decide)
    obtain ⟨attributes, blanks, closing, hcut, hfirst⟩ := hmatch _ _ hend
    have hparts : cutTagEnd " title=\"1 > 0\" /".toList =
      (" title=\"1 > 0\"".toList, [' '], ['/']) := by decide
    rw [cutTagEnd_eq_iff.mpr hcut] at hparts
    cases hparts
    exact hfirst
  · obtain ⟨hmatch, -, -⟩ := tag_ends_at_first_unquoted
      "</p title='1>" 0 ['/'] 'p' " title='1>".toList (.inr rfl) rfl (by decide)
    by_contra hfound
    obtain ⟨body, rest, hend⟩ := hmatch.mp hfound
    have hnone : tagBody? none (" title='1>".toList.dropWhile isNameChar) = none := by decide
    rw [tagBody?_eq_some_iff.mpr hend] at hnone
    cases hnone

end LivingGuide.Markup
