import LivingGuide.Proofs.Markup.Highlight
import Mathlib.Data.Bool.AllAny

/-!
# Attributes are cut at their seams

An attribute is a name with blanks before it, and perhaps an equals sign with a value in quotes or a
bare one.  `Attribute` says what is well-formed, each attribute with the proof that it is, how it is
written (`chars`) and how it is to be shown (`shown`).  The search for attributes knows nothing of
this, and still cuts each of them where it ends,

    attributeBody (a.chars ++ rest) = a.shown ++ attributeBody rest,

when the rest may follow an attribute (`Attribute.body_append`).  Two more facts are for the tag
around: no `>` of an attribute is taken for the end of the tag (`Attribute.passes`), and no
attribute ends in a blank or a slash (`Attribute.closed`).

* `Value`, `Assignment`, `Attribute`: well-formed attributes.
* `blank_spec`: no blank is a sign or part of a name.
* `attributeBody_attributes`: **attributes are shown one by one.**
-/

namespace LivingGuide.Markup

open Text

/-! ### Values and attributes -/

/-- **The value of an attribute**: text in quotes that holds no such quote, or a bare run without
blanks, quotes and `>` that does not end in a slash. -/
inductive Value where
  | quoted (quote : Char) (inner : List Char) (mark : quote = '"' ∨ quote = '\'')
      (closed : quote ∉ inner)
  | bare (cs : List Char) (nonempty : cs ≠ [])
      (plain : ∀ c ∈ cs, isBlank c = false ∧ c ∉ ['"', '\'', '>'])
      (noSlash : cs.getLast? ≠ some '/')

/-- A value as it is written. -/
def Value.chars : Value → List Char
  | .quoted quote inner _ _ => quote :: (inner ++ [quote])
  | .bare cs _ _ _ => cs

/-- A value behind an equals sign, with or without blanks around the sign. -/
structure Assignment where
  before : List Char
  behind : List Char
  value : Value
  blankBefore : ∀ c ∈ before, isBlank c = true
  blankBehind : ∀ c ∈ behind, isBlank c = true

/-- The equals sign with the blanks around it. -/
def Assignment.operator (a : Assignment) : List Char :=
  a.before ++ '=' :: a.behind

/-- **An attribute with the blanks before it**, and perhaps a value. -/
structure Attribute where
  gap : List Char
  name : List Char
  assignment : Option Assignment
  isGap : IsGap gap
  nonempty : name ≠ []
  plain : ∀ c ∈ name, isBlank c = false ∧ c ∉ ['=', '/', '>', '"', '\'']

/-- What stands behind the name of an attribute. -/
def Attribute.assigned (a : Attribute) : List Char :=
  match a.assignment with
  | none => []
  | some s => s.operator ++ s.value.chars

/-- An attribute as it is written. -/
def Attribute.chars (a : Attribute) : List Char :=
  a.gap ++ (a.name ++ a.assigned)

/-- Escaped text in a `span` of a class. -/
def span (className : String) (cs : List Char) : List Char :=
  spanStart className ++ escapeText cs ++ spanEnd

/-- **An attribute is shown as** its blanks, its name, and operator and value if it has them. -/
def Attribute.shown (a : Attribute) : List Char :=
  a.gap ++ (span "na" a.name ++
    match a.assignment with
    | none => []
    | some s => span "o" s.operator ++ span "s" s.value.chars)

/-! ### Blanks -/

/-- The blanks one by one. -/
def blanks : List Char :=
  blankRanges.flatMap fun range => (List.range' range.1 (range.2 - range.1 + 1)).map Char.ofNat

theorem mem_blanks {c : Char} (h : isBlank c = true) : c ∈ blanks := by
  obtain ⟨range, hrange, hc⟩ := List.any_eq_true.mp h
  rw [Bool.and_eq_true, decide_eq_true_iff, decide_eq_true_iff] at hc
  refine List.mem_flatMap.mpr ⟨range, hrange, List.mem_map.mpr ⟨c.toNat, ?_, Char.ofNat_toNat c⟩⟩
  rw [List.mem_range'_1]
  omega

theorem blank_spec {c : Char} (h : isBlank c = true) :
    isNameChar c = false ∧ isAttributeChar c = false ∧ isBareValueChar c = false ∧
      c ∉ ['&', '<', '>', '"', '\''] := by
  -- Decided blank by blank: `∀ c ∈ blanks` might be decided over all characters.
  have hall : blanks.all fun c => decide (isNameChar c = false ∧ isAttributeChar c = false ∧
      isBareValueChar c = false ∧ c ∉ ['&', '<', '>', '"', '\'']) := by
    decide +kernel
  exact List.all_iff_forall_prop.mp hall c (mem_blanks h)

theorem textEntity_blank {c : Char} (h : isBlank c = true) : textEntity c = [c] := by
  obtain ⟨-, -, -, hsign⟩ := blank_spec h
  obtain ⟨rfl, -⟩ | ⟨rfl, -⟩ | ⟨rfl, -⟩ | ⟨-, -, -, hself⟩ := textEntity_cases c
  · exact absurd hsign (by decide)
  · exact absurd hsign (by decide)
  · exact absurd hsign (by decide)
  · exact hself

theorem escapeText_blanks {cs : List Char} (h : ∀ c ∈ cs, isBlank c = true) :
    escapeText cs = cs := by
  induction cs with
  | nil => rfl
  | cons c cs ih =>
    obtain ⟨hc, hcs⟩ := List.forall_mem_cons.mp h
    show textEntity c ++ escapeText cs = c :: cs
    rw [textEntity_blank hc, ih hcs]
    rfl

/-! ### Names, operators and values -/

theorem html_consText (c : Char) (ps : List Piece) :
    (consText c ps).flatMap Piece.html = textEntity c ++ ps.flatMap Piece.html := by
  rw [consText.eq_def]
  split
  · next cs rest =>
    show (textEntity c ++ cs.flatMap textEntity) ++ rest.flatMap Piece.html =
      textEntity c ++ (cs.flatMap textEntity ++ rest.flatMap Piece.html)
    rw [List.append_assoc]
  · show textEntity c ++ [] ++ ps.flatMap Piece.html = textEntity c ++ ps.flatMap Piece.html
    rw [List.append_nil]

/-- The pieces of attributes as escaped text. -/
def attributeBody (cs : List Char) : List Char :=
  (attributePieces cs).flatMap Piece.html

theorem attributeBody_blanks {gap : List Char} (h : ∀ c ∈ gap, isBlank c = true)
    (rest : List Char) : attributeBody (gap ++ rest) = gap ++ attributeBody rest := by
  induction gap with
  | nil => rfl
  | cons c gap ih =>
    obtain ⟨hc, hgap⟩ := List.forall_mem_cons.mp h
    have hnot : ¬ isAttributeChar c = true := by
      rw [(blank_spec hc).2.1]
      exact Bool.false_ne_true
    have hstep : attributeBody (c :: (gap ++ rest)) =
        textEntity c ++ attributeBody (gap ++ rest) := by
      rw [attributeBody, attributePieces, if_neg hnot, html_consText, attributeBody]
    rw [List.cons_append, hstep, textEntity_blank hc, ih hgap]
    rfl

theorem attributeBody_name {name rest : List Char} (hne : name ≠ [])
    (hname : ∀ c ∈ name, isAttributeChar c = true)
    (hstop : ∀ c ∈ rest.head?, isAttributeChar c = false) :
    attributeBody (name ++ rest) = span "na" name ++
      match assignment? rest with
      | some (op, value, rest') => span "o" op ++ (span "s" value ++ attributeBody rest')
      | none => attributeBody rest := by
  obtain ⟨c, name, rfl⟩ := List.exists_cons_of_ne_nil hne
  obtain ⟨hc, hname⟩ := List.forall_mem_cons.mp hname
  obtain ⟨htake, hdrop⟩ := span_of_stop hname hstop
  rw [List.cons_append, attributeBody, attributePieces, if_pos hc]
  simp only [htake]
  split
  · next op value rest' h =>
    rw [hdrop] at h
    rw [h]
    rfl
  · next h =>
    rw [hdrop] at h
    rw [h, hdrop]
    rfl

theorem isAttributeChar_of_plain {c : Char}
    (h : isBlank c = false ∧ c ∉ ['=', '/', '>', '"', '\'']) : isAttributeChar c = true := by
  simp only [List.mem_cons, List.not_mem_nil, or_false, not_or] at h
  simp [isAttributeChar, isQuote, h]

theorem isBareValueChar_of_plain {c : Char}
    (h : isBlank c = false ∧ c ∉ ['"', '\'', '>']) : isBareValueChar c = true := by
  simp only [List.mem_cons, List.not_mem_nil, or_false, not_or] at h
  simp [isBareValueChar, isQuote, h]

theorem isQuote_iff {c : Char} : isQuote c = true ↔ c = '"' ∨ c = '\'' := by
  rw [isQuote, Bool.or_eq_true, beq_iff_eq, beq_iff_eq]

namespace Value

variable (v : Value)

/-- A value starts with a character that is no blank, so it is told apart from blanks before it. -/
theorem noLeadingBlank_append (rest : List Char) : NoLeadingBlank (v.chars ++ rest) := by
  intro c hc
  cases v with
  | quoted quote inner mark closed =>
    obtain rfl := Option.some.inj hc
    rcases mark with rfl | rfl
    · rfl
    · rfl
  | bare cs nonempty plain noSlash =>
    have hhead : cs.head? = some c := by
      rw [← List.head?_append_of_ne_nil cs nonempty]
      exact hc
    exact (plain c (List.mem_of_mem_head? hhead)).1

/-- **A value ends at a blank or at the end.** -/
theorem value?_append {rest : List Char} (hrest : ∀ c ∈ rest.head?, isBlank c = true) :
    value? (v.chars ++ rest) = some (v.chars, rest) := by
  cases v with
  | quoted quote inner mark closed =>
    have hinner : ∀ c ∈ inner, (c != quote) = true := by
      intro c hc
      rw [bne_iff_ne]
      rintro rfl
      exact closed hc
    have hstop : ∀ c ∈ (quote :: rest).head?, (c != quote) = false := by
      intro c hc
      obtain rfl := Option.some.inj hc
      exact bne_self_eq_false quote
    obtain ⟨htake, hdrop⟩ := span_of_stop hinner hstop
    show value? (quote :: (inner ++ [quote] ++ rest)) = some (quote :: (inner ++ [quote]), rest)
    rw [List.append_assoc, List.singleton_append, value?, if_pos (isQuote_iff.mpr mark), hdrop,
      htake]
    rfl
  | bare cs nonempty plain noSlash =>
    obtain ⟨c, cs, rfl⟩ := List.exists_cons_of_ne_nil nonempty
    obtain ⟨hc, hcs⟩ := List.forall_mem_cons.mp plain
    have hquote : ¬ isQuote c = true := by
      intro hquote
      rcases isQuote_iff.mp hquote with rfl | rfl
      · exact hc.2 (by decide)
      · exact hc.2 (by decide)
    obtain ⟨htake, hdrop⟩ := span_of_stop
      (fun d hd => isBareValueChar_of_plain (hcs d hd))
      (fun d hd => (blank_spec (hrest d hd)).2.2.1)
    show value? (c :: (cs ++ rest)) = some (c :: cs, rest)
    rw [value?, if_neg hquote, if_pos (isBareValueChar_of_plain hc), htake, hdrop]

end Value

theorem Assignment.assignment?_append (a : Assignment) {rest : List Char}
    (hrest : ∀ c ∈ rest.head?, isBlank c = true) :
    assignment? (a.operator ++ a.value.chars ++ rest) = some (a.operator, a.value.chars, rest) := by
  have hequals : ∀ c ∈ ('=' :: (a.behind ++ (a.value.chars ++ rest))).head?, isBlank c = false := by
    intro c hc
    obtain rfl := Option.some.inj hc
    rfl
  obtain ⟨htake, hdrop⟩ := span_of_stop a.blankBefore hequals
  obtain ⟨htake', hdrop'⟩ := span_of_stop a.blankBehind (a.value.noLeadingBlank_append rest)
  have hjoined : a.operator ++ a.value.chars ++ rest =
      a.before ++ '=' :: (a.behind ++ (a.value.chars ++ rest)) := by
    simp only [operator, List.append_assoc, List.cons_append]
  rw [hjoined, assignment?, hdrop]
  simp only [htake, htake', hdrop', a.value.value?_append hrest]
  rfl

/-- What may follow an attribute: nothing, or blanks and then no equals sign. -/
def Follows (rest : List Char) : Prop :=
  (∀ c ∈ rest.head?, isBlank c = true) ∧ (rest.dropWhile isBlank).head? ≠ some '='

theorem Follows.assignment?_eq {rest : List Char} (h : Follows rest) : assignment? rest = none := by
  rw [assignment?]
  split
  · next tail htail =>
    exact absurd (by rw [htail, List.head?_cons]) h.2
  · rfl

theorem follows_attributes (as : List Attribute) : Follows (as.flatMap Attribute.chars) := by
  cases as with
  | nil => exact ⟨nofun, nofun⟩
  | cons a as =>
    have hjoined : (a :: as).flatMap Attribute.chars =
        a.gap ++ (a.name ++ (a.assigned ++ as.flatMap Attribute.chars)) := by
      simp only [List.flatMap_cons, Attribute.chars, List.append_assoc]
    obtain ⟨c, name, hname⟩ := List.exists_cons_of_ne_nil a.nonempty
    have hc := a.plain c (by rw [hname]; exact List.mem_cons_self)
    rw [hjoined, hname]
    refine ⟨?_, ?_⟩
    · intro d hd
      rw [List.head?_append_of_ne_nil a.gap a.isGap.1] at hd
      exact a.isGap.2 d (List.mem_of_mem_head? hd)
    · have hstop : ∀ d ∈ (c :: name ++ (a.assigned ++ as.flatMap Attribute.chars)).head?,
          isBlank d = false := by
        intro d hd
        obtain rfl := Option.some.inj hd
        exact hc.1
      rw [(span_of_stop a.isGap.2 hstop).2]
      intro hequals
      obtain rfl := Option.some.inj hequals
      exact hc.2 (by decide)

/-- **An attribute ends where the next one starts.** -/
theorem Attribute.body_append (a : Attribute) {rest : List Char} (h : Follows rest) :
    attributeBody (a.chars ++ rest) = a.shown ++ attributeBody rest := by
  have hname : ∀ c ∈ a.name, isAttributeChar c = true := fun c hc =>
    isAttributeChar_of_plain (a.plain c hc)
  rw [chars, shown, List.append_assoc, List.append_assoc, attributeBody_blanks a.isGap.2]
  cases hassignment : a.assignment with
  | none =>
    have hstop : ∀ c ∈ rest.head?, isAttributeChar c = false := fun c hc =>
      (blank_spec (h.1 c hc)).2.1
    rw [assigned, hassignment, List.nil_append, attributeBody_name a.nonempty hname hstop,
      h.assignment?_eq]
    simp only [List.append_nil, List.append_assoc]
  | some s =>
    have hstop : ∀ c ∈ (s.operator ++ s.value.chars ++ rest).head?, isAttributeChar c = false := by
      intro c hc
      cases hbefore : s.before with
      | nil =>
        rw [Assignment.operator, hbefore] at hc
        obtain rfl := Option.some.inj hc
        rfl
      | cons d before =>
        rw [Assignment.operator, hbefore] at hc
        obtain rfl := Option.some.inj hc
        exact (blank_spec (s.blankBefore d (by rw [hbefore]; exact List.mem_cons_self))).2.1
    rw [assigned, hassignment]
    simp only
    rw [attributeBody_name a.nonempty hname hstop, s.assignment?_append h.1]
    simp only [List.append_assoc]

theorem attributeBody_attributes (as : List Attribute) :
    attributeBody (as.flatMap Attribute.chars) = as.flatMap Attribute.shown := by
  induction as with
  | nil =>
    rw [List.flatMap_nil, attributeBody, attributePieces]
    rfl
  | cons a as ih =>
    rw [List.flatMap_cons, a.body_append (follows_attributes as), ih, List.flatMap_cons]

/-! ### Passing over attributes -/

/-- **A text that the search for the end of a tag passes**: it ends no tag, and no quote is open
behind it. -/
def Passes (cs : List Char) : Prop :=
  ∀ rest, tagBody? none (cs ++ rest) =
    (tagBody? none rest).map fun found => (cs ++ found.1, found.2)

theorem passes_nil : Passes [] := by
  intro rest
  rw [List.nil_append]
  cases tagBody? none rest with
  | none => rfl
  | some found => rfl

theorem Passes.append {cs ds : List Char} (hcs : Passes cs) (hds : Passes ds) :
    Passes (cs ++ ds) := by
  intro rest
  rw [List.append_assoc, hcs, hds, Option.map_map]
  simp only [Function.comp_def, List.append_assoc]

theorem passes_flatMap {α : Type} {f : α → List Char} {xs : List α} (h : ∀ x ∈ xs, Passes (f x)) :
    Passes (xs.flatMap f) := by
  induction xs with
  | nil => exact passes_nil
  | cons x xs ih =>
    obtain ⟨hx, hxs⟩ := List.forall_mem_cons.mp h
    rw [List.flatMap_cons]
    exact hx.append (ih hxs)

theorem passes_of_forall {cs : List Char} (h : ∀ c ∈ cs, c ∉ ['"', '\'', '>']) : Passes cs := by
  induction cs with
  | nil => exact passes_nil
  | cons c cs ih =>
    obtain ⟨hc, hcs⟩ := List.forall_mem_cons.mp h
    simp only [List.mem_cons, List.not_mem_nil, or_false, not_or] at hc
    have hend : ¬ (c == '>') = true := fun heq => hc.2.2 (beq_iff_eq.mp heq)
    have hquote : ¬ isQuote c = true := by
      rw [isQuote_iff, not_or]
      exact ⟨hc.1, hc.2.1⟩
    intro rest
    rw [List.cons_append, tagBody?, if_neg hend, if_neg hquote, ih hcs rest, Option.map_map]
    rfl

theorem tagBody?_closed {quote : Char} {inner : List Char} (h : quote ∉ inner) (rest : List Char) :
    tagBody? (some quote) (inner ++ quote :: rest) =
      (tagBody? none rest).map fun found => (inner ++ quote :: found.1, found.2) := by
  induction inner with
  | nil => rw [List.nil_append, tagBody?, if_pos (beq_self_eq_true quote)]; rfl
  | cons c inner ih =>
    rw [List.mem_cons, not_or] at h
    have hc : ¬ (c == quote) = true := fun heq => h.1 (beq_iff_eq.mp heq).symm
    rw [List.cons_append, tagBody?, if_neg hc, ih h.2, Option.map_map]
    rfl

theorem passes_blanks {gap : List Char} (h : ∀ c ∈ gap, isBlank c = true) : Passes gap := by
  apply passes_of_forall
  intro c hc
  obtain ⟨-, -, -, hsign⟩ := blank_spec (h c hc)
  have hsub : ['"', '\'', '>'] ⊆ ['&', '<', '>', '"', '\''] := by decide
  exact fun hmem => hsign (hsub hmem)

theorem Value.passes (v : Value) : Passes v.chars := by
  cases v with
  | quoted quote inner mark closed =>
    have hend : ¬ (quote == '>') = true := by
      rcases mark with rfl | rfl
      · decide
      · decide
    intro rest
    show tagBody? none (quote :: (inner ++ [quote] ++ rest)) = _
    rw [List.append_assoc, List.singleton_append, tagBody?, if_neg hend,
      if_pos (isQuote_iff.mpr mark), tagBody?_closed closed, Option.map_map]
    simp only [Function.comp_def, chars, List.cons_append, List.append_assoc, List.nil_append]
  | bare cs nonempty plain noSlash =>
    apply passes_of_forall
    intro c hc
    exact (plain c hc).2

theorem Attribute.passes (a : Attribute) : Passes a.chars := by
  have hname : Passes a.name := by
    apply passes_of_forall
    intro c hc
    have hsub : ['"', '\'', '>'] ⊆ ['=', '/', '>', '"', '\''] := by decide
    exact fun hmem => (a.plain c hc).2 (hsub hmem)
  have hassigned : Passes a.assigned := by
    rw [assigned]
    cases a.assignment with
    | none => exact passes_nil
    | some s =>
      have hequals : Passes ['='] :=
        passes_of_forall (List.forall_mem_singleton.mpr (by decide))
      have hoperator : Passes s.operator :=
        (passes_blanks s.blankBefore).append (hequals.append (passes_blanks s.blankBehind))
      exact hoperator.append s.value.passes
  exact (passes_blanks a.isGap.2).append (hname.append hassigned)

/-! ### How attributes end -/

/-- Whether a text ends neither in a blank nor in a slash. -/
def Closed (cs : List Char) : Prop :=
  ∀ c ∈ cs.getLast?, isBlank c = false ∧ c ≠ '/'

theorem Closed.append {cs ds : List Char} (h : Closed ds) (hne : ds ≠ []) : Closed (cs ++ ds) := by
  rw [Closed, List.getLast?_append_of_ne_nil cs hne]
  exact h

theorem Value.closed (v : Value) : Closed v.chars ∧ v.chars ≠ [] := by
  cases v with
  | quoted quote inner mark _ =>
    refine ⟨?_, List.cons_ne_nil _ _⟩
    intro c hc
    have hlast : (quote :: (inner ++ [quote])).getLast? = some quote := by
      rw [← List.cons_append, List.getLast?_concat]
    obtain rfl := Option.some.inj (hlast.symm.trans hc)
    rcases mark with rfl | rfl
    · exact ⟨rfl, by decide⟩
    · exact ⟨rfl, by decide⟩
  | bare cs nonempty plain noSlash =>
    refine ⟨?_, nonempty⟩
    intro c hc
    refine ⟨(plain c (List.mem_of_getLast? hc)).1, ?_⟩
    rintro rfl
    exact noSlash hc

theorem Attribute.closed (a : Attribute) : Closed a.chars ∧ a.chars ≠ [] := by
  have hname : Closed a.name := by
    intro c hc
    obtain ⟨hblank, hsign⟩ := a.plain c (List.mem_of_getLast? hc)
    refine ⟨hblank, ?_⟩
    rintro rfl
    exact hsign (by decide)
  have hrest : Closed (a.name ++ a.assigned) ∧ a.name ++ a.assigned ≠ [] := by
    refine ⟨?_, List.append_ne_nil_of_left_ne_nil a.nonempty _⟩
    rw [assigned]
    cases a.assignment with
    | none => rwa [List.append_nil]
    | some s =>
      rw [← List.append_assoc]
      exact s.value.closed.1.append s.value.closed.2
  exact ⟨hrest.1.append hrest.2, List.append_ne_nil_of_right_ne_nil _ hrest.2⟩

theorem closed_attributes (as : List Attribute) : Closed (as.flatMap Attribute.chars) := by
  rcases List.eq_nil_or_concat' as with rfl | ⟨as, a, rfl⟩
  · exact nofun
  · rw [List.flatMap_append, List.flatMap_singleton]
    exact a.closed.1.append a.closed.2

end LivingGuide.Markup
