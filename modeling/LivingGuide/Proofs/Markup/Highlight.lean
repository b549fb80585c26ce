import LivingGuide.Markup.Highlight
import LivingGuide.Proofs.Markup.Pieces

/-!
# Highlighted markup is the markup

What `highlight` writes can be taken back.  Its body is a flat run of escaped text and of `span`s
around escaped text (`Highlighted`): escaping leaves no `<` and no `>`, so the only tags are those
of the `span`s.  Deleting these and reading the entities gives the markup, by

    eraseSpans (highlightBody markup) = escapeText markup,
    readEntities (escapeText cs) = cs,

the first because the pieces of markup are all of the markup (`covers_pieces`), the second because
no character but `&` starts an entity.
-/

namespace LivingGuide.Markup

/-! ### Entities -/

/-- A text in which no tag can start or end. -/
def Plain (cs : List Char) : Prop :=
  '<' ∉ cs ∧ '>' ∉ cs

/-- **The entities of a text read as the characters they stand for**, from left to right. -/
def readEntities : List Char → List Char
  | [] => []
  | '&' :: 'l' :: 't' :: ';' :: cs => '<' :: readEntities cs
  | '&' :: 'g' :: 't' :: ';' :: cs => '>' :: readEntities cs
  | '&' :: 'a' :: 'm' :: 'p' :: ';' :: cs => '&' :: readEntities cs
  | c :: cs => c :: readEntities cs

theorem textEntity_cases (c : Char) :
    (c = '&' ∧ textEntity c = "&amp;".toList) ∨ (c = '<' ∧ textEntity c = "&lt;".toList) ∨
      (c = '>' ∧ textEntity c = "&gt;".toList) ∨
        (c ≠ '&' ∧ c ≠ '<' ∧ c ≠ '>' ∧ textEntity c = [c]) := by
  rw [textEntity.eq_def]
  split
  · exact .inl ⟨rfl, rfl⟩
  · exact .inr (.inl ⟨rfl, rfl⟩)
  · exact .inr (.inr (.inl ⟨rfl, rfl⟩))
  · next hamp hlt hgt => exact .inr (.inr (.inr ⟨hamp, hlt, hgt, rfl⟩))

theorem plain_textEntity (c : Char) : Plain (textEntity c) := by
  obtain ⟨-, h⟩ | ⟨-, h⟩ | ⟨-, h⟩ | ⟨-, hlt, hgt, h⟩ := textEntity_cases c
  · rw [h]; exact ⟨by decide, by decide⟩
  · rw [h]; exact ⟨by decide, by decide⟩
  · rw [h]; exact ⟨by decide, by decide⟩
  · rw [h]
    exact ⟨fun hmem => hlt (List.mem_singleton.mp hmem).symm,
      fun hmem => hgt (List.mem_singleton.mp hmem).symm⟩

theorem textEntity_ne_nil (c : Char) : textEntity c ≠ [] := by
  obtain ⟨-, h⟩ | ⟨-, h⟩ | ⟨-, h⟩ | ⟨-, -, -, h⟩ := textEntity_cases c
  · rw [h]; decide
  · rw [h]; decide
  · rw [h]; decide
  · rw [h]; exact List.cons_ne_nil c []

/-- **Escaped text holds no tag.** -/
theorem plain_escapeText (cs : List Char) : Plain (escapeText cs) := by
  refine ⟨fun h => ?_, fun h => ?_⟩
  · obtain ⟨c, -, hc⟩ := List.mem_flatMap.mp h
    exact (plain_textEntity c).1 hc
  · obtain ⟨c, -, hc⟩ := List.mem_flatMap.mp h
    exact (plain_textEntity c).2 hc

theorem escapeText_ne_nil {cs : List Char} (h : cs ≠ []) : escapeText cs ≠ [] := by
  cases cs with
  | nil => exact absurd rfl h
  | cons c cs =>
    rw [escapeText, List.flatMap_cons]
    exact List.append_ne_nil_of_left_ne_nil (textEntity_ne_nil c) _

theorem readEntities_cons {c : Char} (hc : c ≠ '&') (cs : List Char) :
    readEntities (c :: cs) = c :: readEntities cs := by
  rw [readEntities.eq_def]
  split
  · next h => cases h
  · next h => cases h; exact absurd rfl hc
  · next h => cases h; exact absurd rfl hc
  · next h => cases h; exact absurd rfl hc
  · next h => cases h; rfl

theorem readEntities_textEntity_append (c : Char) (rest : List Char) :
    readEntities (textEntity c ++ rest) = c :: readEntities rest := by
  obtain ⟨rfl, h⟩ | ⟨rfl, h⟩ | ⟨rfl, h⟩ | ⟨hc, -, -, h⟩ := textEntity_cases c
  · rw [h]; rfl
  · rw [h]; rfl
  · rw [h]; rfl
  · rw [h, List.singleton_append, readEntities_cons hc]

/-- **Escaped text is read back.** -/
theorem readEntities_escapeText (cs : List Char) : readEntities (escapeText cs) = cs := by
  induction cs with
  | nil => rfl
  | cons c cs ih =>
    rw [escapeText, List.flatMap_cons, readEntities_textEntity_append]
    exact congrArg (c :: ·) ih

/-! ### Spans -/

/-- The classes that mark tokens. -/
def tokenClasses : List String :=
  ["c", "nt", "na", "o", "s", "p"]

/-- The tag that opens a `span` of a class. -/
def spanStart (className : String) : List Char :=
  "<span class=\"".toList ++ className.toList ++ "\">".toList

/-- The tag that closes a `span`. -/
def spanEnd : List Char :=
  "</span>".toList

/-- The tags of the `span`s of tokens. -/
def spanTags : List (List Char) :=
  spanEnd :: tokenClasses.map spanStart

/-- **A flat run of text and `span`s**: the text holds no tag, inside and outside the `span`s, and
no `span` is empty. -/
inductive Highlighted : List Char → Prop
  | nil : Highlighted []
  | text {cs rest : List Char} : Plain cs → Highlighted rest → Highlighted (cs ++ rest)
  | span {className : String} {cs rest : List Char} : className ∈ tokenClasses → cs ≠ [] →
      Plain cs → Highlighted rest →
        Highlighted (spanStart className ++ cs ++ spanEnd ++ rest)

/-- **A text without the tags of `span`s**, from left to right. -/
def eraseSpans : List Char → List Char
  | [] => []
  | c :: cs =>
    match spanTags.find? (·.isPrefixOf (c :: cs)) with
    | some tag => eraseSpans (cs.drop (tag.length - 1))
    | none => c :: eraseSpans cs
termination_by cs => cs.length
decreasing_by
  · simp only [List.length_drop, List.length_cons]
    omega
  · simp

theorem eq_of_mem_spanTags : ∀ s ∈ spanTags, ∀ t ∈ spanTags, s <+: t → s = t := by
  decide

theorem head?_of_mem_spanTags : ∀ tag ∈ spanTags, tag.head? = some '<' := by
  decide

theorem spanTag_of_find? {cs tag : List Char} (h : spanTags.find? (·.isPrefixOf cs) = some tag) :
    tag ∈ spanTags ∧ tag <+: cs := by
  refine ⟨List.mem_of_find?_eq_some h, ?_⟩
  have hpre := List.find?_some h
  exact List.isPrefixOf_iff_prefix.mp hpre

theorem eraseSpans_tag_append {tag : List Char} (htag : tag ∈ spanTags) (rest : List Char) :
    eraseSpans (tag ++ rest) = eraseSpans rest := by
  cases tag with
  | nil => exact absurd (head?_of_mem_spanTags [] htag) (by simp)
  | cons c cs =>
    have hstarts : (c :: cs) <+: (c :: (cs ++ rest)) := List.prefix_append (c :: cs) rest
    -- A tag that also stands at the beginning is comparable with this one, so it is this one.
    have honly : ∀ tag ∈ spanTags, tag <+: (c :: (cs ++ rest)) → tag = c :: cs := by
      intro tag hmem hpre
      rcases List.prefix_or_prefix_of_prefix hpre hstarts with h | h
      · exact eq_of_mem_spanTags tag hmem _ htag h
      · exact (eq_of_mem_spanTags _ htag tag hmem h).symm
    rw [List.cons_append, eraseSpans]
    split
    · next tag hfind =>
      obtain ⟨hmem, hpre⟩ := spanTag_of_find? hfind
      have hrest : (cs ++ rest).drop ((c :: cs).length - 1) = rest := List.drop_left
      rw [honly tag hmem hpre, hrest]
    · next hfind =>
      have hnot := List.find?_eq_none.mp hfind _ htag
      exact absurd (List.isPrefixOf_iff_prefix.mpr hstarts) hnot

theorem eraseSpans_cons {c : Char} (hc : c ≠ '<') (cs : List Char) :
    eraseSpans (c :: cs) = c :: eraseSpans cs := by
  rw [eraseSpans]
  split
  · next tag hfind =>
    obtain ⟨hmem, rest, hrest⟩ := spanTag_of_find? hfind
    have hhead := head?_of_mem_spanTags tag hmem
    cases tag with
    | nil => cases hhead
    | cons d ds =>
      cases hhead
      exact absurd (List.cons.inj hrest).1.symm hc
  · rfl

theorem eraseSpans_plain_append {cs : List Char} (h : Plain cs) (rest : List Char) :
    eraseSpans (cs ++ rest) = cs ++ eraseSpans rest := by
  obtain ⟨hlt, -⟩ := h
  induction cs with
  | nil => rfl
  | cons c cs ih =>
    rw [List.mem_cons, not_or] at hlt
    rw [List.cons_append, eraseSpans_cons (Ne.symm hlt.1), ih hlt.2, List.cons_append]

/-! ### Pieces -/

theorem className_mem_tokenClasses (role : Role) : role.className ∈ tokenClasses := by
  cases role <;> decide

theorem html_token (role : Role) (cs : List Char) :
    (Piece.token role cs).html = spanStart role.className ++ escapeText cs ++ spanEnd := rfl

theorem highlighted_html {ps : List Piece} (h : ∀ p ∈ ps, p.chars ≠ []) :
    Highlighted (ps.flatMap Piece.html) := by
  induction ps with
  | nil => exact .nil
  | cons p ps ih =>
    have hps := ih fun q hq => h q (List.mem_cons_of_mem p hq)
    rw [List.flatMap_cons]
    cases p with
    | text cs => exact .text (plain_escapeText cs) hps
    | token role cs =>
      exact .span (className_mem_tokenClasses role)
        (escapeText_ne_nil (h (.token role cs) List.mem_cons_self)) (plain_escapeText cs) hps

theorem eraseSpans_html_append (p : Piece) (rest : List Char) :
    eraseSpans (p.html ++ rest) = escapeText p.chars ++ eraseSpans rest := by
  cases p with
  | text cs => exact eraseSpans_plain_append (plain_escapeText cs) rest
  | token role cs =>
    have hstart : spanStart role.className ∈ spanTags :=
      List.mem_cons_of_mem _ (List.mem_map_of_mem (className_mem_tokenClasses role))
    have hend : spanEnd ∈ spanTags := List.mem_cons_self
    rw [html_token, List.append_assoc, List.append_assoc, eraseSpans_tag_append hstart,
      eraseSpans_plain_append (plain_escapeText cs), eraseSpans_tag_append hend]
    rfl

theorem eraseSpans_html (ps : List Piece) :
    eraseSpans (ps.flatMap Piece.html) = escapeText (ps.flatMap Piece.chars) := by
  induction ps with
  | nil => rw [List.flatMap_nil, eraseSpans]; rfl
  | cons p ps ih =>
    rw [List.flatMap_cons, eraseSpans_html_append, ih, List.flatMap_cons]
    exact List.flatMap_append.symm

/-! ### Highlighted markup -/

theorem highlight_eq (markup : String) :
    highlight markup = "<div class=\"highlight\"><pre>"
      ++ String.ofList (highlightBody markup.toList) ++ "</pre></div>" := by
  unfold highlight
  rfl

theorem readEntities_eraseSpans_highlightBody (markup : List Char) :
    readEntities (eraseSpans (highlightBody markup)) = markup := by
  rw [highlightBody, eraseSpans_html, (covers_pieces markup).chars, readEntities_escapeText]

theorem highlightBody_injective : Function.Injective highlightBody := by
  intro m₁ m₂ h
  rw [← readEntities_eraseSpans_highlightBody m₁, h, readEntities_eraseSpans_highlightBody]

/-- **Highlighting loses and invents no text, and lets no markup through.**  Highlighted markup is,
in one frame, a flat run of text and `span`s; deleting the tags of the `span`s and reading the
entities gives back the markup, so different markup is highlighted differently. -/
theorem highlight_lossless :
    (∀ markup : String, ∃ body : List Char,
      highlight markup
          = "<div class=\"highlight\"><pre>" ++ String.ofList body ++ "</pre></div>" ∧
        Highlighted body ∧ readEntities (eraseSpans body) = markup.toList) ∧
      Function.Injective highlight := by
  refine ⟨fun markup => ?_, fun m₁ m₂ h => ?_⟩
  · refine ⟨highlightBody markup.toList, highlight_eq markup, ?_, ?_⟩
    · exact highlighted_html (covers_pieces markup.toList).nonempty
    · exact readEntities_eraseSpans_highlightBody markup.toList
  · have hchars := congrArg String.toList h
    simp only [highlight_eq, String.toList_append, String.toList_ofList] at hchars
    have hbody := List.append_cancel_left (List.append_cancel_right hchars)
    exact String.toList_inj.mp (highlightBody_injective hbody)

end LivingGuide.Markup
