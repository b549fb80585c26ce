import LivingGuide.Proofs.Markup.Attribute

/-!
# Well-formed documents are cut at their seams

A document is a sequence of parts: text without `<`, comments, and tags with attributes.  `Part`
says what these are, each part with the proof that it is well-formed, how it is written (`chars`)
and how it is to be shown (`shown`).  Highlighting cuts markup by searching ahead, and it cuts a
document exactly at its seams,

    highlightBody (part.chars ++ rest) = part.shown ++ highlightBody rest,

whatever the rest is (`highlightBody_part`).  The searches are followed one by one: a comment ends
at its own `-->` (`splitAtFirst_comment`), the name of a tag ends before its attributes
(`Tag.name_stops`), the first `>` outside quotes is that of the tag (`Tag.tagBody?_eq`), and its
blanks and slash are found from behind (`cutTagEnd_eq`).

* `Tag`, `Part`: well-formed documents.
* `highlight_document`: **every well-formed document is shown part by part.**
-/

namespace LivingGuide.Markup

open Text

/-! ### Documents -/

/-- **A tag**: its name is a letter and then word characters, colons, dots and hyphens. -/
structure Tag where
  closing : Bool
  first : Char
  more : List Char
  attributes : List Attribute
  gap : List Char
  selfClosing : Bool
  letter : first.isAlpha = true
  word : ∀ c ∈ more, isWord c = true ∨ c ∈ [':', '.', '-']
  blank : ∀ c ∈ gap, isBlank c = true

namespace Tag

/-- The signs that open a tag. -/
def opening (t : Tag) : List Char :=
  if t.closing then ['<', '/'] else ['<']

/-- The name of a tag. -/
def name (t : Tag) : List Char :=
  t.first :: t.more

/-- The slash at the end of a tag that closes itself. -/
def slash (t : Tag) : List Char :=
  if t.selfClosing then ['/'] else []

/-- The attributes of a tag as they are written. -/
def inside (t : Tag) : List Char :=
  t.attributes.flatMap Attribute.chars

/-- A tag as it is written. -/
def chars (t : Tag) : List Char :=
  t.opening ++ (t.name ++ (t.inside ++ (t.gap ++ (t.slash ++ ['>']))))

end Tag

/-- **A part of a document.** -/
inductive Part where
  | text (cs : List Char) (plain : '<' ∉ cs)
  | comment (body : List Char) (closed : ¬ "-->".toList <:+: body)
  | tag (t : Tag)

/-- A part as it is written. -/
def Part.chars : Part → List Char
  | .text cs _ => cs
  | .comment body _ => "<!--".toList ++ (body ++ "-->".toList)
  | .tag t => t.chars

/-- **A tag is shown as** its opening, its name, its attributes, blanks and its end. -/
def Tag.shown (t : Tag) : List Char :=
  span "p" t.opening ++ (span "nt" t.name ++ (t.attributes.flatMap Attribute.shown ++
    (t.gap ++ span "p" (t.slash ++ ['>']))))

/-- A part as it is to be shown. -/
def Part.shown : Part → List Char
  | .text cs _ => escapeText cs
  | .comment body _ => span "c" ("<!--".toList ++ (body ++ "-->".toList))
  | .tag t => t.shown

/-! ### Text and comments -/

theorem highlightBody_text {cs : List Char} (h : '<' ∉ cs) (rest : List Char) :
    highlightBody (cs ++ rest) = escapeText cs ++ highlightBody rest := by
  induction cs with
  | nil => rfl
  | cons c cs ih =>
    rw [List.mem_cons, not_or] at h
    have hc : ¬ (c == '<') = true := fun heq => h.1 (beq_iff_eq.mp heq).symm
    have hstep : highlightBody (c :: (cs ++ rest)) =
        textEntity c ++ highlightBody (cs ++ rest) := by
      rw [highlightBody, pieces, if_neg hc, html_consText, highlightBody]
    rw [List.cons_append, hstep, ih h.2, ← List.append_assoc]
    rfl

theorem highlightBody_construct {cs rest : List Char} {found : List Piece}
    (h : construct? cs = some (found, rest)) :
    highlightBody ('<' :: cs) = found.flatMap Piece.html ++ highlightBody rest := by
  rw [highlightBody, pieces, if_pos (beq_self_eq_true '<')]
  split
  · next found' rest' h' =>
    obtain ⟨rfl, rfl⟩ := Prod.mk.inj (Option.some.inj (h.symm.trans h'))
    rw [List.flatMap_append, highlightBody]
  · next h' =>
    rw [h] at h'
    cases h'

/-- **A comment ends at its own end.**  The sign `-->` has no end that is also its beginning, so an
earlier one would lie in the body. -/
theorem splitAtFirst_comment {body : List Char} (h : ¬ "-->".toList <:+: body) (rest : List Char) :
    splitAtFirst "-->".toList (body ++ ("-->".toList ++ rest)) = some (body, rest) := by
  induction body with
  | nil => rfl
  | cons c body ih =>
    have hlater : ¬ "-->".toList <:+: body := fun hinfix => h (List.infix_cons hinfix)
    have hhere : ¬ "-->".toList.isPrefixOf (c :: (body ++ ("-->".toList ++ rest))) = true := by
      intro hprefix
      obtain ⟨tail, htail⟩ := List.isPrefixOf_iff_prefix.mp hprefix
      obtain ⟨hc, htail⟩ := List.cons.inj htail
      cases body with
      | nil => exact absurd (List.cons.inj (List.cons.inj htail).2).1 (by decide)
      | cons d body =>
        obtain ⟨hd, htail⟩ := List.cons.inj htail
        cases body with
        | nil => exact absurd (List.cons.inj htail).1 (by decide)
        | cons e body =>
          have he := (List.cons.inj htail).1
          subst hc hd he
          exact h (List.prefix_append "-->".toList body).isInfix
    rw [List.cons_append, splitAtFirst, if_neg hhere, ih hlater]
    rfl

theorem construct?_comment {body : List Char} (h : ¬ "-->".toList <:+: body) (rest : List Char) :
    construct? ("!--".toList ++ (body ++ ("-->".toList ++ rest))) =
      some ([.token .comment ("<!--".toList ++ body ++ "-->".toList)], rest) := by
  show (splitAtFirst "-->".toList (body ++ ("-->".toList ++ rest))).map _ = _
  rw [splitAtFirst_comment h]
  rfl

/-! ### The inside of a tag -/

/-- **The blanks and the slash of a tag are found from behind.** -/
theorem cutTagEnd_eq {attributes gap : List Char} (hclosed : Closed attributes)
    (hgap : ∀ c ∈ gap, isBlank c = true) (selfClosing : Bool) :
    cutTagEnd (attributes ++ (gap ++ if selfClosing then ['/'] else [])) =
      (attributes, gap, if selfClosing then ['/'] else []) := by
  have hstop : ∀ c ∈ attributes.reverse.head?, isBlank c = false := by
    intro c hc
    rw [List.head?_reverse] at hc
    exact (hclosed c hc).1
  have hblanks : ∀ c ∈ gap.reverse, isBlank c = true := by
    intro c hc
    exact hgap c (List.mem_reverse.mp hc)
  obtain ⟨htake, hdrop⟩ := span_of_stop hblanks hstop
  cases selfClosing with
  | true =>
    have hreverse : (attributes ++ (gap ++ ['/'])).reverse =
        '/' :: (gap.reverse ++ attributes.reverse) := by
      rw [List.reverse_append, List.reverse_append]
      rfl
    rw [if_pos rfl, cutTagEnd, hreverse]
    simp only [htake, hdrop, List.reverse_reverse]
  | false =>
    have hreverse : (attributes ++ (gap ++ [])).reverse = gap.reverse ++ attributes.reverse := by
      rw [List.append_nil, List.reverse_append]
    have hhead : (gap.reverse ++ attributes.reverse).head? ≠ some '/' := by
      intro hslash
      cases hcases : gap.reverse with
      | nil =>
        rw [hcases, List.nil_append, List.head?_reverse] at hslash
        exact (hclosed '/' hslash).2 rfl
      | cons c rest =>
        rw [hcases] at hslash
        obtain rfl := Option.some.inj hslash
        exact absurd (hblanks '/' (by rw [hcases]; exact List.mem_cons_self)) (by decide)
    rw [if_neg Bool.false_ne_true, cutTagEnd, hreverse]
    split
    next slash rest hcut =>
      split at hcut
      · next tail htail =>
        rw [htail] at hhead
        exact absurd rfl hhead
      · cases hcut
        rw [htake, hdrop, List.reverse_reverse, List.reverse_reverse]

namespace Tag

variable (t : Tag)

/-- **The first `>` outside quotes is that of the tag.** -/
theorem tagBody?_eq (rest : List Char) :
    tagBody? none (t.inside ++ (t.gap ++ (t.slash ++ '>' :: rest))) =
      some (t.inside ++ (t.gap ++ t.slash), rest) := by
  have hslash : Passes t.slash := by
    rw [slash]
    cases t.selfClosing with
    | true => exact passes_of_forall (List.forall_mem_singleton.mpr (by decide))
    | false => exact passes_nil
  have hpasses : Passes (t.inside ++ (t.gap ++ t.slash)) :=
    (passes_flatMap fun a _ => a.passes).append ((passes_blanks t.blank).append hslash)
  have hfound := hpasses ('>' :: rest)
  simp only [List.append_assoc] at hfound
  rw [hfound, tagBody?, if_pos (beq_self_eq_true '>')]
  simp only [Option.map_some, List.append_nil]

theorem name_stops (rest : List Char) :
    ∀ c ∈ (t.inside ++ (t.gap ++ (t.slash ++ '>' :: rest))).head?, isNameChar c = false := by
  intro c hc
  have hblank : ∀ (gap : List Char) (tail : List Char), (∀ d ∈ gap, isBlank d = true) →
      gap ≠ [] → c ∈ (gap ++ tail).head? → isNameChar c = false := by
    intro gap tail hgap hne hmem
    rw [List.head?_append_of_ne_nil gap hne] at hmem
    exact (blank_spec (hgap c (List.mem_of_mem_head? hmem))).1
  rw [inside] at hc
  cases hattributes : t.attributes with
  | cons a as =>
    rw [hattributes, List.flatMap_cons, Attribute.chars] at hc
    simp only [List.append_assoc] at hc
    exact hblank a.gap _ a.isGap.2 a.isGap.1 hc
  | nil =>
    rw [hattributes, List.flatMap_nil, List.nil_append] at hc
    by_cases hgap : t.gap = []
    · rw [hgap, List.nil_append, slash] at hc
      cases hself : t.selfClosing with
      | true =>
        rw [hself] at hc
        obtain rfl := Option.some.inj hc
        decide +kernel
      | false =>
        rw [hself] at hc
        obtain rfl := Option.some.inj hc
        decide +kernel
    · exact hblank t.gap _ t.blank hgap hc

/-- The pieces of a tag. -/
def cut : List Piece :=
  .token .punctuation t.opening :: .token .tagName t.name ::
    (attributePieces t.inside ++ textThen t.gap [.token .punctuation (t.slash ++ ['>'])])

theorem tag?_eq (rest : List Char) :
    tag? t.opening (t.name ++ (t.inside ++ (t.gap ++ (t.slash ++ '>' :: rest)))) =
      some (t.cut, rest) := by
  have hmore : ∀ c ∈ t.more, isNameChar c = true := by
    intro c hc
    have hword := t.word c hc
    simp only [List.mem_cons, List.not_mem_nil, or_false] at hword
    simp only [isNameChar, Bool.or_eq_true, beq_iff_eq, or_assoc]
    exact hword
  obtain ⟨htake, hdrop⟩ := span_of_stop hmore (t.name_stops rest)
  have hcut : cutTagEnd (t.inside ++ (t.gap ++ t.slash)) = (t.inside, t.gap, t.slash) :=
    cutTagEnd_eq (closed_attributes t.attributes) t.blank t.selfClosing
  rw [name, List.cons_append, tag?, if_pos t.letter, hdrop, t.tagBody?_eq]
  simp only [htake, Option.map_some, hcut]
  rfl

/-- The name of a tag starts with a letter, so no tag is taken for a comment or for a tag of the
other kind. -/
theorem construct?_eq (rest : List Char) :
    ∃ tail, t.chars ++ rest = '<' :: tail ∧ construct? tail = some (t.cut, rest) := by
  have htag := t.tag?_eq rest
  have hchars : t.chars ++ rest =
      t.opening ++ (t.name ++ (t.inside ++ (t.gap ++ (t.slash ++ '>' :: rest)))) := by
    simp only [chars, List.append_assoc, List.singleton_append]
  rw [hchars]
  cases hclosing : t.closing with
  | true =>
    rw [opening, hclosing, if_pos rfl] at htag ⊢
    exact ⟨_, rfl, htag⟩
  | false =>
    rw [opening, hclosing, if_neg Bool.false_ne_true] at htag ⊢
    refine ⟨_, rfl, ?_⟩
    rw [construct?.eq_def]
    split
    · next h =>
      have hletter := t.letter
      rw [(List.cons.inj h).1] at hletter
      exact absurd hletter (by decide)
    · next h =>
      have hletter := t.letter
      rw [(List.cons.inj h).1] at hletter
      exact absurd hletter (by decide)
    · exact htag

theorem html_cut : t.cut.flatMap Piece.html = t.shown := by
  have hend : (textThen t.gap [.token .punctuation (t.slash ++ ['>'])]).flatMap Piece.html =
      t.gap ++ span "p" (t.slash ++ ['>']) := by
    rw [textThen]
    split
    · next h =>
      rw [List.isEmpty_iff.mp h, List.flatMap_singleton]
      rfl
    · show escapeText t.gap ++ (span "p" (t.slash ++ ['>']) ++ []) = _
      rw [escapeText_blanks t.blank, List.append_nil]
  show span "p" t.opening ++ (span "nt" t.name ++ List.flatMap Piece.html (_ ++ _)) = _
  rw [List.flatMap_append, hend]
  show _ ++ (_ ++ (attributeBody t.inside ++ _)) = _
  rw [inside, attributeBody_attributes, shown]

end Tag

/-! ### Whole documents -/

/-- **A part is shown, and then what follows it.** -/
theorem highlightBody_part (part : Part) (rest : List Char) :
    highlightBody (part.chars ++ rest) = part.shown ++ highlightBody rest := by
  cases part with
  | text cs plain => exact highlightBody_text plain rest
  | comment body closed =>
    have hchars : (Part.comment body closed).chars ++ rest =
        '<' :: ("!--".toList ++ (body ++ ("-->".toList ++ rest))) := by
      show "<!--".toList ++ (body ++ "-->".toList) ++ rest = _
      simp only [List.append_assoc]
      rfl
    rw [hchars, highlightBody_construct (construct?_comment closed rest), List.flatMap_singleton,
      html_token, List.append_assoc "<!--".toList]
    rfl
  | tag t =>
    obtain ⟨tail, hchars, hconstruct⟩ := t.construct?_eq rest
    show highlightBody (t.chars ++ rest) = t.shown ++ highlightBody rest
    rw [hchars, highlightBody_construct hconstruct, t.html_cut]

theorem highlightBody_document (document : List Part) :
    highlightBody (document.flatMap Part.chars) = document.flatMap Part.shown := by
  induction document with
  | nil =>
    rw [List.flatMap_nil, highlightBody, pieces]
    rfl
  | cons part document ih =>
    rw [List.flatMap_cons, highlightBody_part, ih, List.flatMap_cons]

/-- **Every well-formed document is shown part by part**: its text escaped, every comment as one
token, and every tag as the tokens of its opening, its name, its attributes with their operators and
values, and its end, with the blanks between them as they are. -/
theorem highlight_document (document : List Part) :
    highlight (String.ofList (document.flatMap Part.chars)) =
      "<div class=\"highlight\"><pre>" ++ String.ofList (document.flatMap Part.shown)
        ++ "</pre></div>" := by
  rw [highlight_eq, String.toList_ofList, highlightBody_document]

/-- A document that is hard to cut: a comment with a tag and a hyphen in it, a `>` and a slash in
quotes, blanks around an equals sign, a bare value with a sign and a slash, an attribute without a
value before the end of a tag that closes itself, and a blank at the end of another. -/
def hardDocument : List Part :=
  [.comment "<b>-".toList (by decide +kernel),
    .tag ⟨false, 'a', [],
      [⟨[' '], ['t'],
          some ⟨['\n'], [' '], .quoted '\'' "x/> y".toList (by decide) (by decide +kernel),
            List.forall_mem_singleton.mpr rfl, isGap_space.2⟩,
          isGap_space, by decide, List.forall_mem_singleton.mpr (by decide)⟩,
        ⟨[' '], ['u'],
          some ⟨[], [], .bare "b=/c".toList (by decide +kernel)
            (List.all_iff_forall_prop.mp (by decide +kernel)) (by decide +kernel), nofun, nofun⟩,
          isGap_space, by decide, List.forall_mem_singleton.mpr (by decide)⟩,
        ⟨[' '], ['d'], none, isGap_space, by decide, List.forall_mem_singleton.mpr (by decide)⟩],
      [], true, rfl, nofun, nofun⟩,
    .text "&".toList (by decide +kernel),
    .tag ⟨true, 'a', [], [], [' '], false, rfl, nofun, isGap_space.2⟩]

theorem highlight_document_hard :
    highlight "<!--<b>---><a t\n= 'x/> y' u=b=/c d/>&</a >" =
      "<div class=\"highlight\"><pre>" ++ "<span class=\"c\">&lt;!--&lt;b&gt;---&gt;</span>" ++
      "<span class=\"p\">&lt;</span>" ++ "<span class=\"nt\">a</span>" ++
      " " ++ "<span class=\"na\">t</span>" ++ "<span class=\"o\">\n= </span>" ++
      "<span class=\"s\">'x/&gt; y'</span>" ++
      " " ++ "<span class=\"na\">u</span>" ++ "<span class=\"o\">=</span>" ++
      "<span class=\"s\">b=/c</span>" ++
      " " ++ "<span class=\"na\">d</span>" ++ "<span class=\"p\">/&gt;</span>" ++ "&amp;" ++
      "<span class=\"p\">&lt;/</span>" ++ "<span class=\"nt\">a</span>" ++
      " " ++ "<span class=\"p\">&gt;</span>" ++ "</pre></div>" := by
  have hchars : String.ofList (hardDocument.flatMap Part.chars) =
      "<!--<b>---><a t\n= 'x/> y' u=b=/c d/>&</a >" := rfl
  rw [← hchars, highlight_document hardDocument]
  simp only [hardDocument, List.flatMap_cons, List.flatMap_nil, Part.shown, Tag.shown,
    Attribute.shown, List.nil_append, List.append_nil, String.ofList_append, String.append_assoc]
  rfl

end LivingGuide.Markup
