import LivingGuide.Proofs.BlockOutcome
import LivingGuide.Proofs.Concatenation

/-!
# The modifiers of a source

Modifiers are declared by the lines of a group.  The group is known for a list of modifiers by the
dot or the colon that its first line starts with, and then every line of it is read by the grammar
of modifier lines, which takes any word for a selector.  So the first modifier of a block is a class
or a pseudo-class, and the others are what their own lines start with: behind `.wide - Full width` a
line `plain - No sign` declares a modifier that is neither.

* `Modifier.WellFormed`: what the grammar alone makes sure of.  A modifier is read from some line
  exactly if it is well-formed (`Modifier.wellFormed_iff`).
* `Modifier.IsSigned`: the selector is that of a class or a pseudo-class.
* `Block.declaringLines`: the lines of a run that declare the modifiers of its block.
* `Source.modifiers_of_parse`: **the modifiers of a source are classes and pseudo-classes exactly if
  all lines that declare them start with a sign.**
-/

namespace LivingGuide

open Text Comment

namespace Modifier

/-! ### Well-formed modifiers -/

/-- **A modifier with a word for its selector and one trimmed line of text for its description.** -/
structure WellFormed (m : Modifier) : Prop where
  selector : IsWord m.selector.toList
  described : m.description ≠ ""
  start : NoLeadingBlank m.description.toList
  stop : NoTrailingBlank m.description.toList
  oneLine : '\n' ∉ m.description.toList

variable {line : String} {m : Modifier}

theorem WellFormed.parse_text (h : m.WellFormed) : parse m.text = .ok m := by
  have hne : m.description.toList ≠ [] := fun hnil => h.described (String.toList_eq_nil_iff.mp hnil)
  have hstart : NoLeadingBlank m.text.toList := by
    rw [text_toList]
    exact h.selector.noLeadingBlank _
  have hstop : NoTrailingBlank m.text.toList := by
    have happend := h.stop.append hne (m.selector.toList ++ [' ', '-', ' '])
    rw [List.append_assoc] at happend
    rw [text_toList]
    exact happend
  rw [parse_eq_ok_iff, trim_of_noBlank hstart hstop]
  exact ⟨[' '], [' '], text_toList m, h.selector, isGap_space, isGap_space, hne, h.start, h.oneLine⟩

/-- **The modifiers that lines declare are the well-formed ones.** -/
theorem wellFormed_iff : m.WellFormed ↔ ∃ line, parse line = .ok m := by
  constructor
  · intro h
    exact ⟨m.text, h.parse_text⟩
  · rintro ⟨line, h⟩
    obtain ⟨-, -, -, hselector, -, -, hne, hstart, hline⟩ := parse_eq_ok_iff.mp h
    refine ⟨hselector, ?_, hstart, noTrailingBlank_description h, hline⟩
    intro hempty
    exact hne (String.toList_eq_nil_iff.mpr hempty)

/-! ### Signs -/

/-- The selector is that of a class or a pseudo-class. -/
def IsSigned (m : Modifier) : Prop :=
  ∃ c ∈ modifierSigns, m.selector.toList.head? = some c

/-- A line that starts with a sign, blanks before it ignored. -/
def IsSignedLine (line : String) : Prop :=
  ∃ c ∈ modifierSigns, (trim line.toList).head? = some c

theorem isSigned_iff (h : parse line = .ok m) : m.IsSigned ↔ IsSignedLine line := by
  obtain ⟨gap, gap', hline, hselector, -⟩ := parse_eq_ok_iff.mp h
  rw [IsSigned, IsSignedLine, hline, List.head?_append_of_ne_nil _ hselector.1]

/-- **The class of a modifier in markup.**  A class loses its dot, a pseudo-class stays as it is,
and so does a selector that is neither. -/
theorem markupClass_cases (m : Modifier) :
    (m.selector = "." ++ m.markupClass ∧ m.isPseudoClass = false) ∨
    (m.markupClass = m.selector ∧ m.isPseudoClass = true) ∨
    (m.markupClass = m.selector ∧ ¬ m.IsSigned) := by
  rw [markupClass]
  split
  · next name hdot =>
    refine .inl ⟨?_, ?_⟩
    · rw [← String.toList_inj, hdot]
      simp
    · rw [isPseudoClass, hdot]
      rfl
  · next hdot =>
    by_cases hcolon : m.selector.toList.head? = some ':'
    · exact .inr (.inl ⟨rfl, beq_iff_eq.mpr hcolon⟩)
    · refine .inr (.inr ⟨rfl, ?_⟩)
      rintro ⟨c, hc, hhead⟩
      simp only [modifierSigns, List.mem_cons, List.not_mem_nil, or_false] at hc
      rcases hc with rfl | rfl
      · obtain ⟨name, hname⟩ := List.head?_eq_some_iff.mp hhead
        exact hdot name hname
      · exact hcolon hhead

/-! ### The lines that declare modifiers -/

theorem isSignedLine_of_opensWith {group : List String}
    (h : opensWith modifierSigns group = true) : ∀ line ∈ group.head?, IsSignedLine line := by
  intro line hline
  rw [opensWith, Option.mem_def.mp hline, Option.bind_some, Option.any_eq_true] at h
  obtain ⟨c, hc, hsign⟩ := h
  have hmem : c ∈ modifierSigns := List.contains_iff_mem.mp hsign
  have hblank : isBlank c = false := by
    simp only [modifierSigns, List.mem_cons, List.not_mem_nil, or_false] at hmem
    rcases hmem with rfl | rfl
    · decide
    · decide
  exact ⟨c, hmem, head?_trim hc hblank⟩

theorem isSigned_head {lines : List String} {ms : List Modifier}
    (hread : List.Forall₂ (fun line m => parse line = .ok m) lines ms)
    (hfirst : ∀ line ∈ lines.head?, IsSignedLine line) : ∀ m ∈ ms.head?, m.IsSigned := by
  intro m hm
  cases hread with
  | nil => cases hm
  | @cons line _ _ _ hline _ =>
    cases hm
    exact (isSigned_iff hline).mpr (hfirst line rfl)

end Modifier

namespace Block

variable {draft b : Block} {gs : List (List String)}

/-- **The lines that declare the modifiers of a run**: its last group that starts with a sign, the
name and the section apart. -/
def declaringLines (run : List String) : List String :=
  (lastWith (opensWith modifierSigns) (groups run).tail.dropLast).getD []

theorem isSignedLine_head (run : List String) :
    ∀ line ∈ (declaringLines run).head?, Modifier.IsSignedLine line := by
  rw [declaringLines]
  cases hlast : lastWith (opensWith modifierSigns) (groups run).tail.dropLast with
  | none => exact nofun
  | some group =>
    obtain ⟨-, hopens⟩ := List.mem_filter.mp (List.mem_of_getLast? hlast)
    exact Modifier.isSignedLine_of_opensWith hopens

theorem malformedModifier?_of_outcome (h : draft.outcome gs = .ok b) :
    malformedModifier? gs = none := by
  rw [outcome] at h
  split at h
  · cases h
  · next hgood => exact hgood

theorem forall₂_parse_ofLines (hgood : malformedModifier? gs = none) {group : List String}
    (hgroup : group ∈ gs) (hopens : opensWith modifierSigns group = true) :
    List.Forall₂ (fun line m => Modifier.parse line = .ok m) group (Modifier.ofLines group) := by
  have hfind : group.find? Modifier.isMalformed = none := by
    rw [List.find?_eq_none]
    intro line hline
    refine List.find?_eq_none.mp hgood line (List.mem_flatten.mpr ⟨group, ?_, hline⟩)
    exact List.mem_filter.mpr ⟨hgroup, hopens⟩
  refine mapM_eq_ok_iff.mp ?_
  rw [Modifier.mapM_parse, hfind]

/-- **The modifiers of a block are read line by line** from the lines that declare them. -/
theorem declared_of_ofLines {run : List String} (h : ofLines run = .ok b) :
    List.Forall₂ (fun line m => Modifier.parse line = .ok m) (declaringLines run) b.modifiers := by
  rw [ofLines_eq] at h
  obtain ⟨name, rest, hgroups, hrest⟩ := specified_eq_ok h
  have hgood := malformedModifier?_of_outcome hrest
  obtain ⟨last, word, -, -, rfl⟩ := outcome_eq_ok hrest
  have hmodifiers :
      ({ (named name).filled rest.dropLast with sectionText := word } : Block).modifiers =
        (lastWith (opensWith modifierSigns) rest.dropLast).elim [] Modifier.ofLines := rfl
  rw [hmodifiers, declaringLines, hgroups, List.tail_cons]
  cases hlast : lastWith (opensWith modifierSigns) rest.dropLast with
  | none => exact .nil
  | some group =>
    obtain ⟨hgroup, hopens⟩ := List.mem_filter.mp (List.mem_of_getLast? hlast)
    exact forall₂_parse_ofLines hgood (List.dropLast_subset _ hgroup) hopens

end Block

/-! ### The modifiers of a source -/

namespace Source

/-- **The modifiers of a source.**  The modifiers of each block are read from the lines of its run
that declare them.  All are well-formed, their class in markup follows their sign, and the first of
each block has a sign.  All of them have one exactly if all the lines that declare them start with
one. -/
theorem modifiers_of_parse (text : String) (source : Source)
    (h : Source.parse text = .ok source) :
    List.Forall₂ (fun run b => List.Forall₂ (fun line m => Modifier.parse line = .ok m)
      (Block.declaringLines run) b.modifiers) (runs (linesOf text)) source.blocks ∧
    (∀ b ∈ source.blocks, (∀ m ∈ b.modifiers.head?, m.IsSigned) ∧
      ∀ m ∈ b.modifiers, m.WellFormed ∧
        ((m.selector = "." ++ m.markupClass ∧ m.isPseudoClass = false) ∨
          (m.markupClass = m.selector ∧ m.isPseudoClass = true) ∨
          (m.markupClass = m.selector ∧ ¬ m.IsSigned))) ∧
    ((∀ b ∈ source.blocks, ∀ m ∈ b.modifiers, m.IsSigned) ↔
      ∀ run ∈ runs (linesOf text), ∀ line ∈ Block.declaringLines run,
        Modifier.IsSignedLine line) := by
  have hread := (mapM_eq_ok_iff.mp (parse_eq_ok_iff.mp h).1).imp fun run b hb =>
    Block.declared_of_ofLines hb
  refine ⟨hread, ?_, ?_, ?_⟩
  · intro b hb
    obtain ⟨run, -, hlines⟩ := exists_left_of_forall₂ hread b hb
    refine ⟨Modifier.isSigned_head hlines (Block.isSignedLine_head run), ?_⟩
    intro m hm
    obtain ⟨line, -, hline⟩ := exists_left_of_forall₂ hlines m hm
    exact ⟨Modifier.wellFormed_iff.mpr ⟨line, hline⟩, m.markupClass_cases⟩
  · intro hsigned run hrun line hline
    obtain ⟨b, hb, hlines⟩ := exists_right_of_forall₂ hread run hrun
    obtain ⟨m, hm, hparse⟩ := exists_right_of_forall₂ hlines line hline
    exact (Modifier.isSigned_iff hparse).mp (hsigned b hb m hm)
  · intro hsigned b hb m hm
    obtain ⟨run, hrun, hlines⟩ := exists_left_of_forall₂ hread b hb
    obtain ⟨line, hline, hparse⟩ := exists_left_of_forall₂ hlines m hm
    exact (Modifier.isSigned_iff hparse).mpr (hsigned run hrun line hline)

/-- A pseudo-class that starts with a colon of its own line, a class, and a word behind them. -/
theorem modifiers_of_parse_button :
    let text := "// Button\n//\n// :hover - Hover\n//   .big   -  Big\n// plain - No sign\n//\n"
      ++ "// Styleguide 1\n\n"
    let modifiers := [⟨":hover", "Hover"⟩, ⟨".big", "Big"⟩, ⟨"plain", "No sign"⟩]
    Source.parse text = .ok ⟨[⟨"Button", "", modifiers, "", "1"⟩], none⟩ ∧
      ∀ m ∈ modifiers, m.WellFormed := by
  intro text modifiers
  have h : Source.parse text = .ok ⟨[⟨"Button", "", modifiers, "", "1"⟩], none⟩ := by decide +kernel
  refine ⟨h, fun m hm => ?_⟩
  exact (((modifiers_of_parse text _ h).2.1 _ List.mem_cons_self).2 m hm).1

/-- **A modifier without a sign is read** behind one that has a sign: its selector is neither a
class nor a pseudo-class. -/
theorem unsigned_modifier_read :
    ¬ ∀ (text : String) (source : Source), Source.parse text = .ok source →
      ∀ b ∈ source.blocks, ∀ m ∈ b.modifiers, m.IsSigned := by
  intro h
  have hparse : Source.parse
      "// Button\n//\n// .big - Big\n// plain - No sign\n//\n// Styleguide 1\n\n" =
      .ok ⟨[⟨"Button", "", [⟨".big", "Big"⟩, ⟨"plain", "No sign"⟩], "", "1"⟩], none⟩ := by
    decide +kernel
  obtain ⟨c, hc, hhead⟩ := h _ _ hparse _ List.mem_cons_self ⟨"plain", "No sign"⟩ (by decide)
  obtain rfl : 'p' = c := Option.some.inj hhead
  exact absurd hc (by decide)

end Source

end LivingGuide
