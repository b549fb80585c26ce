import LivingGuide.Proofs.BlockOutcome
import LivingGuide.Proofs.RunReader

/-!
# Where the section of a block stands

A run of comment lines is documentation when its **last line** holds the marker, and a block takes
its section from the **first line of the last group**.  The last line is never empty, so it lies in
the last group (`GroupsOf.exists_last`); but it is the first line of this group only when an empty
line stands right before it.

* `NamesSection run found`: where `found` stands in the run.  It is the second word of the first
  line of the last group, and so of the marker line when that line is a group of its own.
* `Source.sections_of_runs`: **every block of a source has the section that its own run names.**
* `Source.sections_not_of_markers`: a group of two lines names a section apart from the marker.
-/

namespace LivingGuide

open Text Comment

/-! ### The last group -/

/-- **A last line that is not empty ends the last group.**  Before this group stands an empty line
or nothing. -/
theorem GroupsOf.exists_last {lines : List String} {gs : List (List String)}
    (h : GroupsOf lines gs) {last : String} (hlast : lines.getLast? = some last) (hne : last ≠ "") :
    ∃ before first later, gs.getLast? = some (first :: later) ∧
      lines = before ++ first :: later ∧ (∀ l ∈ first :: later, l ≠ "") ∧
      ∀ l ∈ before.getLast?, l = "" := by
  induction h with
  | nil => cases hlast
  | @empty lines gs _ ih =>
    cases lines with
    | nil => exact absurd (Option.some.inj hlast).symm hne
    | cons line lines =>
      rw [List.getLast?_cons_cons] at hlast
      obtain ⟨before, first, later, hgs, hcut, hlines, hbefore⟩ := ih hlast
      refine ⟨"" :: before, first, later, hgs, by rw [hcut, List.cons_append], hlines, ?_⟩
      intro l hl
      cases before with
      | nil => exact (Option.some.inj hl).symm
      | cons line before => exact hbefore l hl
  | @group group rest gs hgroup hall hstop hrest ih =>
    cases rest with
    | nil =>
      obtain rfl : gs = [] := by rw [groupsOf_iff.mp hrest, groups_nil]
      obtain ⟨first, later, rfl⟩ := List.exists_cons_of_ne_nil hgroup
      exact ⟨[], first, later, rfl, List.append_nil _, hall, nofun⟩
    | cons line rest =>
      rw [List.getLast?_append_of_ne_nil group (List.cons_ne_nil line rest)] at hlast
      obtain ⟨before, first, later, hgs, hcut, hlines, hbefore⟩ := ih hlast
      have hne : before ≠ [] := by
        -- The lines behind a group start with an empty one, and the last group does not.
        rintro rfl
        obtain ⟨rfl, -⟩ := List.cons.inj hcut
        exact hlines line List.mem_cons_self (hstop line rfl)
      refine ⟨group ++ before, first, later, ?_, by rw [hcut, List.append_assoc], hlines, ?_⟩
      · rw [List.getLast?_cons, hgs]
        rfl
      · rw [List.getLast?_append_of_ne_nil group hne]
        exact hbefore

/-! ### The section of a run -/

/-- **Where a section stands in a run of comment lines.** -/
structure NamesSection (run : List String) (found : String) : Prop where
  /-- It is the second word of the first line of the last group. -/
  lastGroup : ∃ before first later, run = before ++ "" :: first :: later ∧
    (∀ l ∈ first :: later, l ≠ "") ∧ (wordsOf first)[1]? = some found
  /-- The last line of this group is the last line of the run, and it holds the marker. -/
  marked : EndsInMarker run
  /-- A marker line behind an empty line names the section itself. -/
  alone : ∀ before last, run = before ++ ["", last] → (wordsOf last)[1]? = some found

theorem Comment.EndsInMarker.exists_last {run : List String} (h : EndsInMarker run) :
    ∃ last, run.getLast? = some last ∧ last ≠ "" := by
  obtain ⟨last, hlast, hmarker⟩ := h
  refine ⟨last, hlast, ?_⟩
  rintro rfl
  exact absurd (List.infix_nil.mp hmarker) (by decide)

theorem exists_section_of_ofLines {run : List String} {b : Block} (hb : Block.ofLines run = .ok b)
    {last : String} (hlast : run.getLast? = some last) (hne : last ≠ "") :
    ∃ before first later, run = before ++ "" :: first :: later ∧
      (∀ l ∈ first :: later, l ≠ "") ∧ (wordsOf first)[1]? = some b.sectionText := by
  rw [Block.ofLines_eq] at hb
  obtain ⟨name, rest, hgroups, hrest⟩ := Block.specified_eq_ok hb
  obtain ⟨group, word, hgroup, hword, rfl⟩ := Block.outcome_eq_ok hrest
  obtain ⟨before, first, later, hlater, hcut, hlines, hbefore⟩ :=
    (groupsOf_groups run).exists_last hlast hne
  rw [hgroups, List.getLast?_cons, hgroup] at hlater
  obtain rfl : group = first :: later := Option.some.inj hlater
  have hsome : before ≠ [] := by
    rintro rfl
    have hone : groups (first :: later ++ []) = (first :: later) :: groups [] :=
      groups_append (List.cons_ne_nil _ _) hlines (fun l hl => (by cases hl))
    rw [List.append_nil, ← List.nil_append (first :: later), ← hcut, groups_nil] at hone
    rw [hgroups] at hone
    rw [(List.cons.inj hone).2] at hgroup
    cases hgroup
  obtain ⟨front, line, rfl⟩ := (List.eq_nil_or_concat before).resolve_left hsome
  rw [List.concat_eq_append] at hcut hbefore
  obtain rfl : line = "" := hbefore line List.getLast?_concat
  exact ⟨front, first, later, by rw [hcut, List.append_assoc]; rfl, hlines, hword⟩

/-- An empty line right before the last line cuts a last group of one line off. -/
theorem first_eq_of_cut {before before' : List String} {first last : String} {later : List String}
    (hlines : ∀ l ∈ first :: later, l ≠ "")
    (h : before ++ "" :: first :: later = before' ++ ["", last]) : first = last := by
  have hreverse :
      (first :: later).reverse ++ "" :: before.reverse = last :: "" :: before'.reverse :=
    calc (first :: later).reverse ++ "" :: before.reverse
      _ = (before ++ "" :: first :: later).reverse := by simp
      _ = (before' ++ ["", last]).reverse := by rw [h]
      _ = last :: "" :: before'.reverse := by simp
  cases hback : (first :: later).reverse with
  | nil => exact absurd (List.reverse_eq_nil_iff.mp hback) (List.cons_ne_nil _ _)
  | cons line lines =>
    rw [hback] at hreverse
    obtain ⟨rfl, hrest⟩ := List.cons.inj hreverse
    cases lines with
    | nil =>
      have hsingle := congrArg List.reverse hback
      rw [List.reverse_reverse] at hsingle
      exact (List.cons.inj hsingle).1
    | cons above lines =>
      have hmem : above ∈ first :: later := by
        rw [← List.mem_reverse, hback]
        exact List.mem_cons_of_mem _ List.mem_cons_self
      exact absurd (List.cons.inj hrest).1 (hlines above hmem)

/-- **A documentation run names the section of its block.** -/
theorem namesSection_of_ofLines {run : List String} {b : Block} (hrun : EndsInMarker run)
    (hb : Block.ofLines run = .ok b) : NamesSection run b.sectionText := by
  obtain ⟨last, hlast, hne⟩ := hrun.exists_last
  obtain ⟨before, first, later, hcut, hlines, hword⟩ := exists_section_of_ofLines hb hlast hne
  refine ⟨⟨before, first, later, hcut, hlines, hword⟩, hrun, ?_⟩
  intro before' last' hcut'
  rwa [first_eq_of_cut hlines (hcut.symm.trans hcut')] at hword

/-! ### The sections of a source -/

namespace Source

/-- **Every block of a source has the section that its own run names**: the runs and the blocks
stand side by side. -/
theorem sections_of_runs {text : String} {source : Source} (h : Source.parse text = .ok source) :
    List.Forall₂ (fun run b => NamesSection run b.sectionText) (runs (linesOf text))
      source.blocks := by
  have hread := mapM_eq_ok_iff.mp (parse_eq_ok_iff.mp h).1
  have hruns : ∀ run ∈ runs (linesOf text), EndsInMarker run :=
    fun run hrun => isDocumented_iff.mp (List.mem_filter.mp hrun).2
  refine ((List.forall₂_and_left _ _).mpr ⟨hruns, hread⟩).imp ?_
  intro run b hrun
  exact namesSection_of_ofLines hrun.1 hrun.2

/-- A card whose marker line stands behind an empty one, and a list whose marker line does not. -/
theorem sections_of_runs_cards :
    let text := "// Card\n//\n// Styleguide 1.2\n\n// List\n//\n// Part 9 of\n// Styleguide 3\n\n"
    Source.parse text = .ok ⟨[⟨"Card", "", [], "", "1.2"⟩, ⟨"List", "", [], "", "9"⟩], none⟩ ∧
      NamesSection ["Card", "", "Styleguide 1.2"] "1.2" ∧
      NamesSection ["List", "", "Part 9 of", "Styleguide 3"] "9" := by
  intro text
  have htext : Source.parse text =
      .ok ⟨[⟨"Card", "", [], "", "1.2"⟩, ⟨"List", "", [], "", "9"⟩], none⟩ := by decide +kernel
  have hruns : runs (linesOf text) =
      [["Card", "", "Styleguide 1.2"], ["List", "", "Part 9 of", "Styleguide 3"]] := by
    decide +kernel
  have hsections := sections_of_runs htext
  rw [hruns] at hsections
  obtain ⟨hcard, hrest⟩ := List.forall₂_cons.mp hsections
  obtain ⟨hlist, -⟩ := List.forall₂_cons.mp hrest
  exact ⟨htext, hcard, hlist⟩

/-- **A group of two lines names a section apart from the marker**: it is not the second word of the
last line of the run. -/
theorem sections_not_of_markers :
    ¬ ∀ (text : String) (source : Source), Source.parse text = .ok source →
      List.Forall₂ (fun run b => ∃ last, run.getLast? = some last ∧
        (wordsOf last)[1]? = some b.sectionText) (runs (linesOf text)) source.blocks := by
  intro h
  have hlist := h "// List\n//\n// Part 9 of\n// Styleguide 3\n\n"
    ⟨[⟨"List", "", [], "", "9"⟩], none⟩ (by decide +kernel)
  have hruns : runs (linesOf "// List\n//\n// Part 9 of\n// Styleguide 3\n\n") =
      [["List", "", "Part 9 of", "Styleguide 3"]] := by decide +kernel
  rw [hruns] at hlist
  obtain ⟨⟨last, hlast, hword⟩, -⟩ := List.forall₂_cons.mp hlist
  obtain rfl : "Styleguide 3" = last := Option.some.inj hlast
  exact absurd hword (by decide +kernel)

end Source

end LivingGuide
