import LivingGuide.Proofs.BlockOutcome

/-!
# Groups may come in any order

Between its name and its section line a block may have its parts in any order, with any number of
empty lines around them.  Two lists of lines that differ in nothing else describe the same block, or
fail with the same error.

* `laidOut start first later finish`: groups on lines, with empty lines before, between and after
  them.  The groups that are cut from these lines are the ones that were laid out
  (`groups_laidOut`), so the number of empty lines is forgotten at once.
* `Rearranged before after`: the same groups, with **the groups of any one kind in the same order**.
  This order is all that is left to see: of each kind the last group counts, of the lists of
  modifiers the first malformed line is reported, and the section line comes behind them all
  (`outcome_rearranged`).
* `Block.ofLines_rearranged`: both together.
-/

namespace LivingGuide

/-! ### Empty lines around groups -/

/-- A group as it stands on lines: it has a line, and none of its lines is empty. -/
structure Unbroken (group : List String) : Prop where
  ne_nil : group ≠ []
  ne_empty : ∀ l ∈ group, l ≠ ""

/-- A number of empty lines. -/
def emptyLines (n : Nat) : List String :=
  List.replicate n ""

/-- Groups that each follow an empty line.  With each group goes the number of empty lines that
stand there beyond this one. -/
def separated : List (Nat × List String) → List String
  | [] => []
  | (extra, group) :: later => emptyLines (extra + 1) ++ group ++ separated later

/-- **Groups laid out on lines**, with empty lines at the start, between them and at the end. -/
def laidOut (start : Nat) (first : List String) (later : List (Nat × List String)) (finish : Nat) :
    List String :=
  emptyLines start ++ first ++ separated later ++ emptyLines finish

theorem groups_emptyLines_append (n : Nat) (lines : List String) :
    groups (emptyLines n ++ lines) = groups lines := by
  induction n with
  | zero => rfl
  | succ n ih =>
    show groups ("" :: (emptyLines n ++ lines)) = groups lines
    rw [groups_cons_empty, ih]

theorem groups_emptyLines (n : Nat) : groups (emptyLines n) = [] := by
  have h := groups_emptyLines_append n []
  rwa [List.append_nil, groups_nil] at h

theorem head?_behind (later : List (Nat × List String)) (finish : Nat) :
    ∀ l ∈ (separated later ++ emptyLines finish).head?, l = "" := by
  intro l hl
  cases later with
  | nil => exact List.eq_of_mem_replicate (List.mem_of_mem_head? hl)
  | cons entry later => exact (Option.some.inj hl).symm

theorem groups_separated {later : List (Nat × List String)}
    (h : ∀ entry ∈ later, Unbroken entry.2) (finish : Nat) :
    groups (separated later ++ emptyLines finish) = later.map Prod.snd := by
  induction later with
  | nil => exact groups_emptyLines finish
  | cons entry later ih =>
    obtain ⟨extra, group⟩ := entry
    have hgroup : Unbroken group := h (extra, group) List.mem_cons_self
    rw [separated, List.append_assoc, List.append_assoc, groups_emptyLines_append,
      groups_append hgroup.ne_nil hgroup.ne_empty (head?_behind later finish),
      ih (fun entry hentry => h entry (List.mem_cons_of_mem _ hentry)), List.map_cons]

/-- **The groups of lines are the groups that were laid out on them.** -/
theorem groups_laidOut {first : List String} {later : List (Nat × List String)}
    (hfirst : Unbroken first) (hlater : ∀ entry ∈ later, Unbroken entry.2) (start finish : Nat) :
    groups (laidOut start first later finish) = first :: later.map Prod.snd := by
  rw [laidOut, List.append_assoc, List.append_assoc, groups_emptyLines_append,
    groups_append hfirst.ne_nil hfirst.ne_empty (head?_behind later finish),
    groups_separated hlater]

/-! ### The order of groups -/

/-- The same groups, with **the groups of any one kind in the same order**. -/
structure Rearranged (before after : List (List String)) : Prop where
  perm : after.Perm before
  examples : after.filter (opensWith markupSigns) = before.filter (opensWith markupSigns)
  modifiers : after.filter (opensWith modifierSigns) = before.filter (opensWith modifierSigns)
  texts : after.filter (!opensWith allSigns ·) = before.filter (!opensWith allSigns ·)

namespace Block

variable {before after : List (List String)}

theorem malformedModifier?_rearranged (h : Rearranged before after) (last : List String) :
    malformedModifier? (after ++ [last]) = malformedModifier? (before ++ [last]) := by
  rw [malformedModifier?, malformedModifier?, List.filter_append, List.filter_append, h.modifiers]

theorem filled_rearranged (h : Rearranged before after) (draft : Block) :
    draft.filled after = draft.filled before := by
  simp only [filled, lastWith, h.examples, h.modifiers, h.texts]

/-- **Groups before a last one come to the same in any order that keeps the kinds.** -/
theorem outcome_rearranged (h : Rearranged before after) (draft : Block) (last : List String) :
    draft.outcome (after ++ [last]) = draft.outcome (before ++ [last]) := by
  rw [outcome, outcome, malformedModifier?_rearranged h, List.getLast?_concat,
    List.getLast?_concat, List.dropLast_concat, List.dropLast_concat, filled_rearranged h]

/-- **Groups may come in any order, with any number of empty lines around them.**  The lines behind
the name hold the same groups on both sides, in two orders that keep the groups of each kind in
order, and the last group stays where it is.  Then the lines describe the same block, or fail with
the same error. -/
theorem ofLines_rearranged {name : String} {last : List String}
    {later later' : List (Nat × List String)} (hname : name ≠ "") (hlast : Unbroken last)
    (hbefore : ∀ group ∈ before, Unbroken group) (h : Rearranged before after)
    (hlater : later.map Prod.snd = before ++ [last])
    (hlater' : later'.map Prod.snd = after ++ [last]) (start start' finish finish' : Nat) :
    ofLines (laidOut start' [name] later' finish') =
      ofLines (laidOut start [name] later finish) := by
  have hfirst : Unbroken [name] :=
    ⟨List.cons_ne_nil _ _, fun l hl => List.mem_singleton.mp hl ▸ hname⟩
  -- Every group of either side is the last one or one of those before it.
  have hentries : ∀ {gs : List (List String)} {entries : List (Nat × List String)},
      entries.map Prod.snd = gs ++ [last] → (∀ group ∈ gs, group ∈ before) →
      ∀ entry ∈ entries, Unbroken entry.2 := by
    intro gs entries hsnd hgs entry hentry
    have hmem : entry.2 ∈ gs ++ [last] := hsnd ▸ List.mem_map_of_mem hentry
    rcases List.mem_append.mp hmem with hmem | hmem
    · exact hbefore _ (hgs _ hmem)
    · exact List.mem_singleton.mp hmem ▸ hlast
  have hgroups := groups_laidOut hfirst (hentries hlater fun _ => id) start finish
  have hgroups' := groups_laidOut hfirst
    (hentries hlater' fun _ => h.perm.mem_iff.mp) start' finish'
  rw [ofLines_eq, ofLines_eq, hgroups, hgroups', hlater, hlater']
  exact outcome_rearranged h (named name) last

/-- A button whose example moves to the front and whose modifiers move to the end; of its two
descriptions the later one counts on both sides. -/
theorem ofLines_rearranged_button :
    let before := [["To be", "written"], [".wide - Full width"], ["A button"], ["<b>", "</b>"]]
    let after := [["<b>", "</b>"], ["To be", "written"], ["A button"], [".wide - Full width"]]
    let button : Block := ⟨"Button", "A button", [⟨".wide", "Full width"⟩], "<b>\n</b>", "1.2"⟩
    Rearranged before after ∧
      ofLines ["Button", "", "To be", "written", "", ".wide - Full width", "", "A button", "",
        "<b>", "</b>", "", "Styleguide 1.2"] = .ok button ∧
      ofLines ["", "Button", "", "<b>", "</b>", "", "", "", "To be", "written", "", "A button", "",
        ".wide - Full width", "", "Styleguide 1.2", "", ""] = .ok button := by
  intro before after button
  have h : Rearranged before after := ⟨by decide +kernel, by decide +kernel, by decide +kernel,
    by decide +kernel⟩
  have hbefore : ∀ group ∈ before, Unbroken group := by
    have hall : ∀ group ∈ before, group ≠ [] ∧ ∀ l ∈ group, l ≠ "" := by decide +kernel
    exact fun group hgroup => ⟨(hall group hgroup).1, (hall group hgroup).2⟩
  have hread : ofLines (laidOut 0 ["Button"] ((before ++ [["Styleguide 1.2"]]).map (0, ·)) 0) =
      .ok button := by decide +kernel
  have hsame : ofLines (laidOut 1 ["Button"] [(0, ["<b>", "</b>"]), (2, ["To be", "written"]),
        (0, ["A button"]), (0, [".wide - Full width"]), (0, ["Styleguide 1.2"])] 2) =
      ofLines (laidOut 0 ["Button"] ((before ++ [["Styleguide 1.2"]]).map (0, ·)) 0) :=
    ofLines_rearranged (by decide) ⟨by decide, by decide⟩ hbefore h rfl rfl 0 1 0 2
  exact ⟨h, hread, hsame.trans hread⟩

end Block

end LivingGuide
