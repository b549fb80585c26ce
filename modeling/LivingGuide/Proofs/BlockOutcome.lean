import LivingGuide.Proofs.Block

/-!
# The block that lines describe

`Block.ofLines` cuts lines into groups and adds one group after the other to a draft, where a later
group replaces what an earlier one of its kind declared.  This file says what comes of it without a
draft and without an order of steps: which error a list of groups has, and where each field of the
block is found in it.

* `GroupsOf lines gs`: `gs` are the maximal groups of non-empty lines, in order.  Every list of lines
  has exactly one such list of groups (`groupsOf_iff`).
* `Block.outcome draft gs`: what the groups behind the name come to.  The first line of a list of
  modifiers that is no modifier wins over every other fault, wherever its group stands; the section
  line is looked at last; and of the groups before it the last of each kind counts.
* `Block.ofLines_eq_specified`: **the block that lines describe is the one that is specified.**

Adding a group to the draft and going on is the same as the outcome of all groups (`outcome_cons`),
unless the group holds a malformed modifier (`outcome_malformed`) or is the section line
(`outcome_section`): these are the cases of `Block.complete`.
-/

namespace LivingGuide

/-! ### Maximal groups -/

/-- **The maximal groups of non-empty lines.**  A group is not empty, and it ends at an empty line or
with the lines. -/
inductive GroupsOf : List String → List (List String) → Prop
  | nil : GroupsOf [] []
  | empty {lines : List String} {gs : List (List String)} :
      GroupsOf lines gs → GroupsOf ("" :: lines) gs
  | group {group rest : List String} {gs : List (List String)} : group ≠ [] →
      (∀ l ∈ group, l ≠ "") → (∀ l ∈ rest.head?, l = "") → GroupsOf rest gs →
      GroupsOf (group ++ rest) (group :: gs)

theorem groupsOf_groups (lines : List String) : GroupsOf lines (groups lines) := by
  fun_induction groups lines with
  | case1 => exact .nil
  | case2 line lines hline ih =>
    obtain rfl := String.isEmpty_iff.mp hline
    exact .empty ih
  | case3 line lines hline ih =>
    have hcut : line :: lines = (line :: lines.takeWhile (!·.isEmpty)) ++
        lines.dropWhile (!·.isEmpty) := by
      rw [List.cons_append, List.takeWhile_append_dropWhile]
    have hall : ∀ l ∈ line :: lines.takeWhile (!·.isEmpty), l ≠ "" := by
      rintro l hl rfl
      rcases List.mem_cons.mp hl with rfl | hl
      · exact hline rfl
      · exact absurd (List.mem_takeWhile_imp hl) (by decide)
    have hstop : ∀ l ∈ (lines.dropWhile (!·.isEmpty)).head?, l = "" := by
      intro l hl
      have hempty := Text.stop_of_dropWhile hl
      rw [Bool.not_eq_false'] at hempty
      exact String.isEmpty_iff.mp hempty
    rw [hcut]
    exact .group (List.cons_ne_nil _ _) hall hstop ih

/-- **Lines have one list of maximal groups.** -/
theorem groupsOf_iff {lines : List String} {gs : List (List String)} :
    GroupsOf lines gs ↔ gs = groups lines := by
  constructor
  · intro h
    induction h with
    | nil => rw [groups_nil]
    | empty _ ih => rw [groups_cons_empty, ih]
    | group hne hall hstop _ ih => rw [groups_append hne hall hstop, ih]
  · rintro rfl
    exact groupsOf_groups lines

/-! ### How a group opens -/

/-- Whether the first line of a group starts with one of the given characters. -/
def opensWith (signs : List Char) (group : List String) : Bool :=
  (group.head?.bind (·.toList.head?)).any (signs.contains ·)

/-- The signs of an example. -/
def markupSigns : List Char := ['<']

/-- The signs of a list of modifiers. -/
def modifierSigns : List Char := ['.', ':']

/-- The signs that a section line and a description do not start with. -/
def allSigns : List Char := ['<', '.', ':']

theorem GroupKind.of_cases (group : List String) :
    (of group = .markup ∧ opensWith markupSigns group = true ∧
      opensWith modifierSigns group = false ∧ opensWith allSigns group = true) ∨
    (of group = .modifiers ∧ opensWith markupSigns group = false ∧
      opensWith modifierSigns group = true ∧ opensWith allSigns group = true) ∨
    (of group = .text ∧ opensWith markupSigns group = false ∧
      opensWith modifierSigns group = false ∧ opensWith allSigns group = false) := by
  have hfirst : (group.headD "").toList.head? = group.head?.bind (·.toList.head?) := by
    cases group <;> rfl
  unfold of opensWith
  rw [hfirst]
  split
  · next h => simp [h, markupSigns, modifierSigns, allSigns]
  · next h => simp [h, markupSigns, modifierSigns, allSigns]
  · next h => simp [h, markupSigns, modifierSigns, allSigns]
  · next hmarkup hdot hcolon =>
    cases hc : group.head?.bind (·.toList.head?) with
    | none => simp
    | some c =>
      have hne : c ≠ '<' ∧ c ≠ '.' ∧ c ≠ ':' :=
        ⟨fun h => hmarkup (h ▸ hc), fun h => hdot (h ▸ hc), fun h => hcolon (h ▸ hc)⟩
      simp [hne, markupSigns, modifierSigns, allSigns]

/-! ### Modifier lines -/

namespace Modifier

/-- Whether a line declares no modifier. -/
def isMalformed (line : String) : Bool :=
  !(parse line).isOk

/-- The modifiers that lines declare. -/
def ofLines (lines : List String) : List Modifier :=
  lines.filterMap fun line => (parse line).toOption

theorem parse_ok_or_error (line : String) :
    (∃ m, parse line = .ok m) ∨ parse line = .error (.modifier line) := by
  rw [parse]
  split
  · exact .inl ⟨_, rfl⟩
  · exact .inr rfl

/-- **Modifier lines are read together, or fail with the first that is malformed.** -/
theorem mapM_parse (lines : List String) :
    lines.mapM parse =
      match lines.find? isMalformed with
      | some line => .error (.modifier line)
      | none => .ok (ofLines lines) := by
  induction lines with
  | nil => rfl
  | cons line lines ih =>
    rw [mapM_cons_except]
    rcases parse_ok_or_error line with ⟨m, hm⟩ | herror
    · have hgood : ¬ isMalformed line = true := by
        rw [isMalformed, hm]
        exact Bool.false_ne_true
      have hfirst : ofLines (line :: lines) = m :: ofLines lines := by
        rw [ofLines, List.filterMap_cons, hm]
        rfl
      rw [List.find?_cons_of_neg hgood, hm, ih, hfirst]
      cases lines.find? isMalformed <;> rfl
    · have hbad : isMalformed line = true := by
        rw [isMalformed, herror]
        rfl
      rw [List.find?_cons_of_pos hbad, herror]

end Modifier

namespace Block

/-! ### What groups come to -/

/-- The last group that a condition holds of. -/
def lastWith (p : List String → Bool) (gs : List (List String)) : Option (List String) :=
  (gs.filter p).getLast?

/-- The first line of a list of modifiers that is no modifier, in the order of all groups. -/
def malformedModifier? (gs : List (List String)) : Option String :=
  (gs.filter (opensWith modifierSigns)).flatten.find? Modifier.isMalformed

/-- **The fields that groups declare**: the last group of each kind counts, and where there is none the
field stays as it is. -/
def filled (draft : Block) (gs : List (List String)) : Block :=
  { draft with
    description := (lastWith (!opensWith allSigns ·) gs).elim draft.description
      (String.intercalate "\n")
    modifiers := (lastWith (opensWith modifierSigns) gs).elim draft.modifiers Modifier.ofLines
    markup := (lastWith (opensWith markupSigns) gs).elim draft.markup (String.intercalate "\n") }

/-- **What the groups behind the name come to.**  The last one is the section line; its second word is
the section, and the groups before it fill the other fields. -/
def outcome (draft : Block) (gs : List (List String)) : Except Error Block :=
  match malformedModifier? gs with
  | some line => .error (.modifier line)
  | none =>
    match gs.getLast? with
    | none => .error (.block (.noSection draft.name))
    | some last =>
      if opensWith allSigns last then .error (.block (.noSection draft.name))
      else
        match (Text.wordsOf (last.headD ""))[1]? with
        | none => .error (.block (.noIdentifier (last.headD "") draft.name))
        | some word => .ok { draft.filled gs.dropLast with sectionText := word }

/-- A block with a name and nothing else. -/
def named (name : String) : Block :=
  { name, description := "", modifiers := [], markup := "", sectionText := "" }

/-- **The block that groups describe**: the first group is one line, the name. -/
def specified : List (List String) → Except Error Block
  | [] => .error (.block .empty)
  | [name] :: rest => outcome (named name) rest
  | group :: _ => .error (.block (.longName group.length (group.headD "")))

/-! ### One group more -/

variable {draft : Block} {group : List String} {rest : List (List String)}

theorem lastWith_cons (p : List String → Bool) (group : List String)
    (rest : List (List String)) :
    lastWith p (group :: rest) = (lastWith p rest).or (lastWith p [group]) := by
  rw [lastWith, lastWith, lastWith]
  by_cases hp : p group = true
  · rw [List.filter_cons_of_pos hp, List.getLast?_cons, List.filter_cons_of_pos hp]
    cases (rest.filter p).getLast? <;> rfl
  · rw [List.filter_cons_of_neg hp, List.filter_cons_of_neg hp]
    cases (rest.filter p).getLast? <;> rfl

theorem elim_lastWith_cons {β : Type} (p : List String → Bool) (f : List String → β) (default : β)
    (group : List String) (rest : List (List String)) :
    (lastWith p (group :: rest)).elim default f =
      (lastWith p rest).elim ((lastWith p [group]).elim default f) f := by
  rw [lastWith_cons]
  cases lastWith p rest <;> rfl

theorem filled_cons (draft : Block) (group : List String) (rest : List (List String)) :
    draft.filled (group :: rest) = (draft.filled [group]).filled rest := by
  rw [filled, elim_lastWith_cons _ _ _ group rest, elim_lastWith_cons _ _ _ group rest,
    elim_lastWith_cons _ _ _ group rest]
  rfl

theorem malformedModifier?_cons (group : List String) (rest : List (List String)) :
    malformedModifier? (group :: rest) =
      (malformedModifier? [group]).or (malformedModifier? rest) := by
  rw [malformedModifier?, malformedModifier?, malformedModifier?, ← List.find?_append,
    ← List.flatten_append, ← List.filter_append]
  rfl

/-- A malformed modifier decides, whatever follows. -/
theorem outcome_malformed {line : String} (h : malformedModifier? [group] = some line) :
    draft.outcome (group :: rest) = .error (.modifier line) := by
  rw [outcome, malformedModifier?_cons, h]
  rfl

/-- **A group that is no section line is added to the draft.** -/
theorem outcome_cons (hgood : malformedModifier? [group] = none)
    (hnext : opensWith allSigns group = true ∨ rest ≠ []) :
    draft.outcome (group :: rest) = (draft.filled [group]).outcome rest := by
  rw [outcome, malformedModifier?_cons, hgood, Option.none_or]
  cases rest with
  | nil =>
    have hmarked : opensWith allSigns group = true := hnext.resolve_right (fun h => h rfl)
    simp only [List.getLast?_singleton, hmarked, if_true]
    rfl
  | cons second rest =>
    rw [outcome, List.getLast?_cons_cons, List.dropLast_cons_of_ne_nil (List.cons_ne_nil _ _),
      filled_cons]
    rfl

theorem outcome_section (hunmarked : opensWith allSigns group = false)
    (hgood : malformedModifier? [group] = none) :
    draft.outcome [group] =
      match sectionOfLine draft.name (group.headD "") with
      | .ok word => .ok { draft with sectionText := word }
      | .error e => .error e := by
  rw [outcome, hgood]
  simp only [List.getLast?_singleton, hunmarked, sectionOfLine]
  cases (Text.wordsOf (group.headD ""))[1]? <;> rfl

/-- Where the fields of a block are found among the groups that come to it. -/
theorem outcome_eq_ok {b : Block} {gs : List (List String)} (h : draft.outcome gs = .ok b) :
    ∃ last word, gs.getLast? = some last ∧ (Text.wordsOf (last.headD ""))[1]? = some word ∧
      b = { draft.filled gs.dropLast with sectionText := word } := by
  rw [outcome] at h
  split at h
  · cases h
  · split at h
    · cases h
    · next last hlast =>
      split at h
      · cases h
      · split at h
        · cases h
        · next word hword =>
          cases h
          exact ⟨last, word, hlast, hword, rfl⟩

/-! ### The whole -/

/-- **Adding groups one after the other comes to their outcome.** -/
theorem complete_eq_outcome (draft : Block) (gs : List (List String)) :
    complete draft gs = draft.outcome gs := by
  induction gs generalizing draft with
  | nil => rfl
  | cons group rest ih =>
    rw [complete]
    rcases GroupKind.of_cases group with ⟨hkind, hmarkup, hmodifiers, hall⟩ |
      ⟨hkind, hmarkup, hmodifiers, hall⟩ | ⟨hkind, hmarkup, hmodifiers, hall⟩
    · have hgood : malformedModifier? [group] = none := by
        simp [malformedModifier?, hmodifiers]
      rw [hkind, outcome_cons hgood (.inl hall)]
      simp [ih, filled, lastWith, hmarkup, hmodifiers, hall]
    · have hfind : malformedModifier? [group] = group.find? Modifier.isMalformed := by
        simp [malformedModifier?, hmodifiers]
      rw [hkind, Modifier.mapM_parse, ← hfind]
      cases hbad : malformedModifier? [group] with
      | some line => exact (outcome_malformed hbad).symm
      | none =>
        rw [outcome_cons hbad (.inl hall)]
        simp [ih, filled, lastWith, hmarkup, hmodifiers, hall]
    · have hgood : malformedModifier? [group] = none := by
        simp [malformedModifier?, hmodifiers]
      rw [hkind]
      cases rest with
      | nil => exact (outcome_section hall hgood).symm
      | cons second rest =>
        rw [outcome_cons hgood (.inr (List.cons_ne_nil _ _))]
        simp [ih, filled, lastWith, hmarkup, hmodifiers, hall]

theorem ofLines_eq (lines : List String) : ofLines lines = specified (groups lines) := by
  rw [ofLines]
  rcases groups lines with _ | ⟨_ | ⟨name, _ | ⟨second, later⟩⟩, rest⟩
  · rfl
  · rfl
  · exact complete_eq_outcome (named name) rest
  · rfl

/-- A malformed modifier is reported, though the last group is no section line either. -/
example : specified [["Buttons"], [".primary"], ["<b>"]] = .error (.modifier ".primary") := by
  decide +kernel

theorem specified_eq_ok {gs : List (List String)} {b : Block} (h : specified gs = .ok b) :
    ∃ name rest, gs = [name] :: rest ∧ outcome (named name) rest = .ok b := by
  rcases gs with _ | ⟨_ | ⟨name, _ | ⟨second, later⟩⟩, rest⟩
  · cases h
  · cases h
  · exact ⟨name, rest, rfl, h⟩
  · cases h

/-- **The block that lines describe is the one that is specified.**  The lines have one list of maximal
groups, none of these is without a first line, and what is read from the lines, be it a block or an
error, is what the groups come to. -/
theorem ofLines_eq_specified (lines : List String) :
    ∃ gs, GroupsOf lines gs ∧ (∀ gs', GroupsOf lines gs' → gs' = gs) ∧
      (∀ group ∈ gs, ∃ first, group.head? = some first ∧ first ≠ "") ∧
      ofLines lines = specified gs := by
  refine ⟨groups lines, groupsOf_groups lines, fun gs' => groupsOf_iff.mp, ?_, ofLines_eq lines⟩
  intro group hgroup
  obtain ⟨hne, hall⟩ := ne_nil_of_mem_groups hgroup
  obtain ⟨first, later, rfl⟩ := List.exists_cons_of_ne_nil hne
  exact ⟨first, rfl, (hall first List.mem_cons_self).2⟩

end Block

end LivingGuide
