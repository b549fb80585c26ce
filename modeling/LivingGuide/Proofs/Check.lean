import LivingGuide.Command.Run
import LivingGuide.Proofs.Reading
import Mathlib.Data.Finset.Card

/-!
# What a report holds

Two of the checks look for what was met before: a section number that an earlier block has, and a
selector that an earlier modifier of the same block has.  Each goes through a list with a memory of
what it has met.  This file says the same without a memory: at each place of the list,

    repetitionAt key xs i = the element there, and the first one before it with the same key,

and the findings are these repetitions in the order of the places (`reusedSections_eq`,
`repeatedModifiers_eq`).  How many there are depends on the keys alone, and not on their order:

    (repetitions key xs).length = (xs.filterMap key).length - (xs.filterMap key).toFinset.card.

* `repetitions_concat`: what one element more adds; both checks follow it step by step.
* `check_exactly`: **the report of any guide**, what it counts, and when the check of a project
  fails.
-/

namespace LivingGuide

/-! ### Repetitions in a list -/

/-- An element with a key that an earlier one has. -/
structure Repetition (κ α : Type) where
  key : κ
  /-- The earliest element with the key. -/
  first : α
  /-- The element that has it again. -/
  again : α

section

variable {κ α : Type} [DecidableEq κ] {key : α → Option κ} {xs : List α}

/-- The repetition at a place: the element there has a key, and so has an element before it. -/
def repetitionAt (key : α → Option κ) (xs : List α) (i : Nat) : Option (Repetition κ α) := do
  let again ← xs[i]?
  let k ← key again
  let first ← (xs.take i).find? fun x => key x = some k
  return ⟨k, first, again⟩

/-- The repetitions of a list, in its order.  An element without a key repeats nothing. -/
def repetitions (key : α → Option κ) (xs : List α) : List (Repetition κ α) :=
  (List.range xs.length).filterMap (repetitionAt key xs)

theorem repetitionAt_append {i : Nat} (hi : i < xs.length) (ys : List α) :
    repetitionAt key (xs ++ ys) i = repetitionAt key xs i := by
  rw [repetitionAt, repetitionAt, List.getElem?_append_left hi,
    List.take_append_of_le_length (Nat.le_of_lt hi)]

/-- **What one element more adds**: itself, when the list has its key already. -/
theorem repetitions_concat (key : α → Option κ) (xs : List α) (x : α) :
    repetitions key (xs ++ [x]) = repetitions key xs ++
      ((key x).bind fun k => (xs.find? fun a => key a = some k).map (⟨k, ·, x⟩)).toList := by
  have hbefore : (List.range xs.length).filterMap (repetitionAt key (xs ++ [x])) =
      repetitions key xs :=
    List.filterMap_congr fun i hi => repetitionAt_append (List.mem_range.mp hi) [x]
  have hlast : repetitionAt key (xs ++ [x]) xs.length =
      (key x).bind fun k => (xs.find? fun a => key a = some k).map (⟨k, ·, x⟩) := by
    simp [repetitionAt, Option.map_eq_bind]
  rw [repetitions, List.length_append, List.length_singleton, List.range_succ,
    List.filterMap_append, hbefore, List.filterMap_eq_flatMap_toList, List.flatMap_singleton, hlast]

theorem find?_key_eq_none_iff {k : κ} :
    (xs.find? fun a => key a = some k) = none ↔ k ∉ (xs.filterMap key).toFinset := by
  simp [List.find?_eq_none]

/-- **Repetitions and distinct keys make up all keys.** -/
theorem length_repetitions_add (key : α → Option κ) (xs : List α) :
    (repetitions key xs).length + (xs.filterMap key).toFinset.card = (xs.filterMap key).length := by
  induction xs using List.reverseRecOn with
  | nil => rfl
  | append_singleton xs x ih =>
    rw [repetitions_concat, List.filterMap_append]
    cases hkey : key x with
    | none => simpa [hkey] using ih
    | some k =>
      have hset : (xs.filterMap key ++ [k]).toFinset = insert k (xs.filterMap key).toFinset := by
        rw [List.toFinset_append, Finset.union_comm]
        rfl
      rw [List.filterMap_cons_some hkey, List.filterMap_nil, hset]
      cases hfirst : xs.find? fun a => key a = some k with
      | none =>
        rw [Finset.card_insert_of_notMem (find?_key_eq_none_iff.mp hfirst)]
        simp only [Option.bind_some, hfirst, Option.map_none, Option.toList_none, List.append_nil,
          List.length_append, List.length_cons, List.length_nil]
        omega
      | some first =>
        have hmem : k ∈ (xs.filterMap key).toFinset := by
          by_contra hnot
          rw [find?_key_eq_none_iff.mpr hnot] at hfirst
          cases hfirst
        rw [Finset.insert_eq_of_mem hmem]
        simp only [Option.bind_some, hfirst, Option.map_some, Option.toList_some, List.length_append,
          List.length_cons, List.length_nil]
        omega

theorem length_repetitions (key : α → Option κ) (xs : List α) :
    (repetitions key xs).length = (xs.filterMap key).length - (xs.filterMap key).toFinset.card := by
  have := length_repetitions_add key xs
  omega

theorem length_repetitions_pos_iff :
    0 < (repetitions key xs).length ↔ ¬ (xs.filterMap key).Nodup := by
  have hadd := length_repetitions_add key xs
  rw [List.card_toFinset] at hadd
  rw [← List.dedup_eq_self, ← (List.dedup_sublist _).length_eq]
  omega

end

/-! ### Sections that are claimed again -/

/-- The section number of a block, if its section is one. -/
def Block.number? (b : Block) : Option SectionNumber :=
  b.number.toOption

/-- The warning about a block that claims a section again. -/
def Repetition.reuse (r : Repetition SectionNumber Block) : Finding :=
  reusedSection r.again r.key r.first.name

/-- The memory of the check holds the numbers of the blocks that were met, each with the name of the
first block that has it. -/
def Remembers (seen : List (SectionNumber × String)) (met : List Block) : Prop :=
  ∀ number, seen.lookup number = (met.find? fun b => b.number? = some number).map Block.name

section

variable {seen : List (SectionNumber × String)} {met : List Block} {b : Block}
  {number : SectionNumber}

/-- A block with a number that is remembered, or without one, is nothing new. -/
theorem Remembers.skip (h : Remembers seen met)
    (hb : ∀ number, b.number? = some number → seen.lookup number ≠ none) :
    Remembers seen (met ++ [b]) := by
  intro number
  rw [List.find?_append, h number]
  cases hfirst : met.find? fun a => a.number? = some number with
  | some first => rfl
  | none =>
    have hnew : b.number? ≠ some number := by
      intro hnumber
      apply hb number hnumber
      rw [h number, hfirst]
      rfl
    simp [hnew]

/-- A block with a new number is the first one that has it. -/
theorem Remembers.note (h : Remembers seen met) (hb : b.number? = some number)
    (hnew : seen.lookup number = none) : Remembers ((number, b.name) :: seen) (met ++ [b]) := by
  intro other
  rw [List.find?_append, List.lookup_cons]
  by_cases hother : other = number
  · subst hother
    rw [h other, Option.map_eq_none_iff] at hnew
    simp [hnew, hb]
  · have hbeq : (other == number) = false := beq_false_of_ne hother
    have hne : ¬ number = other := fun heq => hother heq.symm
    simp [hbeq, hne, hb, h other]

/-- **The check for sections, from any point on.** -/
theorem map_reuse_append (h : Remembers seen met) (blocks : List Block) :
    (repetitions Block.number? (met ++ blocks)).map Repetition.reuse =
      (repetitions Block.number? met).map Repetition.reuse ++ reusedSections seen blocks := by
  induction blocks generalizing seen met with
  | nil => rw [List.append_nil, reusedSections, List.append_nil]
  | cons b blocks ih =>
    rw [List.append_cons, reusedSections]
    cases hnumber : b.number with
    | error e =>
      have hnone : b.number? = none := by
        rw [Block.number?, hnumber]
        rfl
      have hskip : Remembers seen (met ++ [b]) := h.skip fun n hn => by
        rw [hnone] at hn
        cases hn
      rw [ih hskip, repetitions_concat, hnone]
      simp
    | ok number =>
      have hsome : b.number? = some number := by
        rw [Block.number?, hnumber]
        rfl
      cases hseen : seen.lookup number with
      | some name =>
        have hskip : Remembers seen (met ++ [b]) := h.skip fun n hn => by
          rw [hsome] at hn
          cases hn
          rw [hseen]
          exact Option.some_ne_none name
        have hfirst := h number
        rw [hseen, eq_comm, Option.map_eq_some_iff] at hfirst
        obtain ⟨first, hfirst, rfl⟩ := hfirst
        rw [ih hskip, repetitions_concat, hsome]
        simp [hfirst, hseen, Repetition.reuse]
      | none =>
        have hfirst := h number
        rw [hseen, eq_comm, Option.map_eq_none_iff] at hfirst
        rw [ih (h.note hsome hseen), repetitions_concat, hsome]
        simp [hfirst, hseen]

end

/-- **The warnings about sections are the repetitions of section numbers.** -/
theorem reusedSections_eq (blocks : List Block) :
    reusedSections [] blocks = (repetitions Block.number? blocks).map Repetition.reuse := by
  have hnone : Remembers [] [] := fun _ => rfl
  exact (map_reuse_append hnone blocks).symm

/-! ### Modifiers that are declared again -/

/-- The key of a modifier among those of its block. -/
def Modifier.key (m : Modifier) : Option String :=
  some m.selector

/-- The selectors of a block, in the order of its modifiers. -/
def Block.selectors (b : Block) : List String :=
  b.modifiers.map Modifier.selector

theorem filterMap_key (modifiers : List Modifier) :
    modifiers.filterMap Modifier.key = modifiers.map Modifier.selector :=
  congrFun List.filterMap_eq_map modifiers

/-- **The check for selectors, from any point on.**  Its memory holds the selectors that were met. -/
theorem map_repeatedModifier_append (b : Block) {seen : List String} {met : List Modifier}
    (h : ∀ s, s ∈ seen ↔ s ∈ met.map Modifier.selector) (modifiers : List Modifier) :
    (repetitions Modifier.key (met ++ modifiers)).map (repeatedModifier b ·.again) =
      (repetitions Modifier.key met).map (repeatedModifier b ·.again) ++
        repeatedSelectors b seen modifiers := by
  induction modifiers generalizing seen met with
  | nil => rw [List.append_nil, repeatedSelectors, List.append_nil]
  | cons m modifiers ih =>
    have hfind : (met.find? fun a => a.key = some m.selector) = none ↔ m.selector ∉ seen := by
      rw [find?_key_eq_none_iff, filterMap_key, List.mem_toFinset, h]
    rw [List.append_cons, repeatedSelectors]
    simp only [List.contains_iff_mem]
    by_cases hseen : m.selector ∈ seen
    · have hmet : ∀ s, s ∈ seen ↔ s ∈ (met ++ [m]).map Modifier.selector := by
        intro s
        rw [List.map_append, List.mem_append, ← h s]
        refine ⟨.inl, fun hs => hs.elim id fun hlast => ?_⟩
        rwa [List.mem_singleton.mp hlast]
      obtain ⟨first, hfirst⟩ := Option.ne_none_iff_exists'.mp fun hnone => hfind.mp hnone hseen
      rw [if_pos hseen, ih hmet, repetitions_concat, Modifier.key]
      simp [hfirst]
    · have hmet : ∀ s, s ∈ m.selector :: seen ↔ s ∈ (met ++ [m]).map Modifier.selector := by
        intro s
        rw [List.map_append, List.mem_append, ← h s, List.mem_cons, or_comm, List.map_singleton,
          List.mem_singleton]
      rw [if_neg hseen, ih hmet, repetitions_concat, Modifier.key]
      simp [hfind.mpr hseen]

/-- **The errors about modifiers are the repetitions of selectors in each block.** -/
theorem repeatedModifiers_eq (blocks : List Block) :
    repeatedModifiers blocks = blocks.flatMap fun b =>
      (repetitions Modifier.key b.modifiers).map (repeatedModifier b ·.again) := by
  have hnothing : ∀ s, s ∈ ([] : List String) ↔ s ∈ ([] : List Modifier).map Modifier.selector :=
    fun _ => Iff.rfl
  exact List.flatMap_congr fun b _ => (map_repeatedModifier_append b hnothing b.modifiers).symm

/-! ### Modifiers that cannot show -/

/-- The warning that a block with modifiers has no example. -/
def withoutExample (b : Block) : Finding where
  severity := .warning
  code := "styleguide::validate::modifiers-without-example"
  message := "'" ++ b.name ++ "' lists modifiers but has no example markup"
  sectionText := some b.sectionText
  help := some "Add example markup starting with `<`"

/-- The warning that the example of a block with modifiers has no place for them. -/
def withoutPlaceholder (b : Block) : Finding where
  severity := .warning
  code := "styleguide::validate::missing-placeholder"
  message := "'" ++ b.name ++ "' lists modifiers but its example never uses " ++ Block.placeholder
  sectionText := some b.sectionText
  help := some "Add $modifier to a class attribute in the example"

/-- The warning about the modifiers of a block: there is nothing to show them in, or no place. -/
def unshown? (b : Block) : Option Finding :=
  if b.modifiers ≠ [] ∧ b.markup = "" then some (withoutExample b)
  else if b.modifiers ≠ [] ∧ b.markup ≠ "" ∧ ¬ Block.placeholder.toList <:+: b.markup.toList then
    some (withoutPlaceholder b)
  else none

theorem unusedModifiers?_eq (b : Block) : unusedModifiers? b = unshown? b := by
  have hmark : b.hasPlaceholder = true ↔ Block.placeholder.toList <:+: b.markup.toList :=
    Text.occursIn_iff _ _
  rw [unusedModifiers?, unshown?]
  simp only [← hmark]
  by_cases hmodifiers : b.modifiers = []
  · simp [hmodifiers]
  · by_cases hmarkup : b.markup = ""
    · simp [hmodifiers, hmarkup, withoutExample]
    · simp [hmodifiers, hmarkup, withoutPlaceholder]

/-! ### Reports -/

/-- The code of the warnings about sections. -/
def reuseCode : String := "styleguide::validate::duplicate-section"

section

variable {blocks : List Block} {f : Finding}

theorem of_mem_reuses (h : f ∈ (repetitions Block.number? blocks).map Repetition.reuse) :
    f.severity = .warning ∧ f.code = reuseCode := by
  obtain ⟨r, -, rfl⟩ := List.mem_map.mp h
  exact ⟨rfl, rfl⟩

theorem of_mem_unshown (h : f ∈ blocks.filterMap unshown?) :
    f.severity = .warning ∧ f.code ≠ reuseCode := by
  obtain ⟨b, -, hb⟩ := List.mem_filterMap.mp h
  rw [unshown?] at hb
  split_ifs at hb
  · cases hb
    exact ⟨rfl, by simp [withoutExample, reuseCode]⟩
  · cases hb
    exact ⟨rfl, by simp [withoutPlaceholder, reuseCode]⟩

theorem of_mem_repeated (h : f ∈ blocks.flatMap fun b =>
    (repetitions Modifier.key b.modifiers).map (repeatedModifier b ·.again)) :
    f.severity = .error ∧ f.code ≠ reuseCode := by
  obtain ⟨b, -, hb⟩ := List.mem_flatMap.mp h
  obtain ⟨r, -, rfl⟩ := List.mem_map.mp hb
  exact ⟨rfl, by simp [repeatedModifier, reuseCode]⟩

end

namespace Guide

/-- The number of warnings about sections that are claimed again. -/
def reuses (guide : Guide) : Nat :=
  guide.check.findings.countP (·.code = reuseCode)

theorem findings_check (guide : Guide) :
    guide.check.findings =
      (repetitions Block.number? guide.blocks).map Repetition.reuse ++
        guide.blocks.filterMap unshown? ++
        guide.blocks.flatMap fun b =>
          (repetitions Modifier.key b.modifiers).map (repeatedModifier b ·.again) := by
  have hunused : unusedModifiers guide.blocks = guide.blocks.filterMap unshown? :=
    List.filterMap_congr fun b _ => unusedModifiers?_eq b
  rw [check, reusedSections_eq, hunused, repeatedModifiers_eq]

theorem reuses_eq (guide : Guide) :
    guide.reuses = (repetitions Block.number? guide.blocks).length := by
  rw [reuses, findings_check, List.countP_append, List.countP_append, List.countP_eq_length.mpr,
    List.countP_eq_zero.mpr, List.countP_eq_zero.mpr, List.length_map]
  · rfl
  · intro f hf
    simpa using (of_mem_repeated hf).2
  · intro f hf
    simpa using (of_mem_unshown hf).2
  · intro f hf
    simpa using (of_mem_reuses hf).2

theorem errors_check (guide : Guide) :
    guide.check.errors =
      (guide.blocks.map fun b => (repetitions Modifier.key b.modifiers).length).sum := by
  rw [Report.errors, Report.count, findings_check, List.countP_append, List.countP_append,
    List.countP_eq_zero.mpr, List.countP_eq_zero.mpr, List.countP_eq_length.mpr,
    List.length_flatMap]
  · simp only [List.length_map, Nat.zero_add]
  · intro f hf
    simpa using (of_mem_repeated hf).1
  · intro f hf
    simp [(of_mem_unshown hf).1]
  · intro f hf
    simp [(of_mem_reuses hf).1]

theorem errors_check_pos_iff (guide : Guide) :
    0 < guide.check.errors ↔ ∃ b ∈ guide.blocks, ¬ b.selectors.Nodup := by
  have hblock : ∀ b : Block, 0 < (repetitions Modifier.key b.modifiers).length ↔
      ¬ b.selectors.Nodup := by
    intro b
    rw [length_repetitions_pos_iff, filterMap_key]
    rfl
  simp only [errors_check, List.sum_pos_iff_exists_pos_nat, List.mem_map, ← hblock]
  constructor
  · rintro ⟨n, ⟨b, hb, rfl⟩, hn⟩
    exact ⟨b, hb, hn⟩
  · rintro ⟨b, hb, hn⟩
    exact ⟨_, ⟨b, hb, rfl⟩, hn⟩

theorem counts_of_perm {guide guide' : Guide} (h : guide.blocks.Perm guide'.blocks) :
    guide'.reuses = guide.reuses ∧ guide'.check.errors = guide.check.errors := by
  have hnumbers := h.filterMap Block.number?
  constructor
  · rw [reuses_eq, reuses_eq, length_repetitions, length_repetitions, hnumbers.length_eq,
      List.toFinset_eq_of_perm _ _ hnumbers]
  · rw [errors_check, errors_check]
    exact (h.map _).sum_nat.symm

end Guide

/-! ### The check of a project -/

theorem Reading.errors_findings {fs : FileSystem} {paths : List Path} {reading : Reading}
    (h : Reading.ofFiles fs paths = .ok reading) :
    reading.findings.errors = reading.guide.check.errors := by
  obtain ⟨sources, -, -, -, hfindings⟩ := Reading.ofFiles_eq_ok_iff.mp h
  have hzero : reading.report.findings.countP (·.severity == .error) = 0 := by
    rw [hfindings, List.countP_eq_zero]
    intro f hf
    obtain ⟨file, -, hfile⟩ := List.mem_filterMap.mp hf
    obtain ⟨run, -, rfl⟩ := Option.map_eq_some_iff.mp hfile
    simp [Reading.cutOff]
  rw [Reading.findings, Report.merge, Report.errors, Report.count, List.countP_append, hzero,
    Nat.zero_add]
  rfl

/-- **How the check of a project that can be read ends.** -/
theorem Survey.result_validate {fs : FileSystem} {paths : List Path} {project : Project}
    {reading : Reading} (hproject : Project.find fs paths = .ok project)
    (hreading : Reading.ofFiles fs project.inventory.files = .ok reading) :
    (Survey.validate fs paths).result =
      if ∃ b ∈ reading.guide.blocks, ¬ b.selectors.Nodup then
        .error (.findings reading.findings.errors reading.findings.warnings)
      else .ok () := by
  rw [Survey.validate, hproject]
  simp only [hreading, ← Guide.errors_check_pos_iff, ← Reading.errors_findings hreading]
  split <;> rfl

/-- **The report of a guide, its counts, and the check of a project.**  Whatever the blocks, the
report holds a warning for every block whose section number an earlier block has, naming the earliest
one; then a warning for every block whose modifiers cannot show; then an error for every modifier
whose selector occurs earlier in its block; each in the order of the blocks and of the modifiers.  So
there are as many warnings about sections as blocks with a number less distinct numbers, and as many
errors as modifiers less distinct selectors, block by block; both in any order of the blocks.  And the
check of a project that can be read fails with the findings exactly if a block repeats a selector. -/
theorem check_exactly :
    (∀ guide : Guide,
      guide.check.findings =
        (repetitions Block.number? guide.blocks).map
            (fun r => reusedSection r.again r.key r.first.name) ++
          guide.blocks.filterMap unshown? ++
          guide.blocks.flatMap (fun b =>
            (repetitions Modifier.key b.modifiers).map fun r => repeatedModifier b r.again) ∧
      guide.reuses = (guide.blocks.filterMap Block.number?).length -
        (guide.blocks.filterMap Block.number?).toFinset.card ∧
      guide.check.errors =
        (guide.blocks.map fun b => b.modifiers.length - b.selectors.toFinset.card).sum ∧
      ∀ guide' : Guide, guide.blocks.Perm guide'.blocks →
        guide'.reuses = guide.reuses ∧ guide'.check.errors = guide.check.errors) ∧
    ∀ fs paths project reading, Project.find fs paths = .ok project →
      Reading.ofFiles fs project.inventory.files = .ok reading →
      ((∃ errors warnings,
          (Command.run fs (.validate paths)).result = .error (.findings errors warnings)) ↔
        ∃ b ∈ reading.guide.blocks, ¬ b.selectors.Nodup) ∧
      ((Command.run fs (.validate paths)).result = .ok () ↔
        ∀ b ∈ reading.guide.blocks, b.selectors.Nodup) := by
  constructor
  · intro guide
    refine ⟨guide.findings_check, ?_, ?_, fun guide' h => Guide.counts_of_perm h⟩
    · rw [Guide.reuses_eq, length_repetitions]
    · rw [Guide.errors_check]
      refine congrArg List.sum (List.map_congr_left fun b _ => ?_)
      rw [length_repetitions, filterMap_key, List.length_map]
      rfl
  · intro fs paths project reading hproject hreading
    rw [Command.run, Survey.result_validate hproject hreading]
    by_cases hrepeats : ∃ b ∈ reading.guide.blocks, ¬ b.selectors.Nodup
    · rw [if_pos hrepeats]
      refine ⟨⟨fun _ => hrepeats, fun _ => ⟨_, _, rfl⟩⟩, nofun, fun hall => ?_⟩
      obtain ⟨b, hb, hnot⟩ := hrepeats
      exact absurd (hall b hb) hnot
    · rw [if_neg hrepeats]
      refine ⟨⟨nofun, fun h => absurd h hrepeats⟩, fun _ b hb => ?_, fun _ => rfl⟩
      by_contra hnot
      exact hrepeats ⟨b, hb, hnot⟩

/-- The third block with a number is told of the first one, and a block without one of none. -/
example :
    (reusedSections [] [⟨"a", "", [], "", "1.2"⟩, ⟨"b", "", [], "", "x"⟩, ⟨"c", "", [], "", "01.2."⟩,
      ⟨"d", "", [], "", "x"⟩, ⟨"e", "", [], "", "1.2"⟩]).map (·.message) =
    ["'c' reuses section 1.2 already taken by 'a'", "'e' reuses section 1.2 already taken by 'a'"] := by
  decide +kernel

end LivingGuide
