import LivingGuide.Proofs.Guide.StableSort
import Mathlib.Data.List.Induction

/-!
# Sorting early, often or late

A guide grows by operations that change it in place: blocks are added, the blocks of a text are
added, and the guide is sorted, in any order and as often as one likes.  An operation that fails
also leaves a guide behind.  `Operation.perform` is an operation as such a change, and sorting in
place is written with its two steps: the numbers are read while the guide still holds its blocks,
and only then are the blocks taken out (`sortInPlace`).

The invariant of every history is that the guide is a `Reordering` of all that was added: an
addition appends to both sides, and a sort only reorders.  A stable sort does not see the
difference, so the last sort of a history is the stable sort of everything in order of addition.

* `perform_error_unchanged`: **a failing operation leaves the guide as it was.**
* `reordering_after`: the invariant, from the step lemma `reordering_left`.
* `after_history`: what holds after any history.
-/

namespace LivingGuide.Guide

/-! ### Operations -/

/-- A change to a guide. -/
inductive Operation where
  | add (blocks : List Block)
  | addSource (text : String)
  | sort

/-- Sorting in place.  Reading the numbers may fail; after that the guide is empty until the sorted
blocks are put back. -/
def sortInPlace : EStateM Error Guide Unit := do
  let numbers ← MonadExcept.ofExcept ((← get).blocks.mapM Block.number)
  let drained ← modifyGet fun guide => (guide.blocks, empty)
  set (mk (sortByNumber (numbers.zip drained)))

/-- Adding the blocks of a text in place. -/
def addSourceInPlace (text : String) : EStateM Error Guide Unit := do
  let source ← MonadExcept.ofExcept (Source.parse text)
  modify (·.add source.blocks)

namespace Operation

/-- What an operation does to a guide. -/
def perform : Operation → EStateM Error Guide Unit
  | .add blocks => modify (·.add blocks)
  | .addSource text => addSourceInPlace text
  | .sort => sortInPlace

/-- The guide that an operation leaves, whether or not it fails. -/
def left (op : Operation) (guide : Guide) : Guide :=
  match op.perform guide with
  | .ok _ next => next
  | .error _ next => next

/-- The blocks that an operation adds.  A text with a malformed block adds none. -/
def added : Operation → List Block
  | .add blocks => blocks
  | .addSource text =>
    match Source.parse text with
    | .ok source => source.blocks
    | .error _ => []
  | .sort => []

end Operation

/-- The guide after a history of operations on the empty guide. -/
def after (history : List Operation) : Guide :=
  history.foldl (fun guide op => op.left guide) empty

/-- All blocks that a history adds, in order of addition. -/
def addedBy (history : List Operation) : List Block :=
  history.flatMap Operation.added

/-! ### One operation -/

theorem perform_sort (guide : Guide) :
    Operation.sort.perform guide =
      match guide.sort with
      | .ok sorted => EStateM.Result.ok () sorted
      | .error e => EStateM.Result.error e guide := by
  have hrun : Operation.sort.perform guide =
      EStateM.bind (MonadExcept.ofExcept (guide.blocks.mapM Block.number))
        (fun numbers => do
          let drained ← modifyGet fun guide => (guide.blocks, empty)
          set (mk (sortByNumber (numbers.zip drained)))) guide := rfl
  rw [hrun, Guide.sort]
  cases guide.blocks.mapM Block.number with
  | ok numbers => rfl
  | error e => rfl

theorem perform_addSource (text : String) (guide : Guide) :
    (Operation.addSource text).perform guide =
      match guide.addSource text with
      | .ok grown => EStateM.Result.ok () grown.1
      | .error e => EStateM.Result.error e guide := by
  have hrun : (Operation.addSource text).perform guide =
      EStateM.bind (MonadExcept.ofExcept (Source.parse text))
        (fun source => modify (·.add source.blocks)) guide := rfl
  rw [hrun, Guide.addSource]
  cases Source.parse text with
  | ok source => rfl
  | error e => rfl

/-- **A failing operation leaves the guide as it was**, and has added nothing. -/
theorem perform_error_unchanged {op : Operation} {guide next : Guide} {e : Error}
    (h : op.perform guide = .error e next) : next = guide ∧ op.added = [] := by
  cases op with
  | add blocks => cases h
  | addSource text =>
    rw [perform_addSource, addSource] at h
    rw [Operation.added]
    cases hs : Source.parse text with
    | ok source => rw [hs] at h; cases h
    | error e' =>
      rw [hs] at h
      cases h
      exact ⟨rfl, rfl⟩
  | sort =>
    rw [perform_sort] at h
    cases hs : guide.sort with
    | ok sorted => rw [hs] at h; cases h
    | error e' =>
      rw [hs] at h
      cases h
      exact ⟨rfl, rfl⟩

/-- **The step of the invariant.**  An addition appends to both sides; a sort reorders the guide
once more. -/
theorem reordering_left {blocks : List Block} {guide : Guide} (h : Reordering blocks guide.blocks)
    (op : Operation) : Reordering (blocks ++ op.added) (op.left guide).blocks := by
  cases op with
  | add more => exact h.append more
  | addSource text =>
    rw [Operation.left, perform_addSource, addSource, Operation.added]
    cases Source.parse text with
    | ok source => exact h.append source.blocks
    | error e => rw [List.append_nil]; exact h
  | sort =>
    rw [Operation.left, perform_sort, Operation.added, List.append_nil]
    cases hs : guide.sort with
    | ok sorted => exact h.trans (isStableSort_of_sort hs).toReordering
    | error e => exact h

/-! ### Histories -/

theorem after_concat (history : List Operation) (op : Operation) :
    after (history ++ [op]) = op.left (after history) := by
  rw [after, List.foldl_append]
  rfl

/-- **The invariant of every history**: the guide is a reordering of all that was added. -/
theorem reordering_after (history : List Operation) :
    Reordering (addedBy history) (after history).blocks := by
  induction history using List.reverseRecOn with
  | nil => exact .refl []
  | append_singleton history op ih =>
    rw [after_concat, addedBy, List.flatMap_append, List.flatMap_singleton]
    exact reordering_left ih op

theorem exists_sort_after_iff {history : List Operation} :
    (∃ next, Operation.sort.perform (after history) = .ok () next) ↔
      ∀ b ∈ addedBy history, ∃ number, b.number = .ok number := by
  have hmem : (∀ b ∈ (after history).blocks, ∃ number, b.number = .ok number) ↔
      ∀ b ∈ addedBy history, ∃ number, b.number = .ok number := by
    have hperm := (reordering_after history).perm
    exact ⟨fun h b hb => h b (hperm.mem_iff.mpr hb), fun h b hb => h b (hperm.mem_iff.mp hb)⟩
  rw [← hmem, ← exists_sort_iff, perform_sort]
  cases (after history).sort with
  | ok sorted => exact ⟨fun _ => ⟨sorted, rfl⟩, fun _ => ⟨sorted, rfl⟩⟩
  | error e => exact ⟨fun ⟨_, h⟩ => (by cases h), fun ⟨_, h⟩ => (by cases h)⟩

theorem isStableSort_after {history : List Operation} {next : Guide}
    (h : Operation.sort.perform (after history) = .ok () next) :
    IsStableSort (addedBy history) next.blocks := by
  rw [perform_sort] at h
  cases hs : (after history).sort with
  | ok sorted =>
    rw [hs] at h
    cases h
    exact (isStableSort_of_sort hs).of_reordering (reordering_after history)
  | error e => rw [hs] at h; cases h

/-- A block without a number spoils every sort from then on. -/
theorem sort_fails_after {history : List Operation} {b : Block} (hb : b ∈ addedBy history)
    (hn : ∀ number, b.number ≠ .ok number) (more : List Operation) :
    ∃ e, Operation.sort.perform (after (history ++ more)) = .error e (after (history ++ more)) := by
  cases hp : Operation.sort.perform (after (history ++ more)) with
  | error e next => exact ⟨e, by rw [(perform_error_unchanged hp).1]⟩
  | ok _ next =>
    have hall := exists_sort_after_iff.mp ⟨next, hp⟩
    rw [addedBy, List.flatMap_append] at hall
    obtain ⟨number, hnumber⟩ := hall b (List.mem_append_left _ hb)
    exact absurd hnumber (hn number)

/-- **What holds after any history.**  A failing operation changes and adds nothing.  The guide
holds what was added and nothing else.  Sorting succeeds as long as every added block has a number,
and fails for ever once one has none.  A sort gives the stable sort of all that was added, the same
as one sort at the end. -/
theorem after_history (history : List Operation) :
    (∀ (op : Operation) (e : Error) (next : Guide),
      op.perform (after history) = .error e next → next = after history ∧ op.added = []) ∧
    (after history).blocks.Perm (addedBy history) ∧
    ((∃ next, Operation.sort.perform (after history) = .ok () next) ↔
      ∀ b ∈ addedBy history, ∃ number, b.number = .ok number) ∧
    (∀ b ∈ addedBy history, (∀ number, b.number ≠ .ok number) → ∀ more : List Operation,
      ∃ e, Operation.sort.perform (after (history ++ more))
        = .error e (after (history ++ more))) ∧
    (∀ next, Operation.sort.perform (after history) = .ok () next →
      IsStableSort (addedBy history) next.blocks ∧
      (empty.add (addedBy history)).sort = .ok next ∧ after (history ++ [.sort]) = next) := by
  refine ⟨fun op e next h => perform_error_unchanged h, (reordering_after history).perm,
    exists_sort_after_iff, fun b hb hn more => sort_fails_after hb hn more, fun next h => ?_⟩
  have hsort := isStableSort_after h
  refine ⟨hsort, sort_eq_ok_iff.mpr hsort, ?_⟩
  rw [after_concat, Operation.left, h]

end LivingGuide.Guide
