import LivingGuide.Project
import LivingGuide.Proofs.Spelling
import Mathlib.Data.List.Induction
import Mathlib.Data.List.Nodup

/-!
# First spellings

An inventory grows by single paths and by whole inventories, in any order.  The inventories that are
merged may hold anything, also one path many times.  Whatever the history, the files are the paths that
were offered without those that are the same as an earlier one: with

    firsts key xs = the elements of xs whose key no earlier element has,

they are `firsts Path.components` of all that was offered, in order of offering.  This is the invariant
(`HoldsFirsts`), and one push keeps it because an inventory has the components of all that was offered
to it, though not all the spellings (`mem_map_firsts`).

* `firsts`: the first element of each key, and what is known of it for any list.
* `Inventory.holdsFirsts_after`: the invariant, from the step lemma `HoldsFirsts.perform`.
* `Inventory.after_keeps_firsts`: **what an inventory holds after any history.**
* `Project.files_ofPaths`: the files of a project of given paths, as such a history.
-/

namespace LivingGuide

/-! ### The first element of each key -/

section

variable {κ α : Type} [DecidableEq κ] {key : α → κ} {xs ys : List α} {x : α}

/-- The element at a place, unless an earlier one has its key. -/
def firstAt (key : α → κ) (xs : List α) (i : Nat) : Option α :=
  xs[i]?.filter fun x => key x ∉ (xs.take i).map key

/-- The elements of a list whose key no earlier element has, in its order. -/
def firsts (key : α → κ) (xs : List α) : List α :=
  (List.range xs.length).filterMap (firstAt key xs)

theorem firstAt_append {i : Nat} (hi : i < xs.length) (ys : List α) :
    firstAt key (xs ++ ys) i = firstAt key xs i := by
  rw [firstAt, firstAt, List.getElem?_append_left hi,
    List.take_append_of_le_length (Nat.le_of_lt hi)]

/-- **What one element more adds**: itself, unless its key is there already. -/
theorem firsts_concat (key : α → κ) (xs : List α) (x : α) :
    firsts key (xs ++ [x]) = if key x ∈ xs.map key then firsts key xs else firsts key xs ++ [x] := by
  have hbefore : (List.range xs.length).filterMap (firstAt key (xs ++ [x])) = firsts key xs :=
    List.filterMap_congr fun i hi => firstAt_append (List.mem_range.mp hi) [x]
  have hlast : firstAt key (xs ++ [x]) xs.length = if key x ∈ xs.map key then none else some x := by
    by_cases hx : key x ∈ xs.map key <;> simp [firstAt, Option.filter, hx]
  rw [firsts, List.length_append, List.length_singleton, List.range_succ, List.filterMap_append,
    hbefore, List.filterMap_eq_flatMap_toList, List.flatMap_singleton, hlast]
  by_cases hx : key x ∈ xs.map key
  · rw [if_pos hx, if_pos hx]
    exact List.append_nil _
  · rw [if_neg hx, if_neg hx]
    rfl

theorem firstAt_eq_some_iff {i : Nat} :
    firstAt key xs i = some x ↔
      ∃ hi : i < xs.length, xs[i] = x ∧ ∀ j (hj : j < i), key xs[j] ≠ key x := by
  rw [firstAt, Option.filter_eq_some_iff, List.getElem?_eq_some_iff, decide_eq_true_eq]
  constructor
  · rintro ⟨⟨hi, hx⟩, hnew⟩
    refine ⟨hi, hx, fun j hj hkey => hnew ?_⟩
    exact List.mem_map.mpr ⟨xs[j], List.mem_take_iff_getElem.mpr ⟨j, by omega, rfl⟩, hkey⟩
  · rintro ⟨hi, hx, hnew⟩
    refine ⟨⟨hi, hx⟩, fun hmem => ?_⟩
    obtain ⟨y, hy, hkey⟩ := List.mem_map.mp hmem
    obtain ⟨j, hj, rfl⟩ := List.mem_take_iff_getElem.mp hy
    exact hnew j (by omega) hkey

/-- **An element is kept exactly if it is the first one with its key.** -/
theorem mem_firsts_iff : x ∈ firsts key xs ↔ xs.find? (fun y => key y = key x) = some x := by
  rw [firsts, List.mem_filterMap, List.find?_eq_some_iff_getElem]
  constructor
  · rintro ⟨i, -, hfirst⟩
    obtain ⟨hi, hx, hnew⟩ := firstAt_eq_some_iff.mp hfirst
    exact ⟨by simp, i, hi, hx, fun j hj => by simpa using hnew j hj⟩
  · rintro ⟨-, i, hi, hx, hnew⟩
    refine ⟨i, List.mem_range.mpr hi, firstAt_eq_some_iff.mpr ⟨hi, hx, fun j hj => ?_⟩⟩
    simpa using hnew j hj

theorem mem_map_firsts {k : κ} : k ∈ (firsts key xs).map key ↔ k ∈ xs.map key := by
  constructor
  · intro h
    obtain ⟨x, hx, rfl⟩ := List.mem_map.mp h
    exact List.mem_map_of_mem (List.mem_of_find?_eq_some (mem_firsts_iff.mp hx))
  · intro h
    obtain ⟨y, hy, rfl⟩ := List.mem_map.mp h
    have hsome : (xs.find? fun z => key z = key y).isSome :=
      List.find?_isSome.mpr ⟨y, hy, by simp⟩
    obtain ⟨x, hx⟩ := Option.isSome_iff_exists.mp hsome
    have hkey : key x = key y := by simpa using List.find?_some hx
    rw [← hkey] at hx ⊢
    exact List.mem_map_of_mem (mem_firsts_iff.mpr hx)

/-- **The kept elements stand in the order of their first places.** -/
theorem pairwise_firsts (key : α → κ) (xs : List α) :
    (firsts key xs).Pairwise fun x y =>
      xs.findIdx (fun z => key z = key x) < xs.findIdx (fun z => key z = key y) := by
  have hplace : ∀ {i x}, firstAt key xs i = some x → xs.findIdx (fun z => key z = key x) = i := by
    intro i x hfirst
    obtain ⟨hi, rfl, hnew⟩ := firstAt_eq_some_iff.mp hfirst
    exact (List.findIdx_eq hi).mpr ⟨by simp, fun j hj => by simpa using hnew j hj⟩
  rw [firsts, List.pairwise_filterMap]
  refine List.pairwise_lt_range.imp fun {i j} hij x hx y hy => ?_
  rw [hplace hx, hplace hy]
  exact hij

/-- No two kept elements have one key, since it has one first place. -/
theorem pairwise_key_firsts (key : α → κ) (xs : List α) :
    (firsts key xs).Pairwise fun x y => key x ≠ key y := by
  refine (pairwise_firsts key xs).imp fun {x y} hlt hkey => ?_
  rw [hkey] at hlt
  exact Nat.lt_irrefl _ hlt

theorem countP_firsts {k : κ} (h : k ∈ xs.map key) :
    (firsts key xs).countP (fun x => key x = k) = 1 := by
  have hnodup : ((firsts key xs).map key).Nodup :=
    List.pairwise_map.mpr (pairwise_key_firsts key xs)
  have hcount := List.count_eq_one_of_mem hnodup (mem_map_firsts.mpr h)
  rw [List.count, List.countP_map] at hcount
  exact hcount

/-- **More elements change nothing exactly if their keys are all there.** -/
theorem firsts_append_eq_iff :
    firsts key (xs ++ ys) = firsts key xs ↔ ∀ y ∈ ys, key y ∈ xs.map key := by
  constructor
  · intro h y hy
    rw [← mem_map_firsts, ← h, mem_map_firsts]
    exact List.mem_map_of_mem (List.mem_append_right _ hy)
  · intro h
    induction ys using List.reverseRecOn with
    | nil => rw [List.append_nil]
    | append_singleton ys y ih =>
      have hy : key y ∈ (xs ++ ys).map key := by
        rw [List.map_append]
        exact List.mem_append_left _ (h y (by simp))
      rw [← List.append_assoc, firsts_concat, if_pos hy]
      exact ih fun z hz => h z (List.mem_append_left _ hz)

end

namespace Inventory

/-! ### Histories -/

/-- A change to an inventory. -/
inductive Operation where
  | push (path : Path)
  | merge (other : Inventory)

namespace Operation

/-- What an operation does to an inventory. -/
def perform (inventory : Inventory) : Operation → Inventory
  | .push path => inventory.push path
  | .merge other => inventory.merge other

/-- The paths that an operation offers. -/
def offered : Operation → List Path
  | .push path => [path]
  | .merge other => other.files

end Operation

/-- The inventory after a history of operations on the empty inventory. -/
def after (history : List Operation) : Inventory :=
  history.foldl Operation.perform empty

/-- All paths that a history offers, in order of offering. -/
def offeredIn (history : List Operation) : List Path :=
  history.flatMap Operation.offered

/-! ### The invariant -/

variable {inventory : Inventory} {offered : List Path}

/-- The inventory holds, of the paths that were offered, the first spelling of each. -/
def HoldsFirsts (inventory : Inventory) (offered : List Path) : Prop :=
  inventory.files = firsts Path.components offered

theorem HoldsFirsts.any_same_iff (h : HoldsFirsts inventory offered) (path : Path) :
    inventory.files.any (·.same path) ↔ path.components ∈ offered.map Path.components := by
  rw [← mem_map_firsts, ← h, List.any_eq_true, List.mem_map]
  simp only [Path.same_iff]

theorem HoldsFirsts.push (h : HoldsFirsts inventory offered) (path : Path) :
    HoldsFirsts (inventory.push path) (offered ++ [path]) := by
  rw [HoldsFirsts, firsts_concat, Inventory.push]
  by_cases hthere : inventory.files.any (·.same path)
  · rw [if_pos hthere, if_pos ((h.any_same_iff path).mp hthere)]
    exact h
  · rw [if_neg hthere, if_neg fun hold => hthere ((h.any_same_iff path).mpr hold), ← h]

theorem HoldsFirsts.pushAll (h : HoldsFirsts inventory offered) (paths : List Path) :
    HoldsFirsts (inventory.pushAll paths) (offered ++ paths) := by
  induction paths generalizing inventory offered with
  | nil =>
    rw [List.append_nil]
    exact h
  | cons path paths ih =>
    rw [List.append_cons]
    exact ih (h.push path)

/-- **The step of the invariant.**  Whatever an operation offers stands behind what was offered. -/
theorem HoldsFirsts.perform (h : HoldsFirsts inventory offered) (op : Operation) :
    HoldsFirsts (op.perform inventory) (offered ++ op.offered) := by
  cases op with
  | push path => exact h.push path
  | merge other => exact h.pushAll other.files

/-- **The invariant of every history.** -/
theorem holdsFirsts_after (history : List Operation) :
    HoldsFirsts (after history) (offeredIn history) := by
  induction history using List.reverseRecOn with
  | nil => rfl
  | append_singleton history op ih =>
    rw [after, List.foldl_append, offeredIn, List.flatMap_append, List.flatMap_singleton]
    exact ih.perform op

/-- **Merging changes nothing exactly if every path was offered before**, in whatever spelling. -/
theorem HoldsFirsts.merge_eq_iff (h : HoldsFirsts inventory offered) (other : Inventory) :
    inventory.merge other = inventory ↔
      ∀ p ∈ other.files, ∃ q ∈ offered, q.components = p.components := by
  have hmerge : (inventory.merge other).files = firsts Path.components (offered ++ other.files) :=
    h.pushAll other.files
  have hfiles : inventory.merge other = inventory ↔
      firsts Path.components (offered ++ other.files) = firsts Path.components offered := by
    rw [← hmerge, ← h]
    exact ⟨congrArg Inventory.files, congrArg Inventory.mk⟩
  rw [hfiles, firsts_append_eq_iff]
  simp only [List.mem_map]

/-- **What an inventory holds after any history.**  The files are the paths that were offered, in
order, without those that are the same as an earlier one.  So no two files are the same path, each
path that was offered is the same as exactly one file, and each file has the spelling and the place of
its first offer.  Merging changes nothing exactly if every path in it was offered before, as when an
inventory is merged again, whatever came in between.  Two paths are the same when their components
agree, and that is when one is respelled as the other. -/
theorem after_keeps_firsts (history : List Operation) :
    let files := (after history).files
    let offered := offeredIn history
    files = firsts Path.components offered ∧
    (files.Pairwise fun p q => p.components ≠ q.components) ∧
    (∀ p ∈ offered, files.countP (fun q => q.components = p.components) = 1) ∧
    (∀ p ∈ files, offered.find? (fun q => q.components = p.components) = some p) ∧
    (files.Pairwise fun p q =>
      offered.findIdx (fun r => r.components = p.components) <
        offered.findIdx (fun r => r.components = q.components)) ∧
    (∀ other : Inventory, (after history).merge other = after history ↔
      ∀ p ∈ other.files, ∃ q ∈ offered, q.components = p.components) ∧
    (∀ (other : Inventory) (more : List Operation),
      let grown := after (history ++ .merge other :: more)
      grown.merge other = grown) ∧
    ∀ p q : Path, p.components = q.components ↔ p.Respelled q := by
  intro files offered
  have hfiles : files = firsts Path.components offered := holdsFirsts_after history
  refine ⟨hfiles, ?_, fun p hp => ?_, fun p hp => ?_, ?_, (holdsFirsts_after history).merge_eq_iff,
    fun other more => ?_, fun p q => Path.components_eq_iff_respelled⟩
  · rw [hfiles]
    exact pairwise_key_firsts Path.components offered
  · rw [hfiles]
    exact countP_firsts (List.mem_map_of_mem hp)
  · rw [hfiles] at hp
    exact mem_firsts_iff.mp hp
  · rw [hfiles]
    exact pairwise_firsts Path.components offered
  · refine ((holdsFirsts_after _).merge_eq_iff other).mpr fun p hp => ⟨p, ?_, rfl⟩
    rw [offeredIn, List.flatMap_append, List.flatMap_cons]
    exact List.mem_append_right _ (List.mem_append_left _ hp)

/-- The first spelling stays, and a leading `.` makes another path. -/
example :
    (after [.push ⟨"a//b"⟩, .merge ⟨[⟨"a/b/"⟩, ⟨"./a/b"⟩, ⟨"a/./b"⟩]⟩, .push ⟨"./a/b/."⟩]).files =
      [⟨"a//b"⟩, ⟨"./a/b"⟩] := by decide

end Inventory

/-! ### Projects of given paths -/

namespace Project

/-- What a given path does to the inventory of its project. -/
def operation (fs : FileSystem) (path : Path) : Inventory.Operation :=
  if fs.isDirectory path then .merge (Inventory.ofDirectory fs Manifest.default path)
  else .push path

theorem addPath_eq (fs : FileSystem) (inventory : Inventory) (path : Path) :
    addPath fs inventory path = (operation fs path).perform inventory := by
  rw [addPath, operation]
  split <;> rfl

theorem inventory_ofPaths (fs : FileSystem) (paths : List Path) :
    (ofPaths fs paths).inventory = Inventory.after (paths.map (operation fs)) := by
  have hstep : addPath fs = fun inventory path => (operation fs path).perform inventory := by
    funext inventory path
    exact addPath_eq fs inventory path
  rw [Inventory.after, List.foldl_map, ← hstep]
  rfl

/-- **The files of a project of given paths** are what the paths offer, in their order, each in its
first spelling. -/
theorem files_ofPaths (fs : FileSystem) (paths : List Path) :
    (ofPaths fs paths).inventory.files =
      firsts Path.components (paths.flatMap fun path => (operation fs path).offered) := by
  have hfirsts := Inventory.holdsFirsts_after (paths.map (operation fs))
  rw [← inventory_ofPaths, Inventory.offeredIn, List.flatMap_map] at hfirsts
  exact hfirsts

end Project

end LivingGuide
