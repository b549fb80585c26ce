import LivingGuide.Guide
import LivingGuide.Proofs.SectionNumber
import Mathlib.Data.List.Perm.Basic

/-!
# The order of a guide

Section numbers are ordered totally, so blocks can be brought into section order, but two blocks may
have one number.  This file says what the order of a sorted guide is without saying how it is
found, and that `Guide.sort` finds it.

* `Reordering before after`: the same blocks, and the blocks of any one section number in the same
  order.
* `IsStableSort before after`: a reordering in which every block has a number and no block stands
  before one with a smaller number.  **There is at most one** (`IsStableSort.unique`).
* `Guide.sort_eq_ok_iff`, `Guide.sort_eq_error_iff`: sorting succeeds exactly with the stable sort,
  and fails exactly with the error of the first block that has no number.
-/

namespace LivingGuide

/-! ### What a stable sort is -/

/-- Whether the section of a block is the given number. -/
def Block.hasNumber (number : SectionNumber) (b : Block) : Bool :=
  match b.number with
  | .ok found => decide (found = number)
  | .error _ => false

theorem Block.hasNumber_iff {number : SectionNumber} {b : Block} :
    b.hasNumber number = true ↔ b.number = .ok number := by
  rw [hasNumber]
  cases b.number with
  | ok found => rw [decide_eq_true_iff, Except.ok.injEq]
  | error e => exact ⟨fun h => (by cases h), fun h => (by cases h)⟩

/-- The section number of the first block comes no later than that of the second. -/
def Block.NoLater (a b : Block) : Prop :=
  ∃ m n, a.number = .ok m ∧ b.number = .ok n ∧ m.le n = true

/-- The same blocks, with **the blocks of any one section number in the same order**. -/
structure Reordering (before after : List Block) : Prop where
  perm : after.Perm before
  ties : ∀ number, after.filter (Block.hasNumber number) = before.filter (Block.hasNumber number)

/-- **The stable sort by section number.** -/
structure IsStableSort (before after : List Block) : Prop extends Reordering before after where
  numbered : ∀ b ∈ after, ∃ number, b.number = .ok number
  ordered : after.Pairwise Block.NoLater

namespace Reordering

theorem refl (blocks : List Block) : Reordering blocks blocks :=
  ⟨.refl _, fun _ => rfl⟩

theorem trans {a b c : List Block} (hab : Reordering a b) (hbc : Reordering b c) :
    Reordering a c :=
  ⟨hbc.perm.trans hab.perm, fun number => (hbc.ties number).trans (hab.ties number)⟩

theorem append {a b : List Block} (h : Reordering a b) (more : List Block) :
    Reordering (a ++ more) (b ++ more) := by
  refine ⟨h.perm.append_right more, fun number => ?_⟩
  rw [List.filter_append, List.filter_append, h.ties number]

end Reordering

namespace IsStableSort

theorem of_reordering {a b c : List Block} (h : Reordering a b) (hs : IsStableSort b c) :
    IsStableSort a c :=
  ⟨h.trans hs.toReordering, hs.numbered, hs.ordered⟩

theorem head_noLater {a : List Block} {x y : Block} {rest : List Block}
    (h : IsStableSort a (x :: rest)) (hy : y ∈ x :: rest) : x.NoLater y := by
  rcases List.mem_cons.mp hy with rfl | hy
  · obtain ⟨n, hn⟩ := h.numbered y (by simp)
    exact ⟨n, n, hn, hn, SectionNumber.le_refl n⟩
  · exact (List.pairwise_cons.mp h.ordered).1 y hy

/-- Two stable sorts of one list start with the same block: their heads have the same number, and
of the blocks with this number both have the same one first. -/
theorem head_eq {a : List Block} {x y : Block} {xs ys : List Block}
    (hx : IsStableSort a (x :: xs)) (hy : IsStableSort a (y :: ys)) : x = y := by
  have hperm : (x :: xs).Perm (y :: ys) := hx.perm.trans hy.perm.symm
  obtain ⟨m, n, hm, hn, hmn⟩ := hx.head_noLater (hperm.mem_iff.mpr List.mem_cons_self)
  obtain ⟨n', m', hn', hm', hnm⟩ := hy.head_noLater (hperm.mem_iff.mp List.mem_cons_self)
  obtain rfl : n = n' := Except.ok.inj (hn.symm.trans hn')
  obtain rfl : m = m' := Except.ok.inj (hm.symm.trans hm')
  obtain rfl : m = n := SectionNumber.le_antisymm hmn hnm
  have hties := (hx.ties m).trans (hy.ties m).symm
  rw [List.filter_cons_of_pos (Block.hasNumber_iff.mpr hm),
    List.filter_cons_of_pos (Block.hasNumber_iff.mpr hn)] at hties
  exact (List.cons.inj hties).1

/-- **A list has at most one stable sort.** -/
theorem unique : ∀ {a xs ys : List Block}, IsStableSort a xs → IsStableSort a ys → xs = ys := by
  intro a xs
  induction xs generalizing a with
  | nil =>
    intro ys hx hy
    exact (hx.perm.trans hy.perm.symm).nil_eq
  | cons x xs ih =>
    intro ys hx hy
    cases ys with
    | nil => exact absurd (hx.perm.trans hy.perm.symm).eq_nil (by simp)
    | cons y ys =>
      obtain rfl := head_eq hx hy
      -- Without their common head both are stable sorts of what the first one leaves.
      have hperm : ys.Perm xs := (hy.perm.trans hx.perm.symm).cons_inv
      have hxs : IsStableSort xs xs :=
        ⟨.refl xs, fun b hb => hx.numbered b (by simp [hb]), (List.pairwise_cons.mp hx.ordered).2⟩
      have hys : IsStableSort xs ys := by
        refine ⟨⟨hperm, fun number => ?_⟩, fun b hb => hy.numbered b (by simp [hb]),
          (List.pairwise_cons.mp hy.ordered).2⟩
        have hties := (hy.ties number).trans (hx.ties number).symm
        by_cases hn : Block.hasNumber number x = true
        · rw [List.filter_cons_of_pos hn, List.filter_cons_of_pos hn] at hties
          exact (List.cons.inj hties).2
        · rwa [List.filter_cons_of_neg hn, List.filter_cons_of_neg hn] at hties
      rw [ih hxs hys]

end IsStableSort

/-! ### Sorting a guide -/

namespace Guide

theorem filter_mergeSort {α : Type} {le : α → α → Bool} {q : α → Bool} {xs : List α}
    (trans : ∀ a b c, le a b → le b c → le a c) (total : ∀ a b, le a b || le b a)
    (hq : ∀ a ∈ xs, ∀ b ∈ xs, q a → q b → le a b) :
    (xs.mergeSort le).filter q = xs.filter q := by
  have hpair : (xs.filter q).Pairwise (fun a b => le a b = true) := by
    refine List.pairwise_of_forall_mem_list (fun a ha b hb => ?_)
    rw [List.mem_filter] at ha hb
    exact hq a ha.1 b hb.1 ha.2 hb.2
  have hsub := (List.sublist_mergeSort trans total hpair List.filter_sublist).filter q
  simp only [List.filter_filter, Bool.and_self] at hsub
  exact (hsub.eq_of_length ((List.mergeSort_perm xs le).filter q).length_eq.symm).symm

/-- **Sorting numbered blocks gives their stable sort.** -/
theorem isStableSort_sortByNumber {numbered : List (SectionNumber × Block)}
    (h : ∀ p ∈ numbered, p.2.number = .ok p.1) :
    IsStableSort (numbered.map Prod.snd) (sortByNumber numbered) := by
  have trans : ∀ a b c : SectionNumber × Block, a.1.le b.1 → b.1.le c.1 → a.1.le c.1 :=
    fun _ _ _ => SectionNumber.le_trans
  have total : ∀ a b : SectionNumber × Block, a.1.le b.1 || b.1.le a.1 :=
    fun a b => SectionNumber.le_total a.1 b.1
  have hsorted : ∀ p ∈ numbered.mergeSort (fun a b => a.1.le b.1), p.2.number = .ok p.1 :=
    fun p hp => h p (List.mem_mergeSort.mp hp)
  refine ⟨⟨(List.mergeSort_perm _ _).map _, fun number => ?_⟩, fun b hb => ?_, ?_⟩
  · rw [sortByNumber, List.filter_map, List.filter_map, filter_mergeSort trans total]
    intro p hp q hq hpn hqn
    have hp' := Block.hasNumber_iff.mp hpn
    have hq' := Block.hasNumber_iff.mp hqn
    rw [h p hp, Except.ok.injEq] at hp'
    rw [h q hq, Except.ok.injEq] at hq'
    rw [hp', hq']
    exact SectionNumber.le_refl number
  · obtain ⟨p, hp, rfl⟩ := List.mem_map.mp hb
    exact ⟨p.1, hsorted p hp⟩
  · rw [sortByNumber, List.pairwise_map]
    refine (List.pairwise_mergeSort trans total numbered).imp_of_mem (fun {p q} hp hq hpq => ?_)
    exact ⟨p.1, q.1, hsorted p hp, hsorted q hq, hpq⟩

theorem isStableSort_of_sort {guide sorted : Guide} (h : guide.sort = .ok sorted) :
    IsStableSort guide.blocks sorted.blocks := by
  rw [sort] at h
  split at h
  · next numbers hnumbers =>
    obtain rfl := Except.ok.inj h
    have hall := (mapM_eq_ok_iff.mp hnumbers).flip
    have hpairs : ∀ p ∈ numbers.zip guide.blocks, p.2.number = .ok p.1 :=
      fun p hp => List.forall₂_zip hall (a := p.1) (b := p.2) hp
    have hblocks : (numbers.zip guide.blocks).map Prod.snd = guide.blocks :=
      List.map_snd_zip (Nat.le_of_eq hall.length_eq.symm)
    have hsort := isStableSort_sortByNumber hpairs
    rwa [hblocks] at hsort
  · cases h

theorem exists_sort_iff {guide : Guide} :
    (∃ sorted, guide.sort = .ok sorted) ↔ ∀ b ∈ guide.blocks, ∃ number, b.number = .ok number := by
  rw [← exists_mapM_ok_iff, sort]
  cases guide.blocks.mapM Block.number with
  | ok numbers => exact ⟨fun _ => ⟨numbers, rfl⟩, fun _ => ⟨_, rfl⟩⟩
  | error e => exact ⟨fun ⟨_, h⟩ => (by cases h), fun ⟨_, h⟩ => (by cases h)⟩

/-- **Sorting succeeds exactly with the stable sort.** -/
theorem sort_eq_ok_iff {guide sorted : Guide} :
    guide.sort = .ok sorted ↔ IsStableSort guide.blocks sorted.blocks := by
  refine ⟨isStableSort_of_sort, fun h => ?_⟩
  obtain ⟨found, hfound⟩ := exists_sort_iff.mpr
    (fun b hb => h.numbered b (h.perm.mem_iff.mpr hb))
  have heq : found.blocks = sorted.blocks := (isStableSort_of_sort hfound).unique h
  rw [hfound]
  exact congrArg (fun blocks => Except.ok (mk blocks)) heq

/-- **Sorting fails exactly with the error of the first block without a number.** -/
theorem sort_eq_error_iff {guide : Guide} {e : Error} :
    guide.sort = .error e ↔
      ∃ before b after, guide.blocks = before ++ b :: after ∧
        (∀ a ∈ before, ∃ number, a.number = .ok number) ∧ b.number = .error e := by
  rw [← mapM_eq_error_iff, sort]
  cases guide.blocks.mapM Block.number with
  | ok numbers => exact ⟨fun h => (by cases h), fun h => (by cases h)⟩
  | error e' => rw [Except.error.injEq, Except.error.injEq]

end Guide

end LivingGuide
