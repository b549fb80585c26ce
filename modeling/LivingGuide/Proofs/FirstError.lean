import Mathlib.Data.List.Forall2

/-!
# Reading a list: the first error wins

Files, blocks, runs and modifier lines are all read in the same way: every member of a list goes
through one function that may fail, and `xs.mapM f` in `Except` collects the results.  Such a
reading has one of two outcomes, and this file says exactly when each of them happens.

* `mapM_eq_ok_iff`: it succeeds with `ys` when every member succeeds, with the results `ys` in
  order.
* `mapM_eq_error_iff`: it fails with `e` when `e` is the error of a member before which all others
  succeed.
* `mapM_ok_or_error`: there is nothing else.
-/

namespace LivingGuide

variable {α β ε : Type}

/-! ### Lists side by side -/

theorem exists_right_of_forall₂ {R : α → β → Prop} {xs : List α} {ys : List β}
    (h : List.Forall₂ R xs ys) : ∀ x ∈ xs, ∃ y ∈ ys, R x y := by
  induction h with
  | nil => exact fun x hx => absurd hx (by simp)
  | cons hxy _ ih =>
    intro x hx
    rcases List.mem_cons.mp hx with rfl | hx
    · exact ⟨_, List.mem_cons_self, hxy⟩
    · obtain ⟨y, hy, hR⟩ := ih x hx
      exact ⟨y, List.mem_cons_of_mem _ hy, hR⟩

theorem exists_left_of_forall₂ {R : α → β → Prop} {xs : List α} {ys : List β}
    (h : List.Forall₂ R xs ys) : ∀ y ∈ ys, ∃ x ∈ xs, R x y :=
  exists_right_of_forall₂ h.flip

/-! ### The outcomes -/

/-- Reading a list looks at its head first, and at the rest only when the head succeeds. -/
theorem mapM_cons_except (f : α → Except ε β) (x : α) (xs : List α) :
    (x :: xs).mapM f =
      match f x with
      | .error e => .error e
      | .ok y => (xs.mapM f).map (y :: ·) := by
  rw [List.mapM_cons]
  cases f x with
  | error e => rfl
  | ok y => cases xs.mapM f <;> rfl

/-- **A reading succeeds when every member does**, and its results are theirs in order. -/
theorem mapM_eq_ok_iff {f : α → Except ε β} : ∀ {xs : List α} {ys : List β},
    xs.mapM f = .ok ys ↔ List.Forall₂ (fun x y => f x = .ok y) xs ys := by
  intro xs
  induction xs with
  | nil =>
    intro ys
    rw [List.mapM_nil, List.forall₂_nil_left_iff]
    exact ⟨fun h => (Except.ok.inj h).symm, fun h => by rw [h]; rfl⟩
  | cons x xs ih =>
    intro ys
    rw [mapM_cons_except, List.forall₂_cons_left_iff]
    constructor
    · intro h
      cases hx : f x with
      | error e => rw [hx] at h; cases h
      | ok y =>
        rw [hx] at h
        cases hxs : xs.mapM f with
        | error e => rw [hxs] at h; cases h
        | ok zs =>
          rw [hxs] at h
          exact ⟨y, zs, rfl, ih.mp hxs, (Except.ok.inj h).symm⟩
    · rintro ⟨y, zs, hx, hxs, rfl⟩
      rw [hx, ih.mpr hxs]
      rfl

/-- **A reading fails with the error of its first failing member.** -/
theorem mapM_eq_error_iff {f : α → Except ε β} {e : ε} : ∀ {xs : List α},
    xs.mapM f = .error e ↔
      ∃ before x after, xs = before ++ x :: after ∧ (∀ w ∈ before, ∃ y, f w = .ok y) ∧
        f x = .error e := by
  intro xs
  induction xs with
  | nil =>
    rw [List.mapM_nil]
    refine ⟨fun h => (by cases h), ?_⟩
    rintro ⟨before, x, after, h, -, -⟩
    exact absurd h.symm (by simp)
  | cons x xs ih =>
    rw [mapM_cons_except]
    constructor
    · intro h
      cases hx : f x with
      | error e' =>
        rw [hx] at h
        obtain rfl : e' = e := Except.error.inj h
        exact ⟨[], x, xs, rfl, fun w hw => absurd hw (by simp), hx⟩
      | ok y =>
        rw [hx] at h
        cases hxs : xs.mapM f with
        | ok zs => rw [hxs] at h; cases h
        | error e' =>
          rw [hxs] at h
          obtain rfl : e' = e := Except.error.inj h
          obtain ⟨before, z, after, rfl, hbefore, hz⟩ := ih.mp hxs
          refine ⟨x :: before, z, after, rfl, fun w hw => ?_, hz⟩
          rcases List.mem_cons.mp hw with rfl | hw
          · exact ⟨y, hx⟩
          · exact hbefore w hw
    · rintro ⟨before, z, after, h, hbefore, hz⟩
      cases before with
      | nil =>
        obtain ⟨rfl, rfl⟩ := List.cons.inj h
        rw [hz]
      | cons b before =>
        obtain ⟨rfl, rfl⟩ := List.cons.inj h
        obtain ⟨y, hy⟩ := hbefore x (by simp)
        rw [hy, ih.mpr ⟨before, z, after, rfl, fun w hw => hbefore w (by simp [hw]), hz⟩]
        rfl

theorem mapM_ok_or_error (f : α → Except ε β) (xs : List α) :
    (∃ ys, xs.mapM f = .ok ys) ∨ ∃ e, xs.mapM f = .error e := by
  cases xs.mapM f with
  | ok ys => exact Or.inl ⟨ys, rfl⟩
  | error e => exact Or.inr ⟨e, rfl⟩

theorem exists_mapM_ok_iff {f : α → Except ε β} {xs : List α} :
    (∃ ys, xs.mapM f = .ok ys) ↔ ∀ x ∈ xs, ∃ y, f x = .ok y := by
  constructor
  · rintro ⟨ys, h⟩ x hx
    obtain ⟨y, -, hy⟩ := exists_right_of_forall₂ (mapM_eq_ok_iff.mp h) x hx
    exact ⟨y, hy⟩
  · intro h
    rcases mapM_ok_or_error f xs with hok | ⟨e, he⟩
    · exact hok
    · obtain ⟨before, x, after, rfl, -, hx⟩ := mapM_eq_error_iff.mp he
      obtain ⟨y, hy⟩ := h x (by simp)
      rw [hx] at hy
      cases hy

end LivingGuide
