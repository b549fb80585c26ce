import LivingGuide.SectionNumber
import LivingGuide.Proofs.FirstError

/-!
# Section numbers

Section numbers are ordered by their segments, one after the other, and this order is total: of two
numbers one comes no later than the other, and both ways only when they are equal.

* `SectionNumber.le_trans`, `SectionNumber.le_total`, `SectionNumber.le_antisymm`: the order.
* `SectionNumber.le_iff_inOrder`: a section comes before those that continue it, and otherwise the
  first difference decides.
* `SectionNumber.parse_eq_ok_iff`: a section is a number when each of its segments is.
* `SectionNumber.parse_eq_error_iff`: a section that is no number is reported with its whole text
  and the first segment that is none.
-/

namespace LivingGuide.SectionNumber

/-! ### The order -/

theorem le_refl (a : SectionNumber) : a.le a = true :=
  Std.ReflOrd.isLE_rfl (a := a.segments)

theorem le_trans {a b c : SectionNumber} (hab : a.le b = true) (hbc : b.le c = true) :
    a.le c = true :=
  Std.TransOrd.isLE_trans (a := a.segments) hab hbc

theorem le_total (a b : SectionNumber) : (a.le b || b.le a) = true := by
  rw [Bool.or_eq_true]
  by_cases h : (compare a.segments b.segments).isLE = true
  · exact Or.inl h
  · refine Or.inr ?_
    show (compare b.segments a.segments).isLE = true
    rw [Std.OrientedCmp.lt_of_not_isLE h]
    rfl

theorem le_antisymm {a b : SectionNumber} (hab : a.le b = true) (hba : b.le a = true) : a = b := by
  have h : compare a.segments b.segments = .eq := Std.OrientedCmp.isLE_antisymm hab hba
  obtain ⟨as⟩ := a
  obtain ⟨bs⟩ := b
  exact congrArg mk (Std.LawfulEqCmp.eq_of_compare h)

/-- **The order of sections, segment by segment.**  A section comes before those that continue it,
and of two others the first segment in which they differ decides. -/
def InOrder (a b : SectionNumber) : Prop :=
  a.segments <+: b.segments ∨
    ∃ common m n as bs, a.segments = common ++ m :: as ∧ b.segments = common ++ n :: bs ∧ m < n

theorem inOrder_cons {m n : Nat} {as bs : List Nat} :
    InOrder ⟨m :: as⟩ ⟨n :: bs⟩ ↔ m < n ∨ m = n ∧ InOrder ⟨as⟩ ⟨bs⟩ := by
  constructor
  · rintro (h | ⟨common, k, l, cs, ds, ha, hb, hlt⟩)
    · obtain ⟨rfl, hrest⟩ := List.cons_prefix_cons.mp h
      exact .inr ⟨rfl, .inl hrest⟩
    · cases common with
      | nil =>
        obtain ⟨rfl, -⟩ := List.cons.inj ha
        obtain ⟨rfl, -⟩ := List.cons.inj hb
        exact .inl hlt
      | cons first common =>
        obtain ⟨rfl, has⟩ := List.cons.inj ha
        obtain ⟨rfl, hbs⟩ := List.cons.inj hb
        exact .inr ⟨rfl, .inr ⟨common, k, l, cs, ds, has, hbs, hlt⟩⟩
  · rintro (h | ⟨rfl, h | ⟨common, k, l, cs, ds, ha, hb, hlt⟩⟩)
    · exact .inr ⟨[], m, n, as, bs, rfl, rfl, h⟩
    · exact .inl (List.cons_prefix_cons.mpr ⟨rfl, h⟩)
    · exact .inr ⟨m :: common, k, l, cs, ds, congrArg (m :: ·) ha, congrArg (m :: ·) hb, hlt⟩

/-- **Comparing two sections finds their order.** -/
theorem le_iff_inOrder {a b : SectionNumber} : a.le b = true ↔ a.InOrder b := by
  obtain ⟨as⟩ := a
  obtain ⟨bs⟩ := b
  show (List.compareLex compare as bs).isLE = true ↔ InOrder ⟨as⟩ ⟨bs⟩
  induction as generalizing bs with
  | nil => exact ⟨fun _ => .inl List.nil_prefix, fun _ => List.isLE_compareLex_nil_left⟩
  | cons m as ih =>
    cases bs with
    | nil =>
      rw [List.compareLex_cons_nil]
      refine ⟨nofun, ?_⟩
      rintro (h | ⟨common, k, l, cs, ds, -, hb, -⟩)
      · exact absurd (List.prefix_nil.mp h) (List.cons_ne_nil _ _)
      · exact absurd hb.symm (List.append_ne_nil_of_right_ne_nil _ (List.cons_ne_nil _ _))
    | cons n bs =>
      rw [inOrder_cons, List.compareLex_cons_cons, ← ih bs]
      rcases Nat.lt_trichotomy m n with h | rfl | h
      · rw [Nat.compare_eq_lt.mpr h]
        exact ⟨fun _ => .inl h, fun _ => rfl⟩
      · rw [Nat.compare_eq_eq.mpr rfl, Ordering.eq_then]
        exact ⟨fun hle => .inr ⟨rfl, hle⟩, fun hle => (hle.resolve_left (Nat.lt_irrefl m)).2⟩
      · rw [Nat.compare_eq_gt.mpr h]
        exact ⟨nofun, fun hle => by omega⟩

/-! ### Reading a section -/

/-- The number that a segment of a section writes. -/
def readSegment (whole : String) (cs : List Char) : Except Error Nat :=
  match segment? cs with
  | some n => .ok n
  | none => .error (.sectionNumber whole (String.ofList cs))

theorem parse_eq_map (whole : String) :
    parse whole =
      (((dropFinalDot whole.toList).splitOn '.').mapM (readSegment whole)).map mk := by
  show Except.bind (((dropFinalDot whole.toList).splitOn '.').mapM (readSegment whole)) _ = _
  cases ((dropFinalDot whole.toList).splitOn '.').mapM (readSegment whole) with
  | ok segments => rfl
  | error e => rfl

theorem readSegment_eq_ok_iff {whole : String} {cs : List Char} {n : Nat} :
    readSegment whole cs = .ok n ↔ segment? cs = some n := by
  rw [readSegment]
  cases segment? cs <;> simp

/-- **A section is a number when each of its segments is**, one dot at its end left out. -/
theorem parse_eq_ok_iff {whole : String} {number : SectionNumber} :
    parse whole = .ok number ↔
      List.Forall₂ (fun cs n => segment? cs = some n) ((dropFinalDot whole.toList).splitOn '.')
        number.segments := by
  obtain ⟨segments⟩ := number
  have hread : ((dropFinalDot whole.toList).splitOn '.').mapM (readSegment whole) = .ok segments ↔
      List.Forall₂ (fun cs n => segment? cs = some n) ((dropFinalDot whole.toList).splitOn '.')
        segments := by
    rw [mapM_eq_ok_iff]
    simp only [readSegment_eq_ok_iff]
  rw [← hread, parse_eq_map]
  cases ((dropFinalDot whole.toList).splitOn '.').mapM (readSegment whole) with
  | ok found => exact ⟨fun h => by cases h; rfl, fun h => by cases h; rfl⟩
  | error e => exact ⟨nofun, nofun⟩

theorem isDigit_of_segment? {cs : List Char} {n : Nat} (h : segment? cs = some n) :
    cs ≠ [] ∧ ∀ c ∈ cs, c.isDigit = true := by
  rw [segment?] at h
  split at h
  · next hdigits =>
    simp only [Bool.and_eq_true, Bool.not_eq_true', List.isEmpty_eq_false_iff, List.all_eq_true]
      at hdigits
    exact hdigits.1
  · cases h

theorem readSegment_eq_error_iff {whole : String} {cs : List Char} {e : Error} :
    readSegment whole cs = .error e ↔
      segment? cs = none ∧ e = .sectionNumber whole (String.ofList cs) := by
  rw [readSegment]
  cases segment? cs with
  | some n => exact ⟨nofun, nofun⟩
  | none => exact ⟨fun h => ⟨rfl, (Except.error.inj h).symm⟩, fun h => congrArg _ h.2.symm⟩

/-- **A section that is no number is reported with its whole text and its first segment that is
none.** -/
theorem parse_eq_error_iff {whole : String} {e : Error} :
    parse whole = .error e ↔
      ∃ before bad after, (dropFinalDot whole.toList).splitOn '.' = before ++ bad :: after ∧
        (∀ cs ∈ before, ∃ n, segment? cs = some n) ∧ segment? bad = none ∧
        e = .sectionNumber whole (String.ofList bad) := by
  have hread : ((dropFinalDot whole.toList).splitOn '.').mapM (readSegment whole) = .error e ↔
      ∃ before bad after, (dropFinalDot whole.toList).splitOn '.' = before ++ bad :: after ∧
        (∀ cs ∈ before, ∃ n, segment? cs = some n) ∧ segment? bad = none ∧
        e = .sectionNumber whole (String.ofList bad) := by
    rw [mapM_eq_error_iff]
    simp only [readSegment_eq_ok_iff, readSegment_eq_error_iff]
  rw [← hread, parse_eq_map]
  cases ((dropFinalDot whole.toList).splitOn '.').mapM (readSegment whole) with
  | ok found => exact ⟨nofun, nofun⟩
  | error e' => exact ⟨fun h => by cases h; rfl, fun h => by cases h; rfl⟩

theorem parse_eq_error {whole : String} {e : Error} (h : parse whole = .error e) :
    ∃ segment, e = .sectionNumber whole segment := by
  obtain ⟨_, bad, _, _, _, _, he⟩ := parse_eq_error_iff.mp h
  exact ⟨String.ofList bad, he⟩

end LivingGuide.SectionNumber
