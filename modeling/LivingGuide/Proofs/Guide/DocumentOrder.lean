import LivingGuide.Proofs.Guide.SortContract

/-!
# Sorted guides are in document order

Section numbers are compared segment by segment, and a section comes before those that continue it.
So a section and its subsections at every depth are an interval of the order: what lies between two
numbers that continue `k` continues `k` as well (`SectionNumber.prefix_of_between`).  A sorted guide
therefore falls into four parts for every `k`, by three cuts at places where a property ends,

    blocks = before ++ (own ++ below) ++ after,

where `own` are the blocks of the section `k`, `below` those of its subsections, and no other block
belongs to `k`.

* `Block.Within k`, `Block.Below k`: blocks of a section or its subsections, and of its subsections.
* `Together k`: the four parts above.
* `exists_cut_of_handedDown`: a property that later elements hand down to earlier ones holds up to a
  place and not behind it.
* `Guide.sorted_documentOrder`: **the blocks of a section stand together, its own first.**
-/

namespace LivingGuide

/-! ### Sections between sections -/

namespace SectionNumber

theorem InOrder.trans {a b c : SectionNumber} (hab : a.InOrder b) (hbc : b.InOrder c) :
    a.InOrder c :=
  le_iff_inOrder.mp (le_trans (le_iff_inOrder.mpr hab) (le_iff_inOrder.mpr hbc))

theorem InOrder.antisymm {a b : SectionNumber} (hab : a.InOrder b) (hba : b.InOrder a) : a = b :=
  le_antisymm (le_iff_inOrder.mpr hab) (le_iff_inOrder.mpr hba)

/-- **What lies between a section and one that continues it continues it too.** -/
theorem prefix_of_between {k : List Nat} {a c : SectionNumber} (hka : InOrder ⟨k⟩ a)
    (hac : a.InOrder c) (hkc : k <+: c.segments) : k <+: a.segments := by
  obtain ⟨as⟩ := a
  obtain ⟨cs⟩ := c
  induction k generalizing as cs with
  | nil => exact List.nil_prefix
  | cons m k ih =>
    obtain ⟨rest, rfl⟩ := hkc
    cases as with
    | nil =>
      have hle : (mk (m :: k)).le ⟨[]⟩ = true := le_iff_inOrder.mpr hka
      cases hle
    | cons n as =>
      rw [inOrder_cons] at hka
      rw [List.cons_append, inOrder_cons] at hac
      -- A segment that has grown on the way to `a` cannot be smaller again in `c`.
      have hmn : m = n := by omega
      have hka' : InOrder ⟨k⟩ ⟨as⟩ := by
        rcases hka with h | h
        · omega
        · exact h.2
      have hac' : InOrder ⟨as⟩ ⟨k ++ rest⟩ := by
        rcases hac with h | h
        · omega
        · exact h.2
      show m :: k <+: n :: as
      rw [List.cons_prefix_cons]
      exact ⟨hmn, ih as hka' (k ++ rest) (List.prefix_append k rest) hac'⟩

end SectionNumber

/-! ### Blocks of a section -/

namespace Block

/-- A block that comes before a section. -/
def Ahead (k : List Nat) (b : Block) : Prop :=
  ∃ n, b.number = .ok n ∧ ¬ SectionNumber.InOrder ⟨k⟩ n

/-- A block of a section or of one of its subsections. -/
def Within (k : List Nat) (b : Block) : Prop :=
  ∃ n, b.number = .ok n ∧ k <+: n.segments

/-- A block of a subsection of a section, at whatever depth. -/
def Below (k : List Nat) (b : Block) : Prop :=
  ∃ n, b.number = .ok n ∧ k <+: n.segments ∧ k.length < n.segments.length

variable {k : List Nat} {a b : Block}

theorem within_of_number (h : b.number = .ok ⟨k⟩) : b.Within k :=
  ⟨⟨k⟩, h, List.prefix_rfl⟩

theorem Below.within (h : b.Below k) : b.Within k := by
  obtain ⟨n, hn, hpre, -⟩ := h
  exact ⟨n, hn, hpre⟩

theorem Below.number_ne (h : b.Below k) : b.number ≠ .ok ⟨k⟩ := by
  obtain ⟨n, hn, -, hlen⟩ := h
  intro hk
  obtain rfl : n = ⟨k⟩ := Except.ok.inj (hn.symm.trans hk)
  exact absurd hlen (Nat.lt_irrefl _)

theorem Within.below (h : b.Within k) (hne : b.number ≠ .ok ⟨k⟩) : b.Below k := by
  obtain ⟨⟨ns⟩, hn, hpre⟩ := h
  refine ⟨⟨ns⟩, hn, hpre, ?_⟩
  by_contra hlen
  obtain rfl : k = ns := hpre.eq_of_length_le (Nat.le_of_not_lt hlen)
  exact hne hn

theorem Ahead.not_within (h : b.Ahead k) : ¬ b.Within k := by
  obtain ⟨m, hm, hnot⟩ := h
  rintro ⟨n, hn, hpre⟩
  obtain rfl : m = n := Except.ok.inj (hm.symm.trans hn)
  exact hnot (Or.inl hpre)

/-! What stands before a block of each kind. -/

theorem Ahead.of_inOrder (hab : a.InOrder b) (hb : b.Ahead k) : a.Ahead k := by
  obtain ⟨m, n, hm, hn, hmn⟩ := hab
  obtain ⟨n', hn', hnot⟩ := hb
  obtain rfl : n = n' := Except.ok.inj (hn.symm.trans hn')
  exact ⟨m, hm, fun hkm => hnot (hkm.trans hmn)⟩

theorem Within.of_inOrder (hab : a.InOrder b) (hb : b.Within k) : a.Ahead k ∨ a.Within k := by
  obtain ⟨m, n, hm, hn, hmn⟩ := hab
  obtain ⟨n', hn', hpre⟩ := hb
  obtain rfl : n = n' := Except.ok.inj (hn.symm.trans hn')
  by_cases hkm : SectionNumber.InOrder ⟨k⟩ m
  · exact Or.inr ⟨m, hm, SectionNumber.prefix_of_between hkm hmn hpre⟩
  · exact Or.inl ⟨m, hm, hkm⟩

theorem Within.number_of_inOrder (ha : a.Within k) (hab : a.InOrder b)
    (hb : b.number = .ok ⟨k⟩) : a.number = .ok ⟨k⟩ := by
  obtain ⟨m, n, hm, hn, hmn⟩ := hab
  obtain ⟨m', hm', hpre⟩ := ha
  obtain rfl : m = m' := Except.ok.inj (hm.symm.trans hm')
  obtain rfl : n = ⟨k⟩ := Except.ok.inj (hn.symm.trans hb)
  rw [hm, hmn.antisymm (Or.inl hpre)]

end Block

/-! ### Cutting blocks that are in order -/

/-- **A property that later elements hand down ends somewhere**: it holds up to a place of the list
and nowhere behind it. -/
theorem exists_cut_of_handedDown {α : Type} {P : α → Prop} {xs : List α}
    (h : xs.Pairwise fun a b => P b → P a) :
    ∃ ys zs, xs = ys ++ zs ∧ (∀ a ∈ ys, P a) ∧ ∀ a ∈ zs, ¬ P a := by
  induction xs with
  | nil => exact ⟨[], [], rfl, nofun, nofun⟩
  | cons x xs ih =>
    obtain ⟨hx, hxs⟩ := List.pairwise_cons.mp h
    by_cases hP : P x
    · obtain ⟨ys, zs, rfl, hys, hzs⟩ := ih hxs
      exact ⟨x :: ys, zs, rfl, List.forall_mem_cons.mpr ⟨hP, hys⟩, hzs⟩
    · refine ⟨[], x :: xs, rfl, nofun, List.forall_mem_cons.mpr ⟨hP, ?_⟩⟩
      intro a ha hPa
      exact hP (hx a ha hPa)

theorem exists_interval_within {blocks : List Block} (h : blocks.Pairwise Block.InOrder)
    (k : List Nat) :
    ∃ before inside after, blocks = before ++ inside ++ after ∧ (∀ b ∈ before, ¬ b.Within k) ∧
      (∀ b ∈ inside, b.Within k) ∧ ∀ b ∈ after, ¬ b.Within k := by
  obtain ⟨front, after, rfl, hfront, hafter⟩ :=
    exists_cut_of_handedDown (P := fun b => b.Ahead k ∨ b.Within k)
      (h.imp fun hab hb => hb.elim (fun hb => Or.inl (hb.of_inOrder hab)) (·.of_inOrder hab))
  obtain ⟨before, inside, rfl, hbefore, hinside⟩ :=
    exists_cut_of_handedDown (P := Block.Ahead k)
      ((List.pairwise_append.mp h).1.imp fun hab hb => hb.of_inOrder hab)
  refine ⟨before, inside, after, rfl, fun b hb => (hbefore b hb).not_within, ?_, ?_⟩
  · intro b hb
    exact (hfront b (List.mem_append_right before hb)).resolve_left (hinside b hb)
  · intro b hb hwithin
    exact hafter b hb (Or.inr hwithin)

theorem exists_cut_own {inside : List Block} {k : List Nat} (h : inside.Pairwise Block.InOrder)
    (hwithin : ∀ b ∈ inside, b.Within k) :
    ∃ own below, inside = own ++ below ∧ (∀ b ∈ own, b.number = .ok ⟨k⟩) ∧
      ∀ b ∈ below, b.Below k := by
  obtain ⟨own, below, rfl, hown, hbelow⟩ :=
    exists_cut_of_handedDown (P := fun b : Block => b.number = .ok ⟨k⟩)
      (h.imp_of_mem fun ha _ hab hb => (hwithin _ ha).number_of_inOrder hab hb)
  refine ⟨own, below, rfl, hown, ?_⟩
  intro b hb
  exact (hwithin b (List.mem_append_right own hb)).below (hbelow b hb)

theorem inOrder_of_lt {blocks : List Block} (h : blocks.Pairwise Block.InOrder) {i j : Nat}
    {a b : Block} (ha : blocks[i]? = some a) (hb : blocks[j]? = some b) (hij : i < j) :
    a.InOrder b := by
  obtain ⟨hi, rfl⟩ := List.getElem?_eq_some_iff.mp ha
  obtain ⟨hj, rfl⟩ := List.getElem?_eq_some_iff.mp hb
  exact List.pairwise_iff_getElem.mp h i j hi hj hij

theorem within_of_between {blocks : List Block} {k : List Nat}
    (h : blocks.Pairwise Block.InOrder) {i m j : Nat} {a b c : Block} (ha : blocks[i]? = some a)
    (hb : blocks[m]? = some b) (hc : blocks[j]? = some c) (him : i < m) (hmj : m < j)
    (hak : a.Within k) (hck : c.Within k) : b.Within k := by
  have hab : a.InOrder b := inOrder_of_lt h ha hb him
  have hbc : b.InOrder c := inOrder_of_lt h hb hc hmj
  rcases hck.of_inOrder hbc with hahead | hwithin
  · exact absurd hak (hahead.of_inOrder hab).not_within
  · exact hwithin

/-- **The blocks of a section stand together**, those of the section itself before those of its
subsections, and no other block belongs to it. -/
def Together (k : List Nat) (blocks : List Block) : Prop :=
  ∃ before own below after, blocks = before ++ (own ++ below) ++ after ∧
    (∀ b ∈ before, ¬ b.Within k) ∧ (∀ b ∈ own, b.number = .ok ⟨k⟩) ∧
    (∀ b ∈ below, b.Below k) ∧ ∀ b ∈ after, ¬ b.Within k

theorem together_of_pairwise {blocks : List Block} (h : blocks.Pairwise Block.InOrder)
    (k : List Nat) : Together k blocks := by
  obtain ⟨before, inside, after, rfl, hbefore, hinside, hafter⟩ := exists_interval_within h k
  have hpair : inside.Pairwise Block.InOrder :=
    (List.pairwise_append.mp (List.pairwise_append.mp h).1).2.1
  obtain ⟨own, below, rfl, hown, hbelow⟩ := exists_cut_own hpair hinside
  exact ⟨before, own, below, after, rfl, hbefore, hown, hbelow, hafter⟩

namespace Guide

variable {guide sorted : Guide}

/-- **Sorted guides are in document order.**  For every `k` the blocks whose section is `k` or
continues it stand together, and of them those of the section itself come first.  So a section
precedes all its subsections, and no block of another section stands between them. -/
theorem sorted_documentOrder (h : guide.sort = .ok sorted) (k : List Nat) :
    Together k sorted.blocks ∧
    ∀ (i j : Nat) (parent child : Block), sorted.blocks[i]? = some parent →
      sorted.blocks[j]? = some child → parent.number = .ok ⟨k⟩ → child.Below k →
        i < j ∧ ∀ (m : Nat) (b : Block), i < m → m < j → sorted.blocks[m]? = some b →
          b.Within k := by
  have hordered : sorted.blocks.Pairwise Block.InOrder :=
    ((eq_sorted_iff h sorted.blocks).mp rfl).2
  refine ⟨together_of_pairwise hordered k, ?_⟩
  intro i j parent child hi hj hparent hchild
  refine ⟨?_, ?_⟩
  · by_contra hji
    rcases Nat.lt_or_eq_of_le (Nat.le_of_not_lt hji) with hlt | rfl
    · have hback := inOrder_of_lt hordered hj hi hlt
      exact hchild.number_ne (hchild.within.number_of_inOrder hback hparent)
    · obtain rfl : parent = child := Option.some.inj (hi.symm.trans hj)
      exact hchild.number_ne hparent
  · intro m b him hmj hm
    exact within_of_between hordered hi hm hj him hmj (Block.within_of_number hparent)
      hchild.within

/-- A section that is written in two ways, added behind its subsection and between others. -/
theorem sorted_documentOrder_spelled :
    let guide : Guide := ⟨[⟨"Cells", "", [], "", "1.2.0"⟩, ⟨"Edges", "", [], "", "1.10"⟩,
      ⟨"Rows", "", [], "", "1.2."⟩, ⟨"Lists", "", [], "", "1"⟩,
      ⟨"Wide rows", "", [], "", "01.2"⟩]⟩
    let sorted : Guide := ⟨[⟨"Lists", "", [], "", "1"⟩, ⟨"Rows", "", [], "", "1.2."⟩,
      ⟨"Wide rows", "", [], "", "01.2"⟩, ⟨"Cells", "", [], "", "1.2.0"⟩,
      ⟨"Edges", "", [], "", "1.10"⟩]⟩
    guide.sort = .ok sorted ∧ Together [1, 2] sorted.blocks ∧
      ∀ (m : Nat) (b : Block), 1 < m → m < 3 → sorted.blocks[m]? = some b → b.Within [1, 2] := by
  intro guide sorted
  have hnumbers : guide.blocks.mapM Block.number =
      .ok [⟨[1, 2, 0]⟩, ⟨[1, 10]⟩, ⟨[1, 2]⟩, ⟨[1]⟩, ⟨[1, 2]⟩] := by decide +kernel
  have hsort : guide.sort = .ok sorted := by
    rw [sort, hnumbers]
    simp [guide, sorted, sortByNumber, List.mergeSort, SectionNumber.le, compare,
      compareOfLessAndEq, List.compareLex]
  obtain ⟨htogether, hbetween⟩ := sorted_documentOrder hsort [1, 2]
  have hcells : Block.Below [1, 2] ⟨"Cells", "", [], "", "1.2.0"⟩ :=
    ⟨⟨[1, 2, 0]⟩, by decide +kernel, by decide, by decide⟩
  exact ⟨hsort, htogether, (hbetween 1 3 _ _ rfl rfl (by decide +kernel) hcells).2⟩

end Guide

end LivingGuide
