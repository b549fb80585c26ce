import LivingGuide.Proofs.Guide.History

/-!
# What sorting a guide promises

Sorting takes the section numbers of all blocks first, and only when every block has one does it
touch the guide.  So it either puts the blocks into the one order that section numbers and former
places allow, or it fails and leaves the guide as it was.

* `Block.InOrder`: blocks whose section numbers are in order, segment by segment.
* `Guide.eq_sorted_iff`: **the sorted blocks are the only reordering in order.**
* `Guide.sort_sorted`: sorting a second time changes nothing.
* `WrongFirst blocks b bad`: the first block without a section number, and the first segment of its
  section that is no number.  Sorting fails with these (`Guide.exists_sort_error`).
* `Guide.sort_contract`: all of it, for the guide that sorting in place leaves.
-/

namespace LivingGuide

/-- Two blocks whose section numbers are in order. -/
def Block.InOrder (a b : Block) : Prop :=
  ∃ m n, a.number = .ok m ∧ b.number = .ok n ∧ m.InOrder n

theorem Block.noLater_iff_inOrder {a b : Block} : a.NoLater b ↔ a.InOrder b := by
  simp only [NoLater, InOrder, SectionNumber.le_iff_inOrder]

/-- **The section that is wrong first**: every block before has a number, and in its section every
segment before the bad one is a number. -/
structure WrongFirst (blocks : List Block) (b : Block) (bad : List Char) : Prop where
  first : ∃ before after, blocks = before ++ b :: after ∧
    ∀ a ∈ before, ∃ number, a.number = .ok number
  segments : ∃ before after,
    (SectionNumber.dropFinalDot b.sectionText.toList).splitOn '.' = before ++ bad :: after ∧
      ∀ cs ∈ before, ∃ n, SectionNumber.segment? cs = some n
  wrong : SectionNumber.segment? bad = none

namespace Guide

variable {guide sorted : Guide}

/-- **The sorted blocks are the only reordering in which all blocks are in order.** -/
theorem eq_sorted_iff (h : guide.sort = .ok sorted) (blocks : List Block) :
    blocks = sorted.blocks ↔
      Reordering guide.blocks blocks ∧ blocks.Pairwise Block.InOrder := by
  have hsorted := isStableSort_of_sort h
  constructor
  · rintro rfl
    exact ⟨hsorted.toReordering, hsorted.ordered.imp Block.noLater_iff_inOrder.mp⟩
  · rintro ⟨hreordering, hordered⟩
    refine IsStableSort.unique ⟨hreordering, ?_, hordered.imp Block.noLater_iff_inOrder.mpr⟩ hsorted
    intro b hb
    exact hsorted.numbered b (hsorted.perm.mem_iff.mpr (hreordering.perm.mem_iff.mp hb))

theorem sort_sorted (h : guide.sort = .ok sorted) : sorted.sort = .ok sorted := by
  have hsorted := isStableSort_of_sort h
  exact sort_eq_ok_iff.mpr ⟨.refl _, hsorted.numbered, hsorted.ordered⟩

theorem exists_sort_error (h : ∃ b ∈ guide.blocks, ∀ number, b.number ≠ .ok number) :
    ∃ b bad, WrongFirst guide.blocks b bad ∧
      guide.sort = .error (.sectionNumber b.sectionText (String.ofList bad)) := by
  obtain ⟨wrong, hwrong, hnumber⟩ := h
  cases hsort : guide.sort with
  | ok sorted =>
    obtain ⟨number, hn⟩ := exists_sort_iff.mp ⟨sorted, hsort⟩ wrong hwrong
    exact absurd hn (hnumber number)
  | error e =>
    obtain ⟨before, b, after, hblocks, hbefore, hb⟩ := sort_eq_error_iff.mp hsort
    obtain ⟨segments, bad, rest, hcut, hsegments, hbad, rfl⟩ :=
      SectionNumber.parse_eq_error_iff.mp hb
    have hfirst : WrongFirst guide.blocks b bad :=
      ⟨⟨before, after, hblocks, hbefore⟩, ⟨segments, rest, hcut, hsegments⟩, hbad⟩
    exact ⟨b, bad, hfirst, rfl⟩

theorem sortInPlace_eq (guide : Guide) :
    sortInPlace guide =
      match guide.sort with
      | .ok sorted => EStateM.Result.ok () sorted
      | .error e => EStateM.Result.error e guide :=
  perform_sort guide

/-- **What sorting promises.**  When every block has a section number, the guide that is left holds
the only reordering of its blocks that is in order, and sorting it again changes nothing.  When some
block has none, the error names the section of the first such block and its first segment that is no
number, and the guide is left as it was. -/
theorem sort_contract (guide : Guide) :
    ((∀ b ∈ guide.blocks, ∃ number, b.number = .ok number) →
      ∃ sorted, sortInPlace guide = .ok () sorted ∧ guide.sort = .ok sorted ∧
        (∀ blocks, blocks = sorted.blocks ↔
          Reordering guide.blocks blocks ∧ blocks.Pairwise Block.InOrder) ∧
        sortInPlace sorted = .ok () sorted) ∧
    ((∃ b ∈ guide.blocks, ∀ number, b.number ≠ .ok number) →
      ∃ b bad, WrongFirst guide.blocks b bad ∧
        sortInPlace guide =
          .error (.sectionNumber b.sectionText (String.ofList bad)) guide) := by
  constructor
  · intro h
    obtain ⟨sorted, hsort⟩ := exists_sort_iff.mpr h
    refine ⟨sorted, ?_, hsort, eq_sorted_iff hsort, ?_⟩
    · rw [sortInPlace_eq, hsort]
    · rw [sortInPlace_eq, sort_sorted hsort]
  · intro h
    obtain ⟨b, bad, hfirst, hsort⟩ := exists_sort_error h
    refine ⟨b, bad, hfirst, ?_⟩
    rw [sortInPlace_eq, hsort]

/-- Three spellings of one number keep their places behind each other. -/
example :
    sort ⟨[⟨"d", "", [], "", "1.10"⟩, ⟨"a", "", [], "", "1.2."⟩, ⟨"b", "", [], "", "01.2"⟩,
      ⟨"c", "", [], "", "1.2"⟩]⟩ =
    .ok ⟨[⟨"a", "", [], "", "1.2."⟩, ⟨"b", "", [], "", "01.2"⟩, ⟨"c", "", [], "", "1.2"⟩,
      ⟨"d", "", [], "", "1.10"⟩]⟩ := by
  cbv

end Guide

end LivingGuide
