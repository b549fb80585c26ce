import LivingGuide.Proofs.FileSystem.Plain
import LivingGuide.Proofs.Reading
import Mathlib.Data.List.Nodup

/-!
# The order of the files

Files are read in turn, but the guide that comes out depends on their order only where two blocks have
one section number.  Whether reading succeeds is a matter of each file alone.  When it does, both
guides are stable sorts, of two lists of blocks that are permutations of each other, and the order of
section numbers is total: so the numbers stand in the same order in both
(`IsStableSort.numbers_eq`), and where no number occurs twice so do the blocks
(`IsStableSort.eq_of_nodup`).

* `Reading.ofFiles_perm`: **the order of the files does not matter beyond ties.**
-/

namespace LivingGuide

/-! ### Stable sorts of permuted blocks -/

/-- One number comes no later than another. -/
def Block.NumberLe (m n : Except Error SectionNumber) : Prop :=
  ∃ a b, m = .ok a ∧ n = .ok b ∧ a.le b = true

theorem Block.NumberLe.antisymm {m n : Except Error SectionNumber} (hmn : NumberLe m n)
    (hnm : NumberLe n m) : m = n := by
  obtain ⟨a, b, rfl, rfl, hab⟩ := hmn
  obtain ⟨b', a', hb, ha, hba⟩ := hnm
  cases ha
  cases hb
  rw [SectionNumber.le_antisymm hab hba]

namespace IsStableSort

variable {a b xs ys : List Block}

theorem pairwise_numbers (h : IsStableSort a xs) :
    (xs.map Block.number).Pairwise Block.NumberLe :=
  List.pairwise_map.mpr h.ordered

theorem perm_of_perm (hx : IsStableSort a xs) (hy : IsStableSort b ys) (h : a.Perm b) :
    xs.Perm ys :=
  hx.perm.trans (h.trans hy.perm.symm)

theorem numbers_eq (hx : IsStableSort a xs) (hy : IsStableSort b ys) (h : a.Perm b) :
    xs.map Block.number = ys.map Block.number :=
  List.Perm.eq_of_pairwise (fun _ _ _ _ => Block.NumberLe.antisymm) hx.pairwise_numbers
    hy.pairwise_numbers ((hx.perm_of_perm hy h).map Block.number)

/-- Without ties the numbers decide on the blocks. -/
theorem eq_of_nodup (hx : IsStableSort a xs) (hy : IsStableSort b ys) (h : a.Perm b)
    (hnodup : (xs.map Block.number).Nodup) : xs = ys := by
  have hperm := hx.perm_of_perm hy h
  refine List.Perm.eq_of_pairwise (fun c d hc hd hcd hdc => ?_) hx.ordered hy.ordered hperm
  have hnumber : c.number = d.number := Block.NumberLe.antisymm hcd hdc
  exact List.inj_on_of_nodup_map hnodup hc (hperm.mem_iff.mpr hd) hnumber

theorem exists_numbers (h : IsStableSort a xs) :
    ∃ numbers : List SectionNumber, xs.map Block.number = numbers.map .ok := by
  obtain ⟨numbers, hnumbers⟩ := exists_mapM_ok_iff.mpr h.numbered
  refine ⟨numbers, ?_⟩
  have hall := mapM_eq_ok_iff.mp hnumbers
  clear hnumbers h
  induction hall with
  | nil => rfl
  | cons hnumber _ ih => rw [List.map_cons, List.map_cons, hnumber, ih]

end IsStableSort

/-! ### Permuted files -/

namespace Reading

variable {fs : FileSystem} {paths paths' : List Path} {sources sources' : List Source}

theorem sources_eq_filterMap (h : List.Forall₂ fs.Documents paths sources) :
    sources = paths.filterMap fun path => (Source.load fs path).toOption := by
  induction h with
  | nil => rfl
  | cons hsource _ ih =>
    rw [List.filterMap_cons, Source.load_eq_ok_iff.mpr hsource, ← ih]
    rfl

theorem blocks_perm (hpaths : paths.Perm paths') (h : List.Forall₂ fs.Documents paths sources)
    (h' : List.Forall₂ fs.Documents paths' sources') :
    (sources.flatMap Source.blocks).Perm (sources'.flatMap Source.blocks) := by
  rw [sources_eq_filterMap h, sources_eq_filterMap h']
  exact (hpaths.filterMap _).flatMap_right _

theorem exists_ofFiles_perm (hpaths : paths.Perm paths')
    (h : ∃ reading, ofFiles fs paths = .ok reading) :
    ∃ reading, ofFiles fs paths' = .ok reading := by
  rw [exists_ofFiles_iff] at h ⊢
  intro path hpath
  exact h path (hpaths.mem_iff.mpr hpath)

/-- **The order of the files does not matter beyond ties.**  Reading files succeeds in every order or
in none.  In any two orders the guides hold the same blocks, each as often, and the same section
numbers in the same places; and where no number occurs twice the guides are the same. -/
theorem ofFiles_perm (fs : FileSystem) {paths paths' : List Path} (hpaths : paths.Perm paths') :
    ((∃ reading, ofFiles fs paths = .ok reading) ↔ ∃ reading, ofFiles fs paths' = .ok reading) ∧
    ∀ reading reading', ofFiles fs paths = .ok reading → ofFiles fs paths' = .ok reading' →
      reading.guide.blocks.Perm reading'.guide.blocks ∧
      ∃ numbers : List SectionNumber, reading.guide.blocks.map Block.number = numbers.map .ok ∧
        reading'.guide.blocks.map Block.number = numbers.map .ok ∧
        (numbers.Nodup → reading.guide.blocks = reading'.guide.blocks) := by
  refine ⟨⟨exists_ofFiles_perm hpaths, exists_ofFiles_perm hpaths.symm⟩, ?_⟩
  intro reading reading' h h'
  obtain ⟨sources, hsources, hguide, _, _⟩ := ofFiles_eq_ok_iff.mp h
  obtain ⟨sources', hsources', hguide', _, _⟩ := ofFiles_eq_ok_iff.mp h'
  have hblocks := blocks_perm hpaths hsources hsources'
  obtain ⟨numbers, hnumbers⟩ := hguide.exists_numbers
  have hsame := hguide.numbers_eq hguide' hblocks
  refine ⟨hguide.perm_of_perm hguide' hblocks, numbers, hnumbers, hsame ▸ hnumbers, ?_⟩
  intro hnodup
  refine hguide.eq_of_nodup hguide' hblocks ?_
  rw [hnumbers]
  exact List.Nodup.map (fun _ _ => Except.ok.inj) hnodup

/-- Two stylesheets at the root, the one with the later section first. -/
def shelf (tables buttons : String) : FileSystem where
  root := .directory [("a.scss", .file tables.toUTF8), ("b.scss", .file buttons.toUTF8)]
  workingDirectory := []

theorem fromUTF8?_toUTF8 (text : String) : String.fromUTF8? text.toUTF8 = some text := by
  have hvalid : text.toUTF8.IsValidUTF8 := text.isValidUTF8
  rw [String.fromUTF8?, dif_pos hvalid]
  rfl

theorem plain_shelf (tables buttons : String) : (shelf tables buttons).root.Plain := by
  have hdistinct : ["a.scss", "b.scss"].Nodup := by decide
  have hnames : ∀ name ∈ ["a.scss", "b.scss"], Node.IsName name := by decide
  refine .directory hdistinct (fun entry hentry => hnames entry.1 (List.mem_map_of_mem hentry)) ?_
  exact List.forall_mem_cons.mpr ⟨.file _, List.forall_mem_singleton.mpr (.file _)⟩

theorem locate_shelf (tables buttons : String) {name : String} (hname : name ∈ ["a.scss", "b.scss"]) :
    (shelf tables buttons).locate ⟨name⟩ = .ok [name] := by
  have hplain := plain_shelf tables buttons
  simp only [List.mem_cons, List.not_mem_nil, or_false] at hname
  rcases hname with rfl | rfl
  · exact FileSystem.locate_eq_ok_iff.mpr
      ⟨by decide, maxLinks, hplain.follow_name rfl List.mem_cons_self _⟩
  · exact FileSystem.locate_eq_ok_iff.mpr
      ⟨by decide, maxLinks, hplain.follow_name rfl (List.mem_cons_of_mem _ List.mem_cons_self) _⟩

/-- The sections of two stylesheets differ, so both orders give the same guide. -/
theorem ofFiles_perm_shelf :
    let files := shelf "// Tables\n//\n// Styleguide 1.10\n\n" "// Buttons\n//\n// Styleguide 1.2\n\n"
    [Path.mk "a.scss", ⟨"b.scss"⟩].Perm [⟨"b.scss"⟩, ⟨"a.scss"⟩] ∧
      ∃ reading reading', ofFiles files [⟨"a.scss"⟩, ⟨"b.scss"⟩] = .ok reading ∧
        ofFiles files [⟨"b.scss"⟩, ⟨"a.scss"⟩] = .ok reading' ∧
        reading.guide.blocks = reading'.guide.blocks := by
  intro files
  have hswap : [Path.mk "a.scss", ⟨"b.scss"⟩].Perm [⟨"b.scss"⟩, ⟨"a.scss"⟩] := .swap _ _ _
  have htables : files.Documents ⟨"a.scss"⟩ ⟨[⟨"Tables", "", [], "", "1.10"⟩], none⟩ :=
    ⟨_, ⟨_, _, locate_shelf _ _ (by simp), rfl, fromUTF8?_toUTF8 _⟩, by decide +kernel⟩
  have hbuttons : files.Documents ⟨"b.scss"⟩ ⟨[⟨"Buttons", "", [], "", "1.2"⟩], none⟩ :=
    ⟨_, ⟨_, _, locate_shelf _ _ (by simp), rfl, fromUTF8?_toUTF8 _⟩, by decide +kernel⟩
  have hsources := List.Forall₂.cons htables (.cons hbuttons .nil)
  obtain ⟨⟨forth, _⟩, hsame⟩ := ofFiles_perm files hswap
  have hnumbers : ∀ b ∈ [Block.mk "Tables" "" [] "" "1.10", ⟨"Buttons", "", [], "", "1.2"⟩],
      ∃ number, b.number = .ok number := by
    simp only [List.forall_mem_cons]
    exact ⟨⟨⟨[1, 10]⟩, by decide +kernel⟩, ⟨⟨[1, 2]⟩, by decide +kernel⟩, nofun⟩
  obtain ⟨guide, hsort⟩ : ∃ guide, Guide.sort ⟨_⟩ = .ok guide :=
    Guide.exists_sort_iff.mpr hnumbers
  have hguide := Guide.sort_eq_ok_iff.mp hsort
  have h : ofFiles files [⟨"a.scss"⟩, ⟨"b.scss"⟩] = .ok ⟨guide, _, ⟨_⟩⟩ :=
    ofFiles_eq_ok_iff.mpr ⟨_, hsources, hguide, rfl, rfl⟩
  obtain ⟨reading', h'⟩ := forth ⟨_, h⟩
  obtain ⟨_, numbers, hsorted, _, heq⟩ := hsame _ reading' h h'
  refine ⟨hswap, _, reading', h, h', heq ?_⟩
  have hnodup : (guide.blocks.map Block.number).Nodup :=
    (hguide.perm.map Block.number).nodup_iff.mpr (by decide +kernel)
  rw [hsorted] at hnodup
  exact hnodup.of_map _

end Reading

end LivingGuide
