import LivingGuide.Proofs.FileSystem.Walk
import LivingGuide.Proofs.TextOrder

/-!
# The order of a walk

A walk takes the entries of each directory in the order of their names, and a directory's own files
before the next entry.  So the paths that it lists are in the order of the names behind its start, and
strictly: names are compared one after the other, and no entry has the name of another.  This is not
the order of the paths as texts, where a name such as `a-b` comes before what is inside `a`.

* `Path.InOrder`: paths continue a path by lists of names, and the lists are increasing.
* `Path.exists_inOrder_flatMap`: one directory, given the order inside each of its entries.
* `FileSystem.exists_inOrder_walk`: **a walk of a tree without links lists paths in order.**
-/

namespace LivingGuide

theorem Node.Plain.pairwise_sorted {entries : List (String × Node)}
    (h : Node.Plain (.directory entries)) :
    (Node.sorted entries).Pairwise fun a b => a.1 < b.1 := by
  cases h with
  | directory distinct => exact Text.pairwise_mergeSort Prod.fst distinct

namespace Path

/-- The paths are a path continued by one list of names after the other, in increasing order. -/
structure InOrder (p : Path) (found : List (List String)) (paths : List Path) : Prop where
  spelled : paths = found.map p.down
  increasing : found.Pairwise (· < ·)
  named : ∀ names ∈ found, ∀ name ∈ names, Node.IsName name

variable {p : Path} {found : List (List String)} {paths : List Path}

theorem InOrder.nil (p : Path) : InOrder p [] [] :=
  ⟨rfl, .nil, fun _ => nofun⟩

theorem InOrder.self (p : Path) : InOrder p [[]] [p] :=
  ⟨rfl, List.pairwise_singleton _ _, by simp⟩

theorem InOrder.filter (h : InOrder p found paths) (keep : Path → Bool) :
    InOrder p (found.filter fun names => keep (p.down names)) (paths.filter keep) := by
  refine ⟨?_, h.increasing.filter _, fun names hnames => h.named names (List.mem_of_mem_filter hnames)⟩
  rw [h.spelled, List.filter_map]
  rfl

theorem InOrder.cons {name : String} {found' : List (List String)} {paths' : List Path}
    (hname : Node.IsName name) (h : InOrder (p.join ⟨name⟩) found paths)
    (h' : InOrder p found' paths')
    (hlater : ∀ names ∈ found', ∃ later rest, names = later :: rest ∧ name < later) :
    InOrder p (found.map (name :: ·) ++ found') (paths ++ paths') where
  spelled := by
    rw [h.spelled, h'.spelled, List.map_append, List.map_map]
    rfl
  increasing := by
    rw [List.pairwise_append, List.pairwise_map]
    refine ⟨?_, h'.increasing, ?_⟩
    · exact h.increasing.imp fun hlt => List.cons_lt_cons_iff.mpr (.inr ⟨rfl, hlt⟩)
    · intro names hnames names' hnames'
      obtain ⟨rest, -, rfl⟩ := List.mem_map.mp hnames
      obtain ⟨later, rest', rfl, hlt⟩ := hlater names' hnames'
      exact List.cons_lt_cons_iff.mpr (.inl hlt)
  named := by
    intro names hnames
    rcases List.mem_append.mp hnames with hnames | hnames
    · obtain ⟨rest, hrest, rfl⟩ := List.mem_map.mp hnames
      exact List.forall_mem_cons.mpr ⟨hname, h.named rest hrest⟩
    · exact h'.named names hnames

/-- **What the entries of a directory add is in order**, when the entries are and each adds its own
paths in order. -/
theorem exists_inOrder_flatMap {entries : List (String × Node)} {below : String × Node → List Path}
    (hsorted : entries.Pairwise fun a b => a.1 < b.1) (hnamed : ∀ entry ∈ entries, Node.IsName entry.1)
    (hbelow : ∀ entry ∈ entries, ∃ found, InOrder (p.join ⟨entry.1⟩) found (below entry)) :
    ∃ found, InOrder p found (entries.flatMap below) ∧
      ∀ names ∈ found, ∃ entry ∈ entries, ∃ rest, names = entry.1 :: rest := by
  induction entries with
  | nil => exact ⟨[], .nil p, fun _ => nofun⟩
  | cons entry entries ih =>
    obtain ⟨hfirst, hsorted⟩ := List.pairwise_cons.mp hsorted
    obtain ⟨hname, hnamed⟩ := List.forall_mem_cons.mp hnamed
    obtain ⟨⟨inside, hinside⟩, hbelow⟩ := List.forall_mem_cons.mp hbelow
    obtain ⟨found, hfound, hnames⟩ := ih hsorted hnamed hbelow
    have hlater : ∀ names ∈ found, ∃ later rest, names = later :: rest ∧ entry.1 < later := by
      intro names hmem
      obtain ⟨later, hlater, rest, rfl⟩ := hnames names hmem
      exact ⟨later.1, rest, rfl, hfirst later hlater⟩
    refine ⟨_, hinside.cons hname hfound hlater, fun names hmem => ?_⟩
    rcases List.mem_append.mp hmem with hmem | hmem
    · obtain ⟨rest, -, rfl⟩ := List.mem_map.mp hmem
      exact ⟨entry, List.mem_cons_self, rest, rfl⟩
    · obtain ⟨later, hlater, rest, rfl⟩ := hnames names hmem
      exact ⟨later, List.mem_cons_of_mem _ hlater, rest, rfl⟩

theorem InOrder.pairwise_not_same (hp : p.text ≠ "") (h : InOrder p found paths) :
    paths.Pairwise fun q r => ¬ q.same r := by
  rw [h.spelled, List.pairwise_map]
  refine h.increasing.imp_of_mem fun {names names'} hnames hnames' hlt hsame => ?_
  rw [same_iff] at hsame
  obtain rfl := eq_of_components_down hp (h.named names hnames) (h.named names' hnames') hsame
  exact List.lt_irrefl _ hlt

end Path

namespace FileSystem

variable {fs : FileSystem}

/-- One directory of a walk after the other, however deep. -/
theorem exists_inOrder_walkFrom (hfs : fs.root.Plain) (depth : Nat) (above : List Location) (p : Path) :
    ∃ found, p.InOrder found (fs.walkFrom depth above p) := by
  induction depth generalizing above p with
  | zero => exact ⟨[], .nil p⟩
  | succ depth ih =>
    unfold walkFrom
    split
    · exact ⟨[], .nil p⟩
    · next here hlocate =>
      split
      · next entries hat =>
        have hplain := hfs.at? hat
        have hentries : ∀ entry ∈ Node.sorted entries, entry ∈ entries :=
          fun entry hentry => List.mem_mergeSort.mp hentry
        have hnamed : ∀ entry ∈ Node.sorted entries, Node.IsName entry.1 :=
          fun entry hentry => hplain.isName (hentries entry hentry)
        refine (Path.exists_inOrder_flatMap hplain.pairwise_sorted hnamed ?_).imp fun _ h => h.1
        rintro ⟨name, node⟩ hentry
        cases hplain.entry (hentries _ hentry) with
        | file => exact ⟨[[]], .self _⟩
        | directory =>
          simp only
          split
          · exact ⟨[[]], .self _⟩
          · exact ih (here :: above) (p.join ⟨name⟩)
      · exact ⟨[], .nil p⟩

/-- **A walk lists paths in order.** -/
theorem exists_inOrder_walk (hfs : fs.root.Plain) (p : Path) : ∃ found, p.InOrder found (fs.walk p) := by
  rw [walk]
  split
  · exact ⟨[[]], .self p⟩
  · exact exists_inOrder_walkFrom hfs _ [] p

end FileSystem

end LivingGuide
