import LivingGuide.Manifest.Basic
import LivingGuide.Proofs.Draft.Directory
import LivingGuide.Proofs.FileSystem.Walk
import LivingGuide.Proofs.TextOrder

/-!
# Where the sources of a draft lead

A draft names a directory by the names that lead to it from the root, and its manifest lists these
names as sources.  A source spells the same paths as the walk of the whole project
(`Draft.components_source_down`), and with fewer characters, so **what the walk can open, a source can
open** (`Draft.refused?_source_down`).

* `Draft.manifest`: the manifest that a draft stands for.
-/

namespace LivingGuide.Draft

variable {fs : FileSystem} {root : Path} {base : Location} {names rest : List String}

/-- The manifest that a draft of directories stands for. -/
def manifest (directories : List String) : Manifest :=
  { sources := if directories.isEmpty || directories == ["."] then [] else directories }

theorem effectiveSources_manifest (directories : List String) :
    (manifest directories).effectiveSources = if directories = [] then ["."] else directories := by
  by_cases hnone : directories = []
  · simp [hnone, manifest, Manifest.effectiveSources]
  · by_cases hroot : directories = ["."]
    · simp [hroot, manifest, Manifest.effectiveSources]
    · simp [hnone, hroot, manifest, Manifest.effectiveSources]

theorem mem_directories_iff {files : List Path} {directory : String} :
    directory ∈ directories root files ↔
      ∃ p ∈ files, ∃ parent, p.parent? = some parent ∧ directoryName root parent = directory := by
  simp only [directories, List.mem_mergeSort, List.mem_eraseDups, List.mem_map, List.mem_filterMap]
  constructor
  · rintro ⟨parent, ⟨p, hp, hparent⟩, rfl⟩
    exact ⟨p, hp, parent, hparent, rfl⟩
  · rintro ⟨p, hp, parent, hparent, rfl⟩
    exact ⟨parent, ⟨p, hp, hparent⟩, rfl⟩

theorem nodup_eraseDups (names : List String) : names.eraseDups.Nodup := by
  cases names with
  | nil => exact List.nodup_nil
  | cons name names =>
    rw [List.eraseDups_cons, List.nodup_cons, List.mem_eraseDups, List.mem_filter]
    exact ⟨by simp, nodup_eraseDups _⟩
termination_by names.length
decreasing_by exact Nat.lt_succ_of_le (List.length_filter_le _ _)

theorem pairwise_directories (root : Path) (files : List Path) :
    (directories root files).Pairwise (· < ·) := by
  refine Text.pairwise_mergeSort id ?_
  rw [List.map_id]
  exact nodup_eraseDups _

theorem isAbsolute_named (hnames : ∀ name ∈ names, Node.IsName name) :
    (Path.mk (named names)).isAbsolute = false := by
  cases names with
  | nil => decide
  | cons name names =>
    have hname := hnames name List.mem_cons_self
    have hne : name.toList ≠ [] := fun h => hname.ne_empty (String.toList_eq_nil_iff.mp h)
    have hhead : (named (name :: names)).toList.head? = name.toList.head? := by
      rw [named, if_neg (List.cons_ne_nil _ _), Path.spelled, List.map_cons, String.join_cons,
        String.append_assoc, String.toList_append, List.head?_append_of_ne_nil _ hne]
    have hrelative := hname.relative
    rw [Path.isAbsolute] at hrelative ⊢
    rw [hhead]
    exact hrelative

theorem segments_named (hnames : ∀ name ∈ names, Node.IsName name) :
    ∃ idle, (Path.mk (named names)).segments = names ++ idle ∧ ∀ s ∈ idle, Path.isIdle s = true := by
  by_cases hne : names = []
  · subst hne
    exact ⟨["."], by decide, by decide⟩
  · refine ⟨[""], ?_, by decide⟩
    have htext : named names = (Path.ofSegments names).text ++ "/" ++ "" := by
      rw [named, if_neg hne, String.append_empty, Path.text_ofSegments_append hne]
    rw [htext, Path.segments_slash,
      Path.segments_ofSegments hne fun s hs => (hnames s hs).noSlash]
    rfl

theorem components_source (hroot : root.text ≠ "") (hnames : ∀ name ∈ names, Node.IsName name) :
    (root.join ⟨named names⟩).components = root.components ++ names.map Path.Component.name := by
  obtain ⟨idle, hsegments, hidle⟩ := segments_named hnames
  have hsteps : (Path.mk (named names)).steps = names := by
    rw [Path.steps, hsegments, List.filter_append, List.filter_eq_self.mpr, List.filter_eq_nil_iff.mpr,
      List.append_nil]
    · intro s hs
      simp [hidle s hs]
    · intro s hs
      simp [(hnames s hs).notIdle]
  rw [Path.components_join hroot (isAbsolute_named hnames), hsteps]
  congr 1
  exact List.map_congr_left fun s hs => (hnames s hs).ofSegment_eq

/-- **A source and the walk spell the same paths**, each in its way. -/
theorem components_source_down (hroot : root.text ≠ "") (hnames : ∀ name ∈ names, Node.IsName name)
    (hrest : ∀ name ∈ rest, Node.IsName name) :
    ((root.join ⟨named names⟩).down rest).components =
      ((root.join ⟨"."⟩).down (names ++ rest)).components := by
  have hsource := Path.text_join_ne_empty hroot (isAbsolute_named hnames)
  have hdot : (root.join ⟨"."⟩).text ≠ "" := Path.text_join_ne_empty hroot (by decide)
  have hall : ∀ name ∈ names ++ rest, Node.IsName name := by
    intro name hname
    rcases List.mem_append.mp hname with hname | hname
    · exact hnames name hname
    · exact hrest name hname
  have hroot' := components_source hroot (fun _ => nofun : ∀ name ∈ [], Node.IsName name)
  rw [Path.components_down hsource hrest, Path.components_down hdot hall,
    components_source hroot hnames, List.map_append, ← List.append_assoc]
  rw [named, if_pos rfl, List.map_nil, List.append_nil] at hroot'
  rw [hroot']

theorem spells_source (hfs : fs.root.Plain) (hroot : fs.Spells root base) (hwritten : root.text ≠ "")
    (hat : fs.DirectoryAt (base ++ names)) : fs.Spells (root.join ⟨named names⟩) (base ++ names) := by
  obtain ⟨entries, hentries⟩ := hat
  have hnames := hfs.isName_of_at? hentries
  obtain ⟨idle, hsegments, hidle⟩ := segments_named hnames
  obtain ⟨left, hstem⟩ := hroot.follow_stem
  rw [FileSystem.spells_join_iff hwritten (isAbsolute_named hnames), hsegments]
  refine ⟨base, left, left, hstem, ?_⟩
  rw [Node.follow_append_eq_ok_iff]
  exact ⟨_, _, hfs.follow_names hentries left, Node.follow_of_idle hentries hidle⟩

/-! ### What a source can open -/

theorem slashed_dot (root : Path) : (root.join ⟨"."⟩).slashed = root.slashed ++ "./" := by
  rw [Path.slashed_join (by decide) (by decide) (by decide), String.append_assoc]
  rfl

theorem slashed_source (root : Path) (hne : names ≠ []) (hnames : ∀ name ∈ names, Node.IsName name) :
    (root.join ⟨named names⟩).slashed = root.slashed ++ Path.spelled names ∧
      (root.join ⟨named names⟩).text = root.slashed ++ Path.spelled names := by
  have htext : (root.join ⟨named names⟩).text = root.slashed ++ Path.spelled names := by
    rw [Path.text_join (isAbsolute_named hnames), named, if_neg hne]
  refine ⟨?_, htext⟩
  rw [Path.slashed, htext, ← Path.text_ofSegments_append hne, ← String.append_assoc]
  rw [if_pos (by simp)]

/-- **What the walk can open, a source can open**: it spells the same names with fewer characters. -/
theorem refused?_source_down (hroot : root.text ≠ "") (hnames : ∀ name ∈ names, Node.IsName name)
    (hrest : ∀ name ∈ rest, Node.IsName name)
    (h : FileSystem.refused? ((root.join ⟨"."⟩).down (names ++ rest)) = none) :
    FileSystem.refused? ((root.join ⟨named names⟩).down rest) = none := by
  by_cases hne : names = []
  · subst hne
    exact h
  obtain ⟨hslashed, htext⟩ := slashed_source root hne hnames
  have hwalk : ((root.join ⟨"."⟩).down (names ++ rest)).text ++ "/" =
      root.slashed ++ "./" ++ Path.spelled (names ++ rest) := by
    rw [← slashed_dot, Path.text_down (by simp [hne])]
    intro name hname
    rcases List.mem_append.mp hname with hname | hname
    · exact hnames name hname
    · exact hrest name hname
  obtain ⟨tail, hsource⟩ : ∃ tail, ((root.join ⟨named names⟩).down rest).text ++ tail =
      root.slashed ++ Path.spelled (names ++ rest) := by
    rw [Path.spelled_append, ← String.append_assoc]
    by_cases hrest' : rest = []
    · subst hrest'
      exact ⟨"", by simp [htext, Path.spelled]⟩
    · exact ⟨"/", by rw [Path.text_down hrest' hrest, hslashed]⟩
  have hwritten := Path.text_join_ne_empty hroot (isAbsolute_named hnames)
  obtain ⟨hzero, _, hfits⟩ := FileSystem.refused?_eq_none_iff.mp h
  refine FileSystem.refused?_eq_none_iff.mpr ⟨?_, (Path.stem_down hwritten hrest).2, ?_⟩
  · intro hmem
    have hshort : '\x00' ∈ (root.slashed ++ Path.spelled (names ++ rest)).toList := by
      rw [← hsource, String.toList_append]
      exact List.mem_append_left _ hmem
    have hlong : '\x00' ∈ (root.slashed ++ "./" ++ Path.spelled (names ++ rest)).toList := by
      rw [String.toList_append, List.mem_append] at hshort
      rcases hshort with hshort | hshort <;> simp [hshort]
    rw [← hwalk, String.toList_append, List.mem_append] at hlong
    exact hzero (hlong.resolve_right (by decide))
  · have hlong := congrArg String.utf8ByteSize hwalk
    have hshort := congrArg String.utf8ByteSize hsource
    simp only [String.utf8ByteSize_append] at hlong hshort
    have hslash : "/".utf8ByteSize = 1 := by decide
    have hdot : "./".utf8ByteSize = 2 := by decide
    omega

end LivingGuide.Draft
