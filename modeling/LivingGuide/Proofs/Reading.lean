import LivingGuide.Reading
import LivingGuide.Proofs.Guide.StableSort
import Mathlib.Algebra.Ring.Nat

/-!
# What reading files gives

`Reading.ofFiles` reads files in turn and sorts their blocks at the end.  This file says what comes
out for any file system and any list of paths, in terms of what each path leads to alone.

* `FileSystem.Documents fs path source`: the path leads to a text file, and its text has the
  documentation `source`.  `FileSystem.Withholds fs path cause`: it does not, because of `cause`.
  Each path does exactly one of the two.
* `Reading.mapM_loadFile_ok_iff`, `Reading.mapM_loadFile_error_iff`: reading the files one after
  the other.
* `Reading.ofFiles_outcome`: **nothing is lost, doubled or given to another file**, and a file that
  fails hides every section that is no number.
-/

namespace LivingGuide

/-! ### One file -/

namespace FileSystem

variable {fs : FileSystem} {path : Path}

/-- The path leads to a regular file that holds the text as UTF-8. -/
def HoldsText (fs : FileSystem) (path : Path) (text : String) : Prop :=
  ∃ here content, fs.locate path = .ok here ∧ fs.root.at? here = some (.file content) ∧
    String.fromUTF8? content = some text

/-- The file at the path has the given documentation. -/
def Documents (fs : FileSystem) (path : Path) (source : Source) : Prop :=
  ∃ text, fs.HoldsText path text ∧ Source.parse text = .ok source

/-- The file at the path gives no documentation: it cannot be read as text, or its text has a
malformed block. -/
def Withholds (fs : FileSystem) (path : Path) (cause : Error) : Prop :=
  (∃ fault, fs.read path = .error fault ∧ cause = .file path .readSource fault) ∨
    ∃ text, fs.HoldsText path text ∧ Source.parse text = .error cause

theorem read_eq_ok_iff {text : String} : fs.read path = .ok text ↔ fs.HoldsText path text := by
  rw [read]
  constructor
  · intro h
    split at h
    · cases h
    · next here hhere =>
      split at h
      · next content hcontent =>
        split at h
        · next found hfound => exact ⟨here, content, hhere, hcontent, by rw [hfound]; cases h; rfl⟩
        · cases h
      · cases h
      · cases h
  · rintro ⟨here, content, hhere, hcontent, htext⟩
    rw [hhere]
    simp only [hcontent, htext]

end FileSystem

theorem Source.load_eq_ok_iff {fs : FileSystem} {path : Path} {source : Source} :
    Source.load fs path = .ok source ↔ fs.Documents path source := by
  rw [load]
  constructor
  · intro h
    split at h
    · next text htext => exact ⟨text, FileSystem.read_eq_ok_iff.mp htext, h⟩
    · cases h
  · rintro ⟨text, htext, h⟩
    rw [FileSystem.read_eq_ok_iff.mpr htext]
    exact h

theorem Source.load_eq_error_iff {fs : FileSystem} {path : Path} {cause : Error} :
    Source.load fs path = .error cause ↔ fs.Withholds path cause := by
  rw [load]
  constructor
  · intro h
    split at h
    · next text htext => exact Or.inr ⟨text, FileSystem.read_eq_ok_iff.mp htext, h⟩
    · next fault hfault => exact Or.inl ⟨fault, hfault, (Except.error.inj h).symm⟩
  · rintro (⟨fault, hfault, rfl⟩ | ⟨text, htext, h⟩)
    · rw [hfault]
    · rw [FileSystem.read_eq_ok_iff.mpr htext]
      exact h

namespace Reading

variable {fs : FileSystem}

theorem loadFile_eq_ok_iff {path : Path} {file : Path × Source} :
    loadFile fs path = .ok file ↔ file.1 = path ∧ fs.Documents path file.2 := by
  rw [loadFile, ← Source.load_eq_ok_iff]
  cases Source.load fs path with
  | ok source =>
    rw [Except.ok.injEq, Except.ok.injEq]
    exact ⟨fun h => h ▸ ⟨rfl, rfl⟩, fun h => Prod.ext h.1.symm h.2⟩
  | error cause => exact ⟨fun h => (by cases h), fun h => (by cases h.2)⟩

theorem loadFile_eq_error_iff {path : Path} {e : Error} :
    loadFile fs path = .error e ↔ ∃ cause, fs.Withholds path cause ∧ e = .source path cause := by
  rw [loadFile]
  cases h : Source.load fs path with
  | ok source =>
    refine ⟨fun h => (by cases h), ?_⟩
    rintro ⟨cause, hcause, -⟩
    rw [Source.load_eq_error_iff.mpr hcause] at h
    cases h
  | error cause =>
    constructor
    · intro he
      exact ⟨cause, Source.load_eq_error_iff.mp h, (Except.error.inj he).symm⟩
    · rintro ⟨cause', hcause, rfl⟩
      rw [Source.load_eq_error_iff.mpr hcause] at h
      cases h
      rfl

/-! ### Files in turn -/

theorem mapM_loadFile_ok_iff : ∀ {paths : List Path} {files : List (Path × Source)},
    paths.mapM (loadFile fs) = .ok files ↔
      ∃ sources, List.Forall₂ fs.Documents paths sources ∧ files = paths.zip sources := by
  intro paths files
  rw [mapM_eq_ok_iff]
  constructor
  · intro h
    induction h with
    | nil => exact ⟨[], .nil, rfl⟩
    | cons hfile _ ih =>
      obtain ⟨sources, hsources, rfl⟩ := ih
      obtain ⟨rfl, hsource⟩ := loadFile_eq_ok_iff.mp hfile
      exact ⟨_ :: sources, .cons hsource hsources, rfl⟩
  · rintro ⟨sources, h, rfl⟩
    induction h with
    | nil => exact .nil
    | cons hsource _ ih => exact .cons (loadFile_eq_ok_iff.mpr ⟨rfl, hsource⟩) ih

theorem mapM_loadFile_error_iff {paths : List Path} {e : Error} :
    paths.mapM (loadFile fs) = .error e ↔
      ∃ before path after cause, paths = before ++ path :: after ∧
        (∀ p ∈ before, ∃ source, fs.Documents p source) ∧ fs.Withholds path cause ∧
        e = .source path cause := by
  rw [mapM_eq_error_iff]
  constructor
  · rintro ⟨before, path, after, rfl, hbefore, hpath⟩
    obtain ⟨cause, hcause, rfl⟩ := loadFile_eq_error_iff.mp hpath
    refine ⟨before, path, after, cause, rfl, fun p hp => ?_, hcause, rfl⟩
    obtain ⟨file, hfile⟩ := hbefore p hp
    exact ⟨file.2, (loadFile_eq_ok_iff.mp hfile).2⟩
  · rintro ⟨before, path, after, cause, rfl, hbefore, hcause, rfl⟩
    refine ⟨before, path, after, rfl, fun p hp => ?_,
      loadFile_eq_error_iff.mpr ⟨cause, hcause, rfl⟩⟩
    obtain ⟨source, hsource⟩ := hbefore p hp
    exact ⟨(p, source), loadFile_eq_ok_iff.mpr ⟨rfl, hsource⟩⟩

/-! ### All files together -/

theorem blocksOf_zip {paths : List Path} {sources : List Source}
    (h : List.Forall₂ fs.Documents paths sources) :
    blocksOf (paths.zip sources) = sources.flatMap Source.blocks := by
  have hsnd : (paths.zip sources).map Prod.snd = sources :=
    List.map_snd_zip (Nat.le_of_eq h.length_eq.symm)
  rw [blocksOf, ← hsnd, List.flatMap_map, hsnd]

theorem counts_zip (paths : List Path) (sources : List Source) :
    (paths.zip sources).map (fun file => (file.1, file.2.blocks.length)) =
      paths.zip (sources.map fun source => source.blocks.length) := by
  rw [List.zip_map_right]
  rfl

/-- **When reading succeeds, and with what.** -/
theorem ofFiles_eq_ok_iff {paths : List Path} {reading : Reading} :
    ofFiles fs paths = .ok reading ↔
      ∃ sources, List.Forall₂ fs.Documents paths sources ∧
        IsStableSort (sources.flatMap Source.blocks) reading.guide.blocks ∧
        reading.counts = paths.zip (sources.map fun source => source.blocks.length) ∧
        reading.report.findings =
          (paths.zip sources).filterMap fun file => file.2.unterminated.map (cutOff file.1) := by
  rw [ofFiles]
  constructor
  · intro h
    split at h
    · cases h
    · next files hfiles =>
      obtain ⟨sources, hsources, rfl⟩ := mapM_loadFile_ok_iff.mp hfiles
      rw [ofSources] at h
      split at h
      · cases h
      · next guide hguide =>
        cases h
        rw [Guide.sort_eq_ok_iff, blocksOf_zip hsources] at hguide
        exact ⟨sources, hsources, hguide, counts_zip paths sources, rfl⟩
  · rintro ⟨sources, hsources, hguide, hcounts, hfindings⟩
    obtain ⟨guide, counts, ⟨findings⟩⟩ := reading
    simp only at hguide hcounts hfindings
    have hsort : (Guide.empty.add (blocksOf (paths.zip sources))).sort = .ok guide := by
      rw [Guide.sort_eq_ok_iff, blocksOf_zip hsources]
      exact hguide
    rw [mapM_loadFile_ok_iff.mpr ⟨sources, hsources, rfl⟩]
    simp only [ofSources, hsort]
    rw [counts_zip, hcounts, hfindings]
    rfl

/-- **When reading fails, and with which error.**  A file that withholds its documentation comes
before any section. -/
theorem ofFiles_eq_error_iff {paths : List Path} {e : Error} :
    ofFiles fs paths = .error e ↔
      (∃ before path after cause, paths = before ++ path :: after ∧
        (∀ p ∈ before, ∃ source, fs.Documents p source) ∧ fs.Withholds path cause ∧
        e = .source path cause) ∨
      ∃ sources, List.Forall₂ fs.Documents paths sources ∧
        ∃ before b after, sources.flatMap Source.blocks = before ++ b :: after ∧
          (∀ a ∈ before, ∃ number, a.number = .ok number) ∧ b.number = .error e := by
  rw [ofFiles, ← mapM_loadFile_error_iff]
  cases hfiles : paths.mapM (loadFile fs) with
  | error e' =>
    refine ⟨fun h => Or.inl (congrArg Except.error (Except.error.inj h)), ?_⟩
    rintro (h | ⟨sources, hsources, -⟩)
    · exact congrArg Except.error (Except.error.inj h)
    · rw [mapM_loadFile_ok_iff.mpr ⟨sources, hsources, rfl⟩] at hfiles
      cases hfiles
  | ok files =>
    obtain ⟨sources, hsources, rfl⟩ := mapM_loadFile_ok_iff.mp hfiles
    have hsort : ofSources (paths.zip sources) = .error e ↔
        (Guide.empty.add (sources.flatMap Source.blocks)).sort = .error e := by
      rw [ofSources, blocksOf_zip hsources]
      cases (Guide.empty.add (sources.flatMap Source.blocks)).sort with
      | ok guide => exact ⟨fun h => (by cases h), fun h => (by cases h)⟩
      | error e' => rw [Except.error.injEq, Except.error.injEq]
    show ofSources (paths.zip sources) = .error e ↔ _
    rw [hsort, Guide.sort_eq_error_iff]
    constructor
    · intro h
      exact Or.inr ⟨sources, hsources, h⟩
    · rintro (h | ⟨sources', hsources', h⟩)
      · cases h
      · have hzip := mapM_loadFile_ok_iff.mpr ⟨sources', hsources', rfl⟩
        rw [hfiles, Except.ok.injEq] at hzip
        rw [← blocksOf_zip hsources', ← hzip, blocksOf_zip hsources] at h
        exact h

theorem sum_counts {paths : List Path} {sources : List Source} {blocks : List Block}
    (hsources : List.Forall₂ fs.Documents paths sources)
    (hblocks : IsStableSort (sources.flatMap Source.blocks) blocks) :
    ((paths.zip (sources.map fun source => source.blocks.length)).map Prod.snd).sum =
      blocks.length := by
  have hlength : (sources.map fun source => source.blocks.length).length ≤ paths.length := by
    rw [List.length_map]
    exact Nat.le_of_eq hsources.length_eq.symm
  rw [List.map_snd_zip hlength, hblocks.perm.length_eq, List.length_flatMap]

theorem documents_unique {path : Path} {source source' : Source} (h : fs.Documents path source)
    (h' : fs.Documents path source') : source = source' := by
  rw [← Source.load_eq_ok_iff] at h h'
  exact Except.ok.inj (h.symm.trans h')

theorem exists_ofFiles_iff {paths : List Path} :
    (∃ reading, ofFiles fs paths = .ok reading) ↔
      ∀ path ∈ paths, ∃ source, fs.Documents path source ∧
        ∀ b ∈ source.blocks, ∃ number, b.number = .ok number := by
  constructor
  · rintro ⟨reading, h⟩ path hpath
    obtain ⟨sources, hsources, hguide, -, -⟩ := ofFiles_eq_ok_iff.mp h
    obtain ⟨source, hsource, hdoc⟩ := exists_right_of_forall₂ hsources path hpath
    refine ⟨source, hdoc, fun b hb => ?_⟩
    have hmem : b ∈ sources.flatMap Source.blocks := List.mem_flatMap.mpr ⟨source, hsource, hb⟩
    exact hguide.numbered b (hguide.perm.mem_iff.mpr hmem)
  · intro h
    cases hread : ofFiles fs paths with
    | ok reading => exact ⟨reading, rfl⟩
    | error e =>
      exfalso
      rcases ofFiles_eq_error_iff.mp hread with
        ⟨before, path, after, cause, rfl, -, hcause, -⟩ |
        ⟨sources, hsources, before, b, after, hb, -, hn⟩
      · obtain ⟨source, hsource, -⟩ := h path (by simp)
        have hload := Source.load_eq_ok_iff.mpr hsource
        rw [Source.load_eq_error_iff.mpr hcause] at hload
        cases hload
      · have hmem : b ∈ sources.flatMap Source.blocks := by rw [hb]; simp
        obtain ⟨source, hsource, hbs⟩ := List.mem_flatMap.mp hmem
        obtain ⟨path, hpath, hdoc⟩ := exists_left_of_forall₂ hsources source hsource
        obtain ⟨source', hdoc', hnumbered⟩ := h path hpath
        obtain rfl := documents_unique hdoc' hdoc
        obtain ⟨number, hnumber⟩ := hnumbered b hbs
        rw [hn] at hnumber
        cases hnumber

theorem depth_of_number {b : Block} {number : SectionNumber} (h : b.number = .ok number) :
    b.depth = number.depth := by
  rw [Block.depth, h]

/-- **Reading loses, doubles and misplaces nothing, and reports the right failure.**  It succeeds
when every file is readable text without a malformed block and every section is a number.  Then the
guide is the stable sort of the blocks of all files in the order of the files; each path stands
beside the number of its own blocks; each file whose end cuts off a block has one warning, in the
order of the files; and no block is left without a number.  Otherwise the error is that of the first
file that fails, and only when there is none that of the first section that is no number. -/
theorem ofFiles_outcome (fs : FileSystem) (paths : List Path) :
    ((∃ reading, ofFiles fs paths = .ok reading) ↔
      ∀ path ∈ paths, ∃ source, fs.Documents path source ∧
        ∀ b ∈ source.blocks, ∃ number, b.number = .ok number) ∧
    (∀ reading, ofFiles fs paths = .ok reading →
      ∃ sources, List.Forall₂ fs.Documents paths sources ∧
        IsStableSort (sources.flatMap Source.blocks) reading.guide.blocks ∧
        reading.counts = paths.zip (sources.map fun source => source.blocks.length) ∧
        (reading.counts.map Prod.snd).sum = reading.guide.blocks.length ∧
        reading.report.findings =
          (paths.zip sources).filterMap (fun file => file.2.unterminated.map (cutOff file.1)) ∧
        (∀ finding ∈ reading.report.findings,
          finding.severity = .warning ∧ finding.code = "styleguide::load::unterminated") ∧
        ∀ b ∈ reading.guide.blocks, ∃ number, b.number = .ok number ∧ b.depth = number.depth) ∧
    ∀ e, ofFiles fs paths = .error e ↔
      (∃ before path after cause, paths = before ++ path :: after ∧
        (∀ p ∈ before, ∃ source, fs.Documents p source) ∧ fs.Withholds path cause ∧
        e = .source path cause) ∨
      ∃ sources before b after segment, List.Forall₂ fs.Documents paths sources ∧
        sources.flatMap Source.blocks = before ++ b :: after ∧
        (∀ a ∈ before, ∃ number, a.number = .ok number) ∧
        b.number = .error e ∧ e = .sectionNumber b.sectionText segment := by
  refine ⟨exists_ofFiles_iff, fun reading h => ?_, fun e => ?_⟩
  · obtain ⟨sources, hsources, hguide, hcounts, hfindings⟩ := ofFiles_eq_ok_iff.mp h
    refine ⟨sources, hsources, hguide, hcounts, ?_, hfindings, fun finding hfinding => ?_,
      fun b hb => ?_⟩
    · rw [hcounts]
      exact sum_counts hsources hguide
    · rw [hfindings] at hfinding
      obtain ⟨file, -, hfile⟩ := List.mem_filterMap.mp hfinding
      obtain ⟨run, -, rfl⟩ := Option.map_eq_some_iff.mp hfile
      exact ⟨rfl, rfl⟩
    · obtain ⟨number, hnumber⟩ := hguide.numbered b hb
      exact ⟨number, hnumber, depth_of_number hnumber⟩
  · rw [ofFiles_eq_error_iff]
    refine or_congr Iff.rfl ⟨?_, ?_⟩
    · rintro ⟨sources, hsources, before, b, after, hb, hbefore, hn⟩
      obtain ⟨segment, hsegment⟩ := SectionNumber.parse_eq_error hn
      exact ⟨sources, before, b, after, segment, hsources, hb, hbefore, hn, hsegment⟩
    · rintro ⟨sources, before, b, after, segment, hsources, hb, hbefore, hn, -⟩
      exact ⟨sources, hsources, before, b, after, hb, hbefore, hn⟩

end Reading

end LivingGuide
