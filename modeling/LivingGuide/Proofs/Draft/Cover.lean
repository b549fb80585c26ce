import LivingGuide.Project
import LivingGuide.Proofs.Draft.Source
import LivingGuide.Proofs.FileSystem.Put
import LivingGuide.Proofs.Inventory

/-!
# A draft covers what was found

A project without a manifest is walked as a whole, from `root/.`.  Its draft names the directories of
the files that the walk listed, and sources are scanned one after the other, a directory and one below
it both if both are named.  Every file is found again: its own directory is named, and is spelled with
fewer characters than before.  Whatever else a source holds is below the root, so the walk met it too,
unless it could not open the directory.

* `Draft.RootAt`: the path of a project spells a directory.
* `Draft.RootAt.covers_found`, `Draft.RootAt.covers_again`: nothing is lost, and nothing is added.
* `Draft.sources_cover`: **the sources of a draft lead to what was found.**
-/

namespace LivingGuide

namespace Draft

variable {fs : FileSystem} {root : Path} {base : Location} {names rest : List String}

theorem not_isFile_of_spells {path : Path} {here : Location} (hspells : fs.Spells path here)
    (hdirectory : fs.DirectoryAt here) : ¬ fs.isFile path := by
  intro hfile
  obtain ⟨there, hlocate, content, hcontent⟩ := FileSystem.isFile_iff.mp hfile
  obtain ⟨entries, hentries⟩ := hdirectory
  obtain rfl := hspells.unique (FileSystem.locate_eq_ok_iff.mp hlocate).2
  rw [hentries] at hcontent
  cases hcontent

theorem mem_offeredBy_iff (hfs : fs.root.Plain) {path p : Path} {here : Location}
    (hwritten : path.text ≠ "") (hspells : fs.Spells path here) (hdirectory : fs.DirectoryAt here) :
    p ∈ Inventory.offeredBy fs Manifest.default path ↔
      ∃ names, fs.Lists path names (here ++ names) ∧ p = path.down names ∧
        Manifest.default.isStylesheet p := by
  constructor
  · intro hp
    by_cases hopen : fs.isDirectory path
    · rw [Inventory.mem_offeredBy_directory_iff hfs hopen] at hp
      obtain ⟨names, there, hlists, hdown, hlisted, _⟩ := hp
      obtain ⟨directory, hdirectory, rfl⟩ := hlists.spelled
      obtain rfl := hspells.unique hdirectory
      exact ⟨names, hlists, hdown, hlisted⟩
    · rw [Inventory.offeredBy, if_neg hopen, if_neg (not_isFile_of_spells hspells hdirectory)] at hp
      exact absurd hp List.not_mem_nil
  · rintro ⟨names, hlists, hdown, hlisted⟩
    rw [Inventory.mem_offeredBy_directory_iff hfs (hlists.isDirectory hfs hwritten)]
    exact ⟨names, here ++ names, hlists, hdown, hlisted, Bool.false_ne_true⟩

/-- The path of a project spells a directory in a tree without links. -/
structure RootAt (fs : FileSystem) (root : Path) (base : Location) : Prop where
  plain : fs.root.Plain
  written : root.text ≠ ""
  spells : fs.Spells root base
  directory : fs.DirectoryAt base

/-- What a project without a manifest finds. -/
def found (fs : FileSystem) (root : Path) : List Path :=
  (Inventory.ofSources fs Manifest.default root ["."]).files

/-- What the sources of the draft of such a project find. -/
def again (fs : FileSystem) (root : Path) : List Path :=
  (Inventory.ofSources fs Manifest.default root
    (manifest (directories root (found fs root))).effectiveSources).files

theorem RootAt.source (h : RootAt fs root base) (hdirectory : fs.DirectoryAt (base ++ names)) :
    fs.Spells (root.join ⟨named names⟩) (base ++ names) ∧ (root.join ⟨named names⟩).text ≠ "" := by
  obtain ⟨entries, hentries⟩ := hdirectory
  have hnames := h.plain.isName_of_at? hentries
  exact ⟨spells_source h.plain h.spells h.written ⟨entries, hentries⟩,
    Path.text_join_ne_empty h.written (isAbsolute_named hnames)⟩

theorem RootAt.walk (h : RootAt fs root base) :
    fs.Spells (root.join ⟨"."⟩) base ∧ (root.join ⟨"."⟩).text ≠ "" := by
  have hbase : fs.DirectoryAt (base ++ []) := by
    rw [List.append_nil]
    exact h.directory
  have hsource := h.source hbase
  rw [List.append_nil] at hsource
  exact hsource

theorem RootAt.lists_walk (h : RootAt fs root base)
    (hlists : fs.Lists (root.join ⟨named names⟩) rest (base ++ names ++ rest))
    (hopen : FileSystem.refused? ((root.join ⟨"."⟩).down (names ++ rest).dropLast) = none) :
    fs.Lists (root.join ⟨"."⟩) (names ++ rest) (base ++ (names ++ rest)) := by
  rw [List.append_assoc] at hlists
  obtain ⟨node, hnode⟩ := hlists.exists_at?
  obtain ⟨hnames, hrest⟩ := List.forall_mem_append.mp (h.plain.isName_of_at? hnode)
  refine ⟨⟨base, h.walk.1, rfl⟩, ?_, hopen, ?_⟩
  · simp [hlists.proper]
  · rcases hlists.shown with hfile | ⟨hdirectory, hrefused⟩
    · exact .inl hfile
    · refine .inr ⟨hdirectory, fun haccepted => hrefused ?_⟩
      exact refused?_source_down h.written hnames hrest haccepted

theorem RootAt.lists_source (h : RootAt fs root base) {name : String}
    (hlists : fs.Lists (root.join ⟨"."⟩) (names ++ [name]) (base ++ (names ++ [name])))
    (hfile : fs.FileAt (base ++ (names ++ [name]))) :
    fs.Lists (root.join ⟨named names⟩) [name] (base ++ names ++ [name]) := by
  rw [← List.append_assoc] at hfile
  obtain ⟨content, hcontent⟩ := hfile
  obtain ⟨entries, _, hentries, _, _⟩ := Node.at?_cons hcontent
  have hopened := hlists.opened
  rw [List.dropLast_concat, ← List.append_nil names] at hopened
  refine ⟨⟨base ++ names, (h.source ⟨entries, hentries⟩).1, rfl⟩, List.cons_ne_nil _ _, ?_,
    .inl ⟨content, hcontent⟩⟩
  exact refused?_source_down h.written (h.plain.isName_of_at? hentries) (fun _ => nofun) hopened

theorem RootAt.of_mem_found (h : RootAt fs root base) {p : Path} (hp : p ∈ found fs root) :
    ∃ names name, (∀ s ∈ names ++ [name], Node.IsName s) ∧
      fs.Lists (root.join ⟨"."⟩) (names ++ [name]) (base ++ (names ++ [name])) ∧
      p = (root.join ⟨"."⟩).down (names ++ [name]) ∧ Manifest.default.isStylesheet p := by
  have hoffered := (Inventory.collects_ofSources fs Manifest.default root ["."]).mem p hp
  rw [List.flatMap_singleton, mem_offeredBy_iff h.plain h.walk.2 h.walk.1 h.directory] at hoffered
  obtain ⟨names, hlists, hdown, hlisted⟩ := hoffered
  obtain ⟨more, last, rfl⟩ := (List.eq_nil_or_concat' names).resolve_left hlists.proper
  obtain ⟨node, hnode⟩ := hlists.exists_at?
  exact ⟨more, last, h.plain.isName_of_at? hnode, hlists, hdown, hlisted⟩

theorem RootAt.eq_of_same (h : RootAt fs root base) (hnames : ∀ s ∈ names, Node.IsName s)
    (hrest : ∀ s ∈ rest, Node.IsName s)
    (hsame : ((root.join ⟨"."⟩).down names).components = ((root.join ⟨"."⟩).down rest).components) :
    names = rest :=
  Path.eq_of_components_down h.walk.2 hnames hrest hsame

theorem RootAt.mem_found (h : RootAt fs root base)
    (hlists : fs.Lists (root.join ⟨"."⟩) names (base ++ names))
    (hlisted : Manifest.default.isStylesheet ((root.join ⟨"."⟩).down names)) :
    (root.join ⟨"."⟩).down names ∈ found fs root := by
  have hoffered : (root.join ⟨"."⟩).down names ∈
      ["."].flatMap fun source => Inventory.offeredBy fs Manifest.default (root.join ⟨source⟩) := by
    rw [List.flatMap_singleton, mem_offeredBy_iff h.plain h.walk.2 h.walk.1 h.directory]
    exact ⟨names, hlists, rfl, hlisted⟩
  -- of two paths that are the same only one is kept, but the walk spells each in one way
  obtain ⟨p, hp, hsame⟩ :=
    (Inventory.collects_ofSources fs Manifest.default root ["."]).covers _ hoffered
  obtain ⟨more, last, hmore, -, rfl, -⟩ := h.of_mem_found hp
  obtain ⟨node, hnode⟩ := hlists.exists_at?
  obtain rfl := h.eq_of_same hmore (h.plain.isName_of_at? hnode) (Path.same_iff.mp hsame)
  exact hp

theorem mem_sources (hroot : root.text ≠ "") {name : String}
    (hnames : ∀ s ∈ names ++ [name], Node.IsName s)
    (hfound : (root.join ⟨"."⟩).down (names ++ [name]) ∈ found fs root) :
    named names ∈ (manifest (directories root (found fs root))).effectiveSources := by
  obtain ⟨hnames, hname⟩ := List.forall_mem_append.mp hnames
  obtain ⟨parent, hparent, hdirectory⟩ :=
    directoryName_parent hroot hnames (List.forall_mem_singleton.mp hname)
  have hmem : named names ∈ directories root (found fs root) :=
    mem_directories_iff.mpr ⟨_, hfound, parent, hparent, hdirectory⟩
  rw [effectiveSources_manifest, if_neg (List.ne_nil_of_mem hmem)]
  exact hmem

theorem RootAt.of_mem_sources (h : RootAt fs root base) {source : String}
    (hsource : source ∈ (manifest (directories root (found fs root))).effectiveSources) :
    ∃ names, source = named names ∧ fs.DirectoryAt (base ++ names) := by
  rw [effectiveSources_manifest] at hsource
  split at hsource
  · refine ⟨[], List.mem_singleton.mp hsource, ?_⟩
    rw [List.append_nil]
    exact h.directory
  · obtain ⟨p, hp, parent, hparent, rfl⟩ := mem_directories_iff.mp hsource
    obtain ⟨names, name, hnames, hlists, rfl, -⟩ := h.of_mem_found hp
    obtain ⟨hnames, hname⟩ := List.forall_mem_append.mp hnames
    obtain ⟨parent', hparent', hdirectory⟩ :=
      directoryName_parent h.written hnames (List.forall_mem_singleton.mp hname)
    rw [hparent] at hparent'
    cases hparent'
    obtain ⟨node, hnode⟩ := hlists.exists_at?
    rw [← List.append_assoc] at hnode
    obtain ⟨entries, _, hentries, _, _⟩ := Node.at?_cons hnode
    exact ⟨names, hdirectory, entries, hentries⟩

theorem isStylesheet_source_down (hroot : root.text ≠ "")
    (hnames : ∀ s ∈ names, Node.IsName s) (hrest : ∀ s ∈ rest, Node.IsName s) :
    Manifest.default.isStylesheet ((root.join ⟨named names⟩).down rest) =
      Manifest.default.isStylesheet ((root.join ⟨"."⟩).down (names ++ rest)) := by
  have hsame := components_source_down hroot hnames hrest
  rw [Manifest.isStylesheet, Manifest.isStylesheet, Path.extension?, Path.extension?, Path.fileName?,
    Path.fileName?, hsame]

/-- **No file is lost**: what was found is found again, unless it is a directory that the walk took for
a file because it could not open it. -/
theorem RootAt.covers_found (h : RootAt fs root base) {p : Path} (hp : p ∈ found fs root) :
    (∃ q ∈ again fs root, q.same p) ∨
      ∃ names, p = (root.join ⟨"."⟩).down names ∧ fs.Spells p (base ++ names) ∧
        fs.DirectoryAt (base ++ names) ∧ FileSystem.refused? p ≠ none := by
  obtain ⟨names, name, hnames, hlists, rfl, hlisted⟩ := h.of_mem_found hp
  rcases hlists.shown with hfile | ⟨⟨entries, hentries⟩, hrefused⟩
  · left
    have hsource := mem_sources h.written hnames hp
    obtain ⟨hnames, hname⟩ := List.forall_mem_append.mp hnames
    have hsame := components_source_down h.written hnames hname
    have hlists := h.lists_source hlists hfile
    have hwritten := Path.text_join_ne_empty h.written (isAbsolute_named hnames)
    have hoffered : (root.join ⟨named names⟩).down [name] ∈
        Inventory.offeredBy fs Manifest.default (root.join ⟨named names⟩) := by
      rw [Inventory.mem_offeredBy_directory_iff h.plain (hlists.isDirectory h.plain hwritten)]
      refine ⟨[name], _, hlists, rfl, ?_, Bool.false_ne_true⟩
      rw [isStylesheet_source_down h.written hnames hname]
      exact hlisted
    obtain ⟨q, hq, hqsame⟩ := (Inventory.collects_ofSources fs Manifest.default root _).covers _
      (List.mem_flatMap.mpr ⟨_, hsource, hoffered⟩)
    exact ⟨q, hq, Path.same_iff.mpr ((Path.same_iff.mp hqsame).trans hsame)⟩
  · right
    have hplaced : fs.Placed root (root.join ⟨"."⟩) base :=
      FileSystem.placed_join h.plain h.written ⟨by decide, by decide⟩ h.walk.1
    exact ⟨_, rfl, (hplaced.down h.plain hentries).spells, ⟨entries, hentries⟩, hrefused⟩

/-- **No file is added**: what is found again was found, unless the walk could not open its
directory. -/
theorem RootAt.covers_again (h : RootAt fs root base) {q : Path} (hq : q ∈ again fs root) :
    (∃ p ∈ found fs root, p.same q) ∨
      ∃ names name, q.same ((root.join ⟨"."⟩).down (names ++ [name])) ∧
        fs.DirectoryAt (base ++ names) ∧
        FileSystem.refused? ((root.join ⟨"."⟩).down names) ≠ none := by
  have hoffered := (Inventory.collects_ofSources fs Manifest.default root _).mem q hq
  obtain ⟨source, hsource, hq⟩ := List.mem_flatMap.mp hoffered
  obtain ⟨names, rfl, hdirectory⟩ := h.of_mem_sources hsource
  obtain ⟨hspells, hwritten⟩ := h.source hdirectory
  obtain ⟨rest, hlists, rfl, hlisted⟩ := (mem_offeredBy_iff h.plain hwritten hspells hdirectory).mp hq
  obtain ⟨node, hnode⟩ := hlists.exists_at?
  rw [List.append_assoc] at hnode
  obtain ⟨hnames, hrest⟩ := List.forall_mem_append.mp (h.plain.isName_of_at? hnode)
  have hsame := components_source_down h.written hnames hrest
  by_cases hopen : FileSystem.refused? ((root.join ⟨"."⟩).down (names ++ rest).dropLast) = none
  · left
    rw [isStylesheet_source_down h.written hnames hrest] at hlisted
    exact ⟨_, h.mem_found (h.lists_walk hlists hopen) hlisted, Path.same_iff.mpr hsame.symm⟩
  · right
    obtain ⟨more, last, rfl⟩ := (List.eq_nil_or_concat' rest).resolve_left hlists.proper
    rw [← List.append_assoc names] at hnode hsame hopen
    rw [← List.append_assoc base] at hnode
    rw [List.dropLast_concat] at hopen
    obtain ⟨entries, _, hentries, _, _⟩ := Node.at?_cons hnode
    exact ⟨names ++ more, last, Path.same_iff.mpr hsame, ⟨entries, hentries⟩, hopen⟩

theorem atRoot_of_no_manifest (hnone : fs.exists? (Project.manifestPath root) = false) :
    ∃ project, Project.atRoot fs root = .ok project ∧ project.inventory.files = found fs root := by
  refine ⟨Project.ofManifest fs root none, ?_, rfl⟩
  rw [Project.atRoot, Project.manifestAt, hnone]
  rfl

theorem exists_rootAt (hfs : fs.root.Plain) (hroot : fs.isDirectory root) :
    ∃ base, RootAt fs root base := by
  obtain ⟨base, hlocate, hdirectory⟩ := FileSystem.isDirectory_iff.mp hroot
  obtain ⟨haccepted, hspells⟩ := FileSystem.locate_eq_ok_iff.mp hlocate
  exact ⟨base, hfs, FileSystem.ne_empty_of_refused? haccepted, hspells, hdirectory⟩

/-- **The sources of a draft lead to what was found.**  A file that the project without a manifest
finds is found by the sources of its draft, and what they find was found before, unless the walk of
the whole project could not open the directory.  So where every directory below the root can be opened
by the path that the walk spells, both find the same files. -/
theorem sources_cover (fs : FileSystem) (hfs : fs.root.Plain) (root : Path)
    (hroot : fs.isDirectory root) (hnone : fs.exists? (Project.manifestPath root) = false) :
    ∃ project, Project.atRoot fs root = .ok project ∧
      let before := project.inventory.files
      let after := (Inventory.ofSources fs Manifest.default root
        (manifest (directories root before)).effectiveSources).files
      (∀ p ∈ before, (∃ q ∈ after, q.same p) ∨
        ∃ here, fs.Spells p here ∧ fs.DirectoryAt here ∧ FileSystem.refused? p ≠ none) ∧
      (∀ q ∈ after, (∃ p ∈ before, p.same q) ∨
        ∃ base names name, fs.Spells root base ∧ fs.DirectoryAt (base ++ names) ∧
          FileSystem.refused? ((root.join ⟨"."⟩).down names) ≠ none ∧
          q.same ((root.join ⟨"."⟩).down (names ++ [name]))) ∧
      ((∀ base names, fs.Spells root base → fs.DirectoryAt (base ++ names) →
          FileSystem.refused? ((root.join ⟨"."⟩).down names) = none) →
        ∀ p, (∃ q ∈ before, q.same p) ↔ ∃ q ∈ after, q.same p) := by
  obtain ⟨project, hproject, hfiles⟩ := atRoot_of_no_manifest hnone
  obtain ⟨base, h⟩ := exists_rootAt hfs hroot
  refine ⟨project, hproject, ?_⟩
  rw [hfiles]
  refine ⟨fun p hp => ?_, fun q hq => ?_, fun hopen p => ⟨?_, ?_⟩⟩
  · rcases h.covers_found hp with hagain | ⟨names, -, hspells, hdirectory, hrefused⟩
    · exact .inl hagain
    · exact .inr ⟨_, hspells, hdirectory, hrefused⟩
  · rcases h.covers_again hq with hfound | ⟨names, name, hsame, hdirectory, hrefused⟩
    · exact .inl hfound
    · exact .inr ⟨base, names, name, h.spells, hdirectory, hrefused, hsame⟩
  · rintro ⟨q, hq, hqp⟩
    rcases h.covers_found hq with ⟨r, hr, hrq⟩ | ⟨names, rfl, -, hdirectory, hrefused⟩
    · exact ⟨r, hr, Path.same_iff.mpr ((Path.same_iff.mp hrq).trans (Path.same_iff.mp hqp))⟩
    · exact absurd (hopen base names h.spells hdirectory) hrefused
  · rintro ⟨q, hq, hqp⟩
    rcases h.covers_again hq with ⟨r, hr, hrq⟩ | ⟨names, -, -, hdirectory, hrefused⟩
    · exact ⟨r, hr, Path.same_iff.mpr ((Path.same_iff.mp hrq).trans (Path.same_iff.mp hqp))⟩
    · exact absurd (hopen base _ h.spells hdirectory) hrefused

open Inventory (nested plain_nested slashes spells_slashes)

theorem isDirectory_slashes {n : Nat} (hfits : n + 1 ≤ maxPathBytes) :
    nested.isDirectory (slashes n) := by
  have haccepted : FileSystem.refused? (slashes n) = none := by
    refine FileSystem.refused?_eq_none_iff.mpr
      ⟨Inventory.zero_notMem_slashes n, Inventory.ne_empty_slashes n, ?_⟩
    rw [Inventory.utf8ByteSize_slashes]
    exact hfits
  exact FileSystem.isDirectory_iff.mpr
    ⟨[], FileSystem.locate_eq_ok_iff.mpr ⟨haccepted, spells_slashes n⟩, _, rfl⟩

theorem no_manifest_slashes (n : Nat) :
    nested.exists? (Project.manifestPath (slashes n)) = false := by
  rw [FileSystem.exists?, FileSystem.node?]
  cases hlocate : nested.locate (Project.manifestPath (slashes n)) with
  | error fault => rfl
  | ok here =>
    have hspells := (FileSystem.locate_eq_ok_iff.mp hlocate).2
    rw [Project.manifestPath,
      FileSystem.spells_join_iff (Inventory.ne_empty_slashes n) (by decide)] at hspells
    obtain ⟨base, left, left', hbase, hname⟩ := hspells
    obtain ⟨left'', hstem⟩ := (spells_slashes n).follow_stem
    rw [hbase] at hstem
    cases hstem
    rw [plain_nested.follow_eq (by decide) hname]
    decide

theorem exists_entry_of_at? {entries : List (String × Node)} {name : String} {names : Location}
    {node : Node} (hat : (Node.directory entries).at? (name :: names) = some node) :
    ∃ child, (name, child) ∈ entries ∧ child.at? names = some node := by
  obtain ⟨_, child, hroot, hlookup, hchild⟩ := Node.exists_child_of_at? hat
  cases hroot
  exact ⟨child, Node.mem_of_lookup hlookup, hchild⟩

theorem directoryAt_nested {names : Location} (h : nested.DirectoryAt names) :
    names = [] ∨ names = ["sub"] ∨ names = ["sub", "deep"] := by
  obtain ⟨entries, hentries⟩ := h
  cases names with
  | nil => exact .inl rfl
  | cons first names =>
    obtain ⟨sub, hsub, hfirst⟩ := exists_entry_of_at? hentries
    simp only [List.mem_cons, Prod.mk.injEq, List.not_mem_nil, or_false] at hsub
    obtain ⟨rfl, rfl⟩ := hsub
    cases names with
    | nil => exact .inr (.inl rfl)
    | cons second names =>
      obtain ⟨deep, hdeep, hsecond⟩ := exists_entry_of_at? hfirst
      simp only [List.mem_cons, Prod.mk.injEq, List.not_mem_nil, or_false] at hdeep
      rcases hdeep with ⟨rfl, rfl⟩ | ⟨rfl, rfl⟩
      · cases names <;> cases hsecond
      · cases names with
        | nil => exact .inr (.inr rfl)
        | cons third names =>
          obtain ⟨styl, hstyl, hthird⟩ := exists_entry_of_at? hsecond
          simp only [List.mem_cons, Prod.mk.injEq, List.not_mem_nil, or_false] at hstyl
          obtain ⟨rfl, rfl⟩ := hstyl
          cases names <;> cases hthird

/-- In a small project the sources of the draft find the same files. -/
theorem sources_cover_nested :
    (nested.root.Plain ∧ nested.isDirectory (slashes 0) ∧
      nested.exists? (Project.manifestPath (slashes 0)) = false) ∧
    ∃ project, Project.atRoot nested (slashes 0) = .ok project ∧
      ∀ p, (∃ q ∈ project.inventory.files, q.same p) ↔
        ∃ q ∈ (Inventory.ofSources nested Manifest.default (slashes 0)
          (manifest (directories (slashes 0) project.inventory.files)).effectiveSources).files,
          q.same p := by
  have hdirectory := isDirectory_slashes (n := 0) (by decide)
  have hnone := no_manifest_slashes 0
  obtain ⟨project, hproject, -, -, hsame⟩ := sources_cover nested plain_nested _ hdirectory hnone
  refine ⟨⟨plain_nested, hdirectory, hnone⟩, project, hproject, hsame fun base names hbase hat => ?_⟩
  obtain rfl := hbase.unique (spells_slashes 0)
  rcases directoryAt_nested hat with rfl | rfl | rfl <;> decide +kernel

theorem slashed_slashes (n : Nat) : (slashes (n + 1)).slashed = (slashes (n + 1)).text := by
  have hempty : (Path.mk "").isAbsolute = false := by decide
  have hjoin := Inventory.text_join_slashes n hempty
  rw [Path.text_join hempty] at hjoin
  simpa using hjoin

theorem refused?_slashes_iff {n : Nat} {p : Path} {tail : String} (hwritten : p.text ≠ "")
    (htext : p.text ++ "/" = (slashes (n + 1)).slashed ++ tail) (hzero : '\x00' ∉ tail.toList) :
    FileSystem.refused? p = none ↔ n + 1 + tail.utf8ByteSize ≤ maxPathBytes := by
  rw [slashed_slashes] at htext
  have hsize := congrArg String.utf8ByteSize htext
  rw [String.utf8ByteSize_append, String.utf8ByteSize_append, Inventory.utf8ByteSize_slashes] at hsize
  have hslash : "/".utf8ByteSize = 1 := by decide
  have hnone : '\x00' ∉ p.text.toList := by
    intro hmem
    have hmem' : '\x00' ∈ (p.text ++ "/").toList := by
      rw [String.toList_append]
      exact List.mem_append_left _ hmem
    rw [htext, String.toList_append, List.mem_append] at hmem'
    exact hmem'.elim (Inventory.zero_notMem_slashes _) hzero
  rw [FileSystem.refused?_eq_none_iff]
  constructor
  · intro h
    omega
  · intro h
    exact ⟨hnone, hwritten, by omega⟩

theorem rootAt_slashes (n : Nat) : RootAt nested (slashes n) [] :=
  ⟨plain_nested, Inventory.ne_empty_slashes n, spells_slashes n, _, rfl⟩

theorem refused?_walk_slashes {n : Nat} (hne : names ≠ []) (hnames : ∀ s ∈ names, Node.IsName s)
    (hzero : '\x00' ∉ ("./" ++ Path.spelled names).toList) :
    FileSystem.refused? (((slashes (n + 1)).join ⟨"."⟩).down names) = none ↔
      n + 1 + ("./" ++ Path.spelled names).utf8ByteSize ≤ maxPathBytes := by
  have hwritten := (Path.stem_down (rootAt_slashes (n + 1)).walk.2 hnames).2
  refine refused?_slashes_iff hwritten ?_ hzero
  rw [Path.text_down hne hnames, slashed_dot, String.append_assoc]

theorem isStylesheet_concat {p : Path} (hp : p.text ≠ "") {name : String}
    (hnames : ∀ s ∈ names ++ [name], Node.IsName s) :
    Manifest.default.isStylesheet (p.down (names ++ [name])) =
      (Path.cutExtension name).2.any fun extension =>
        Manifest.default.extensions.any (Manifest.sameIgnoringCase · extension) := by
  rw [Manifest.isStylesheet, Path.extension?, Path.fileName?_down hp hnames]
  rfl

/-- The file next to the directory is found, so their directory is a source. -/
theorem sub_mem_sources {n : Nat} (hfits : n + 10 ≤ maxPathBytes) :
    named ["sub"] ∈
      (manifest (directories (slashes (n + 1)) (found nested (slashes (n + 1))))).effectiveSources := by
  have h := rootAt_slashes (n + 1)
  have hless : ∀ s ∈ ["sub"] ++ ["b.less"], Node.IsName s := by decide
  refine mem_sources h.written hless (h.mem_found ?_ ?_)
  · refine ⟨⟨[], h.walk.1, rfl⟩, List.cons_ne_nil _ _, ?_, .inl ⟨_, rfl⟩⟩
    rw [List.dropLast_concat, refused?_walk_slashes (List.cons_ne_nil _ _) (by decide) (by decide)]
    have hsize : ("./" ++ Path.spelled ["sub"]).utf8ByteSize = 6 := by decide
    omega
  · rw [isStylesheet_concat h.walk.2 hless]
    decide

theorem deep_mem_offeredBy {n : Nat} (hfits : n + 10 ≤ maxPathBytes) :
    ((slashes (n + 1)).join ⟨named ["sub"]⟩).down (["deep"] ++ ["c.styl"]) ∈
      Inventory.offeredBy nested Manifest.default ((slashes (n + 1)).join ⟨named ["sub"]⟩) := by
  have hsub : ∀ s ∈ ["sub"], Node.IsName s := by decide
  have hdeep : ∀ s ∈ ["deep"], Node.IsName s := by decide
  have hdirectory : nested.DirectoryAt ([] ++ ["sub"]) := ⟨_, rfl⟩
  obtain ⟨hspells, hwritten⟩ := (rootAt_slashes (n + 1)).source hdirectory
  rw [mem_offeredBy_iff plain_nested hwritten hspells hdirectory]
  refine ⟨["deep"] ++ ["c.styl"], ⟨⟨_, hspells, rfl⟩, List.cons_ne_nil _ _, ?_, .inl ⟨_, rfl⟩⟩, rfl, ?_⟩
  · have htext : (((slashes (n + 1)).join ⟨named ["sub"]⟩).down ["deep"]).text ++ "/" =
        (slashes (n + 1)).slashed ++ (Path.spelled ["sub"] ++ Path.spelled ["deep"]) := by
      rw [Path.text_down (List.cons_ne_nil _ _) hdeep,
        (slashed_source _ (List.cons_ne_nil _ _) hsub).1, String.append_assoc]
    rw [List.dropLast_concat, refused?_slashes_iff (Path.stem_down hwritten hdeep).2 htext (by decide)]
    have hsize : (Path.spelled ["sub"] ++ Path.spelled ["deep"]).utf8ByteSize = 9 := by decide
    omega
  · rw [isStylesheet_concat hwritten (by decide)]
    decide

theorem exists_gain {n : Nat} (hfits : n + 10 ≤ maxPathBytes) (hlong : maxPathBytes < n + 12) :
    ∃ q ∈ again nested (slashes (n + 1)), ∀ p ∈ found nested (slashes (n + 1)), ¬ p.same q := by
  have h := rootAt_slashes (n + 1)
  obtain ⟨q, hq, hqsame⟩ :=
    (Inventory.collects_ofSources nested Manifest.default (slashes (n + 1)) _).covers _
      (List.mem_flatMap.mpr ⟨_, sub_mem_sources hfits, deep_mem_offeredBy hfits⟩)
  refine ⟨q, hq, fun p hp hsame => ?_⟩
  obtain ⟨names, name, hnames, hlists, rfl, -⟩ := h.of_mem_found hp
  have hspelled := components_source_down h.written (by decide : ∀ s ∈ ["sub"], Node.IsName s)
    (by decide : ∀ s ∈ ["deep"] ++ ["c.styl"], Node.IsName s)
  have hpath : names ++ [name] = ["sub", "deep"] ++ ["c.styl"] := h.eq_of_same hnames (by decide)
    ((Path.same_iff.mp hsame).trans ((Path.same_iff.mp hqsame).trans hspelled))
  have hopen := hlists.opened
  rw [hpath, List.dropLast_concat,
    refused?_walk_slashes (List.cons_ne_nil _ _) (by decide) (by decide)] at hopen
  have hsize : ("./" ++ Path.spelled ["sub", "deep"]).utf8ByteSize = 11 := by decide
  omega

/-- **A file is added below a directory that the walk could not open.**  The walk would open it by a
path of 4097 bytes, and the source that the draft names opens it by one of 4095 bytes. -/
theorem sources_gain_unopened :
    (nested.root.Plain ∧ nested.isDirectory (slashes 4086) ∧
      nested.exists? (Project.manifestPath (slashes 4086)) = false) ∧
    ∃ project, Project.atRoot nested (slashes 4086) = .ok project ∧
      ∃ q ∈ (Inventory.ofSources nested Manifest.default (slashes 4086)
          (manifest (directories (slashes 4086) project.inventory.files)).effectiveSources).files,
        ∀ p ∈ project.inventory.files, ¬ p.same q := by
  have hmax : maxPathBytes = 4095 := rfl
  obtain ⟨n, hn⟩ : ∃ n, n + 1 = 4086 := ⟨4085, rfl⟩
  rw [← hn]
  have hnone := no_manifest_slashes (n + 1)
  obtain ⟨project, hproject, hfiles⟩ := atRoot_of_no_manifest hnone
  refine ⟨⟨plain_nested, isDirectory_slashes (by omega), hnone⟩, project, hproject, ?_⟩
  rw [hfiles]
  exact exists_gain (by omega) (by omega)

end Draft

end LivingGuide
