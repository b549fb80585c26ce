import LivingGuide.Inventory
import LivingGuide.Proofs.FileSystem.Walk

/-!
# An inventory holds each file once

Sources may overlap: a directory may be listed next to one of its own files, twice, or in another
spelling.  Paths that enter an inventory are compared as paths only, never by what they lead to.
This is enough in a tree without links: every path that a source offers is the root continued by
names, and by the same names for the same file, so one file has one path however it was reached
(`FileSystem.Placed.same_iff`).

* `Inventory.Collects`: the inventory holds one of the same paths for each path offered to it, and
  nothing else.  Pushing, merging and sources keep this (`Collects.push`, `Collects.merge`,
  `Collects.addSource`).
* `Inventory.Offers`: what a source offers.  **The inventory of sources has one path for each file that
  a source offers, and none for a file that no source offers.**
* A walk opens directories by the paths it spells, so a file behind a path that is too long is not
  found, although its directory is named.
-/

namespace LivingGuide.Inventory

/-! ### Collecting paths -/

/-- Of the paths that are offered, the inventory holds one of each that are the same. -/
structure Collects (inventory : Inventory) (offered : List Path) : Prop where
  distinct : inventory.files.Pairwise fun p q => ¬ p.same q
  mem : ∀ p ∈ inventory.files, p ∈ offered
  covers : ∀ p ∈ offered, ∃ q ∈ inventory.files, q.same p

variable {inventory other : Inventory} {offered offered' : List Path}

theorem Collects.empty : Collects empty [] where
  distinct := List.Pairwise.nil
  mem := fun _ hp => hp
  covers := fun _ hp => absurd hp List.not_mem_nil

theorem Collects.push (h : Collects inventory offered) (p : Path) :
    Collects (inventory.push p) (offered ++ [p]) := by
  rw [Inventory.push]
  by_cases hsame : inventory.files.any (·.same p)
  · rw [if_pos hsame]
    obtain ⟨first, hfirst, hfirstSame⟩ := List.any_eq_true.mp hsame
    refine ⟨h.distinct, fun q hq => List.mem_append_left _ (h.mem q hq), fun q hq => ?_⟩
    rcases List.mem_append.mp hq with hq | hq
    · exact h.covers q hq
    · obtain rfl := List.mem_singleton.mp hq
      exact ⟨first, hfirst, hfirstSame⟩
  · rw [if_neg hsame]
    have hnew : ∀ q ∈ inventory.files, ¬ q.same p := by
      intro q hq hqp
      exact hsame (List.any_eq_true.mpr ⟨q, hq, hqp⟩)
    refine ⟨?_, fun q hq => ?_, fun q hq => ?_⟩
    · rw [List.pairwise_append]
      refine ⟨h.distinct, List.pairwise_singleton _ _, fun q hq r hr => ?_⟩
      obtain rfl := List.mem_singleton.mp hr
      exact hnew q hq
    · rcases List.mem_append.mp hq with hq | hq
      · exact List.mem_append_left _ (h.mem q hq)
      · exact List.mem_append_right _ hq
    · rcases List.mem_append.mp hq with hq | hq
      · obtain ⟨r, hr, hrq⟩ := h.covers q hq
        exact ⟨r, List.mem_append_left _ hr, hrq⟩
      · exact ⟨q, List.mem_append_right _ hq, Path.same_iff.mpr rfl⟩

theorem Collects.pushAll (h : Collects inventory offered) (paths : List Path) :
    Collects (inventory.pushAll paths) (offered ++ paths) := by
  induction paths generalizing inventory offered with
  | nil =>
    rw [List.append_nil]
    exact h
  | cons p paths ih =>
    rw [List.append_cons]
    exact ih (h.push p)

theorem Collects.merge (h : Collects inventory offered) (hother : Collects other offered') :
    Collects (inventory.merge other) (offered ++ offered') := by
  have hpush := h.pushAll other.files
  refine ⟨hpush.distinct, fun p hp => ?_, fun p hp => ?_⟩
  · rcases List.mem_append.mp (hpush.mem p hp) with hp | hp
    · exact List.mem_append_left _ hp
    · exact List.mem_append_right _ (hother.mem p hp)
  · rcases List.mem_append.mp hp with hp | hp
    · exact hpush.covers p (List.mem_append_left _ hp)
    · obtain ⟨q, hq, hqp⟩ := hother.covers p hp
      obtain ⟨r, hr, hrq⟩ := hpush.covers q (List.mem_append_right _ hq)
      exact ⟨r, hr, Path.same_iff.mpr ((Path.same_iff.mp hrq).trans (Path.same_iff.mp hqp))⟩

/-! ### What sources offer -/

/-- The paths that a source offers, in the order in which they are pushed. -/
def offeredBy (fs : FileSystem) (manifest : Manifest) (path : Path) : List Path :=
  if fs.isDirectory path then
    (fs.walk path).filter fun found => !manifest.isExcluded found && manifest.isStylesheet found
  else if fs.isFile path then [path]
  else []

variable {fs : FileSystem} {manifest : Manifest} {root : Path}

theorem Collects.addSource (h : Collects inventory offered) (source : String) :
    Collects (addSource fs manifest root inventory source)
      (offered ++ offeredBy fs manifest (root.join ⟨source⟩)) := by
  rw [Inventory.addSource, offeredBy]
  by_cases hdirectory : fs.isDirectory (root.join ⟨source⟩)
  · rw [if_pos hdirectory, if_pos hdirectory]
    exact h.merge (Collects.empty.pushAll _)
  · rw [if_neg hdirectory, if_neg hdirectory]
    by_cases hfile : fs.isFile (root.join ⟨source⟩)
    · rw [if_pos hfile, if_pos hfile]
      exact h.push _
    · rw [if_neg hfile, if_neg hfile, List.append_nil]
      exact h

/-- **The inventory of sources collects what the sources offer.** -/
theorem collects_ofSources (fs : FileSystem) (manifest : Manifest) (root : Path)
    (sources : List String) :
    Collects (ofSources fs manifest root sources)
      (sources.flatMap fun source => offeredBy fs manifest (root.join ⟨source⟩)) := by
  have hrun : ∀ {inventory offered}, Collects inventory offered →
      Collects (sources.foldl (Inventory.addSource fs manifest root) inventory)
        (offered ++ sources.flatMap fun source => offeredBy fs manifest (root.join ⟨source⟩)) := by
    induction sources with
    | nil =>
      intro inventory offered h
      rw [List.flatMap_nil, List.append_nil]
      exact h
    | cons source sources ih =>
      intro inventory offered h
      rw [List.flatMap_cons, ← List.append_assoc]
      exact ih (h.addSource source)
  exact hrun Collects.empty

/-- A path offers the file that it spells, whatever its name, and the stylesheets below the directory
that it spells unless the manifest leaves them out.  These are judged by the path that the walk
spells.  The path of the file, and for a stylesheet that of the directory that holds it, must not be
refused. -/
inductive Offers (fs : FileSystem) (manifest : Manifest) (path : Path) : Path → Location → Prop
  | file {here : Location} (spells : fs.Spells path here) (file : fs.FileAt here)
      (accepted : FileSystem.refused? path = none) : Offers fs manifest path path here
  | stylesheet {names : List String} {here : Location} (below : fs.FileBelow path names here)
      (listed : manifest.isStylesheet (path.down names))
      (kept : ¬ manifest.isExcluded (path.down names))
      (accepted : FileSystem.refused? (path.down names.dropLast) = none) :
      Offers fs manifest path (path.down names) here

section

variable {path p : Path} {here : Location}

theorem mem_offeredBy_directory_iff (hfs : fs.root.Plain) (hpath : fs.isDirectory path) :
    p ∈ offeredBy fs manifest path ↔ ∃ names here, fs.Lists path names here ∧ p = path.down names ∧
      manifest.isStylesheet p ∧ ¬ manifest.isExcluded p := by
  rw [offeredBy, if_pos hpath, List.mem_filter, FileSystem.mem_walk_iff hfs hpath,
    Bool.and_eq_true, Bool.not_eq_true', ← Bool.not_eq_true]
  constructor
  · rintro ⟨⟨names, here, hlists, rfl⟩, kept, listed⟩
    exact ⟨names, here, hlists, rfl, listed, kept⟩
  · rintro ⟨names, here, hlists, rfl, listed, kept⟩
    exact ⟨⟨names, here, hlists, rfl⟩, kept, listed⟩

theorem Offers.mem_offeredBy (hfs : fs.root.Plain) (hpath : path.text ≠ "")
    (h : Offers fs manifest path p here) : p ∈ offeredBy fs manifest path := by
  cases h with
  | file spells file accepted =>
    have hfile : fs.isFile path :=
      FileSystem.isFile_iff.mpr ⟨here, FileSystem.locate_eq_ok_iff.mpr ⟨accepted, spells⟩, file⟩
    have hdirectory : ¬ fs.isDirectory path :=
      fun hdirectory => FileSystem.not_isFile_of_isDirectory hdirectory hfile
    rw [offeredBy, if_neg hdirectory, if_pos hfile]
    exact List.mem_singleton_self path
  | stylesheet below listed kept accepted =>
    have hlists := (FileSystem.lists_iff_of_fileAt below.file).mpr ⟨below, accepted⟩
    rw [mem_offeredBy_directory_iff hfs (hlists.isDirectory hfs hpath)]
    exact ⟨_, here, hlists, rfl, listed, kept⟩

theorem Offers.placed (hfs : fs.root.Plain) (hroot : root.text ≠ "") {source : String}
    (hsource : Path.Descends ⟨source⟩) (h : Offers fs manifest (root.join ⟨source⟩) p here) :
    fs.Placed root p here := by
  cases h with
  | file spells => exact FileSystem.placed_join hfs hroot hsource spells
  | stylesheet below =>
    obtain ⟨directory, hspells, rfl⟩ := below.spelled
    obtain ⟨content, hfile⟩ := below.file
    exact (FileSystem.placed_join hfs hroot hsource hspells).down hfs hfile

-- What is offered need not be a file: a walk also lists the directories that it cannot open.
theorem exists_placed_of_mem_offeredBy (hfs : fs.root.Plain) (hroot : root.text ≠ "")
    {source : String} (hsource : Path.Descends ⟨source⟩)
    (hp : p ∈ offeredBy fs manifest (root.join ⟨source⟩)) :
    ∃ here, fs.Placed root p here ∧
      (fs.FileAt here → Offers fs manifest (root.join ⟨source⟩) p here) := by
  by_cases hdirectory : fs.isDirectory (root.join ⟨source⟩)
  · rw [mem_offeredBy_directory_iff hfs hdirectory] at hp
    obtain ⟨names, here, hlists, rfl, listed, kept⟩ := hp
    refine ⟨here, ?_, fun hfile => ?_⟩
    · obtain ⟨directory, hspells, rfl⟩ := hlists.spelled
      obtain ⟨node, hnode⟩ := hlists.exists_at?
      exact (FileSystem.placed_join hfs hroot hsource hspells).down hfs hnode
    · obtain ⟨below, accepted⟩ := (FileSystem.lists_iff_of_fileAt hfile).mp hlists
      exact .stylesheet below listed kept accepted
  · rw [offeredBy, if_neg hdirectory] at hp
    by_cases hfile : fs.isFile (root.join ⟨source⟩)
    · rw [if_pos hfile, List.mem_singleton] at hp
      obtain ⟨here, located, file⟩ := FileSystem.isFile_iff.mp hfile
      obtain ⟨accepted, hspells⟩ := FileSystem.locate_eq_ok_iff.mp located
      subst hp
      have hplaced := FileSystem.placed_join hfs hroot hsource hspells
      exact ⟨here, hplaced, fun _ => .file hspells file accepted⟩
    · rw [if_neg hfile] at hp
      exact absurd hp List.not_mem_nil

end

/-! ### Each file once -/

section

variable {sources : List String}

theorem exists_placed_of_mem_ofSources (hfs : fs.root.Plain) (hroot : root.text ≠ "")
    (hsources : ∀ source ∈ sources, Path.Descends ⟨source⟩) {p : Path}
    (hp : p ∈ (ofSources fs manifest root sources).files) :
    ∃ here, fs.Placed root p here ∧ (fs.FileAt here →
      ∃ source ∈ sources, Offers fs manifest (root.join ⟨source⟩) p here) := by
  have hoffered := (collects_ofSources fs manifest root sources).mem p hp
  obtain ⟨source, hsource, hp⟩ := List.mem_flatMap.mp hoffered
  obtain ⟨here, hplaced, hoffers⟩ :=
    exists_placed_of_mem_offeredBy hfs hroot (hsources source hsource) hp
  exact ⟨here, hplaced, fun hfile => ⟨source, hsource, hoffers hfile⟩⟩

theorem pairwise_ofSources (hfs : fs.root.Plain) (hroot : root.text ≠ "")
    (hsources : ∀ source ∈ sources, Path.Descends ⟨source⟩) :
    (ofSources fs manifest root sources).files.Pairwise
      fun p q => ∀ here, ¬ (fs.Spells p here ∧ fs.Spells q here) := by
  have hdistinct := (collects_ofSources fs manifest root sources).distinct
  refine hdistinct.imp_of_mem fun {p q} hp hq hne here hboth => hne ?_
  obtain ⟨there, hp, _⟩ := exists_placed_of_mem_ofSources hfs hroot hsources hp
  obtain ⟨there', hq, _⟩ := exists_placed_of_mem_ofSources hfs hroot hsources hq
  obtain rfl := hboth.1.unique hp.spells
  obtain rfl := hboth.2.unique hq.spells
  exact (hp.same_iff hq).mpr rfl

theorem exists_mem_ofSources_iff (hfs : fs.root.Plain) (hroot : root.text ≠ "")
    (hsources : ∀ source ∈ sources, Path.Descends ⟨source⟩) {here : Location}
    (hfile : fs.FileAt here) :
    (∃ p ∈ (ofSources fs manifest root sources).files, fs.Spells p here) ↔
      ∃ source ∈ sources, ∃ p, Offers fs manifest (root.join ⟨source⟩) p here := by
  constructor
  · rintro ⟨p, hp, hspells⟩
    obtain ⟨there, hplaced, hoffers⟩ := exists_placed_of_mem_ofSources hfs hroot hsources hp
    obtain rfl := hspells.unique hplaced.spells
    obtain ⟨source, hsource, h⟩ := hoffers hfile
    exact ⟨source, hsource, p, h⟩
  · rintro ⟨source, hsource, p, h⟩
    have hdescends := hsources source hsource
    have hmem := h.mem_offeredBy hfs (Path.text_join_ne_empty hroot hdescends.relative)
    have hoffered : p ∈ sources.flatMap fun source => offeredBy fs manifest (root.join ⟨source⟩) :=
      List.mem_flatMap.mpr ⟨source, hsource, hmem⟩
    -- the path may have been dropped for one that is the same, and that one spells the same file
    obtain ⟨q, hq, hsame⟩ := (collects_ofSources fs manifest root sources).covers p hoffered
    obtain ⟨there, hplaced, _⟩ := exists_placed_of_mem_ofSources hfs hroot hsources hq
    obtain rfl := (hplaced.same_iff (h.placed hfs hroot hdescends)).mp hsame
    exact ⟨q, hq, hplaced.spells⟩

end

/-- **The inventory of sources has one path for each file that a source offers.**  No two of its
paths spell the same location, and a file of the tree has a path in it exactly if one of the sources
offers the file. -/
theorem ofSources_each_once (fs : FileSystem) (hfs : fs.root.Plain) (manifest : Manifest)
    (root : Path) (hroot : root.text ≠ "") (sources : List String)
    (hsources : ∀ source ∈ sources, Path.Descends ⟨source⟩) :
    ((ofSources fs manifest root sources).files.Pairwise fun p q =>
      ∀ here, ¬ (fs.Spells p here ∧ fs.Spells q here)) ∧
    ∀ here, fs.FileAt here →
      ((∃ p ∈ (ofSources fs manifest root sources).files, fs.Spells p here) ↔
        ∃ source ∈ sources, ∃ p, Offers fs manifest (root.join ⟨source⟩) p here) :=
  ⟨pairwise_ofSources hfs hroot hsources, fun _ => exists_mem_ofSources_iff hfs hroot hsources⟩

/-- A project with a directory in its directory of stylesheets. -/
def nested : FileSystem where
  root := .directory [("sub", .directory [("b.less", .file ⟨#[]⟩),
    ("deep", .directory [("c.styl", .file ⟨#[]⟩)])])]
  workingDirectory := []

theorem plain_nested : nested.root.Plain := by
  refine .directory (by decide) (by decide) (List.forall_mem_singleton.mpr ?_)
  refine .directory (by decide) (by decide)
    (List.forall_mem_cons.mpr ⟨.file _, List.forall_mem_singleton.mpr ?_⟩)
  exact .directory (by decide) (by decide) (List.forall_mem_singleton.mpr (.file _))

/-- The sources name a directory, a directory in it and a file in that, each in its own spelling. -/
theorem ofSources_each_once_overlapping :
    let sources := [".", "./sub/", "sub//b.less"]
    let files := (ofSources nested {} ⟨"."⟩ sources).files
    (nested.root.Plain ∧ ∀ source ∈ sources, Path.Descends ⟨source⟩) ∧
      (files.Pairwise fun p q => ∀ here, ¬ (nested.Spells p here ∧ nested.Spells q here)) ∧
      ∃ p ∈ files, nested.Spells p ["sub", "b.less"] := by
  have hsources : ∀ source ∈ [".", "./sub/", "sub//b.less"], Path.Descends ⟨source⟩ := by
    simp only [List.forall_mem_cons]
    exact ⟨⟨by decide, by decide⟩, ⟨by decide, by decide⟩, ⟨by decide, by decide⟩, nofun⟩
  obtain ⟨hpairwise, hiff⟩ := ofSources_each_once nested plain_nested {} ⟨"."⟩ (by decide) _ hsources
  have hfile : nested.FileAt ["sub", "b.less"] := ⟨_, rfl⟩
  have hspells : nested.Spells (Path.join ⟨"."⟩ ⟨"sub//b.less"⟩) ["sub", "b.less"] := by
    have hsegments : (Path.join ⟨"."⟩ ⟨"sub//b.less"⟩).segments = [".", "sub", "", "b.less"] := by
      decide
    have hsub : ¬ maxNameBytes < "sub".utf8ByteSize := by decide
    have hless : ¬ maxNameBytes < "b.less".utf8ByteSize := by decide
    refine ⟨maxLinks, ?_⟩
    rw [hsegments]
    simp [Node.follow, nested, FileSystem.origin, Path.isIdle, Node.at?, Node.child?, hsub, hless]
  exact ⟨⟨plain_nested, hsources⟩, hpairwise, (hiff _ hfile).mpr
    ⟨"sub//b.less", by decide, _, .file hspells hfile (by decide)⟩⟩

/-! ### Where a walk stops -/

/-- A path to the working directory with slashes behind it. -/
def slashes (n : Nat) : Path :=
  ⟨String.ofList ('.' :: List.replicate n '/')⟩

theorem segments_slashes (n : Nat) : (slashes n).segments = "." :: List.replicate n "" := by
  induction n with
  | zero => decide
  | succ n ih =>
    have hcut : '.' :: List.replicate (n + 1) '/' = ('.' :: List.replicate n '/') ++ '/' :: [] := by
      rw [List.replicate_succ', List.cons_append]
    rw [slashes, hcut, Path.segments_cut, List.replicate_succ', ← List.cons_append, ← ih]
    rfl

theorem utf8ByteSize_slashes (n : Nat) : (slashes n).text.utf8ByteSize = n + 1 := by
  induction n with
  | zero => decide
  | succ n ih =>
    have hcut : (slashes (n + 1)).text = (slashes n).text ++ "/" := by
      rw [← String.toList_inj]
      simp [slashes, List.replicate_succ']
    rw [hcut, String.utf8ByteSize_append, ih]
    rfl

theorem spells_slashes (n : Nat) : nested.Spells (slashes n) [] := by
  have hidle : ∀ s ∈ (slashes n).segments, Path.isIdle s := by
    rw [segments_slashes]
    intro s hs
    rcases List.mem_cons.mp hs with rfl | hs
    · decide
    · rw [List.eq_of_mem_replicate hs]
      decide
  exact FileSystem.spells_of_idle rfl rfl hidle

theorem zero_notMem_slashes (n : Nat) : '\x00' ∉ (slashes n).text.toList := by
  simp [slashes]

theorem text_join_slashes (n : Nat) {q : Path} (hq : q.isAbsolute = false) :
    ((slashes (n + 1)).join q).text = (slashes (n + 1)).text ++ q.text := by
  have hlast : (slashes (n + 1)).text.toList.getLast? = some '/' := by
    rw [slashes, String.toList_ofList, List.replicate_succ', ← List.cons_append, List.getLast?_concat]
  rw [Path.join, hq, hlast]
  rfl

theorem ne_empty_slashes (n : Nat) : (slashes n).text ≠ "" := by
  simp [slashes]

theorem refused?_join_slashes {n : Nat} (hfits : n + 5 ≤ maxPathBytes) :
    FileSystem.refused? ((slashes (n + 1)).join ⟨"sub"⟩) = none := by
  have hsub : (Path.mk "sub").isAbsolute = false := by decide
  have htext := text_join_slashes n hsub
  have hsize : ((slashes (n + 1)).join ⟨"sub"⟩).text.utf8ByteSize = n + 1 + 1 + 3 := by
    rw [htext, String.utf8ByteSize_append, utf8ByteSize_slashes]
    rfl
  refine FileSystem.refused?_eq_none_iff.mpr
    ⟨?_, Path.text_join_ne_empty (ne_empty_slashes _) hsub, by omega⟩
  rw [htext, String.toList_append, List.mem_append, not_or]
  exact ⟨zero_notMem_slashes _, by decide⟩

theorem isStylesheet_down {p : Path} (hp : p.text ≠ "") :
    Manifest.isStylesheet {} (p.down ["deep", "c.styl"]) := by
  have hnames : ∀ s ∈ ["deep"] ++ ["c.styl"], Node.IsName s := by decide
  have hfileName := Path.fileName?_down hp hnames
  rw [List.singleton_append] at hfileName
  rw [Manifest.isStylesheet, Path.extension?, hfileName]
  decide

theorem not_offers_deep {n : Nat} (hlong : maxPathBytes < n + 9) {p : Path} :
    ¬ Offers nested {} ((slashes (n + 1)).join ⟨"sub"⟩) p ["sub", "deep", "c.styl"] := by
  have hspells : nested.Spells ((slashes (n + 1)).join ⟨"sub"⟩) ["sub"] :=
    (spells_slashes (n + 1)).entry plain_nested (ne_empty_slashes _) rfl List.mem_cons_self
  intro h
  cases h with
  | file hfile => exact absurd (hspells.unique hfile) (by decide)
  | @stylesheet names _ below _ _ accepted =>
    obtain ⟨directory, hdirectory, hhere⟩ := below.spelled
    obtain rfl := hspells.unique hdirectory
    obtain rfl : ["deep", "c.styl"] = names := by simpa using hhere
    have hsize := (FileSystem.refused?_eq_none_iff.mp accepted).2.2
    have hdeep := Path.le_utf8ByteSize_join (p := (slashes (n + 1)).join ⟨"sub"⟩) (q := ⟨"deep"⟩)
      (by decide)
    have hsub := Path.le_utf8ByteSize_join (p := slashes (n + 1)) (q := ⟨"sub"⟩) (by decide)
    rw [utf8ByteSize_slashes] at hsub
    have h3 : (Path.mk "sub").text.utf8ByteSize = 3 := by decide
    have h4 : (Path.mk "deep").text.utf8ByteSize = 4 := by decide
    simp only [List.dropLast, Path.down_cons, Path.down_nil] at hsize
    omega

/-- **Below a directory that cannot be opened nothing is found.**  The file is a stylesheet below the
directory that the source names by a path of 4095 bytes, but the directory that holds it would be
opened by a path of 4100 bytes. -/
theorem ofSources_omits_unopened :
    let path := (slashes 4091).join ⟨"sub"⟩
    (nested.root.Plain ∧ (slashes 4091).text ≠ "" ∧ Path.Descends ⟨"sub"⟩) ∧
      nested.isDirectory path ∧
      nested.FileBelow path ["deep", "c.styl"] ["sub", "deep", "c.styl"] ∧
      Manifest.isStylesheet {} (path.down ["deep", "c.styl"]) ∧
      ¬ Manifest.isExcluded {} (path.down ["deep", "c.styl"]) ∧
      ¬ ∃ p ∈ (ofSources nested {} (slashes 4091) ["sub"]).files,
        nested.Spells p ["sub", "deep", "c.styl"] := by
  intro path
  have hsub : Path.Descends ⟨"sub"⟩ := ⟨by decide, by decide⟩
  have hroot := ne_empty_slashes 4091
  have hspells : nested.Spells path ["sub"] :=
    (spells_slashes 4091).entry plain_nested hroot rfl List.mem_cons_self
  have hfile : nested.FileAt ["sub", "deep", "c.styl"] := ⟨_, rfl⟩
  refine ⟨⟨plain_nested, hroot, hsub⟩, ?_, ⟨⟨["sub"], hspells, rfl⟩, List.cons_ne_nil _ _, hfile⟩,
    isStylesheet_down (Path.text_join_ne_empty hroot hsub.relative), Bool.false_ne_true, ?_⟩
  · have haccepted := refused?_join_slashes (n := 4090) (by decide)
    exact FileSystem.isDirectory_iff.mpr
      ⟨["sub"], FileSystem.locate_eq_ok_iff.mpr ⟨haccepted, hspells⟩, _, rfl⟩
  · rw [exists_mem_ofSources_iff plain_nested hroot (List.forall_mem_singleton.mpr hsub) hfile]
    rintro ⟨source, hsource, p, hoffers⟩
    obtain rfl := List.mem_singleton.mp hsource
    exact not_offers_deep (n := 4090) (by decide) hoffers

end LivingGuide.Inventory
