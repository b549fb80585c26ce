import LivingGuide.Proofs.DirectoryListing
import LivingGuide.Proofs.Manifest.Reach
import Mathlib.Data.List.Sort

/-!
# Where a project lies

A tree can be copied to another directory, and the inventory of the copy should list the same files
behind another root.  Their order is that of the names behind the root, so it is the same.  Which
files are listed depends on the root in two ways.  A directory is opened by its whole path, and that
may be too long.  And patterns are tested on the whole path,

    (root.down names).text = root.slashed ++ (ofSegments names).text,

so one that reaches into the root can leave out files of one copy and not of the other.  Nothing
else tells the copies apart.

* `FileSystem.Mirrors`: two directories hold the same entries.
* `Manifest.reachesInto`: some pattern has matches that begin in the path of a root.
* `Manifest.Hides`: the place of a root keeps a file from being listed.
* `Inventory.ofDirectory_relocated`: **what two copies of a tree have in common.**
* `Inventory.ofDirectory_depends_on_root`: each of the two ways, in a small project.
-/

namespace LivingGuide

/-! ### The text before and behind the slash of a root -/

namespace Path

variable {p : Path} {names : List String}

theorem text_ofSegments_concat (names : List String) (name : String) :
    (ofSegments (names ++ [name])).text = spelled names ++ name := by
  induction names with
  | nil => simp [ofSegments, spelled]
  | cons first names ih =>
    have hne : names ++ [name] ≠ [] := by simp
    have hcut : (ofSegments (first :: (names ++ [name]))).text =
        first ++ "/" ++ (ofSegments (names ++ [name])).text :=
      String.intercalate_append_of_ne_nil (List.cons_ne_nil first []) hne
    rw [List.cons_append, hcut, ih]
    simp [spelled, String.append_assoc]

/-- **The path of an entry is the path of the root and the path below it.** -/
theorem text_down_eq (hne : names ≠ []) (hnames : ∀ name ∈ names, Node.IsName name) :
    (p.down names).text = p.slashed ++ (ofSegments names).text := by
  obtain ⟨more, last, rfl⟩ := (List.eq_nil_or_concat' names).resolve_left hne
  obtain ⟨hmore, hlast⟩ := List.forall_mem_append.mp hnames
  have hlast := List.forall_mem_singleton.mp hlast
  rw [down_concat, text_join hlast.relative, slashed_down hmore, text_ofSegments_concat,
    String.append_assoc]

theorem exists_slashed (hp : p.text ≠ "") : ∃ before, p.slashed.toList = before ++ ['/'] := by
  rw [slashed]
  split
  · next hlast =>
    have hne : p.text.toList ≠ [] := fun h => hp (String.toList_eq_nil_iff.mp h)
    rw [List.getLast?_eq_some_getLast hne, Option.all_some, beq_iff_eq] at hlast
    refine ⟨p.text.toList.dropLast, ?_⟩
    rw [← hlast, List.dropLast_append_getLast]
  · exact ⟨p.text.toList, String.toList_append⟩

end Path

/-! ### Patterns that reach into a root -/

namespace Manifest

/-- Whether some pattern of a manifest has matches that begin in the path of a root. -/
def reachesInto (manifest : Manifest) (root : Path) : Bool :=
  manifest.excludes.any fun pattern => (Pattern.parse pattern).reaches root.slashed.toList

/-- The place of a root keeps a file below it from being listed: the directory that holds the file
cannot be opened, or a pattern that reaches into the root leaves the file out. -/
def Hides (manifest : Manifest) (root : Path) (names : List String) : Prop :=
  FileSystem.refused? (root.down names.dropLast) ≠ none ∨
    ∃ pattern ∈ manifest.excludes, (Pattern.parse pattern).reaches root.slashed.toList = true ∧
      (Pattern.parse pattern).excludes (root.down names).text.toList = true

variable {manifest : Manifest} {root root' : Path} {names : List String}

theorem toList_down (hroot : root.text ≠ "") (hne : names ≠ [])
    (hnames : ∀ name ∈ names, Node.IsName name) :
    ∃ before, root.slashed.toList = before ++ ['/'] ∧
      (root.down names).text.toList = before ++ '/' :: (Path.ofSegments names).text.toList := by
  obtain ⟨before, hbefore⟩ := Path.exists_slashed hroot
  refine ⟨before, hbefore, ?_⟩
  rw [Path.text_down_eq hne hnames, String.toList_append, hbefore, List.append_assoc]
  rfl

/-- **What is left out of a tree by its own path is left out wherever the tree lies.** -/
theorem isExcluded_down (hroot : root.text ≠ "") (hne : names ≠ [])
    (hnames : ∀ name ∈ names, Node.IsName name)
    (h : manifest.isExcluded (Path.ofSegments names) = true) :
    manifest.isExcluded (root.down names) = true := by
  obtain ⟨before, -, htext⟩ := toList_down hroot hne hnames
  rw [isExcluded, List.any_eq_true] at h ⊢
  obtain ⟨pattern, hpattern, hexcludes⟩ := h
  refine ⟨pattern, hpattern, ?_⟩
  rw [htext]
  exact Pattern.excludes_append hexcludes

theorem exists_reaches_of_isExcluded (hroot : root.text ≠ "") (hne : names ≠ [])
    (hnames : ∀ name ∈ names, Node.IsName name)
    (h : manifest.isExcluded (root.down names) = true)
    (halone : ¬ manifest.isExcluded (Path.ofSegments names) = true) :
    ∃ pattern ∈ manifest.excludes, (Pattern.parse pattern).reaches root.slashed.toList = true ∧
      (Pattern.parse pattern).excludes (root.down names).text.toList = true := by
  obtain ⟨before, hslashed, htext⟩ := toList_down hroot hne hnames
  obtain ⟨pattern, hpattern, hexcludes⟩ := List.any_eq_true.mp h
  refine ⟨pattern, hpattern, ?_, hexcludes⟩
  by_contra hreaches
  rw [hslashed] at hreaches
  rw [htext] at hexcludes
  exact halone (List.any_eq_true.mpr
    ⟨pattern, hpattern, Pattern.excludes_append_of_not_reaches hreaches hexcludes⟩)

/-- **Where no pattern reaches into the root, a path is left out exactly if the path below the root
is.** -/
theorem isExcluded_down_iff (hroot : root.text ≠ "") (hne : names ≠ [])
    (hnames : ∀ name ∈ names, Node.IsName name) (hreaches : ¬ manifest.reachesInto root = true) :
    manifest.isExcluded (root.down names) = true ↔
      manifest.isExcluded (Path.ofSegments names) = true := by
  constructor
  · intro h
    by_contra halone
    obtain ⟨pattern, hpattern, hreach, -⟩ := exists_reaches_of_isExcluded hroot hne hnames h halone
    exact hreaches (List.any_eq_true.mpr ⟨pattern, hpattern, hreach⟩)
  · exact isExcluded_down hroot hne hnames

end Manifest

/-! ### Copies of a tree -/

namespace FileSystem

/-- **Two directories hold the same entries**: the same names lead to files and to directories. -/
structure Mirrors (fs fs' : FileSystem) (base base' : Location) : Prop where
  file : ∀ names, fs.FileAt (base ++ names) ↔ fs'.FileAt (base' ++ names)
  directory : ∀ names, fs.DirectoryAt (base ++ names) ↔ fs'.DirectoryAt (base' ++ names)

/-- Every directory below a root is opened by the path that a walk spells. -/
def OpensBelow (fs : FileSystem) (root : Path) (base : Location) : Prop :=
  ∀ names, fs.DirectoryAt (base ++ names) → refused? (root.down names) = none

variable {fs fs' : FileSystem} {base base' : Location}

theorem Mirrors.symm (h : Mirrors fs fs' base base') : Mirrors fs' fs base' base :=
  ⟨fun names => (h.file names).symm, fun names => (h.directory names).symm⟩

theorem Mirrors.of_at? (h : fs.root.at? base = fs'.root.at? base') : Mirrors fs fs' base base' := by
  have hat : ∀ names, fs.root.at? (base ++ names) = fs'.root.at? (base' ++ names) := by
    intro names
    rw [Node.at?_append, Node.at?_append, h]
  constructor
  · intro names
    rw [FileAt, FileAt, hat]
  · intro names
    rw [DirectoryAt, DirectoryAt, hat]

end FileSystem

namespace Inventory

open FileSystem

variable {fs fs' : FileSystem} {root root' : Path} {base base' : Location}
  {manifest : Manifest} {found found' : List (List String)}

theorem lists_iff_of_opensBelow (h : Draft.RootAt fs root base) (hopen : OpensBelow fs root base)
    {names : List String} : fs.Lists root names (base ++ names) ↔ fs.FileAt (base ++ names) := by
  constructor
  · intro hlists
    rcases hlists.shown with hfile | ⟨hdirectory, hrefused⟩
    · exact hfile
    · exact absurd (hopen names hdirectory) hrefused
  · intro hfile
    exact (lists_iff_of_fileAt hfile).mpr
      ⟨h.fileBelow hfile, hopen _ (h.directoryAt_dropLast hfile)⟩

/-- **A file that is listed in one copy only is hidden by the place of the other.** -/
theorem hides_of_not_mem (h : Draft.RootAt fs root base) (h' : Draft.RootAt fs' root' base')
    (hsame : Mirrors fs fs' base base')
    (hfound : ∀ names, names ∈ found ↔
      fs.Lists root names (base ++ names) ∧ manifest.Wants root names)
    (hfound' : ∀ names, names ∈ found' ↔
      fs'.Lists root' names (base' ++ names) ∧ manifest.Wants root' names)
    {names : List String} (hmem : names ∈ found) (hfile : fs.FileAt (base ++ names))
    (hmiss : names ∉ found') : manifest.Hides root' names := by
  obtain ⟨hlists, hwanted, hextension⟩ := (hfound names).mp hmem
  have hnames := h.isName_of_lists hlists
  have hfile' := (hsame.file names).mp hfile
  by_cases hopened : refused? (root'.down names.dropLast) = none
  · have hlists' : fs'.Lists root' names (base' ++ names) :=
      (lists_iff_of_fileAt hfile').mpr ⟨h'.fileBelow hfile', hopened⟩
    have hexcluded : manifest.isExcluded (root'.down names) = true := by
      by_contra hkept
      exact hmiss ((hfound' names).mpr ⟨hlists', hkept, hextension⟩)
    have halone : ¬ manifest.isExcluded (Path.ofSegments names) = true := by
      intro hexcluded
      exact hwanted (Manifest.isExcluded_down h.written hlists.proper hnames hexcluded)
    exact .inr
      (Manifest.exists_reaches_of_isExcluded h'.written hlists.proper hnames hexcluded halone)
  · exact .inl hopened

theorem found_eq_iff (h : Draft.RootAt fs root base) (h' : Draft.RootAt fs' root' base')
    (hsame : Mirrors fs fs' base base') (hopen : OpensBelow fs root base)
    (hopen' : OpensBelow fs' root' base') {files files' : List Path}
    (horder : root.InOrder found files) (horder' : root'.InOrder found' files')
    (hfound : ∀ names, names ∈ found ↔
      fs.Lists root names (base ++ names) ∧ manifest.Wants root names)
    (hfound' : ∀ names, names ∈ found' ↔
      fs'.Lists root' names (base' ++ names) ∧ manifest.Wants root' names) :
    found = found' ↔ ∀ names, fs.FileAt (base ++ names) →
      (∃ name ∈ names.getLast?, HasExtension manifest.extensions name) →
      (manifest.isExcluded (root.down names) = true ↔
        manifest.isExcluded (root'.down names) = true) := by
  have hmem : ∀ names, names ∈ found ↔ fs.FileAt (base ++ names) ∧ manifest.Wants root names := by
    intro names
    rw [hfound, lists_iff_of_opensBelow h hopen]
  have hmem' : ∀ names, names ∈ found' ↔
      fs.FileAt (base ++ names) ∧ manifest.Wants root' names := by
    intro names
    rw [hfound', lists_iff_of_opensBelow h' hopen', hsame.file names]
  constructor
  · rintro rfl names hfile hextension
    have hboth := (hmem names).symm.trans (hmem' names)
    rw [and_congr_right_iff] at hboth
    exact not_iff_not.mp ((and_iff_left hextension).symm.trans
      ((hboth hfile).trans (and_iff_left hextension)))
  · intro hagree
    refine horder.increasing.eq_of_mem_iff horder'.increasing fun names => ?_
    rw [hmem, hmem']
    refine and_congr_right fun hfile => ?_
    exact and_congr_left fun hextension => not_congr (hagree names hfile hextension)

/-- **What two copies of a tree have in common.**  The inventories list files by the names behind
their roots, in the order of these names.  None is left out by its path below the root alone, and a
file that only one of them lists is hidden by the place of the other root.  Where all directories
can be opened, both list the same exactly if every stylesheet of the tree is left out under both
roots or under none; so they do when no pattern reaches into a root. -/
theorem ofDirectory_relocated (h : Draft.RootAt fs root base) (h' : Draft.RootAt fs' root' base')
    (hsame : Mirrors fs fs' base base') (manifest : Manifest) :
    ∃ found found' : List (List String),
      root.InOrder found (ofDirectory fs manifest root).files ∧
      root'.InOrder found' (ofDirectory fs' manifest root').files ∧
      (∀ names ∈ found ++ found', ¬ manifest.isExcluded (Path.ofSegments names) = true) ∧
      (∀ names ∈ found, fs.FileAt (base ++ names) → names ∉ found' → manifest.Hides root' names) ∧
      (∀ names ∈ found', fs'.FileAt (base' ++ names) → names ∉ found → manifest.Hides root names) ∧
      (OpensBelow fs root base → OpensBelow fs' root' base' →
        (found = found' ↔ ∀ names, fs.FileAt (base ++ names) →
          (∃ name ∈ names.getLast?, HasExtension manifest.extensions name) →
          (manifest.isExcluded (root.down names) = true ↔
            manifest.isExcluded (root'.down names) = true)) ∧
        (¬ manifest.reachesInto root = true → ¬ manifest.reachesInto root' = true →
          found = found')) := by
  obtain ⟨found, horder, hfound⟩ := exists_inOrder_ofDirectory h manifest
  obtain ⟨found', horder', hfound'⟩ := exists_inOrder_ofDirectory h' manifest
  refine ⟨found, found', horder, horder', ?_, ?_, ?_, ?_⟩
  · intro names hnames hexcluded
    rcases List.mem_append.mp hnames with hnames | hnames
    · obtain ⟨hlists, hwanted, -⟩ := (hfound names).mp hnames
      exact hwanted (Manifest.isExcluded_down h.written hlists.proper (h.isName_of_lists hlists)
        hexcluded)
    · obtain ⟨hlists, hwanted, -⟩ := (hfound' names).mp hnames
      exact hwanted (Manifest.isExcluded_down h'.written hlists.proper (h'.isName_of_lists hlists)
        hexcluded)
  · intro names hnames hfile hmiss
    exact hides_of_not_mem h h' hsame hfound hfound' hnames hfile hmiss
  · intro names hnames hfile hmiss
    exact hides_of_not_mem h' h hsame.symm hfound' hfound hnames hfile hmiss
  · intro hopen hopen'
    have hiff := found_eq_iff h h' hsame hopen hopen' horder horder' hfound hfound'
    refine ⟨hiff, fun hreaches hreaches' => hiff.mpr fun names hfile _ => ?_⟩
    have hlists := (lists_iff_of_opensBelow h hopen).mpr hfile
    have hnames := h.isName_of_lists hlists
    rw [Manifest.isExcluded_down_iff h.written hlists.proper hnames hreaches,
      Manifest.isExcluded_down_iff h'.written hlists.proper hnames hreaches']

/-! ### A tree in two places -/

/-- A project that holds a tree twice. -/
def copies : FileSystem where
  root := .directory [("lib", .directory [("a.scss", .file ⟨#[]⟩)]),
    ("vendor", .directory [("a.scss", .file ⟨#[]⟩)])]
  workingDirectory := []

theorem plain_copies : copies.root.Plain := by
  have hcopy : Node.Plain (.directory [("a.scss", .file ⟨#[]⟩)]) :=
    .directory (by decide) (by decide) (List.forall_mem_singleton.mpr (.file _))
  exact .directory (by decide) (by decide)
    (List.forall_mem_cons.mpr ⟨hcopy, List.forall_mem_singleton.mpr hcopy⟩)

theorem at?_copies {name : String} (h : name ∈ ["lib", "vendor"]) :
    copies.root.at? [name] = some (.directory [("a.scss", .file ⟨#[]⟩)]) := by
  simp only [List.mem_cons, List.not_mem_nil, or_false] at h
  rcases h with rfl | rfl <;> rfl

theorem rootAt_copies {name : String} (h : name ∈ ["lib", "vendor"]) :
    Draft.RootAt copies ⟨name⟩ [name] := by
  have hname : Node.IsName name := by
    simp only [List.mem_cons, List.not_mem_nil, or_false] at h
    rcases h with rfl | rfl <;> decide
  have hnode : copies.root.at? ([] ++ [name]) = some _ := at?_copies h
  obtain ⟨entries, child, hat, hlookup, -⟩ := Node.at?_cons hnode
  have horigin : copies.origin ⟨name⟩ = [] := origin_eq_nil rfl _
  refine ⟨plain_copies, hname.ne_empty, ⟨maxLinks, ?_⟩, _, at?_copies h⟩
  rw [horigin, hname.segments_eq]
  exact plain_copies.follow_name hat (Node.mem_of_lookup hlookup) maxLinks

theorem eq_of_at?_copies {name : String} (h : name ∈ ["lib", "vendor"]) {names : List String}
    {node : Node} (hat : copies.root.at? ([name] ++ names) = some node) :
    names = [] ∨ names = ["a.scss"] ∧ node = .file ⟨#[]⟩ := by
  rw [Node.at?_append, at?_copies h, Option.bind_some] at hat
  cases names with
  | nil => exact .inl rfl
  | cons first names =>
    obtain ⟨child, hchild, hrest⟩ := Draft.exists_entry_of_at? hat
    obtain ⟨rfl, rfl⟩ := Prod.mk.inj (List.mem_singleton.mp hchild)
    cases names with
    | nil =>
      cases hrest
      exact .inr ⟨rfl, rfl⟩
    | cons second names => cases hrest

theorem opensBelow_copies {name : String} (h : name ∈ ["lib", "vendor"]) :
    OpensBelow copies ⟨name⟩ [name] := by
  rintro names ⟨entries, hentries⟩
  rcases eq_of_at?_copies h hentries with rfl | ⟨-, hfile⟩
  · simp only [List.mem_cons, List.not_mem_nil, or_false] at h
    rcases h with rfl | rfl <;> decide
  · cases hfile

/-- Both copies list their file where patterns look at the names behind the root only. -/
theorem ofDirectory_relocated_copies :
    let manifest : Manifest := { excludes := ["*.bak", "**/node_modules/*"] }
    (Draft.RootAt copies ⟨"lib"⟩ ["lib"] ∧ Draft.RootAt copies ⟨"vendor"⟩ ["vendor"] ∧
      Mirrors copies copies ["lib"] ["vendor"]) ∧
    (OpensBelow copies ⟨"lib"⟩ ["lib"] ∧ OpensBelow copies ⟨"vendor"⟩ ["vendor"] ∧
      ¬ manifest.reachesInto ⟨"lib"⟩ = true ∧ ¬ manifest.reachesInto ⟨"vendor"⟩ = true) ∧
    ∃ found, Path.InOrder ⟨"lib"⟩ found (ofDirectory copies manifest ⟨"lib"⟩).files ∧
      Path.InOrder ⟨"vendor"⟩ found (ofDirectory copies manifest ⟨"vendor"⟩).files := by
  intro manifest
  have hlib : "lib" ∈ ["lib", "vendor"] := by decide
  have hvendor : "vendor" ∈ ["lib", "vendor"] := by decide
  have hsame : Mirrors copies copies ["lib"] ["vendor"] :=
    .of_at? ((at?_copies hlib).trans (at?_copies hvendor).symm)
  have hreaches : ¬ manifest.reachesInto ⟨"lib"⟩ = true := by decide +kernel
  have hreaches' : ¬ manifest.reachesInto ⟨"vendor"⟩ = true := by decide +kernel
  obtain ⟨found, found', hfound, hfound', -, -, -, hopen⟩ :=
    ofDirectory_relocated (rootAt_copies hlib) (rootAt_copies hvendor) hsame manifest
  have heq := (hopen (opensBelow_copies hlib) (opensBelow_copies hvendor)).2 hreaches hreaches'
  subst heq
  exact ⟨⟨rootAt_copies hlib, rootAt_copies hvendor, hsame⟩,
    ⟨opensBelow_copies hlib, opensBelow_copies hvendor, hreaches, hreaches'⟩,
    found, hfound, hfound'⟩

theorem mem_found_copies {manifest : Manifest} {name : String} (h : name ∈ ["lib", "vendor"])
    {found : List (List String)}
    (hfound : ∀ names, names ∈ found ↔
      copies.Lists ⟨name⟩ names ([name] ++ names) ∧ manifest.Wants ⟨name⟩ names)
    {names : List String} : names ∈ found ↔ names = ["a.scss"] ∧ manifest.Wants ⟨name⟩ names := by
  rw [hfound, lists_iff_of_opensBelow (rootAt_copies h) (opensBelow_copies h)]
  refine and_congr_left fun _ => ⟨?_, ?_⟩
  · rintro ⟨content, hcontent⟩
    rcases eq_of_at?_copies h hcontent with rfl | ⟨hnames, -⟩
    · rw [List.append_nil, at?_copies h] at hcontent
      cases hcontent
    · exact hnames
  · rintro rfl
    refine ⟨⟨#[]⟩, ?_⟩
    rw [Node.at?_append, at?_copies h]
    rfl

/-- **The place of a tree can change what is found in it.**  A pattern that names the root leaves
out all of one copy and nothing of the other; and below a root that is spelled with 4095 bytes the
directory of a file cannot be opened. -/
theorem ofDirectory_depends_on_root :
    (Draft.RootAt copies ⟨"lib"⟩ ["lib"] ∧ Draft.RootAt copies ⟨"vendor"⟩ ["vendor"] ∧
      copies.root.at? ["lib"] = copies.root.at? ["vendor"] ∧
      (ofDirectory copies { excludes := ["vendor"] } ⟨"lib"⟩).files ≠ [] ∧
      (ofDirectory copies { excludes := ["vendor"] } ⟨"vendor"⟩).files = []) ∧
    Draft.RootAt nested (slashes 0) [] ∧ Draft.RootAt nested (slashes 4094) [] ∧
      (∃ p ∈ (ofDirectory nested {} (slashes 0)).files, nested.Spells p ["sub", "b.less"]) ∧
      ¬ ∃ p ∈ (ofDirectory nested {} (slashes 4094)).files, nested.Spells p ["sub", "b.less"] := by
  have hlib : "lib" ∈ ["lib", "vendor"] := by decide
  have hvendor : "vendor" ∈ ["lib", "vendor"] := by decide
  refine ⟨⟨rootAt_copies hlib, rootAt_copies hvendor,
    (at?_copies hlib).trans (at?_copies hvendor).symm, ?_, ?_⟩,
    Draft.rootAt_slashes 0, Draft.rootAt_slashes 4094, ?_, not_listed_of_long (by decide)⟩
  · obtain ⟨found, horder, hfound⟩ :=
      exists_inOrder_ofDirectory (rootAt_copies hlib) { excludes := ["vendor"] }
    have hmem : ["a.scss"] ∈ found :=
      (mem_found_copies hlib hfound).mpr ⟨rfl, by decide +kernel, "a.scss", rfl, "a", "scss", rfl,
        by decide, by decide, "scss", by decide, rfl⟩
    rw [horder.spelled, ne_eq, List.map_eq_nil_iff]
    exact List.ne_nil_of_mem hmem
  · obtain ⟨found, horder, hfound⟩ :=
      exists_inOrder_ofDirectory (rootAt_copies hvendor) { excludes := ["vendor"] }
    rw [horder.spelled, List.map_eq_nil_iff, List.eq_nil_iff_forall_not_mem]
    intro names hnames
    obtain ⟨rfl, hwanted, -⟩ := (mem_found_copies hvendor hfound).mp hnames
    exact hwanted (by decide +kernel)
  · obtain ⟨found, horder, hfound⟩ := exists_inOrder_ofDirectory (Draft.rootAt_slashes 0) {}
    have hfile : nested.FileAt ([] ++ ["sub", "b.less"]) := ⟨_, rfl⟩
    have hlists : nested.Lists (slashes 0) ["sub", "b.less"] ([] ++ ["sub", "b.less"]) :=
      (lists_iff_of_fileAt hfile).mpr
        ⟨(Draft.rootAt_slashes 0).fileBelow hfile, by decide +kernel⟩
    refine ⟨(slashes 0).down ["sub", "b.less"], ?_, (Draft.rootAt_slashes 0).spells_of_lists hlists⟩
    rw [horder.spelled]
    exact List.mem_map_of_mem ((hfound _).mpr ⟨hlists, wants_less _⟩)

end Inventory

end LivingGuide
