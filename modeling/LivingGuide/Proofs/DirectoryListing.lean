import LivingGuide.Proofs.Draft.Cover
import LivingGuide.Proofs.FileSystem.WalkOrder
import Mathlib.Data.List.TakeDrop

/-!
# The stylesheets below a directory

The inventory of a directory takes the paths of a walk that the manifest wants.  The walk lists them in
order, so no two of them are the same path and none is dropped on the way into the inventory
(`Inventory.files_pushAll`): the inventory keeps the order, and it is strict.

* `HasExtension`: a name ends in one of the extensions of a manifest.
* `Manifest.Wants`: what the manifest says of the path that names spell.
* `Inventory.ofDirectory_in_order`: **the inventory of a directory lists the wanted files below it, each
  once, in the order of their names.**
* A directory is opened by its path, so a file is not found where that path is too long.
-/

namespace LivingGuide

/-! ### Extensions -/

/-- The name ends in a dot and one of the extensions, in any case of ASCII letters, and does not start
with that dot. -/
def HasExtension (extensions : List String) (name : String) : Prop :=
  ∃ stem extension, name = stem ++ "." ++ extension ∧ stem ≠ "" ∧ '.' ∉ extension.toList ∧
    ∃ known ∈ extensions, known.toList.map Char.toLower = extension.toList.map Char.toLower

namespace Path

theorem exists_last_dot {name : String} (h : '.' ∈ name.toList) :
    ∃ stem extension : String, name = stem ++ "." ++ extension ∧ '.' ∉ extension.toList := by
  obtain ⟨after, before, hcut, hafter⟩ := List.eq_append_cons_of_mem (List.mem_reverse.mpr h)
  refine ⟨String.ofList before.reverse, String.ofList after.reverse, ?_, ?_⟩
  · rw [← String.toList_inj, ← List.reverse_inj, hcut]
    simp
  · rw [String.toList_ofList, List.mem_reverse]
    exact hafter

theorem span_not_dot {cs rest : List Char} (hcs : '.' ∉ cs) (hrest : ∀ c ∈ rest.head?, c = '.') :
    (cs ++ rest).span (· != '.') = (cs, rest) := by
  have hbefore : ∀ c ∈ cs, (c != '.') = true := by
    intro c hc
    exact bne_iff_ne.mpr fun hdot => hcs (hdot ▸ hc)
  have hstop : ∀ c ∈ rest.head?, (c != '.') = false := by
    intro c hc
    rw [hrest c hc]
    rfl
  obtain ⟨htake, hdrop⟩ := Text.span_of_stop hbefore hstop
  rw [List.span_eq_takeWhile_dropWhile, htake, hdrop]

theorem cutExtension_of_no_dot {name : String} (h : '.' ∉ name.toList) :
    (cutExtension name).2 = none := by
  have hspan : name.toList.reverse.span (· != '.') = (name.toList.reverse, []) := by
    have hcut : (name.toList.reverse ++ []).span (· != '.') = (name.toList.reverse, []) :=
      span_not_dot (by simpa using h) nofun
    rw [List.append_nil] at hcut
    exact hcut
  rw [cutExtension, hspan]

theorem cutExtension_of_dot {stem extension : String} (h : '.' ∉ extension.toList) :
    (cutExtension (stem ++ "." ++ extension)).2 = if stem = "" then none else some extension := by
  have hreverse : (stem ++ "." ++ extension).toList.reverse =
      extension.toList.reverse ++ '.' :: stem.toList.reverse := by
    simp
  rw [cutExtension, hreverse, span_not_dot (by simpa using h) (by simp)]
  by_cases hstem : stem = ""
  · subst hstem
    rfl
  · have hne : stem.toList.reverse ≠ [] := by simpa using hstem
    obtain ⟨c, cs, hcs⟩ := List.exists_cons_of_ne_nil hne
    rw [hcs, if_neg hstem]
    simp

/-- What follows the last dot of a name, unless that dot starts the name. -/
theorem cutExtension_eq_some_iff {name extension : String} :
    (cutExtension name).2 = some extension ↔
      ∃ stem, name = stem ++ "." ++ extension ∧ stem ≠ "" ∧ '.' ∉ extension.toList := by
  constructor
  · intro h
    by_cases hdot : '.' ∈ name.toList
    · obtain ⟨stem, found, rfl, hfound⟩ := exists_last_dot hdot
      rw [cutExtension_of_dot hfound] at h
      split at h
      · cases h
      · next hstem =>
        cases h
        exact ⟨stem, rfl, hstem, hfound⟩
    · rw [cutExtension_of_no_dot hdot] at h
      cases h
  · rintro ⟨stem, rfl, hstem, hextension⟩
    rw [cutExtension_of_dot hextension, if_neg hstem]

end Path

/-! ### What a manifest wants -/

namespace Manifest

/-- No pattern leaves out the path that names spell from a root, and the last name has one of the
extensions. -/
def Wants (manifest : Manifest) (root : Path) (names : List String) : Prop :=
  ¬ manifest.isExcluded (root.down names) ∧
    ∃ name ∈ names.getLast?, HasExtension manifest.extensions name

variable {manifest : Manifest} {root : Path} {names : List String}

theorem isStylesheet_down_iff (hroot : root.text ≠ "") (hne : names ≠ [])
    (hnames : ∀ name ∈ names, Node.IsName name) :
    manifest.isStylesheet (root.down names) ↔
      ∃ name ∈ names.getLast?, HasExtension manifest.extensions name := by
  obtain ⟨before, last, rfl⟩ := (List.eq_nil_or_concat' names).resolve_left hne
  rw [isStylesheet, Path.extension?, Path.fileName?_down hroot hnames, Option.bind_some,
    Option.any_eq_true]
  simp only [List.getLast?_concat, Option.mem_def, Option.some.injEq, exists_eq_left', HasExtension,
    Path.cutExtension_eq_some_iff, List.any_eq_true, sameIgnoringCase, beq_iff_eq]
  constructor
  · rintro ⟨extension, ⟨stem, rfl, hstem, hdot⟩, hknown⟩
    exact ⟨stem, extension, rfl, hstem, hdot, hknown⟩
  · rintro ⟨stem, extension, rfl, hstem, hdot, hknown⟩
    exact ⟨extension, ⟨stem, rfl, hstem, hdot⟩, hknown⟩

end Manifest

/-! ### Into the inventory -/

namespace Inventory

variable {inventory : Inventory} {manifest : Manifest} {fs : FileSystem} {root : Path}

theorem files_pushAll {paths : List Path}
    (h : (inventory.files ++ paths).Pairwise fun p q => ¬ p.same q) :
    (inventory.pushAll paths).files = inventory.files ++ paths := by
  induction paths generalizing inventory with
  | nil => exact (List.append_nil _).symm
  | cons p paths ih =>
    have hnew : ¬ inventory.files.any (·.same p) := by
      rw [List.any_eq_true]
      rintro ⟨q, hq, hsame⟩
      exact (List.pairwise_append.mp h).2.2 q hq p List.mem_cons_self hsame
    have hpush : (inventory.push p).files = inventory.files ++ [p] := by
      rw [push, if_neg hnew]
    rw [List.append_cons, ← hpush] at h ⊢
    exact ih h

theorem files_ofDirectory (hfs : fs.root.Plain) (hroot : root.text ≠ "") :
    (ofDirectory fs manifest root).files = (fs.walk root).filter fun path =>
      !manifest.isExcluded path && manifest.isStylesheet path := by
  obtain ⟨found, hfound⟩ := FileSystem.exists_inOrder_walk hfs root
  exact files_pushAll ((hfound.filter _).pairwise_not_same hroot)

end Inventory

theorem FileSystem.walk_of_refused {fs : FileSystem} {p : Path} (h : refused? p ≠ none) :
    fs.walk p = [] := by
  obtain ⟨fault, hfault⟩ := Option.ne_none_iff_exists'.mp h
  have hlocate : fs.locate p = .error fault := by rw [locate, hfault]
  have hfile : ¬ fs.isFile p := by
    rw [isFile_iff, hlocate]
    rintro ⟨here, hhere, -⟩
    cases hhere
  rw [walk, if_neg hfile]
  cases fs.walkDepth with
  | zero => rfl
  | succ depth =>
    unfold walkFrom
    rw [hlocate]

namespace Draft

variable {fs : FileSystem} {root : Path} {base : Location}

theorem RootAt.mem_walk_iff (h : RootAt fs root base) {q : Path} :
    q ∈ fs.walk root ↔ ∃ names, fs.Lists root names (base ++ names) ∧ q = root.down names := by
  by_cases haccepted : FileSystem.refused? root = none
  · have hroot : fs.isDirectory root := FileSystem.isDirectory_iff.mpr
      ⟨base, FileSystem.locate_eq_ok_iff.mpr ⟨haccepted, h.spells⟩, h.directory⟩
    rw [FileSystem.mem_walk_iff h.plain hroot]
    refine exists_congr fun names => ⟨?_, fun ⟨hlists, hq⟩ => ⟨base ++ names, hlists, hq⟩⟩
    rintro ⟨here, hlists, hq⟩
    obtain ⟨directory, hspells, rfl⟩ := hlists.spelled
    obtain rfl := h.spells.unique hspells
    exact ⟨hlists, hq⟩
  · rw [FileSystem.walk_of_refused haccepted]
    refine ⟨nofun, ?_⟩
    rintro ⟨names, hlists, -⟩
    exact absurd (hlists.accepted h.plain h.written) haccepted

theorem RootAt.isName_of_lists (h : RootAt fs root base) {names : List String}
    (hlists : fs.Lists root names (base ++ names)) : ∀ name ∈ names, Node.IsName name := by
  obtain ⟨node, hnode⟩ := hlists.exists_at?
  exact h.plain.isName_of_at? hnode

theorem RootAt.spells_of_lists (h : RootAt fs root base) {names : List String}
    (hlists : fs.Lists root names (base ++ names)) : fs.Spells (root.down names) (base ++ names) := by
  obtain ⟨left, hstem⟩ := h.spells.follow_stem
  have hplaced : fs.Placed root root base :=
    ⟨h.written, h.spells, base, left, [], hstem, (List.append_nil _).symm, (List.append_nil _).symm⟩
  obtain ⟨node, hnode⟩ := hlists.exists_at?
  exact (hplaced.down h.plain hnode).spells

theorem RootAt.fileBelow (h : RootAt fs root base) {names : List String}
    (hfile : fs.FileAt (base ++ names)) : fs.FileBelow root names (base ++ names) := by
  refine ⟨⟨base, h.spells, rfl⟩, ?_, hfile⟩
  rintro rfl
  obtain ⟨content, hcontent⟩ := hfile
  obtain ⟨entries, hentries⟩ := h.directory
  rw [List.append_nil, hentries] at hcontent
  cases hcontent

theorem RootAt.directoryAt_dropLast (h : RootAt fs root base) {names : List String}
    (hfile : fs.FileAt (base ++ names)) : fs.DirectoryAt (base ++ names.dropLast) := by
  obtain ⟨before, last, rfl⟩ :=
    (List.eq_nil_or_concat' names).resolve_left (h.fileBelow hfile).proper
  obtain ⟨content, hcontent⟩ := hfile
  rw [← List.append_assoc] at hcontent
  obtain ⟨entries, _, hentries, _, _⟩ := Node.at?_cons hcontent
  rw [List.dropLast_concat]
  exact ⟨entries, hentries⟩

end Draft

namespace Inventory

variable {fs : FileSystem} {root : Path} {base : Location}

/-- **The inventory of a directory is what a walk lists and the manifest wants, in order.** -/
theorem exists_inOrder_ofDirectory (h : Draft.RootAt fs root base) (manifest : Manifest) :
    ∃ found, root.InOrder found (ofDirectory fs manifest root).files ∧
      ∀ names, names ∈ found ↔
        fs.Lists root names (base ++ names) ∧ manifest.Wants root names := by
  obtain ⟨walked, hwalked⟩ := FileSystem.exists_inOrder_walk h.plain root
  have hmem : ∀ names, names ∈ walked ↔ fs.Lists root names (base ++ names) := by
    intro names
    constructor
    · intro hnames
      have hwalk : root.down names ∈ fs.walk root := by
        rw [hwalked.spelled]
        exact List.mem_map_of_mem hnames
      obtain ⟨names', hlists, hdown⟩ := h.mem_walk_iff.mp hwalk
      obtain rfl := Path.eq_of_components_down h.written (hwalked.named names hnames)
        (h.isName_of_lists hlists) (congrArg Path.components hdown)
      exact hlists
    · intro hlists
      have hwalk : root.down names ∈ fs.walk root := h.mem_walk_iff.mpr ⟨names, hlists, rfl⟩
      rw [hwalked.spelled] at hwalk
      obtain ⟨names', hnames', hdown⟩ := List.mem_map.mp hwalk
      obtain rfl := Path.eq_of_components_down h.written (hwalked.named names' hnames')
        (h.isName_of_lists hlists) (congrArg Path.components hdown)
      exact hnames'
  rw [files_ofDirectory h.plain h.written]
  refine ⟨_, hwalked.filter _, fun names => ?_⟩
  rw [List.mem_filter, hmem, Bool.and_eq_true, Bool.not_eq_true', ← Bool.not_eq_true]
  refine and_congr_right fun hlists => and_congr_right fun _ => ?_
  exact Manifest.isStylesheet_down_iff h.written hlists.proper (h.isName_of_lists hlists)

/-- **The inventory of a directory lists the wanted files below it, each once, in the order of their
names.**  Names are compared by their bytes.  A file is listed if the directory that holds it can be
opened by the path that the walk spells, and what is listed is a file or cannot be opened.  So where
every directory can be opened, the wanted files are listed, and nothing else. -/
theorem ofDirectory_in_order (h : Draft.RootAt fs root base) (manifest : Manifest) :
    ∃ found : List (List String),
      (ofDirectory fs manifest root).files = found.map root.down ∧
      (found.Pairwise fun names names' => names.map Text.utf8 < names'.map Text.utf8) ∧
      (∀ names ∈ found, (root.down names).components =
        root.components ++ names.map Path.Component.name) ∧
      (∀ names, fs.FileAt (base ++ names) →
        (names ∈ found ↔ FileSystem.refused? (root.down names.dropLast) = none ∧
          manifest.Wants root names)) ∧
      (∀ names ∈ found, fs.FileAt (base ++ names) ∨
        fs.DirectoryAt (base ++ names) ∧ FileSystem.refused? (root.down names) ≠ none) ∧
      ((∀ names, fs.DirectoryAt (base ++ names) → FileSystem.refused? (root.down names) = none) →
        ∀ names, names ∈ found ↔ fs.FileAt (base ++ names) ∧ manifest.Wants root names) := by
  obtain ⟨found, horder, hfound⟩ := exists_inOrder_ofDirectory h manifest
  have hfile : ∀ names, fs.FileAt (base ++ names) →
      (names ∈ found ↔ FileSystem.refused? (root.down names.dropLast) = none ∧
        manifest.Wants root names) := by
    intro names hfile
    rw [hfound, FileSystem.lists_iff_of_fileAt hfile, and_iff_right (h.fileBelow hfile)]
  refine ⟨found, horder.spelled, horder.increasing.imp Text.map_utf8_lt_of_lt, fun names hnames => ?_,
    hfile, fun names hnames => ((hfound names).mp hnames).1.shown, fun hopen names => ⟨?_, ?_⟩⟩
  · exact Path.components_down h.written (horder.named names hnames)
  · intro hnames
    obtain ⟨hlists, hwants⟩ := (hfound names).mp hnames
    rcases hlists.shown with hshown | ⟨hdirectory, hrefused⟩
    · exact ⟨hshown, hwants⟩
    · exact absurd (hopen names hdirectory) hrefused
  · rintro ⟨hnames, hwants⟩
    exact (hfile names hnames).mpr ⟨hopen _ (h.directoryAt_dropLast hnames), hwants⟩

open Draft (isDirectory_slashes rootAt_slashes directoryAt_nested)

theorem wants_less (root : Path) : Manifest.Wants {} root ["sub", "b.less"] :=
  ⟨Bool.false_ne_true, "b.less", rfl, "b", "less", rfl, by decide, by decide, "less", by decide, rfl⟩

/-- In a small project both files are listed, and the directory between them is not. -/
theorem ofDirectory_in_order_nested :
    Draft.RootAt nested (slashes 0) [] ∧
    ∃ found : List (List String),
      (ofDirectory nested {} (slashes 0)).files = found.map (slashes 0).down ∧
      (found.Pairwise fun names names' => names.map Text.utf8 < names'.map Text.utf8) ∧
      ["sub", "b.less"] ∈ found ∧ ["sub", "deep", "c.styl"] ∈ found ∧ ["sub", "deep"] ∉ found := by
  obtain ⟨found, hfiles, hpairwise, -, -, -, hexact⟩ := ofDirectory_in_order (rootAt_slashes 0) {}
  have hopen : ∀ names, nested.DirectoryAt ([] ++ names) →
      FileSystem.refused? ((slashes 0).down names) = none := by
    intro names hdirectory
    rcases directoryAt_nested hdirectory with rfl | rfl | rfl <;> decide +kernel
  refine ⟨rootAt_slashes 0, found, hfiles, hpairwise, ?_, ?_, ?_⟩
  · exact (hexact hopen _).mpr ⟨⟨_, rfl⟩, wants_less _⟩
  · exact (hexact hopen _).mpr ⟨⟨_, rfl⟩, Bool.false_ne_true, "c.styl", rfl, "c", "styl", rfl,
      by decide, by decide, "styl", by decide, rfl⟩
  · rw [hexact hopen]
    rintro ⟨⟨content, hcontent⟩, -⟩
    cases hcontent

/-! ### Where the listing stops -/

theorem not_listed_of_long {n : Nat} (hlong : maxPathBytes < n + 4) :
    ¬ ∃ p ∈ (ofDirectory nested {} (slashes n)).files, nested.Spells p ["sub", "b.less"] := by
  rintro ⟨p, hp, hspells⟩
  have hroot := rootAt_slashes n
  obtain ⟨found, horder, hfound⟩ := exists_inOrder_ofDirectory hroot {}
  rw [horder.spelled] at hp
  obtain ⟨names, hnames, rfl⟩ := List.mem_map.mp hp
  obtain ⟨hlists, -⟩ := (hfound names).mp hnames
  obtain rfl : names = ["sub", "b.less"] := (hroot.spells_of_lists hlists).unique hspells
  have hfits := (FileSystem.refused?_eq_none_iff.mp hlists.opened).2.2
  simp only [List.dropLast, Path.down_cons, Path.down_nil] at hfits
  have hsub : (Path.mk "sub").text.utf8ByteSize = 3 := by decide
  have hjoin := Path.le_utf8ByteSize_join (p := slashes n) (q := ⟨"sub"⟩) (by decide)
  rw [utf8ByteSize_slashes] at hjoin
  omega

/-- **Below a directory that cannot be opened nothing is listed.**  The root is opened by a path of
4095 bytes, and the directory of the file would be opened by one of 4098 bytes. -/
theorem ofDirectory_omits_unopened :
    (nested.root.Plain ∧ nested.isDirectory (slashes 4094)) ∧
      nested.FileBelow (slashes 4094) ["sub", "b.less"] ["sub", "b.less"] ∧
      Manifest.Wants {} (slashes 4094) ["sub", "b.less"] ∧
      ¬ ∃ p ∈ (ofDirectory nested {} (slashes 4094)).files, nested.Spells p ["sub", "b.less"] := by
  have hfile : nested.FileAt ([] ++ ["sub", "b.less"]) := ⟨_, rfl⟩
  exact ⟨⟨plain_nested, isDirectory_slashes (by decide)⟩, (rootAt_slashes 4094).fileBelow hfile,
    wants_less _, not_listed_of_long (by decide)⟩

end Inventory

end LivingGuide
