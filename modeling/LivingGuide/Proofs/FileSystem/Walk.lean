import LivingGuide.FileSystem.Walk
import LivingGuide.Proofs.FileSystem.Plain

/-!
# What a walk lists

In a tree without links a walk from a directory reaches the entries below it by the names that lead
to them, and shows each by the path of the directory continued by these names.  A directory is opened
by that path, so the walk stops where the path is refused: it lists the files of the directories that
it opens, and the directories that it cannot open (`mem_walk_iff`).

* `FileSystem.FileBelow`: names lead from the directory at a path to a file.
* `FileSystem.Lists`: a walk from a path lists the entry that names lead to.
* `mem_walkFrom_succ_iff`, `mem_walkFrom_iff`: what one directory adds to a walk, and the whole walk.
-/

namespace LivingGuide

/-! ### Heights -/

namespace Node

variable {root node : Node} {here : Location} {entries : List (String × Node)} {name : String}

theorem height_le_of_mem (hmem : (name, node) ∈ entries) : node.height ≤ entriesHeight entries := by
  induction entries with
  | nil => cases hmem
  | cons entry entries ih =>
    obtain ⟨name', node'⟩ := entry
    rw [entriesHeight]
    rcases List.mem_cons.mp hmem with heq | hrest
    · cases heq
      exact Nat.le_max_left _ _
    · exact Nat.le_trans (ih hrest) (Nat.le_max_right _ _)

theorem height_le_of_at? (hat : root.at? here = some node) : node.height ≤ root.height := by
  induction here generalizing root with
  | nil =>
    cases hat
    exact Nat.le_refl _
  | cons name here ih =>
    rw [at?, Option.bind_eq_some_iff] at hat
    obtain ⟨child, hchild, hat⟩ := hat
    cases root with
    | file | link => cases hchild
    | directory entries =>
      have hle := height_le_of_mem (mem_of_lookup hchild)
      have := ih hat
      rw [height]
      omega

end Node

namespace FileSystem

variable {fs : FileSystem} {p q : Path} {here : Location} {names : List String}

/-! ### Entries below a path -/

/-- There is a regular file at a location. -/
def FileAt (fs : FileSystem) (here : Location) : Prop :=
  ∃ content, fs.root.at? here = some (.file content)

/-- There is a directory at a location. -/
def DirectoryAt (fs : FileSystem) (here : Location) : Prop :=
  ∃ entries, fs.root.at? here = some (.directory entries)

/-- The file at a location lies below the directory that a path spells, and names lead there. -/
structure FileBelow (fs : FileSystem) (p : Path) (names : List String) (here : Location) : Prop where
  spelled : ∃ directory, fs.Spells p directory ∧ here = directory ++ names
  proper : names ≠ []
  file : fs.FileAt here

/-- A walk from the directory at a path lists the entry at a location: the directory that holds the
entry can be opened, and the entry is a file or cannot be opened itself. -/
structure Lists (fs : FileSystem) (p : Path) (names : List String) (here : Location) : Prop where
  spelled : ∃ directory, fs.Spells p directory ∧ here = directory ++ names
  proper : names ≠ []
  opened : refused? (p.down names.dropLast) = none
  shown : fs.FileAt here ∨ fs.DirectoryAt here ∧ refused? (p.down names) ≠ none

theorem Lists.exists_at? (h : fs.Lists p names here) : ∃ node, fs.root.at? here = some node := by
  rcases h.shown with ⟨content, hfile⟩ | ⟨⟨entries, hdirectory⟩, _⟩
  · exact ⟨_, hfile⟩
  · exact ⟨_, hdirectory⟩

theorem lists_iff_of_fileAt (hfile : fs.FileAt here) :
    fs.Lists p names here ↔ fs.FileBelow p names here ∧ refused? (p.down names.dropLast) = none :=
  ⟨fun h => ⟨⟨h.spelled, h.proper, hfile⟩, h.opened⟩,
    fun h => ⟨h.1.spelled, h.1.proper, h.2, .inl hfile⟩⟩

/-! ### Paths that are refused -/

theorem refused?_eq_none_iff : refused? p = none ↔
    '\x00' ∉ p.text.toList ∧ p.text ≠ "" ∧ p.text.utf8ByteSize ≤ maxPathBytes := by
  unfold refused?
  split_ifs <;> simp_all

theorem ne_empty_of_refused? (h : refused? p = none) : p.text ≠ "" :=
  (refused?_eq_none_iff.mp h).2.1

theorem refused?_of_join (hp : p.text ≠ "") (hq : q.isAbsolute = false)
    (h : refused? (p.join q) = none) : refused? p = none := by
  obtain ⟨tail, htext⟩ := Path.exists_text_join (p := p) hq
  rw [refused?_eq_none_iff, htext, String.toList_append, String.utf8ByteSize_append] at h
  rw [refused?_eq_none_iff]
  obtain ⟨hzero, _, hsize⟩ := h
  exact ⟨fun hmem => hzero (List.mem_append_left _ hmem), hp, by omega⟩

theorem refused?_of_down (hp : p.text ≠ "") (hnames : ∀ name ∈ names, Node.IsName name)
    (h : refused? (p.down names) = none) : refused? p = none := by
  induction names generalizing p with
  | nil => exact h
  | cons name names ih =>
    obtain ⟨hname, hnames⟩ := List.forall_mem_cons.mp hnames
    have hjoin := ih (Path.text_join_ne_empty hp hname.relative) hnames h
    exact refused?_of_join hp hname.relative hjoin

theorem Lists.accepted (hfs : fs.root.Plain) (hp : p.text ≠ "") (h : fs.Lists p names here) :
    refused? p = none := by
  obtain ⟨directory, _, rfl⟩ := h.spelled
  obtain ⟨node, hat⟩ := h.exists_at?
  have hnames := hfs.isName_of_at? hat
  exact refused?_of_down hp (fun name hname => hnames name (List.dropLast_subset _ hname)) h.opened

/-! ### Walks -/

section

variable {depth : Nat} {above : List Location} {entries : List (String × Node)} {name : String}
  {node : Node}

theorem at?_entry (hfs : fs.root.Plain) (hat : fs.root.at? here = some (.directory entries))
    (hmem : (name, node) ∈ entries) : fs.root.at? (here ++ [name]) = some node := by
  rw [Node.at?_append, hat, Option.bind_some, Node.at?, Node.child?,
    (hfs.at? hat).lookup_eq hmem]
  rfl

theorem locate_entry (hfs : fs.root.Plain) (hp : fs.locate p = .ok here)
    (hat : fs.root.at? here = some (.directory entries)) (hmem : (name, node) ∈ entries)
    (hopen : refused? (p.join ⟨name⟩) = none) :
    fs.locate (p.join ⟨name⟩) = .ok (here ++ [name]) := by
  obtain ⟨hrefused, hspells⟩ := locate_eq_ok_iff.mp hp
  exact locate_eq_ok_iff.mpr ⟨hopen, hspells.entry hfs (ne_empty_of_refused? hrefused) hat hmem⟩

/-- **What a walk lists in one directory**: the files, the directories that it cannot open, and what
it lists in those that it opens. -/
theorem mem_walkFrom_succ_iff (hfs : fs.root.Plain) (hp : fs.locate p = .ok here)
    (hat : fs.root.at? here = some (.directory entries)) :
    q ∈ fs.walkFrom (depth + 1) above p ↔
      ∃ name node, (name, node) ∈ entries ∧
        ((∃ content, node = .file content) ∧ q = p.join ⟨name⟩ ∨
          (∃ inner, node = .directory inner) ∧
            (refused? (p.join ⟨name⟩) ≠ none ∧ q = p.join ⟨name⟩ ∨
              refused? (p.join ⟨name⟩) = none ∧
                q ∈ fs.walkFrom depth (here :: above) (p.join ⟨name⟩))) := by
  conv_lhs => unfold walkFrom
  simp only [hp, hat, List.mem_flatMap, Node.sorted, List.mem_mergeSort, Prod.exists]
  refine exists_congr fun name => exists_congr fun node => and_congr_right fun hmem => ?_
  cases (hfs.at? hat).entry hmem with
  | file content => simp
  | directory =>
    cases hrefused : refused? (p.join ⟨name⟩) with
    | some fault => simp [locate, hrefused]
    | none => simp [locate_entry hfs hp hat hmem hrefused]

theorem lists_cons_iff (hfs : fs.root.Plain) (hp : fs.locate p = .ok here)
    (hat : fs.root.at? here = some (.directory entries)) (hmem : (name, node) ∈ entries)
    (hnames : names ≠ []) :
    fs.Lists p (name :: names) (here ++ name :: names) ↔
      fs.Lists (p.join ⟨name⟩) names (here ++ [name] ++ names) := by
  obtain ⟨hrefused, hspells⟩ := locate_eq_ok_iff.mp hp
  have hentry := hspells.entry hfs (ne_empty_of_refused? hrefused) hat hmem
  have hsplit : here ++ name :: names = here ++ [name] ++ names := List.append_cons _ _ _
  have hlast : (name :: names).dropLast = name :: names.dropLast :=
    List.dropLast_cons_of_ne_nil hnames
  constructor
  · rintro ⟨_, _, hopened, hshown⟩
    rw [hlast] at hopened
    rw [hsplit] at hshown
    exact ⟨⟨here ++ [name], hentry, rfl⟩, hnames, hopened, hshown⟩
  · rintro ⟨_, _, hopened, hshown⟩
    refine ⟨⟨here, hspells, rfl⟩, List.cons_ne_nil _ _, ?_, ?_⟩
    · rw [hlast]
      exact hopened
    · rw [hsplit]
      exact hshown

theorem lists_singleton_iff (hfs : fs.root.Plain) (hp : fs.locate p = .ok here)
    (hat : fs.root.at? here = some (.directory entries)) (hmem : (name, node) ∈ entries) :
    fs.Lists p [name] (here ++ [name]) ↔
      (∃ content, node = .file content) ∨
        (∃ inner, node = .directory inner) ∧ refused? (p.join ⟨name⟩) ≠ none := by
  obtain ⟨hrefused, hspells⟩ := locate_eq_ok_iff.mp hp
  have hnode := at?_entry hfs hat hmem
  have hshown : (fs.FileAt (here ++ [name]) ∨
      fs.DirectoryAt (here ++ [name]) ∧ refused? (p.down [name]) ≠ none) ↔
      (∃ content, node = .file content) ∨
        (∃ inner, node = .directory inner) ∧ refused? (p.join ⟨name⟩) ≠ none := by
    simp only [FileAt, DirectoryAt, hnode, Option.some.injEq, Path.down_cons, Path.down_nil]
  rw [← hshown]
  exact ⟨fun h => h.shown, fun h => ⟨⟨here, hspells, rfl⟩, List.cons_ne_nil _ _, hrefused, h⟩⟩

/-- **What a walk lists** below the directory that it starts at. -/
theorem mem_walkFrom_iff (hfs : fs.root.Plain) (hp : fs.locate p = .ok here)
    (hat : fs.root.at? here = some (.directory entries))
    (hdepth : Node.entriesHeight entries < depth) :
    q ∈ fs.walkFrom depth above p ↔
      ∃ names, fs.Lists p names (here ++ names) ∧ q = p.down names := by
  induction depth generalizing above p here entries with
  | zero => omega
  | succ depth ih =>
    -- the directories of a directory are less high, so the depth that is left is enough for them
    have hinner : ∀ {name inner}, (name, .directory inner) ∈ entries →
        Node.entriesHeight inner < depth := by
      intro name inner hmem
      have hle := Node.height_le_of_mem hmem
      rw [Node.height] at hle
      omega
    rw [mem_walkFrom_succ_iff hfs hp hat]
    constructor
    · rintro ⟨name, node, hmem, ⟨hfile, rfl⟩ | ⟨⟨inner, rfl⟩, ⟨hrefused, rfl⟩ | ⟨hopen, hq⟩⟩⟩
      · exact ⟨[name], (lists_singleton_iff hfs hp hat hmem).mpr (.inl hfile), rfl⟩
      · exact ⟨[name], (lists_singleton_iff hfs hp hat hmem).mpr (.inr ⟨⟨inner, rfl⟩, hrefused⟩), rfl⟩
      · rw [ih (locate_entry hfs hp hat hmem hopen) (at?_entry hfs hat hmem) (hinner hmem)] at hq
        obtain ⟨names, hlists, rfl⟩ := hq
        exact ⟨name :: names, (lists_cons_iff hfs hp hat hmem hlists.proper).mpr hlists, rfl⟩
    · rintro ⟨names, hlists, rfl⟩
      obtain ⟨name, names, rfl⟩ := List.exists_cons_of_ne_nil hlists.proper
      obtain ⟨node, hnode⟩ := hlists.exists_at?
      obtain ⟨entries', child, hat', hlookup, hchild⟩ := Node.at?_cons hnode
      obtain rfl : entries = entries' := by
        rw [hat] at hat'
        cases hat'
        rfl
      have hmem := Node.mem_of_lookup hlookup
      refine ⟨name, child, hmem, ?_⟩
      by_cases hnames : names = []
      · subst hnames
        rcases (lists_singleton_iff hfs hp hat hmem).mp hlists with hfile | ⟨hdirectory, hrefused⟩
        · exact .inl ⟨hfile, rfl⟩
        · exact .inr ⟨hdirectory, .inl ⟨hrefused, rfl⟩⟩
      · obtain ⟨second, names, rfl⟩ := List.exists_cons_of_ne_nil hnames
        have htail := (lists_cons_iff hfs hp hat hmem hnames).mp hlists
        cases child with
        | file | link => cases hchild
        | directory inner =>
          have hwritten := ne_empty_of_refused? (locate_eq_ok_iff.mp hp).1
          have hname := (hfs.at? hat).isName hmem
          have hopen := htail.accepted hfs (Path.text_join_ne_empty hwritten hname.relative)
          refine .inr ⟨⟨inner, rfl⟩, .inr ⟨hopen, ?_⟩⟩
          rw [ih (locate_entry hfs hp hat hmem hopen) (at?_entry hfs hat hmem) (hinner hmem)]
          exact ⟨second :: names, htail, rfl⟩

end

theorem isDirectory_iff : fs.isDirectory p ↔ ∃ here, fs.locate p = .ok here ∧ fs.DirectoryAt here := by
  rw [isDirectory, node?]
  cases fs.locate p with
  | error fault => simp
  | ok here =>
    cases hnode : fs.root.at? here with
    | none => simp [DirectoryAt, hnode]
    | some node => cases node <;> simp [DirectoryAt, hnode, Node.isDirectory]

theorem isFile_iff : fs.isFile p ↔ ∃ here, fs.locate p = .ok here ∧ fs.FileAt here := by
  rw [isFile, node?]
  cases fs.locate p with
  | error fault => simp
  | ok here =>
    cases hnode : fs.root.at? here with
    | none => simp [FileAt, hnode]
    | some node => cases node <;> simp [FileAt, hnode]

theorem not_isFile_of_isDirectory (hp : fs.isDirectory p) : ¬ fs.isFile p := by
  obtain ⟨here, hlocate, entries, hat⟩ := isDirectory_iff.mp hp
  rw [isFile_iff]
  rintro ⟨here', hlocate', content, hfile⟩
  rw [hlocate] at hlocate'
  cases hlocate'
  rw [hat] at hfile
  cases hfile

theorem Lists.isDirectory (hfs : fs.root.Plain) (hp : p.text ≠ "") (h : fs.Lists p names here) :
    fs.isDirectory p := by
  have haccepted := h.accepted hfs hp
  obtain ⟨directory, hspells, rfl⟩ := h.spelled
  obtain ⟨name, names, rfl⟩ := List.exists_cons_of_ne_nil h.proper
  obtain ⟨node, hnode⟩ := h.exists_at?
  obtain ⟨entries, _, hat, _, _⟩ := Node.at?_cons hnode
  exact isDirectory_iff.mpr ⟨directory, locate_eq_ok_iff.mpr ⟨haccepted, hspells⟩, entries, hat⟩

theorem entriesHeight_lt_walkDepth {entries : List (String × Node)}
    (hat : fs.root.at? here = some (.directory entries)) :
    Node.entriesHeight entries < fs.walkDepth := by
  have hheight := Node.height_le_of_at? hat
  rw [Node.height] at hheight
  have hdepth : fs.root.height + 1 ≤ fs.walkDepth :=
    Nat.le_mul_of_pos_left _ (Nat.succ_pos _)
  omega

/-- **A walk from a directory lists what is below it**, by the paths that the names spell. -/
theorem mem_walk_iff (hfs : fs.root.Plain) (hp : fs.isDirectory p) :
    q ∈ fs.walk p ↔ ∃ names here, fs.Lists p names here ∧ q = p.down names := by
  obtain ⟨here, hlocate, entries, hat⟩ := isDirectory_iff.mp hp
  rw [walk, if_neg (not_isFile_of_isDirectory hp),
    mem_walkFrom_iff hfs hlocate hat (entriesHeight_lt_walkDepth hat)]
  constructor
  · rintro ⟨names, hlists, rfl⟩
    exact ⟨names, here ++ names, hlists, rfl⟩
  · rintro ⟨names, here', hlists, rfl⟩
    obtain ⟨directory, hspells, rfl⟩ := hlists.spelled
    obtain rfl := hspells.unique (locate_eq_ok_iff.mp hlocate).2
    exact ⟨names, hlists, rfl⟩

end FileSystem

end LivingGuide
