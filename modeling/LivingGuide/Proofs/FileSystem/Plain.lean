import LivingGuide.FileSystem.Lookup
import LivingGuide.Proofs.Path

/-!
# Trees without links

In a tree without links a path is followed name by name.  Segments are followed one after the other
(`Node.follow_append`), and segments without `..` lead from a location to the one that the names among
them spell (`Node.Plain.follow_eq`):

    root.follow links here segments = .ok (here ++ segments.filter (!isIdle ·), _)

whenever they lead anywhere at all.

* `Node.Plain`: there are no links, and each directory holds each of its names once.
* `FileSystem.Spells`: a path spells a location, whether or not it is too long to be opened.
* `FileSystem.Placed`: a path spells the location that its components say, counted from a root.
  Two paths that are placed spell the same location exactly if they are the same path
  (`FileSystem.Placed.same_iff`).
-/

namespace LivingGuide

namespace Node

/-! ### Plain trees -/

/-- A text that an entry of a directory can have for its name. -/
structure IsName (s : String) : Prop where
  notIdle : Path.isIdle s = false
  notUp : s ≠ ".."
  noSlash : '/' ∉ s.toList
  fits : s.utf8ByteSize ≤ maxNameBytes

instance (s : String) : Decidable (IsName s) :=
  decidable_of_iff
    (Path.isIdle s = false ∧ s ≠ ".." ∧ '/' ∉ s.toList ∧ s.utf8ByteSize ≤ maxNameBytes)
    ⟨fun h => ⟨h.1, h.2.1, h.2.2.1, h.2.2.2⟩, fun h => ⟨h.1, h.2, h.3, h.4⟩⟩

/-- A tree without links whose directories hold each name once. -/
inductive Plain : Node → Prop
  | file (content : ByteArray) : Plain (.file content)
  | directory {entries : List (String × Node)} (distinct : (entries.map Prod.fst).Nodup)
      (named : ∀ entry ∈ entries, IsName entry.1) (plain : ∀ entry ∈ entries, Plain entry.2) :
      Plain (.directory entries)

theorem IsName.ne_empty {s : String} (h : IsName s) : s ≠ "" := by
  rintro rfl
  cases h.notIdle

theorem IsName.relative {s : String} (h : IsName s) : (Path.mk s).isAbsolute = false := by
  rw [Path.isAbsolute, beq_eq_false_iff_ne]
  exact fun hhead => h.noSlash (List.mem_of_head? hhead)

theorem IsName.segments_eq {s : String} (h : IsName s) : (Path.mk s).segments = [s] :=
  Path.segments_of_no_slash h.noSlash

theorem IsName.steps_eq {s : String} (h : IsName s) : (Path.mk s).steps = [s] := by
  rw [Path.steps, h.segments_eq, List.filter_cons_of_pos (by simp [h.notIdle]), List.filter_nil]

theorem IsName.ofSegment_eq {s : String} (h : IsName s) : Path.Component.ofSegment s = .name s := by
  rw [Path.Component.ofSegment, if_neg (by simpa using h.notUp)]

theorem at?_append (node : Node) (here names : Location) :
    node.at? (here ++ names) = (node.at? here).bind (·.at? names) := by
  induction here generalizing node with
  | nil => rfl
  | cons name here ih =>
    rw [List.cons_append, at?, at?, Option.bind_assoc]
    exact Option.bind_congr fun child _ => ih child

variable {root node : Node} {here there : Location} {entries : List (String × Node)} {name : String}

theorem mem_of_lookup (h : entries.lookup name = some node) : (name, node) ∈ entries := by
  obtain ⟨before, after, rfl, _⟩ := List.lookup_eq_some_iff.mp h
  exact List.mem_append_right _ List.mem_cons_self

theorem Plain.isName (h : Plain (.directory entries)) (hmem : (name, node) ∈ entries) :
    IsName name := by
  cases h with
  | directory _ named _ => exact named _ hmem

theorem Plain.entry (h : Plain (.directory entries)) (hmem : (name, node) ∈ entries) :
    node.Plain := by
  cases h with
  | directory _ _ plain => exact plain _ hmem

theorem Plain.lookup_eq (h : Plain (.directory entries)) (hmem : (name, node) ∈ entries) :
    entries.lookup name = some node := by
  cases h with
  | directory distinct _ _ =>
    obtain ⟨before, after, rfl⟩ := List.append_of_mem hmem
    rw [List.map_append, List.map_cons] at distinct
    refine List.lookup_eq_some_iff.mpr ⟨before, after, rfl, fun entry hentry => ?_⟩
    rw [bne_iff_ne]
    rintro rfl
    exact (List.nodup_append.mp distinct).2.2 _ (List.mem_map_of_mem hentry) _ List.mem_cons_self rfl

/-- What a directory hands down to its entries holds everywhere in a tree. -/
theorem at?_of_entry {P : Node → Prop}
    (hentry : ∀ {entries name node}, P (.directory entries) → (name, node) ∈ entries → P node)
    (h : P root) (hat : root.at? here = some node) : P node := by
  induction here generalizing root with
  | nil =>
    cases hat
    exact h
  | cons name here ih =>
    rw [Node.at?, Option.bind_eq_some_iff] at hat
    obtain ⟨child, hchild, hat⟩ := hat
    cases root with
    | file | link => cases hchild
    | directory entries => exact ih (hentry h (mem_of_lookup hchild)) hat

theorem Plain.at? (h : root.Plain) (hat : root.at? here = some node) : node.Plain :=
  at?_of_entry Plain.entry h hat

theorem at?_cons {names : Location} (hat : root.at? (here ++ name :: names) = some node) :
    ∃ entries child, root.at? here = some (.directory entries) ∧ entries.lookup name = some child ∧
      child.at? names = some node := by
  rw [at?_append, Option.bind_eq_some_iff] at hat
  obtain ⟨parent, hparent, hat⟩ := hat
  rw [at?, Option.bind_eq_some_iff] at hat
  obtain ⟨child, hchild, hat⟩ := hat
  cases parent with
  | file | link => cases hchild
  | directory entries => exact ⟨entries, child, hparent, hchild, hat⟩

theorem Plain.isName_of_at? (h : root.Plain) {names : Location}
    (hat : root.at? (here ++ names) = some node) : ∀ name ∈ names, IsName name := by
  induction names generalizing here with
  | nil => exact fun _ hname => absurd hname List.not_mem_nil
  | cons first names ih =>
    obtain ⟨entries, child, hdirectory, hlookup, _⟩ := at?_cons hat
    have hfirst : IsName first := (h.at? hdirectory).isName (mem_of_lookup hlookup)
    rw [List.append_cons] at hat
    exact List.forall_mem_cons.mpr ⟨hfirst, ih hat⟩

/-! ### Following segments -/

/-- **Segments are followed one after the other.** -/
theorem follow_append (root : Node) (links : Nat) (here : Location) (xs ys : List String) :
    root.follow links here (xs ++ ys) =
      (root.follow links here xs).bind fun reached => root.follow reached.2 reached.1 ys := by
  fun_induction Node.follow root links here xs with
  | case1 => rfl
  | case2 | case3 | case4 | case7 | case8 | case9 =>
    simp only [List.cons_append, follow, *, if_true, if_false]
    rfl
  | case5 _ _ _ _ _ hat hidle ih =>
    simp only [List.cons_append, follow, hat, hidle, if_true]
    exact ih
  | case6 _ _ _ _ hat hidle ih =>
    simp only [List.cons_append, follow, hat, hidle, if_true]
    exact ih
  | case10 _ _ _ _ hat hidle hup hfits _ hlookup _ ih =>
    simp only [List.cons_append, follow, hat, hidle, hup, hfits, if_false]
    simp only [hlookup]
    rw [List.append_assoc] at ih
    exact ih
  | case11 _ _ _ _ _ hat hidle hup hfits _ hlink hlookup ih =>
    simp only [List.cons_append, follow, hat, hidle, hup, hfits, if_false]
    simp only [hlookup]
    exact ih

theorem follow_append_eq_ok_iff {links left : Nat} {xs ys : List String} :
    root.follow links here (xs ++ ys) = .ok (there, left) ↔
      ∃ middle left', root.follow links here xs = .ok (middle, left') ∧
        root.follow left' middle ys = .ok (there, left) := by
  rw [follow_append]
  cases root.follow links here xs with
  | error fault => simp [Except.bind]
  | ok reached =>
    obtain ⟨middle, left'⟩ := reached
    simp [Except.bind]

theorem eq_of_follow_empty {links left : Nat}
    (hfollow : root.follow links here [""] = .ok (there, left)) : here = there := by
  rw [follow] at hfollow
  split at hfollow
  · cases hfollow
  · cases hfollow
  · cases hfollow
  · rw [if_pos (by decide), follow] at hfollow
    cases hfollow
    rfl

theorem follow_of_idle (hat : root.at? here = some (.directory entries)) {links : Nat}
    {segments : List String} (hidle : ∀ s ∈ segments, Path.isIdle s) :
    root.follow links here segments = .ok (here, links) := by
  induction segments with
  | nil => rw [follow]
  | cons s segments ih =>
    obtain ⟨hs, hrest⟩ := List.forall_mem_cons.mp hidle
    rw [follow, hat]
    simp only [hs, if_true]
    exact ih hrest

/-- **Segments without `..` lead to the location that their names spell.** -/
theorem Plain.follow_eq (h : root.Plain) {links left : Nat} {segments : List String}
    (hup : ".." ∉ segments) (hfollow : root.follow links here segments = .ok (there, left)) :
    there = here ++ segments.filter (!Path.isIdle ·) := by
  fun_induction Node.follow root links here segments with
  | case1 =>
    cases hfollow
    exact (List.append_nil _).symm
  | case2 | case3 | case4 | case7 | case8 | case9 => cases hfollow
  | case5 _ _ _ _ _ _ hidle ih =>
    rw [List.filter_cons_of_neg (by simp [hidle])]
    exact ih (fun hrest => hup (List.mem_cons_of_mem _ hrest)) hfollow
  | case6 => exact absurd List.mem_cons_self hup
  | case10 _ _ _ _ hat _ _ _ _ hlookup =>
    cases (h.at? hat).entry (mem_of_lookup hlookup)
  | case11 _ _ _ _ _ _ hidle _ _ _ _ _ ih =>
    rw [List.filter_cons_of_pos (by simp [hidle])]
    rw [ih (fun hrest => hup (List.mem_cons_of_mem _ hrest)) hfollow, List.append_assoc]
    rfl

theorem Plain.follow_name (h : root.Plain) (hat : root.at? here = some (.directory entries))
    (hmem : (name, node) ∈ entries) (links : Nat) :
    root.follow links here [name] = .ok (here ++ [name], links) := by
  have hdirectory := h.at? hat
  obtain ⟨hidle, hup, _, hfits⟩ := hdirectory.isName hmem
  have hlookup := hdirectory.lookup_eq hmem
  cases hdirectory.entry hmem with
  | file => simp [follow, hat, hidle, hup, Nat.not_lt.mpr hfits, hlookup]
  | directory => simp [follow, hat, hidle, hup, Nat.not_lt.mpr hfits, hlookup]

theorem Plain.follow_names (h : root.Plain) {names : Location}
    (hat : root.at? (here ++ names) = some node) (links : Nat) :
    root.follow links here names = .ok (here ++ names, links) := by
  induction names generalizing here with
  | nil => rw [follow, List.append_nil]
  | cons name names ih =>
    obtain ⟨entries, child, hdirectory, hlookup, _⟩ := at?_cons hat
    have hname := h.follow_name hdirectory (mem_of_lookup hlookup) links
    rw [List.append_cons] at hat ⊢
    show root.follow links here ([name] ++ names) = _
    rw [follow_append_eq_ok_iff]
    exact ⟨_, _, hname, ih hat⟩

end Node

theorem Path.components_down {p : Path} (hp : p.text ≠ "") {names : List String}
    (hnames : ∀ name ∈ names, Node.IsName name) :
    (p.down names).components = p.components ++ names.map Path.Component.name := by
  induction names generalizing p with
  | nil => simp
  | cons name names ih =>
    obtain ⟨hname, hnames⟩ := List.forall_mem_cons.mp hnames
    rw [down_cons, ih (text_join_ne_empty hp hname.relative) hnames,
      components_join hp hname.relative, hname.steps_eq]
    simp [hname.ofSegment_eq]

theorem Path.eq_of_components_down {p : Path} (hp : p.text ≠ "") {names names' : List String}
    (hnames : ∀ name ∈ names, Node.IsName name) (hnames' : ∀ name ∈ names', Node.IsName name)
    (h : (p.down names).components = (p.down names').components) : names = names' := by
  rw [components_down hp hnames, components_down hp hnames', List.append_cancel_left_eq] at h
  exact List.map_injective_iff.mpr (fun _ _ => Component.name.inj) h

theorem Path.fileName?_down {p : Path} (hp : p.text ≠ "") {names : List String} {name : String}
    (hnames : ∀ s ∈ names ++ [name], Node.IsName s) :
    (p.down (names ++ [name])).fileName? = some name := by
  rw [fileName?, components_down hp hnames, List.map_append, ← List.append_assoc]
  simp

/-! ### Paths that spell a location -/

namespace FileSystem

/-- The segments of a path lead to a location.  A path that is too long to be opened spells one as
well. -/
def Spells (fs : FileSystem) (p : Path) (here : Location) : Prop :=
  ∃ left, fs.root.follow maxLinks (fs.origin p) p.segments = .ok (here, left)

variable {fs : FileSystem} {root p q : Path} {here there : Location}

theorem locate_eq_ok_iff : fs.locate p = .ok here ↔ refused? p = none ∧ fs.Spells p here := by
  rw [locate, Spells]
  cases refused? p with
  | some fault => simp
  | none =>
    cases fs.root.follow maxLinks (fs.origin p) p.segments with
    | error fault => simp [Except.map]
    | ok reached => simp [Except.map, Prod.ext_iff]

theorem origin_eq_nil (hplace : fs.workingDirectory = []) (p : Path) : fs.origin p = [] := by
  rw [origin, hplace]
  exact ite_self _

theorem spells_of_idle (hplace : fs.workingDirectory = []) {entries : List (String × Node)}
    (hroot : fs.root = .directory entries) (hidle : ∀ s ∈ p.segments, Path.isIdle s) :
    fs.Spells p [] := by
  have hat : fs.root.at? [] = some (.directory entries) := congrArg some hroot
  refine ⟨maxLinks, ?_⟩
  rw [origin_eq_nil hplace]
  exact Node.follow_of_idle hat hidle

theorem Spells.unique (hp : fs.Spells p here) (hp' : fs.Spells p there) : here = there := by
  obtain ⟨left, hfollow⟩ := hp
  obtain ⟨left', hfollow'⟩ := hp'
  rw [hfollow] at hfollow'
  cases hfollow'
  rfl

theorem Spells.follow_stem (hp : fs.Spells p here) :
    ∃ left, fs.root.follow maxLinks (fs.origin p) p.stem = .ok (here, left) := by
  obtain ⟨left, hfollow⟩ := hp
  rcases p.segments_eq_stem with hstem | hstem
  · rw [hstem] at hfollow
    exact ⟨left, hfollow⟩
  · rw [hstem, Node.follow_append_eq_ok_iff] at hfollow
    obtain ⟨middle, left', hstem, hempty⟩ := hfollow
    obtain rfl := Node.eq_of_follow_empty hempty
    exact ⟨left', hstem⟩

theorem origin_join (hp : p.text ≠ "") (hq : q.isAbsolute = false) :
    fs.origin (p.join q) = fs.origin p := by
  rw [origin, Path.isAbsolute_join hp hq, origin]

theorem spells_join_iff (hp : p.text ≠ "") (hq : q.isAbsolute = false) :
    fs.Spells (p.join q) here ↔
      ∃ base left left', fs.root.follow maxLinks (fs.origin p) p.stem = .ok (base, left) ∧
        fs.root.follow left base q.segments = .ok (here, left') := by
  rw [Spells, origin_join hp hq, Path.segments_join hp hq]
  simp only [Node.follow_append_eq_ok_iff]
  constructor
  · rintro ⟨left', base, left, hstem, hrest⟩
    exact ⟨base, left, left', hstem, hrest⟩
  · rintro ⟨base, left, left', hstem, hrest⟩
    exact ⟨left', base, left, hstem, hrest⟩

theorem Spells.entry (hfs : fs.root.Plain) (hwritten : p.text ≠ "") (hp : fs.Spells p here)
    {entries : List (String × Node)} (hat : fs.root.at? here = some (.directory entries))
    {name : String} {node : Node} (hmem : (name, node) ∈ entries) :
    fs.Spells (p.join ⟨name⟩) (here ++ [name]) := by
  have hname : Node.IsName name := (hfs.at? hat).isName hmem
  obtain ⟨left, hstem⟩ := hp.follow_stem
  rw [spells_join_iff hwritten hname.relative, hname.segments_eq]
  exact ⟨here, left, left, hstem, hfs.follow_name hat hmem left⟩

/-! ### Paths counted from a root -/

/-- The path spells a location below the one that a root ends at, and its components behind those of
the root are the names that lead there. -/
structure Placed (fs : FileSystem) (root p : Path) (here : Location) : Prop where
  written : p.text ≠ ""
  spells : fs.Spells p here
  below : ∃ base left names, fs.root.follow maxLinks (fs.origin root) root.stem = .ok (base, left) ∧
    here = base ++ names ∧ p.components = root.components ++ names.map Path.Component.name

/-- **Placed paths are the same path exactly if they spell the same location.** -/
theorem Placed.same_iff (hp : fs.Placed root p here) (hq : fs.Placed root q there) :
    p.same q ↔ here = there := by
  obtain ⟨base, left, names, hbase, rfl, hcomponents⟩ := hp.below
  obtain ⟨base', left', names', hbase', rfl, hcomponents'⟩ := hq.below
  -- both start where the root ends, so the names behind it decide either way
  rw [hbase] at hbase'
  cases hbase'
  have hinj : Function.Injective Path.Component.name :=
    fun _ _ h => Path.Component.name.inj h
  rw [Path.same_iff, hcomponents, hcomponents', List.append_cancel_left_eq,
    List.append_cancel_left_eq, hinj.list_map.eq_iff]

theorem placed_join (hfs : fs.root.Plain) (hroot : root.text ≠ "") (hq : q.Descends)
    (hspells : fs.Spells (root.join q) here) : fs.Placed root (root.join q) here := by
  obtain ⟨base, left, left', hbase, hrest⟩ := (spells_join_iff hroot hq.relative).mp hspells
  have hhere : here = base ++ q.steps := hfs.follow_eq hq.up_notMem hrest
  refine ⟨Path.text_join_ne_empty hroot hq.relative, hspells, base, left, q.steps, hbase, hhere, ?_⟩
  rw [Path.components_join hroot hq.relative, hq.map_ofSegment]

theorem Placed.entry (hfs : fs.root.Plain) (hp : fs.Placed root p here)
    {entries : List (String × Node)} (hat : fs.root.at? here = some (.directory entries))
    {name : String} {node : Node} (hmem : (name, node) ∈ entries) :
    fs.Placed root (p.join ⟨name⟩) (here ++ [name]) := by
  have hname : Node.IsName name := (hfs.at? hat).isName hmem
  have hspells := hp.spells.entry hfs hp.written hat hmem
  obtain ⟨base, left, names, hbase, rfl, hcomponents⟩ := hp.below
  refine ⟨Path.text_join_ne_empty hp.written hname.relative, hspells, base, left, names ++ [name],
    hbase, List.append_assoc _ _ _, ?_⟩
  rw [Path.components_join hp.written hname.relative, hcomponents, hname.steps_eq, List.map_append,
    List.append_assoc, List.map_singleton, hname.ofSegment_eq]
  rfl

theorem Placed.down (hfs : fs.root.Plain) (hp : fs.Placed root p here) {names : List String}
    {node : Node} (hat : fs.root.at? (here ++ names) = some node) :
    fs.Placed root (p.down names) (here ++ names) := by
  induction names generalizing p here with
  | nil =>
    rw [List.append_nil]
    exact hp
  | cons name names ih =>
    obtain ⟨entries, child, hdirectory, hlookup, _⟩ := Node.at?_cons hat
    have hentry := hp.entry hfs hdirectory (Node.mem_of_lookup hlookup)
    rw [List.append_cons] at hat ⊢
    exact ih hentry hat

end FileSystem

end LivingGuide
