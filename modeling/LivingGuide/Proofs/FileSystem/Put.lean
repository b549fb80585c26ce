import LivingGuide.FileSystem.Change
import LivingGuide.Proofs.FileSystem.Plain

/-!
# Another entry in a tree

A change puts one entry into a directory that is there already.  Every other location keeps what it
holds, but for the directories on the way, whose listings change (`Node.at?_put_apart`), and a tree
without links stays one (`Node.Plain.put`).

* `Node.Keeps root root'`: no entry is gone, and every directory is still one.  Then **segments lead to
  the same location in both trees** (`Node.Plain.follow_keeps`), so what one step of a longer change
  has made is still found after the next.
-/

namespace LivingGuide.Node

variable {root new child node : Node} {here there : Location} {entries : List (String × Node)}
  {name other : String}

theorem lookup_cons (key : String) (value : Node) :
    ((key, value) :: entries).lookup other =
      if other = key then some value else entries.lookup other := by
  rw [List.lookup_cons]
  by_cases h : other = key <;> simp [h, beq_eq_false_iff_ne.mpr]

theorem lookup_replaced :
    (entries.map fun entry => if entry.1 == name then (name, node) else entry).lookup other =
      if other = name ∧ entries.any (·.1 == name) then some node else entries.lookup other := by
  induction entries with
  | nil => simp
  | cons entry entries ih =>
    obtain ⟨key, value⟩ := entry
    rw [List.map_cons, List.any_cons]
    by_cases hkey : key = name
    · rw [if_pos (beq_iff_eq.mpr hkey), lookup_cons, lookup_cons, ih]
      grind
    · rw [if_neg (by simpa using hkey), lookup_cons, lookup_cons, ih]
      grind

theorem lookup_setEntry :
    (setEntry entries name node).lookup other =
      if other = name then some node else entries.lookup other := by
  rw [setEntry]
  by_cases hany : entries.any (·.1 == name)
  · rw [if_pos hany, lookup_replaced]
    simp only [hany, and_true]
  · have hnone : entries.lookup name = none := by
      rw [List.lookup_eq_none_iff]
      intro entry hentry
      rw [Bool.not_eq_true, List.any_eq_false] at hany
      have hne := hany entry hentry
      rw [beq_iff_eq] at hne
      exact bne_iff_ne.mpr fun h => hne h.symm
    rw [if_neg hany, List.lookup_append, lookup_cons]
    by_cases hother : other = name
    · subst hother
      rw [hnone]
      simp
    · simp [hother]

theorem map_fst_setEntry :
    (setEntry entries name node).map Prod.fst =
      if name ∈ entries.map Prod.fst then entries.map Prod.fst else entries.map Prod.fst ++ [name] := by
  have hany : entries.any (·.1 == name) = true ↔ name ∈ entries.map Prod.fst := by
    simp
  have hkeep : (Prod.fst ∘ fun entry : String × Node => if entry.1 == name then (name, node) else entry)
      = Prod.fst := by
    funext entry
    by_cases h : entry.1 = name <;> simp [h]
  rw [setEntry]
  simp only [hany]
  split
  · rw [List.map_map, hkeep]
  · rw [List.map_append]
    rfl

theorem mem_setEntry {entry : String × Node} (h : entry ∈ setEntry entries name node) :
    entry = (name, node) ∨ entry ∈ entries := by
  rw [setEntry] at h
  split at h
  · obtain ⟨old, hold, rfl⟩ := List.mem_map.mp h
    split
    · exact .inl rfl
    · exact .inr hold
  · rcases List.mem_append.mp h with h | h
    · exact .inr h
    · exact .inl (List.mem_singleton.mp h)

theorem plain_empty : (Node.directory []).Plain :=
  .directory List.Pairwise.nil (fun _ => nofun) (fun _ => nofun)

theorem Plain.setEntry (h : Plain (.directory entries)) (hname : IsName name) (hnode : node.Plain) :
    Plain (.directory (setEntry entries name node)) := by
  cases h with
  | directory distinct named plain =>
    refine .directory ?_ ?_ ?_
    · rw [map_fst_setEntry]
      split
      · exact distinct
      · next hnew =>
        refine List.nodup_append.mpr ⟨distinct, List.pairwise_singleton _ _, ?_⟩
        rintro other hother _ hlast rfl
        exact hnew (List.mem_singleton.mp hlast ▸ hother)
    · intro entry hentry
      rcases mem_setEntry hentry with rfl | hold
      · exact hname
      · exact named entry hold
    · intro entry hentry
      rcases mem_setEntry hentry with rfl | hold
      · exact hnode
      · exact plain entry hold

/-! ### Another entry at a location -/

theorem put_cons {names : Location} (hchild : entries.lookup name = some child) :
    (Node.directory entries).put (name :: names) new =
      .directory (Node.setEntry entries name (child.put names new)) := by
  rw [put, hchild]
  rfl

theorem child?_setEntry :
    (Node.directory (Node.setEntry entries name node)).child? other =
      if other = name then some node else (Node.directory entries).child? other :=
  lookup_setEntry

theorem exists_child_of_at? {names : Location}
    (hat : root.at? (name :: names) = some node) :
    ∃ entries child, root = .directory entries ∧ entries.lookup name = some child ∧
      child.at? names = some node := by
  have hat' : root.at? ([] ++ name :: names) = some node := hat
  obtain ⟨entries, child, hroot, hlookup, hchild⟩ := at?_cons hat'
  cases hroot
  exact ⟨entries, child, rfl, hlookup, hchild⟩

theorem at?_put_below (hat : root.at? here = some (.directory entries)) (rest : Location) :
    (root.put (here ++ [name]) new).at? (here ++ name :: rest) = new.at? rest := by
  induction here generalizing root with
  | nil =>
    cases hat
    simp only [List.nil_append, put, at?, child?_setEntry, if_true, Option.bind_some]
  | cons first here ih =>
    obtain ⟨listing, child, rfl, hlookup, hchild⟩ := exists_child_of_at? hat
    rw [List.cons_append, List.cons_append, put_cons hlookup, at?, child?_setEntry, if_pos rfl]
    exact ih hchild

/-- **Away from the entry that was put** a location holds what it held, or it is a directory on the
way, with another listing. -/
theorem at?_put_apart (new : Node) (hat : root.at? here = some (.directory entries))
    (hapart : ¬ here ++ [name] <+: there) :
    (root.put (here ++ [name]) new).at? there = root.at? there ∨
      ∃ old changed, root.at? there = some (.directory old) ∧
        (root.put (here ++ [name]) new).at? there = some (.directory changed) := by
  induction here generalizing root there with
  | nil =>
    cases hat
    cases there with
    | nil => exact .inr ⟨entries, _, rfl, rfl⟩
    | cons other there =>
      have hne : other ≠ name := by
        rintro rfl
        exact hapart ⟨there, rfl⟩
      left
      simp only [List.nil_append, put, at?, child?_setEntry, if_neg hne]
  | cons first here ih =>
    obtain ⟨listing, child, rfl, hlookup, hchild⟩ := exists_child_of_at? hat
    rw [List.cons_append, put_cons hlookup]
    cases there with
    | nil => exact .inr ⟨listing, _, rfl, rfl⟩
    | cons other there =>
      rw [at?, at?, child?_setEntry]
      by_cases hother : other = first
      · subst hother
        have hbelow : ¬ here ++ [name] <+: there := fun hprefix =>
          hapart (List.cons_prefix_cons.mpr ⟨rfl, hprefix⟩)
        rw [if_pos rfl, Option.bind_some, child?, hlookup, Option.bind_some]
        exact ih hchild hbelow
      · rw [if_neg hother]
        exact .inl rfl

theorem Plain.put (h : root.Plain) (hat : root.at? here = some (.directory entries))
    (hname : IsName name) (hnew : new.Plain) : (root.put (here ++ [name]) new).Plain := by
  induction here generalizing root with
  | nil =>
    cases hat
    exact h.setEntry hname hnew
  | cons first here ih =>
    obtain ⟨listing, child, rfl, hlookup, hchild⟩ := exists_child_of_at? hat
    have hmem := mem_of_lookup hlookup
    rw [List.cons_append, put_cons hlookup]
    exact h.setEntry (h.isName hmem) (ih (h.entry hmem) hchild)

/-! ### Paths in a tree that keeps its entries -/

/-- Every directory is still one, and no other entry is gone. -/
structure Keeps (root root' : Node) : Prop where
  directories : ∀ here entries, root.at? here = some (.directory entries) →
    ∃ entries', root'.at? here = some (.directory entries')
  present : ∀ here node, root.at? here = some node → ∃ node', root'.at? here = some node'

/-- **A tree that keeps its entries keeps what segments lead to.** -/
theorem Plain.follow_keeps {root' : Node} (h : root.Plain) (h' : root'.Plain)
    (hkeeps : Keeps root root') {links left : Nat} {segments : List String}
    (hfollow : root.follow links here segments = .ok (there, left)) :
    root'.follow links here segments = .ok (there, left) := by
  fun_induction Node.follow root links here segments with
  | case1 =>
    rw [follow]
    exact hfollow
  | case2 | case3 | case4 | case7 | case8 | case9 => cases hfollow
  | case5 _ _ _ _ entries hat hidle ih =>
    obtain ⟨entries', hat'⟩ := hkeeps.directories _ _ hat
    rw [follow, hat']
    simp only [hidle, if_true]
    exact ih hfollow
  | case6 _ _ _ entries hat hidle ih =>
    obtain ⟨entries', hat'⟩ := hkeeps.directories _ _ hat
    rw [follow, hat']
    simp only [hidle, if_true]
    exact ih hfollow
  | case10 _ _ _ _ hat _ _ _ _ hlookup =>
    cases (h.at? hat).entry (mem_of_lookup hlookup)
  | case11 links here segment rest entries hat hidle hup hfits node hlink hlookup ih =>
    have hnode : root.at? (here ++ [segment]) = some node := by
      rw [at?_append, hat, Option.bind_some, Node.at?, child?, hlookup]
      rfl
    obtain ⟨node', hnode'⟩ := hkeeps.present _ _ hnode
    obtain ⟨entries', child, hat', hlookup', hchild⟩ := at?_cons hnode'
    cases hchild
    rw [follow, hat']
    simp only [hidle, hup, hfits, if_false, hlookup']
    have hplain := (h'.at? hat').entry (mem_of_lookup hlookup')
    cases hplain with
    | file | directory => exact ih hfollow

end LivingGuide.Node
