import LivingGuide.Proofs.FileSystem.Put
import LivingGuide.Proofs.FileSystem.Walk

/-!
# What a change leaves alone

Directories are made and files are written by putting one entry after the other.  What such a change
touches is said by comparing the trees before and after it, location by location.

* `FileSystem.Enters`: where the last name of a path is an entry, there or not.
* `FileSystem.Grows before after paths`: **only directories are new**, at places that the paths lead
  to.  One directory is a step (`grows_makeDirectory`), and a chain of them a run of such steps
  (`grows_makeChain`).
* `FileSystem.Writes before after path text paths`: **the file at the path holds the text**, and apart
  from it only such directories are new (`writes_write`, `Grows.writes`).
-/

namespace LivingGuide

/-! ### The last name of a path -/

theorem exists_slashes (segments : List String) :
    ∃ slashes, segments = withoutTrailingSlashes segments ++ slashes ∧ ∀ s ∈ slashes, s = "" := by
  refine ⟨(segments.reverse.takeWhile (· == "")).reverse, ?_, ?_⟩
  · rw [withoutTrailingSlashes, ← List.reverse_append, List.takeWhile_append_dropWhile,
      List.reverse_reverse]
  · intro s hs
    have hall : (segments.reverse.takeWhile (· == "")).all (· == "") := List.all_takeWhile
    exact beq_iff_eq.mp (List.all_eq_true.mp hall s (List.mem_reverse.mp hs))

theorem ne_empty_of_getLast? {segments : List String} {last : String}
    (h : (withoutTrailingSlashes segments).getLast? = some last) : last ≠ "" := by
  rw [withoutTrailingSlashes, List.getLast?_reverse] at h
  have hhead := List.head?_dropWhile_not (· == "") segments.reverse
  rw [h] at hhead
  simpa using hhead

theorem Node.followToDirectory_eq_ok {root : Node} {links : Nat} {here : Location}
    {segments : List String} {reached : Reached}
    (h : root.followToDirectory links here segments = .ok reached) :
    root.follow links here segments = .ok (reached.location, reached.links) ∧
      root.at? reached.location = some (.directory reached.entries) := by
  rw [followToDirectory] at h
  split at h
  · cases h
  · next there left hfollow =>
    split at h
    · next entries hat =>
      cases h
      exact ⟨hfollow, hat⟩
    · cases h
    · cases h

theorem Node.writeTarget_of_free {root : Node} {links : Nat} {here : Location}
    {names : List String} {last : String} {reached : Reached}
    (hslashes : withoutTrailingSlashes (names ++ [last]) = names ++ [last])
    (hreached : root.followToDirectory links here names = .ok reached) (hname : Node.IsName last)
    (hfree : reached.entries.lookup last = none) :
    root.writeTarget links here (names ++ [last]) = .ok (reached.location ++ [last]) := by
  rw [Node.writeTarget]
  split
  · next hlast =>
    rw [hslashes, List.getLast?_concat] at hlast
    cases hlast
  · next last' hlast =>
    rw [hslashes, List.getLast?_concat] at hlast
    cases hlast
    split
    · next fault hfault =>
      rw [hslashes, List.dropLast_concat, hreached] at hfault
      cases hfault
    · next there entries left hthere =>
      rw [hslashes, List.dropLast_concat, hreached] at hthere
      cases hthere
      have hdot : last ≠ "." := by
        rintro rfl
        cases hname.notIdle
      rw [if_neg (by simp [hslashes, hdot, hname.notUp]), if_neg (Nat.not_lt.mpr hname.fits)]
      simp only at hfree
      simp only [hfree]

namespace FileSystem

variable {fs made before middle after : FileSystem} {path p : Path} {paths : List Path}
  {here there : Location} {last text : String} {slashes : List String}

/-- The last name of a path names an entry, there or not, of the directory that the segments before it
lead to. -/
structure Enters (fs : FileSystem) (path : Path) (there : Location) (last : String)
    (slashes : List String) : Prop where
  accepted : refused? path = none
  named : Node.IsName last
  idle : ∀ s ∈ slashes, s = ""
  directory : fs.DirectoryAt there
  reached : ∃ names left, path.segments = names ++ last :: slashes ∧
    fs.root.follow maxLinks (fs.origin path) names = .ok (there, left)

theorem enters_of_followToDirectory (haccepted : refused? path = none)
    (hlast : (withoutTrailingSlashes path.segments).getLast? = some last) {reached : Reached}
    (hreached : fs.root.followToDirectory maxLinks (fs.origin path)
      (withoutTrailingSlashes path.segments).dropLast = .ok reached)
    (hdots : ¬ (last = "." || last = "..") = true) (hfits : ¬ maxNameBytes < last.utf8ByteSize) :
    ∃ slashes, path.segments = withoutTrailingSlashes path.segments ++ slashes ∧
      fs.Enters path reached.location last slashes := by
  obtain ⟨slashes, hslashes, hidle⟩ := exists_slashes path.segments
  obtain ⟨hfollow, hat⟩ := Node.followToDirectory_eq_ok hreached
  obtain ⟨names, hnames⟩ := List.getLast?_eq_some_iff.mp hlast
  rw [hnames, List.dropLast_concat] at hfollow
  have hsegments : path.segments = names ++ last :: slashes := by
    rw [hslashes, hnames, List.append_assoc]
    rfl
  have hne := ne_empty_of_getLast? hlast
  have hmem : last ∈ path.segments := by
    rw [hsegments]
    exact List.mem_append_right _ List.mem_cons_self
  simp only [Bool.or_eq_true, decide_eq_true_eq, not_or] at hdots
  have hnamed : Node.IsName last :=
    ⟨by simp [Path.isIdle, hne, hdots.1], hdots.2, Path.noSlash_of_mem_segments hmem,
      Nat.not_lt.mp hfits⟩
  exact ⟨slashes, hslashes, haccepted, hnamed, hidle, ⟨_, hat⟩, names, _, hsegments, hfollow⟩

theorem origin_eq (hplace : after.workingDirectory = before.workingDirectory) (p : Path) :
    after.origin p = before.origin p := by
  rw [origin, hplace, origin]

/-- **In a tree that keeps its entries the path leads to the entry that it enters.** -/
theorem Enters.locate (h : before.Enters path there last slashes) (hbefore : before.root.Plain)
    (hafter : after.root.Plain) (hplace : after.workingDirectory = before.workingDirectory)
    (hkeeps : before.root.Keeps after.root) {node : Node}
    (hat : after.root.at? (there ++ [last]) = some node)
    (hslashes : slashes = [] ∨ after.DirectoryAt (there ++ [last])) :
    after.locate path = .ok (there ++ [last]) := by
  obtain ⟨names, left, hsegments, hfollow⟩ := h.reached
  obtain ⟨entries, child, hdirectory, hlookup, _⟩ := Node.at?_cons hat
  refine locate_eq_ok_iff.mpr ⟨h.accepted, left, ?_⟩
  rw [origin_eq hplace, hsegments, Node.follow_append_eq_ok_iff]
  refine ⟨there, left, hbefore.follow_keeps hafter hkeeps hfollow, ?_⟩
  show after.root.follow left there ([last] ++ slashes) = _
  rw [Node.follow_append_eq_ok_iff]
  refine ⟨there ++ [last], left, hafter.follow_name hdirectory (Node.mem_of_lookup hlookup) left, ?_⟩
  rcases hslashes with rfl | ⟨listing, hlisting⟩
  · rw [Node.follow]
  · exact Node.follow_of_idle hlisting fun s hs => by rw [h.idle s hs]; decide

theorem locate_keeps (hbefore : before.root.Plain) (hafter : after.root.Plain)
    (hplace : after.workingDirectory = before.workingDirectory)
    (hkeeps : before.root.Keeps after.root) (hp : before.locate p = .ok here) :
    after.locate p = .ok here := by
  obtain ⟨haccepted, left, hfollow⟩ := locate_eq_ok_iff.mp hp
  refine locate_eq_ok_iff.mpr ⟨haccepted, left, ?_⟩
  rw [origin_eq hplace]
  exact hbefore.follow_keeps hafter hkeeps hfollow

/-! ### Making directories -/

/-- **Only directories are new**, at places that the given paths lead to. -/
structure Grows (before after : FileSystem) (paths : List Path) : Prop where
  plain : after.root.Plain
  place : after.workingDirectory = before.workingDirectory
  files : ∀ here content,
    after.root.at? here = some (.file content) ↔ before.root.at? here = some (.file content)
  directories : ∀ here, before.DirectoryAt here → after.DirectoryAt here
  made : ∀ here, after.DirectoryAt here →
    before.DirectoryAt here ∨ ∃ p ∈ paths, after.locate p = .ok here

theorem Grows.refl (h : before.root.Plain) (paths : List Path) : before.Grows before paths :=
  ⟨h, rfl, fun _ _ => Iff.rfl, fun _ => id, fun _ => .inl⟩

theorem Grows.keeps (hbefore : before.root.Plain) (h : before.Grows after paths) :
    before.root.Keeps after.root := by
  refine ⟨fun here entries hat => h.directories here ⟨entries, hat⟩, fun here node hat => ?_⟩
  cases hbefore.at? hat with
  | file content => exact ⟨_, (h.files here content).mpr hat⟩
  | directory =>
    obtain ⟨entries, hentries⟩ := h.directories here ⟨_, hat⟩
    exact ⟨_, hentries⟩

theorem Grows.mono {paths' : List Path} (h : before.Grows after paths)
    (hsubset : ∀ p ∈ paths, p ∈ paths') : before.Grows after paths' := by
  refine ⟨h.plain, h.place, h.files, h.directories, fun here hdirectory => ?_⟩
  rcases h.made here hdirectory with hold | ⟨p, hp, hlocate⟩
  · exact .inl hold
  · exact .inr ⟨p, hsubset p hp, hlocate⟩

theorem Grows.trans (h : before.Grows middle paths) (h' : middle.Grows after paths) :
    before.Grows after paths := by
  refine ⟨h'.plain, h'.place.trans h.place,
    fun here content => (h'.files here content).trans (h.files here content),
    fun here hdirectory => h'.directories here (h.directories here hdirectory), ?_⟩
  intro here hdirectory
  rcases h'.made here hdirectory with hmiddle | hnew
  · rcases h.made here hmiddle with hold | ⟨p, hp, hlocate⟩
    · exact .inl hold
    · exact .inr ⟨p, hp, locate_keeps h.plain h'.plain h'.place (h'.keeps h.plain) hlocate⟩
  · exact .inr hnew

/-- **Away from a new entry** there are the same files and the same directories. -/
theorem put_apart {entries : List (String × Node)} (hat : fs.root.at? there = some (.directory entries))
    (new : Node) (hapart : ¬ there ++ [last] <+: here) :
    (∀ content, (fs.put (there ++ [last]) new).root.at? here = some (.file content) ↔
      fs.root.at? here = some (.file content)) ∧
    ((fs.put (there ++ [last]) new).DirectoryAt here ↔ fs.DirectoryAt here) := by
  rw [DirectoryAt, DirectoryAt, put]
  rcases Node.at?_put_apart new hat hapart with hsame | ⟨old, changed, hold, hchanged⟩
  · simp only [hsame, implies_true, and_self]
  · simp [hold, hchanged]

theorem put_below {entries : List (String × Node)} (hat : fs.root.at? there = some (.directory entries))
    (last : String) (new : Node) (rest : Location) :
    (fs.put (there ++ [last]) new).root.at? (there ++ [last] ++ rest) = new.at? rest := by
  rw [List.append_assoc]
  exact Node.at?_put_below hat rest

theorem lookup_of_at? {entries : List (String × Node)} {rest : Location} {node : Node}
    (hat : fs.root.at? there = some (.directory entries))
    (hbelow : fs.root.at? (there ++ [last] ++ rest) = some node) :
    ∃ child, entries.lookup last = some child ∧ child.at? rest = some node := by
  rw [List.append_assoc] at hbelow
  obtain ⟨listing, child, hlisting, hlookup, hchild⟩ := Node.at?_cons hbelow
  rw [hat] at hlisting
  cases hlisting
  exact ⟨child, hlookup, hchild⟩

/-- Where a name stands for nothing or for a file, a new entry takes nothing else away. -/
theorem keeps_put (hfs : fs.root.Plain) {entries : List (String × Node)} (new : Node)
    (hat : fs.root.at? there = some (.directory entries))
    (hold : ∀ rest node, fs.root.at? (there ++ [last] ++ rest) = some node →
      rest = [] ∧ ∃ content, node = .file content) :
    fs.root.Keeps (fs.put (there ++ [last]) new).root := by
  constructor
  · intro here inner hhere
    by_cases hapart : there ++ [last] <+: here
    · obtain ⟨rest, rfl⟩ := hapart
      obtain ⟨_, content, hfile⟩ := hold rest _ hhere
      cases hfile
    · exact (put_apart hat new hapart).2.mpr ⟨inner, hhere⟩
  · intro here node hhere
    by_cases hapart : there ++ [last] <+: here
    · obtain ⟨rest, rfl⟩ := hapart
      obtain ⟨rfl, _⟩ := hold rest _ hhere
      exact ⟨new, put_below hat last new []⟩
    · obtain ⟨hfiles, hdirectories⟩ := put_apart hat new hapart
      cases hfs.at? hhere with
      | file content => exact ⟨_, (hfiles content).mpr hhere⟩
      | directory =>
        obtain ⟨listing, hlisting⟩ := hdirectories.mpr ⟨_, hhere⟩
        exact ⟨_, hlisting⟩

theorem Enters.grows_put (h : fs.Enters path there last slashes) (hfs : fs.root.Plain)
    {entries : List (String × Node)} (hat : fs.root.at? there = some (.directory entries))
    (hfree : entries.lookup last = none) :
    fs.Grows (fs.put (there ++ [last]) (.directory [])) [path] := by
  have hnone : ∀ rest node, fs.root.at? (there ++ [last] ++ rest) ≠ some node := by
    intro rest node hbelow
    obtain ⟨child, hchild, _⟩ := lookup_of_at? hat hbelow
    rw [hfree] at hchild
    cases hchild
  have hplain := hfs.put hat h.named Node.plain_empty
  have hkeeps : fs.root.Keeps (fs.put (there ++ [last]) (.directory [])).root :=
    keeps_put hfs _ hat fun rest node hbelow => absurd hbelow (hnone rest node)
  have hnew := put_below hat last (.directory [])
  refine ⟨hplain, rfl, fun here content => ?_,
    fun here ⟨entries, hhere⟩ => hkeeps.directories here entries hhere, fun here hdirectory => ?_⟩
  · by_cases hapart : there ++ [last] <+: here
    · obtain ⟨rest, rfl⟩ := hapart
      refine ⟨fun hfile => ?_, fun hfile => absurd hfile (hnone rest _)⟩
      rw [hnew rest] at hfile
      cases rest <;> cases hfile
    · exact (put_apart hat _ hapart).1 content
  · by_cases hapart : there ++ [last] <+: here
    · obtain ⟨rest, rfl⟩ := hapart
      obtain ⟨listing, hlisting⟩ := hdirectory
      rw [hnew rest] at hlisting
      cases rest with
      | cons name rest => cases hlisting
      | nil =>
        have hhere : (fs.put (there ++ [last]) (.directory [])).root.at? (there ++ [last]) =
            some (.directory []) := Node.at?_put_below hat []
        refine .inr ⟨path, List.mem_singleton_self _, ?_⟩
        rw [List.append_nil]
        exact h.locate hfs hplain rfl hkeeps hhere (.inr ⟨_, hhere⟩)
    · exact .inl ((put_apart hat _ hapart).2.mp hdirectory)

theorem grows_makeDirectory (hfs : fs.root.Plain) (h : fs.makeDirectory path = .ok made) :
    fs.Grows made [path] := by
  rw [makeDirectory] at h
  split at h
  · cases h
  · next haccepted =>
    simp only at h
    split at h
    · cases h
    · next last hlast =>
      split at h
      · cases h
      · next there entries left hreached =>
        split at h
        · cases h
        · next hdots =>
          split at h
          · cases h
          · next hfits =>
            split at h
            · cases h
            · next hfree =>
              cases h
              obtain ⟨slashes, _, henters⟩ :=
                enters_of_followToDirectory haccepted hlast hreached hdots hfits
              exact henters.grows_put hfs (Node.followToDirectory_eq_ok hreached).2
                (Option.not_isSome_iff_eq_none.mp hfree)

theorem grows_makeDirectoryUnlessThere (hfs : fs.root.Plain) (path : Path) :
    fs.Grows (fs.makeDirectoryUnlessThere path).1 [path] := by
  rw [makeDirectoryUnlessThere]
  split
  · next made hmade => exact grows_makeDirectory hfs hmade
  · split <;> exact Grows.refl hfs _

/-- **A chain of directories** is made one after the other, and those that were made stay. -/
theorem grows_makeChain (hfs : fs.root.Plain) (paths : List Path) :
    fs.Grows (fs.makeChain paths).1 paths := by
  induction paths with
  | nil => exact Grows.refl hfs _
  | cons path above ih =>
    have habove : ∀ p ∈ above, p ∈ path :: above := fun p => List.mem_cons_of_mem _
    have hpath : ∀ p ∈ [path], p ∈ path :: above := by simp
    rw [makeChain]
    split
    · exact Grows.refl hfs _
    · split
      · next made hmade => exact (grows_makeDirectory hfs hmade).mono hpath
      · split
        · next changed fault hchain =>
          rw [hchain] at ih
          exact ih.mono habove
        · next changed hchain =>
          rw [hchain] at ih
          exact (ih.mono habove).trans ((grows_makeDirectoryUnlessThere ih.plain path).mono hpath)
      · split <;> exact Grows.refl hfs _

/-! ### Writing a file -/

/-- **The file at the path holds the text**, every other file is as it was, and only directories are
new, at places that the given paths lead to. -/
structure Writes (before after : FileSystem) (path : Path) (text : String) (paths : List Path) :
    Prop where
  plain : after.root.Plain
  place : after.workingDirectory = before.workingDirectory
  file : ∃ here, after.locate path = .ok here ∧
    after.root.at? here = some (.file text.toUTF8) ∧
    ∀ there ≠ here, ∀ content,
      after.root.at? there = some (.file content) ↔ before.root.at? there = some (.file content)
  directories : ∀ here, before.DirectoryAt here → after.DirectoryAt here
  made : ∀ here, after.DirectoryAt here →
    before.DirectoryAt here ∨ ∃ p ∈ paths, after.locate p = .ok here

theorem Enters.writes_put (h : fs.Enters path there last []) (hfs : fs.root.Plain)
    {entries : List (String × Node)} (hat : fs.root.at? there = some (.directory entries))
    (hfree : ∀ child, entries.lookup last = some child → ∃ content, child = .file content) :
    fs.Writes (fs.put (there ++ [last]) (.file text.toUTF8)) path text [] := by
  have hold : ∀ rest node, fs.root.at? (there ++ [last] ++ rest) = some node →
      rest = [] ∧ ∃ content, node = .file content := by
    intro rest node hbelow
    obtain ⟨child, hchild, hnode⟩ := lookup_of_at? hat hbelow
    obtain ⟨content, rfl⟩ := hfree child hchild
    cases rest with
    | nil =>
      cases hnode
      exact ⟨rfl, content, rfl⟩
    | cons name rest => cases hnode
  have hplain := hfs.put hat h.named (.file text.toUTF8)
  have hkeeps : fs.root.Keeps (fs.put (there ++ [last]) (.file text.toUTF8)).root :=
    keeps_put hfs _ hat hold
  have hnew := put_below hat last (.file text.toUTF8)
  have hhere : (fs.put (there ++ [last]) (.file text.toUTF8)).root.at? (there ++ [last]) =
      some (.file text.toUTF8) := Node.at?_put_below hat []
  refine ⟨hplain, rfl, ⟨there ++ [last], h.locate hfs hplain rfl hkeeps hhere (.inl rfl), hhere, ?_⟩,
    fun here ⟨entries, hhere⟩ => hkeeps.directories here entries hhere, fun here hdirectory => ?_⟩
  · intro here hne content
    by_cases hapart : there ++ [last] <+: here
    · obtain ⟨rest, rfl⟩ := hapart
      have hrest : rest ≠ [] := fun hnil => hne (by rw [hnil, List.append_nil])
      refine ⟨fun hfile => ?_, fun hfile => absurd (hold rest _ hfile).1 hrest⟩
      rw [hnew rest] at hfile
      cases rest with
      | nil => exact absurd rfl hrest
      | cons name rest => cases hfile
    · exact (put_apart hat _ hapart).1 content
  · by_cases hapart : there ++ [last] <+: here
    · obtain ⟨rest, rfl⟩ := hapart
      obtain ⟨listing, hlisting⟩ := hdirectory
      rw [hnew rest] at hlisting
      cases rest <;> cases hlisting
    · exact .inl ((put_apart hat _ hapart).2.mp hdirectory)

theorem exists_writeTarget (hfs : fs.root.Plain) (haccepted : refused? path = none)
    (h : fs.root.writeTarget maxLinks (fs.origin path) path.segments = .ok here) :
    ∃ there last entries, here = there ++ [last] ∧ fs.Enters path there last [] ∧
      fs.root.at? there = some (.directory entries) ∧
      ∀ child, entries.lookup last = some child → ∃ content, child = .file content := by
  rw [Node.writeTarget] at h
  split at h
  · cases h
  · next last hlast =>
    split at h
    · cases h
    · next there entries left hreached =>
      split at h
      · cases h
      · next hdots =>
        split at h
        · cases h
        · next hfits =>
          have hat := (Node.followToDirectory_eq_ok hreached).2
          rw [Bool.or_eq_true, not_or, decide_eq_true_eq, Nat.not_lt] at hdots
          obtain ⟨slashes, hslashes, henters⟩ :=
            enters_of_followToDirectory haccepted hlast hreached hdots.1 hfits
          have hnil : slashes = [] := by
            have hlength := congrArg List.length hslashes
            rw [List.length_append] at hlength
            exact List.eq_nil_of_length_eq_zero (by omega)
          subst hnil
          split at h
          · next hnone =>
            cases h
            exact ⟨there, last, entries, rfl, henters, hat, by simp [hnone]⟩
          · next content hfile =>
            cases h
            exact ⟨there, last, entries, rfl, henters, hat, by simp [hfile]⟩
          · cases h
          · next target hlink => cases (hfs.at? hat).entry (Node.mem_of_lookup hlink)

/-- **A file that is written is all that changes.** -/
theorem writes_write (hfs : fs.root.Plain) (h : fs.write path text = .ok after) :
    fs.Writes after path text [] := by
  rw [write] at h
  split at h
  · cases h
  · next haccepted =>
    split at h
    · cases h
    · next here hhere =>
      cases h
      obtain ⟨there, last, entries, rfl, henters, hat, hfree⟩ :=
        exists_writeTarget hfs haccepted hhere
      exact henters.writes_put hfs hat hfree

theorem Writes.keeps (hbefore : before.root.Plain) (h : before.Writes after path text paths) :
    before.root.Keeps after.root := by
  refine ⟨fun here entries hat => h.directories here ⟨entries, hat⟩, fun here node hat => ?_⟩
  obtain ⟨there, _, hfile, hother⟩ := h.file
  by_cases hhere : here = there
  · exact ⟨_, hhere ▸ hfile⟩
  · cases hbefore.at? hat with
    | file content => exact ⟨_, (hother here hhere content).mpr hat⟩
    | directory =>
      obtain ⟨entries, hentries⟩ := h.directories here ⟨_, hat⟩
      exact ⟨_, hentries⟩

theorem Grows.writes (h : before.Grows middle paths) (h' : middle.Writes after path text []) :
    before.Writes after path text paths := by
  obtain ⟨here, hlocate, hfile, hother⟩ := h'.file
  refine ⟨h'.plain, h'.place.trans h.place, ⟨here, hlocate, hfile, fun there hne content => ?_⟩,
    fun there hdirectory => h'.directories there (h.directories there hdirectory),
    fun there hdirectory => ?_⟩
  · exact (hother there hne content).trans (h.files there content)
  · rcases h'.made there hdirectory with hmiddle | ⟨p, hp, _⟩
    · rcases h.made there hmiddle with hold | ⟨p, hp, hmade⟩
      · exact .inl hold
      · exact .inr ⟨p, hp, locate_keeps h.plain h'.plain h'.place (h'.keeps h.plain) hmade⟩
    · exact absurd hp List.not_mem_nil

end FileSystem

end LivingGuide
