import LivingGuide.Project
import LivingGuide.Proofs.Inventory
import LivingGuide.Proofs.Reading
import LivingGuide.Proofs.Terminal.Paint
import Mathlib.Data.List.TakeDrop

/-!
# Trees without paint

Where the names and the files of a tree hold no paint, a command meets none.  A path that leads
anywhere is made of names of the tree, of `.` and of `..`, so it holds none either, whoever wrote it
(`FileSystem.unpainted_of_locate`):

    fs.locate p = .ok here  →  p.Unpainted

A source that a manifest names may hold anything, by an escape of its quoted text for one, but then it
leads nowhere and nothing is listed below it.

* `Node.Unpainted`: no name and no text of a file in the tree holds paint.
* `FileSystem.unpainted_of_mem_walk`: a walk lists paths without paint.
* `Project.unpainted_of_find`: so does the project of paths without paint.
-/

namespace LivingGuide

open Text

/-! ### Paths -/

namespace Path

/-- A path without paint. -/
def Unpainted (p : Path) : Prop :=
  Text.Unpainted p.text

instance (p : Path) : Decidable p.Unpainted :=
  inferInstanceAs (Decidable (Text.Unpainted p.text))

variable {p q base : Path} {segments left : List String}

theorem unpainted_ofSegments (h : ∀ s ∈ segments, Text.Unpainted s) :
    (ofSegments segments).Unpainted :=
  unpainted_intercalate (by decide) h

/-- **A path holds no paint exactly if none of its segments does.** -/
theorem unpainted_iff : p.Unpainted ↔ ∀ s ∈ p.segments, Text.Unpainted s := by
  constructor
  · intro h s hs hmem
    obtain ⟨cs, hcs, rfl⟩ := List.mem_map.mp hs
    rw [String.toList_ofList] at hmem
    have hjoin : ['/'].intercalate (p.text.toList.splitOn '/') = p.text.toList :=
      List.intercalate_splitOn '/'
    exact h (hjoin ▸ mem_intercalate_of_mem hcs hmem)
  · intro h
    rw [← ofSegments_segments p]
    exact unpainted_ofSegments h

theorem Unpainted.join (hp : p.Unpainted) (hq : q.Unpainted) : (p.join q).Unpainted := by
  have happend : Text.Unpainted (p.text ++ q.text) := unpainted_append.mpr ⟨hp, hq⟩
  have hslash : Text.Unpainted (p.text ++ "/" ++ q.text) := by
    simp only [unpainted_append]
    exact ⟨⟨hp, by decide⟩, hq⟩
  rw [Path.join]
  split_ifs
  · exact hq
  · exact happend
  · exact hslash

theorem start_subset (segments : List String) : (start segments).2 ⊆ segments := by
  unfold start
  split
  · exact List.subset_cons_self _ _
  · exact List.subset_cons_self _ _
  · exact List.Subset.refl _

theorem start_ne_name (segments : List String) (name : String) :
    (start segments).1 ≠ some (.name name) := by
  unfold start
  split
  · exact nofun
  · exact nofun
  · exact nofun

theorem Component.ofSegment_eq_name {segment name : String}
    (h : Component.ofSegment segment = .name name) : segment = name := by
  unfold Component.ofSegment at h
  split at h
  · cases h
  · exact Component.name.inj h

theorem trimIdleEnd_subset (segments : List String) : trimIdleEnd segments ⊆ segments := by
  intro s hs
  rw [trimIdleEnd, List.mem_reverse] at hs
  exact List.mem_reverse.mp ((List.dropWhile_sublist _).subset hs)

theorem dropLastName?_subset (h : dropLastName? segments = some left) : left ⊆ segments := by
  rw [dropLastName?] at h
  split at h
  · cases h
  · next last before hbefore =>
    cases h
    intro s hs
    have hs := (List.dropWhile_sublist _).subset (List.mem_reverse.mp hs)
    have hmem : s ∈ segments.reverse.dropWhile isIdle := by
      rw [hbefore]
      exact List.mem_cons_of_mem last hs
    exact List.mem_reverse.mp ((List.dropWhile_sublist _).subset hmem)

theorem dropComponents?_subset {cs : List Component} (h : dropComponents? cs segments = some left) :
    left ⊆ segments := by
  fun_induction dropComponents? cs segments with
  | case1 =>
    cases h
    exact List.Subset.refl _
  | case2 | case5 => cases h
  | case3 c cs s rest hidle ih => exact List.subset_cons_of_subset s (ih h)
  | case4 cs s rest hidle ih => exact List.subset_cons_of_subset s (ih h)

theorem unpainted_restart (first : Option Component) (h : ∀ s ∈ segments, Text.Unpainted s) :
    (restart first segments).Unpainted := by
  unfold restart
  split
  · decide
  · exact unpainted_ofSegments (List.forall_mem_cons.mpr ⟨by decide, h⟩)
  · exact unpainted_ofSegments (List.forall_mem_cons.mpr ⟨by decide, h⟩)
  · exact unpainted_ofSegments h

theorem Unpainted.parent (hp : p.Unpainted) (h : p.parent? = some q) : q.Unpainted := by
  have hsegments := unpainted_iff.mp hp
  unfold parent? at h
  split at h
  next first rest hstart =>
  split at h
  · next kept hkept =>
    cases h
    have hrest : (start p.segments).2 = rest := by rw [hstart]
    refine unpainted_restart first fun s hs => hsegments s (start_subset p.segments ?_)
    rw [hrest]
    exact dropLastName?_subset hkept hs
  · split at h
    · cases h
      decide
    · cases h

theorem Unpainted.relativeTo (hp : p.Unpainted) (h : p.relativeTo? base = some q) :
    q.Unpainted := by
  have hrest : ∀ s ∈ (start p.segments).2, Text.Unpainted s := fun s hs =>
    unpainted_iff.mp hp s (start_subset p.segments hs)
  have hleft : ∀ {cs left}, dropComponents? cs (start p.segments).2 = some left →
      (ofSegments (trimIdleEnd (left.dropWhile isIdle))).Unpainted := by
    intro cs left hdrop
    refine unpainted_ofSegments fun s hs => hrest s (dropComponents?_subset hdrop ?_)
    exact (List.dropWhile_sublist _).subset (trimIdleEnd_subset _ hs)
  unfold relativeTo? at h
  split at h
  · next first rest hstart hbase =>
    cases h
    rw [hstart] at hrest
    exact unpainted_restart _ fun s hs => hrest s (trimIdleEnd_subset _ hs)
  · next first rest c cs hstart hbase =>
    rw [hstart] at hleft
    split at h
    · obtain ⟨left, hdrop, rfl⟩ := Option.map_eq_some_iff.mp h
      exact hleft hdrop
    · cases h
  · next rest hstart hbase =>
    rw [hstart] at hleft
    obtain ⟨left, hdrop, rfl⟩ := Option.map_eq_some_iff.mp h
    exact hleft hdrop

theorem mem_segments_of_fileName? {name : String} (h : p.fileName? = some name) :
    name ∈ p.segments := by
  unfold fileName? at h
  split at h
  · next n hlast =>
    cases h
    rcases List.mem_append.mp (List.mem_of_getLast? hlast) with hmem | hmem
    · exact absurd (Option.mem_toList.mp hmem) (start_ne_name p.segments name)
    · obtain ⟨segment, hsegment, heq⟩ := List.mem_map.mp hmem
      rw [Component.ofSegment_eq_name heq] at hsegment
      exact start_subset p.segments (List.mem_of_mem_filter hsegment)
  · cases h

theorem cutExtension_subset (name : String) : (cutExtension name).1.toList ⊆ name.toList := by
  intro c hc
  unfold cutExtension at hc
  split at hc
  · exact hc
  · exact hc
  · next dot stem _ hspan =>
    rw [List.span_eq_takeWhile_dropWhile] at hspan
    have hdrop : name.toList.reverse.dropWhile (· != '.') = dot :: stem := congrArg Prod.snd hspan
    rw [String.toList_ofList, List.mem_reverse] at hc
    have hmem : c ∈ name.toList.reverse.dropWhile (· != '.') :=
      hdrop ▸ List.mem_cons_of_mem dot hc
    exact List.mem_reverse.mp ((List.dropWhile_sublist _).subset hmem)

theorem Unpainted.setExtension (hp : p.Unpainted) {extension : String}
    (hextension : Text.Unpainted extension) : (p.setExtension extension).Unpainted := by
  have hsegments := unpainted_iff.mp hp
  unfold Path.setExtension
  split
  · exact hp
  · next name hname =>
    have hstem : Text.Unpainted (cutExtension name).1 :=
      (hsegments name (mem_segments_of_fileName? hname)).of_subset (cutExtension_subset name)
    refine unpainted_ofSegments (List.forall_mem_append.mpr ⟨fun s hs => ?_, ?_⟩)
    · exact hsegments s (trimIdleEnd_subset _ (List.dropLast_subset _ hs))
    · simp only [List.forall_mem_singleton, unpainted_append]
      exact ⟨⟨hstem, by decide⟩, hextension⟩

theorem Unpainted.withExtension (hp : p.Unpainted) {extension : String}
    (hextension : Text.Unpainted extension) : (p.withExtension extension).Unpainted := by
  unfold Path.withExtension
  split
  · exact hp.setExtension hextension
  · refine Unpainted.setExtension ?_ hextension
    refine Text.Unpainted.of_subset hp ?_
    rw [String.toList_ofList]
    exact List.take_subset _ _

theorem Unpainted.shownFrom (hp : p.Unpainted) (directory : Path) :
    Text.Unpainted (p.shownFrom directory) := by
  unfold Path.shownFrom
  split
  · next q hq =>
    split
    · decide
    · exact hp.relativeTo hq
  · exact hp

end Path

/-! ### Trees -/

namespace Node

/-- **A tree without paint** in its names and in the texts of its files.  Where its links lead is of no
concern. -/
inductive Unpainted : Node → Prop
  | file {content : ByteArray}
      (text : ∀ s, String.fromUTF8? content = some s → Text.Unpainted s) : Unpainted (.file content)
  | link (target : Path) : Unpainted (.link target)
  | directory {entries : List (String × Node)}
      (named : ∀ entry ∈ entries, Text.Unpainted entry.1)
      (below : ∀ entry ∈ entries, Unpainted entry.2) : Unpainted (.directory entries)

variable {root node : Node} {entries : List (String × Node)} {name : String}

theorem Unpainted.entryName (h : Unpainted (.directory entries)) (hmem : (name, node) ∈ entries) :
    Text.Unpainted name := by
  cases h with
  | directory named _ => exact named _ hmem

theorem Unpainted.entry (h : Unpainted (.directory entries)) (hmem : (name, node) ∈ entries) :
    node.Unpainted := by
  cases h with
  | directory _ below => exact below _ hmem

theorem Unpainted.at? {here : Location} (h : root.Unpainted) (hat : root.at? here = some node) :
    node.Unpainted :=
  at?_of_entry Unpainted.entry h hat

/-- **Segments that lead anywhere hold no paint.**  Each is skipped, goes up, or is the name of an
entry; those of a link come before the rest, and the rest is followed behind them. -/
theorem Unpainted.of_follow (h : root.Unpainted) {links : Nat} {here : Location}
    {segments : List String} {reached : Location × Nat}
    (hfollow : root.follow links here segments = .ok reached) :
    ∀ s ∈ segments, Text.Unpainted s := by
  fun_induction Node.follow root links here segments with
  | case1 => exact fun _ hs => absurd hs List.not_mem_nil
  | case2 | case3 | case4 | case7 | case8 | case9 => cases hfollow
  | case5 links here segment rest entries hat hidle ih =>
    refine List.forall_mem_cons.mpr ⟨?_, ih hfollow⟩
    rw [Path.isIdle, Bool.or_eq_true, beq_iff_eq, beq_iff_eq] at hidle
    rcases hidle with rfl | rfl <;> decide
  | case6 links here rest entries hat hidle ih =>
    exact List.forall_mem_cons.mpr ⟨by decide, ih hfollow⟩
  | case10 here segment rest entries hat hidle hup hfits target hlookup links ih =>
    have hrest := ih hfollow
    refine List.forall_mem_cons.mpr ⟨(h.at? hat).entryName (mem_of_lookup hlookup), fun s hs => ?_⟩
    exact hrest s (List.mem_append_right _ hs)
  | case11 links here segment rest entries hat hidle hup hfits entry hlink hlookup ih =>
    exact List.forall_mem_cons.mpr ⟨(h.at? hat).entryName (mem_of_lookup hlookup), ih hfollow⟩

end Node

namespace FileSystem

variable {fs : FileSystem} {p q : Path} {here : Location}

/-- **A path that leads anywhere holds no paint.** -/
theorem unpainted_of_locate (hfs : fs.root.Unpainted) (h : fs.locate p = .ok here) :
    p.Unpainted := by
  obtain ⟨_, left, hfollow⟩ := locate_eq_ok_iff.mp h
  exact Path.unpainted_iff.mpr (hfs.of_follow hfollow)

theorem unpainted_of_holdsText (hfs : fs.root.Unpainted) {text : String}
    (h : fs.HoldsText p text) : Text.Unpainted text := by
  obtain ⟨here, content, _, hat, htext⟩ := h
  cases hfs.at? hat with
  | file hcontent => exact hcontent text htext

theorem unpainted_of_mem_walkFrom (hfs : fs.root.Unpainted) {depth : Nat} {above : List Location}
    (hp : p.Unpainted) (hq : q ∈ fs.walkFrom depth above p) : q.Unpainted := by
  induction depth generalizing above p with
  | zero => cases hq
  | succ depth ih =>
    unfold walkFrom at hq
    split at hq
    · cases hq
    · next here hlocate =>
      split at hq
      · next entries hat =>
        obtain ⟨⟨name, node⟩, hentry, hq⟩ := List.mem_flatMap.mp hq
        have hmem : (name, node) ∈ entries := List.mem_mergeSort.mp hentry
        have hbelow : (p.join ⟨name⟩).Unpainted := hp.join ((hfs.at? hat).entryName hmem)
        have hshown : q ∈ [p.join ⟨name⟩] → q.Unpainted := fun h => List.mem_singleton.mp h ▸ hbelow
        dsimp only at hq
        split at hq
        · exact hshown hq
        · split at hq
          · exact hshown hq
          · exact ih hbelow hq
        · split at hq
          · cases hq
          · split at hq
            · exact hshown hq
            · split at hq
              · cases hq
              · exact ih hbelow hq
            · cases hq
      · cases hq

theorem unpainted_of_mem_walk (hfs : fs.root.Unpainted) (hp : p.Unpainted) (hq : q ∈ fs.walk p) :
    q.Unpainted := by
  rw [walk] at hq
  split at hq
  · exact List.mem_singleton.mp hq ▸ hp
  · exact unpainted_of_mem_walkFrom hfs hp hq

end FileSystem

/-! ### Projects -/

namespace Inventory

variable {fs : FileSystem} {p : Path}

/-- **A source offers paths without paint**, whatever it holds itself. -/
theorem unpainted_of_mem_offeredBy (hfs : fs.root.Unpainted) {manifest : Manifest} {path : Path}
    (hp : p ∈ offeredBy fs manifest path) : p.Unpainted := by
  rw [offeredBy] at hp
  split at hp
  · next hdirectory =>
    obtain ⟨here, hlocate, _⟩ := FileSystem.isDirectory_iff.mp hdirectory
    have hpath := FileSystem.unpainted_of_locate hfs hlocate
    exact FileSystem.unpainted_of_mem_walk hfs hpath (List.mem_of_mem_filter hp)
  · split at hp
    · next hfile =>
      obtain ⟨here, hlocate, _⟩ := FileSystem.isFile_iff.mp hfile
      exact List.mem_singleton.mp hp ▸ FileSystem.unpainted_of_locate hfs hlocate
    · cases hp

theorem unpainted_of_mem_ofSources (hfs : fs.root.Unpainted) {manifest : Manifest} {root : Path}
    {sources : List String} (hp : p ∈ (ofSources fs manifest root sources).files) :
    p.Unpainted := by
  have hoffered := (collects_ofSources fs manifest root sources).mem p hp
  obtain ⟨source, _, hp⟩ := List.mem_flatMap.mp hoffered
  exact unpainted_of_mem_offeredBy hfs hp

/-- The inventory holds only what was offered, and that holds no paint. -/
def CollectsUnpainted (inventory : Inventory) : Prop :=
  ∃ offered, Collects inventory offered ∧ ∀ p ∈ offered, p.Unpainted

theorem CollectsUnpainted.addPath {inventory : Inventory} (h : CollectsUnpainted inventory)
    (hfs : fs.root.Unpainted) {path : Path} (hpath : path.Unpainted) :
    CollectsUnpainted (Project.addPath fs inventory path) := by
  obtain ⟨offered, hcollects, hoffered⟩ := h
  rw [Project.addPath]
  split
  · refine ⟨_, hcollects.merge (Collects.empty.pushAll _), fun p hp => ?_⟩
    rcases List.mem_append.mp hp with hp | hp
    · exact hoffered p hp
    · exact FileSystem.unpainted_of_mem_walk hfs hpath (List.mem_of_mem_filter hp)
  · refine ⟨_, hcollects.push path, fun p hp => ?_⟩
    rcases List.mem_append.mp hp with hp | hp
    · exact hoffered p hp
    · exact List.mem_singleton.mp hp ▸ hpath

theorem CollectsUnpainted.addPaths {paths : List Path} {inventory : Inventory}
    (h : CollectsUnpainted inventory) (hfs : fs.root.Unpainted)
    (hpaths : ∀ path ∈ paths, path.Unpainted) :
    CollectsUnpainted (paths.foldl (Project.addPath fs) inventory) := by
  induction paths generalizing inventory with
  | nil => exact h
  | cons path paths ih =>
    obtain ⟨hpath, hpaths⟩ := List.forall_mem_cons.mp hpaths
    exact ih (h.addPath hfs hpath) hpaths

end Inventory

namespace Project

/-- A project whose paths hold no paint. -/
structure Unpainted (project : Project) : Prop where
  root : project.root.Unpainted
  files : ∀ p ∈ project.inventory.files, p.Unpainted

variable {fs : FileSystem} {project : Project}

theorem unpainted_of_atRoot (hfs : fs.root.Unpainted) {root : Path} (hroot : root.Unpainted)
    (h : atRoot fs root = .ok project) : project.Unpainted := by
  rw [atRoot] at h
  cases hmanifest : manifestAt fs root with
  | error e => rw [hmanifest] at h; cases h
  | ok declared =>
    rw [hmanifest] at h
    cases h
    exact ⟨hroot, fun p hp => Inventory.unpainted_of_mem_ofSources hfs hp⟩

theorem unpainted_rootOf {paths : List Path} (hpaths : ∀ path ∈ paths, path.Unpainted) :
    (rootOf paths).Unpainted := by
  cases paths with
  | nil => decide
  | cons path paths =>
    rw [rootOf, List.head?_cons, Option.bind_some]
    cases hparent : path.parent? with
    | none => decide
    | some parent => exact (hpaths path List.mem_cons_self).parent hparent

theorem unpainted_ofPaths (hfs : fs.root.Unpainted) {paths : List Path}
    (hpaths : ∀ path ∈ paths, path.Unpainted) : (ofPaths fs paths).Unpainted := by
  have hempty : Inventory.CollectsUnpainted .empty :=
    ⟨[], .empty, fun _ hp => absurd hp List.not_mem_nil⟩
  obtain ⟨offered, hcollects, hoffered⟩ := hempty.addPaths hfs hpaths
  exact ⟨unpainted_rootOf hpaths, fun p hp => hoffered p (hcollects.mem p hp)⟩

/-- **The project of paths without paint**, in a tree without paint. -/
theorem unpainted_of_find (hfs : fs.root.Unpainted) {paths : List Path}
    (hpaths : ∀ path ∈ paths, path.Unpainted) (h : find fs paths = .ok project) :
    project.Unpainted := by
  rw [find] at h
  split at h
  · exact unpainted_of_atRoot hfs (by decide) h
  · cases h
    exact unpainted_ofPaths hfs hpaths

end Project

end LivingGuide
