import LivingGuide.Path
import LivingGuide.Proofs.Text
import Mathlib.Data.List.Basic

/-!
# What a continued path spells

A path is compared by its components and followed by its segments.  When a path is continued by a
relative one, the segments of the second stand behind those of the first, and a slash that ended
the first is not counted twice (`segments_join`).  So the components of the whole are those of the
first path and then the steps of the second, in whatever way the two were spelled
(`components_join`):

    (p.join q).components = p.components ++ q.steps.map Component.ofSegment.

This needs `p` to be written at all: continued from nothing, a leading `.` of `q` would be the first
component.

* `stem`: the segments of a path without the empty one behind a last slash.
* `steps`: the segments of a relative path that are not skipped.
* `down`: a path continued by names, as a walk continues it.
* `Descends`: the path is relative and never goes up.
-/

namespace LivingGuide.Path

/-! ### Segments -/

theorem segments_ne_nil (p : Path) : p.segments ≠ [] := by
  rw [segments, ne_eq, List.map_eq_nil_iff]
  exact List.splitOn_ne_nil _ _

theorem ofSegments_segments (p : Path) : ofSegments p.segments = p := by
  have hid : String.toList ∘ String.ofList = id := by
    funext cs
    exact String.toList_ofList
  have hjoin : ['/'].intercalate (p.text.toList.splitOn '/') = p.text.toList :=
    List.intercalate_splitOn '/'
  obtain ⟨text⟩ := p
  rw [ofSegments, Path.segments, Path.mk.injEq, ← String.toList_inj, String.toList_intercalate,
    List.map_map, hid, List.map_id]
  exact hjoin

theorem segments_cut (before after : List Char) :
    segments ⟨String.ofList (before ++ '/' :: after)⟩ =
      segments ⟨String.ofList before⟩ ++ segments ⟨String.ofList after⟩ := by
  rw [segments, segments, segments, String.toList_ofList, String.toList_ofList,
    String.toList_ofList, List.splitOn_append_cons_self, List.map_append]

theorem segments_slash (before after : String) :
    segments ⟨before ++ "/" ++ after⟩ = segments ⟨before⟩ ++ segments ⟨after⟩ := by
  have hwhole : before ++ "/" ++ after = String.ofList (before.toList ++ '/' :: after.toList) := by
    rw [← String.toList_inj]
    simp
  rw [hwhole, segments_cut, String.ofList_toList, String.ofList_toList]

theorem segments_of_no_slash {s : String} (h : '/' ∉ s.toList) : segments ⟨s⟩ = [s] := by
  rw [segments, List.splitOn_eq_singleton h, List.map_singleton, String.ofList_toList]

theorem noSlash_of_mem_segments {p : Path} {s : String} (h : s ∈ p.segments) :
    '/' ∉ s.toList := by
  obtain ⟨cs, hcs, rfl⟩ := List.mem_map.mp h
  rw [String.toList_ofList]
  exact Text.notMem_of_mem_splitOn hcs

/-- The segments of a path without the empty one behind a last slash. -/
def stem (p : Path) : List String :=
  if p.text.toList.getLast? = some '/' then p.segments.dropLast else p.segments

theorem stem_of_slash {before : List Char} :
    stem ⟨String.ofList (before ++ ['/'])⟩ = segments ⟨String.ofList before⟩ := by
  rw [stem, String.toList_ofList, List.getLast?_concat, if_pos rfl, segments_cut]
  exact List.dropLast_concat

theorem segments_eq_stem (p : Path) : p.segments = p.stem ∨ p.segments = p.stem ++ [""] := by
  by_cases hlast : p.text.toList.getLast? = some '/'
  · obtain ⟨before, hbefore⟩ := List.getLast?_eq_some_iff.mp hlast
    obtain ⟨text⟩ := p
    obtain rfl : text = String.ofList (before ++ ['/']) := by
      rw [← hbefore, String.ofList_toList]
    exact .inr (by rw [stem_of_slash, segments_cut]; rfl)
  · exact .inl (by rw [stem, if_neg hlast])

/-- **The segments of a continued path are its stem and the segments behind it.** -/
theorem segments_join {p q : Path} (hp : p.text ≠ "") (hq : q.isAbsolute = false) :
    (p.join q).segments = p.stem ++ q.segments := by
  obtain ⟨p⟩ := p
  obtain ⟨q⟩ := q
  have hjoin : (join ⟨p⟩ ⟨q⟩) =
      if p.toList.getLast?.all (· == '/') then ⟨p ++ q⟩ else ⟨p ++ "/" ++ q⟩ := by
    rw [join, hq]
    rfl
  rw [hjoin]
  by_cases hlast : p.toList.getLast? = some '/'
  · obtain ⟨before, hbefore⟩ := List.getLast?_eq_some_iff.mp hlast
    obtain rfl : p = String.ofList (before ++ ['/']) := by
      rw [← hbefore, String.ofList_toList]
    have hwhole : String.ofList (before ++ ['/']) ++ q =
        String.ofList (before ++ '/' :: q.toList) := by
      rw [← String.toList_inj]
      simp
    rw [hlast, Option.all_some, if_pos (by decide), hwhole, segments_cut, stem_of_slash,
      String.ofList_toList]
  · have hends : ¬ p.toList.getLast?.all (· == '/') = true := by
      cases hp' : p.toList.getLast? with
      | none => exact absurd (String.toList_eq_nil_iff.mp (List.getLast?_eq_none_iff.mp hp')) hp
      | some c =>
        rw [Option.all_some, beq_iff_eq]
        exact fun hc => hlast (by rw [hp', hc])
    rw [if_neg hends, segments_slash, stem, if_neg hlast]

/-! ### Components -/

theorem start_of_ne {s : String} (hempty : s ≠ "") (hdot : s ≠ ".") (rest : List String) :
    start (s :: rest) = (none, s :: rest) := by
  rw [start]
  · intro _ _ h
    exact hempty (List.cons.inj h).1
  · intro _ h
    exact hdot (List.cons.inj h).1

/-- The segments of a path that are not skipped. -/
def steps (p : Path) : List String :=
  p.segments.filter (!isIdle ·)

theorem eq_empty_of_segments {p : Path} (h : p.segments = [""]) : p.text = "" := by
  rw [← ofSegments_segments p, h]
  rfl

/-- Only a skipped segment can start a path as the root or as a leading `.`. -/
theorem filter_start (segments : List String) :
    (start segments).2.filter (!isIdle ·) = segments.filter (!isIdle ·) := by
  unfold start
  split
  · exact (List.filter_cons_of_neg (by decide)).symm
  · exact (List.filter_cons_of_neg (by decide)).symm
  · rfl

theorem components_eq (p : Path) :
    p.components = (start p.segments).1.toList ++ p.steps.map Component.ofSegment := by
  rw [components, filter_start]
  rfl

theorem same_iff {p q : Path} : p.same q ↔ p.components = q.components := by
  rw [same, beq_iff_eq]

/-- The first component of a path does not depend on what follows the first segments, but for one
empty segment, which is the root as soon as something follows it. -/
theorem start_append {before rest rest' : List String} (hne : before ≠ [])
    (hempty : before = [""] → rest ≠ [] ∧ rest' ≠ []) :
    (start (before ++ rest)).1 = (start (before ++ rest')).1 := by
  cases before with
  | nil => exact absurd rfl hne
  | cons s before =>
    by_cases hs : s = ""
    · subst hs
      cases before with
      | nil =>
        obtain ⟨hrest, hrest'⟩ := hempty rfl
        obtain ⟨t, rest, rfl⟩ := List.exists_cons_of_ne_nil hrest
        obtain ⟨t', rest', rfl⟩ := List.exists_cons_of_ne_nil hrest'
        rfl
      | cons t before => rfl
    · by_cases hdot : s = "."
      · subst hdot
        rfl
      · rw [List.cons_append, List.cons_append, start_of_ne hs hdot, start_of_ne hs hdot]

/-! ### Continued paths -/

variable {p q : Path}

theorem steps_join (hp : p.text ≠ "") (hq : q.isAbsolute = false) :
    (p.join q).steps = p.steps ++ q.steps := by
  rw [steps, segments_join hp hq, List.filter_append, steps]
  rcases p.segments_eq_stem with hstem | hstem
  · rw [← hstem]
    rfl
  · rw [hstem, List.filter_append, List.append_assoc]
    rfl

theorem start_join (hp : p.text ≠ "") (hq : q.isAbsolute = false) :
    (start (p.join q).segments).1 = (start p.segments).1 := by
  have hne : p.segments ≠ [""] := fun h => hp (eq_empty_of_segments h)
  rw [segments_join hp hq]
  rcases p.segments_eq_stem with hstem | hstem
  · have hstart : (start (p.segments ++ q.segments)).1 = (start (p.segments ++ [])).1 :=
      start_append p.segments_ne_nil fun h => absurd h hne
    rw [List.append_nil] at hstart
    rw [← hstem, hstart]
  · rw [hstem]
    refine start_append ?_ fun _ => ⟨q.segments_ne_nil, List.cons_ne_nil _ _⟩
    intro hnil
    rw [hnil] at hstem
    exact hne hstem

/-- **The components of a continued path** are those of the path and the steps behind it. -/
theorem components_join (hp : p.text ≠ "") (hq : q.isAbsolute = false) :
    (p.join q).components = p.components ++ q.steps.map Component.ofSegment := by
  rw [components_eq, components_eq, start_join hp hq, steps_join hp hq, List.map_append,
    List.append_assoc]

theorem exists_text_join (hq : q.isAbsolute = false) : ∃ tail, (p.join q).text = p.text ++ tail := by
  rw [join, hq, if_neg Bool.false_ne_true]
  split
  · exact ⟨q.text, rfl⟩
  · exact ⟨"/" ++ q.text, String.append_assoc⟩

theorem le_utf8ByteSize_join (hq : q.isAbsolute = false) :
    p.text.utf8ByteSize + q.text.utf8ByteSize ≤ (p.join q).text.utf8ByteSize := by
  rw [join, hq, if_neg Bool.false_ne_true]
  split
  · exact Nat.le_of_eq String.utf8ByteSize_append.symm
  · rw [String.utf8ByteSize_append, String.utf8ByteSize_append]
    omega

theorem text_join_ne_empty (hp : p.text ≠ "") (hq : q.isAbsolute = false) :
    (p.join q).text ≠ "" := by
  obtain ⟨tail, htext⟩ := exists_text_join (p := p) hq
  intro hempty
  rw [htext, String.append_eq_empty_iff] at hempty
  exact hp hempty.1

theorem isAbsolute_join (hp : p.text ≠ "") (hq : q.isAbsolute = false) :
    (p.join q).isAbsolute = p.isAbsolute := by
  obtain ⟨tail, htext⟩ := exists_text_join (p := p) hq
  have hne : p.text.toList ≠ [] := fun h => hp (String.toList_eq_nil_iff.mp h)
  rw [isAbsolute, htext, String.toList_append, List.head?_append_of_ne_nil _ hne]
  rfl

/-- A path continued by one name after the other. -/
def down (p : Path) (names : List String) : Path :=
  names.foldl (fun p name => p.join ⟨name⟩) p

@[simp] theorem down_nil (p : Path) : p.down [] = p := rfl

@[simp] theorem down_cons (p : Path) (name : String) (names : List String) :
    p.down (name :: names) = (p.join ⟨name⟩).down names := rfl

/-! ### Relative paths that never go up -/

/-- The path is relative, and none of its components is `..`. -/
structure Descends (p : Path) : Prop where
  relative : p.isAbsolute = false
  noUp : Component.up ∉ p.components

theorem Descends.up_notMem (h : p.Descends) : ".." ∉ p.segments := by
  intro hmem
  apply h.noUp
  rw [components_eq]
  have hstep : ".." ∈ p.steps := List.mem_filter.mpr ⟨hmem, by decide⟩
  exact List.mem_append_right _ (List.mem_map.mpr ⟨"..", hstep, rfl⟩)

theorem Descends.map_ofSegment (h : p.Descends) :
    p.steps.map Component.ofSegment = p.steps.map Component.name := by
  refine List.map_congr_left fun s hs => ?_
  have hne : s ≠ ".." := fun hup => h.up_notMem (hup ▸ List.mem_of_mem_filter hs)
  rw [Component.ofSegment, if_neg (by simpa using hne)]

end LivingGuide.Path
