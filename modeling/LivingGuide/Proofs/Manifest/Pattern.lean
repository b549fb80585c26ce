import LivingGuide.Manifest.Basic
import LivingGuide.Proofs.Draft.Directory

/-!
# Patterns for directories

A pattern `**/dir/*` is tested on the text of a path: the text starts with `dir/`, or `/dir/` occurs in
it.  This file says what that means for the segments of the path.  A slash cuts a text, and the
segments of the whole are those of both sides,

    segments (before ++ "/" ++ after) = segments before ++ segments after,

and there is no other way to cut the segments in two (`Path.segments_eq_append_iff`).  So the segments
of `dir` stand next to each other among those of the path, with at least one behind them, whatever
slashes `dir` holds itself.

* `Pattern.parse_anywhere`, `Pattern.parse_plain`: `**/dir/*` and `dir/*` are one pattern, unless the
  second is read as the first of another directory.
* `Pattern.excludes_inside_iff`: what is inside a directory.
* `Pattern.excludes_directory`: **patterns for directories match whole segments.**
-/

namespace LivingGuide

/-! ### Cutting a path at a slash -/

namespace Path

theorem eq_of_segments {p q : Path} (h : p.segments = q.segments) : p = q := by
  rw [← ofSegments_segments p, h, ofSegments_segments]

/-- **The segments of a path are cut where a slash cuts its text.** -/
theorem segments_eq_append_iff {p : String} {before after : List String} (hbefore : before ≠ [])
    (hafter : after ≠ []) :
    segments ⟨p⟩ = before ++ after ↔
      ∃ q r : String, p = q ++ "/" ++ r ∧ segments ⟨q⟩ = before ∧ segments ⟨r⟩ = after := by
  constructor
  · intro h
    have hslash : ∀ s ∈ before ++ after, '/' ∉ s.toList := by
      intro s hs
      rw [← h] at hs
      exact noSlash_of_mem_segments hs
    have hp : p = "/".intercalate (before ++ after) := by
      rw [← h]
      exact (congrArg Path.text (ofSegments_segments ⟨p⟩)).symm
    refine ⟨"/".intercalate before, "/".intercalate after, ?_, ?_, ?_⟩
    · rw [hp, String.intercalate_append_of_ne_nil hbefore hafter]
    · exact segments_ofSegments hbefore fun s hs => hslash s (List.mem_append_left _ hs)
    · exact segments_ofSegments hafter fun s hs => hslash s (List.mem_append_right _ hs)
  · rintro ⟨q, r, rfl, rfl, rfl⟩
    have hcut := segments_cut q.toList r.toList
    have htext : q ++ "/" ++ r = String.ofList (q.toList ++ '/' :: r.toList) := by
      rw [← String.toList_inj]
      simp
    rw [htext, hcut, String.ofList_toList, String.ofList_toList]

end Path

namespace Pattern

/-! ### Reading a pattern for a directory -/

theorem dropSuffix?_append (cs tail : List Char) : dropSuffix? tail (cs ++ tail) = some cs := by
  have hsuffix : tail.isSuffixOf (cs ++ tail) = true :=
    List.isSuffixOf_iff_suffix.mpr (List.suffix_append cs tail)
  rw [dropSuffix?, if_pos hsuffix, List.length_append, Nat.add_sub_cancel, List.take_left]

theorem toList_pattern (d : String) : (d ++ "/*").toList = d.toList ++ ['/', '*'] :=
  String.toList_append

theorem parseLocal_inside (cs : List Char) : parseLocal (cs ++ ['/', '*']) = .inside cs := by
  have hslash : (cs ++ ['/', '*']).contains '/' = true := by simp
  rw [parseLocal.eq_def]
  split
  · rw [if_pos hslash, dropSuffix?_append]
  · rw [dropSuffix?_append]

/-- **A directory anywhere.** -/
theorem parse_anywhere (d : String) : parse ("**/" ++ d ++ "/*") = .inside d.toList := by
  have htext : ("**/" ++ d ++ "/*").toList = '*' :: '*' :: '/' :: (d.toList ++ ['/', '*']) := by
    rw [toList_pattern, String.toList_append]
    rfl
  rw [parse, htext]
  simp only [dropSuffix?_append]

/-- The same without the stars in front, when what is left does not start with them as well. -/
theorem parse_plain {d : String} (hstars : d ≠ "**") (hanywhere : ¬ "**/".toList <+: d.toList) :
    parse (d ++ "/*") = .inside d.toList := by
  rw [parse, toList_pattern]
  split
  · next rest heq =>
    exfalso
    -- the stars and the slash are in the directory, or the slash is the one behind it
    match hd : d.toList with
    | [] => simp [hd] at heq
    | [a] => simp [hd] at heq
    | [a, b] =>
      rw [hd] at heq
      simp only [List.cons_append, List.nil_append, List.cons.injEq] at heq
      obtain ⟨rfl, rfl, -⟩ := heq
      exact hstars (String.toList_inj.mp hd)
    | a :: b :: c :: more =>
      rw [hd] at heq
      simp only [List.cons_append, List.cons.injEq] at heq
      obtain ⟨rfl, rfl, rfl, -⟩ := heq
      exact hanywhere (hd ▸ ⟨more, rfl⟩)
  · exact parseLocal_inside d.toList

/-! ### What is inside a directory -/

theorem excludes_inside_iff_text (d p : String) :
    (Pattern.inside d.toList).excludes p.toList = true ↔
      (∃ rest : String, p = d ++ "/" ++ rest) ∨
        ∃ before rest : String, p = before ++ "/" ++ (d ++ "/" ++ rest) := by
  rw [excludes, Bool.or_eq_true, Text.occursIn_iff, List.isPrefixOf_iff_prefix, or_comm]
  refine or_congr ⟨?_, ?_⟩ ⟨?_, ?_⟩
  · rintro ⟨rest, hrest⟩
    refine ⟨String.ofList rest, ?_⟩
    rw [← String.toList_inj, ← hrest]
    simp
  · rintro ⟨rest, rfl⟩
    refine ⟨rest.toList, ?_⟩
    simp
  · rintro ⟨before, rest, hrest⟩
    refine ⟨String.ofList before, String.ofList rest, ?_⟩
    rw [← String.toList_inj, ← hrest]
    simp
  · rintro ⟨before, rest, rfl⟩
    refine ⟨before.toList, rest.toList, ?_⟩
    simp

theorem exists_slash_iff (d p : String) :
    (∃ rest : String, p = d ++ "/" ++ rest) ↔
      ∃ after, after ≠ [] ∧ Path.segments ⟨p⟩ = Path.segments ⟨d⟩ ++ after := by
  constructor
  · rintro ⟨rest, hp⟩
    have hne := Path.segments_ne_nil ⟨rest⟩
    exact ⟨_, hne, (Path.segments_eq_append_iff (Path.segments_ne_nil _) hne).mpr
      ⟨d, rest, hp, rfl, rfl⟩⟩
  · rintro ⟨after, hne, hsegments⟩
    obtain ⟨q, rest, hp, hq, -⟩ :=
      (Path.segments_eq_append_iff (Path.segments_ne_nil _) hne).mp hsegments
    cases Path.eq_of_segments hq
    exact ⟨rest, hp⟩

/-- **What is inside a directory has its segments, next to each other and before the last one.** -/
theorem excludes_inside_iff (d p : String) :
    (Pattern.inside d.toList).excludes p.toList = true ↔
      ∃ before after, after ≠ [] ∧
        Path.segments ⟨p⟩ = before ++ Path.segments ⟨d⟩ ++ after := by
  rw [excludes_inside_iff_text, exists_slash_iff]
  constructor
  · rintro (⟨after, hne, hsegments⟩ | ⟨first, rest, hp⟩)
    · exact ⟨[], after, hne, hsegments⟩
    · obtain ⟨after, hne, hsegments⟩ := (exists_slash_iff d (d ++ "/" ++ rest)).mp ⟨rest, rfl⟩
      refine ⟨Path.segments ⟨first⟩, after, hne, ?_⟩
      rw [List.append_assoc, ← hsegments]
      exact (Path.segments_eq_append_iff (Path.segments_ne_nil _) (Path.segments_ne_nil _)).mpr
        ⟨first, d ++ "/" ++ rest, hp, rfl, rfl⟩
  · rintro ⟨before, after, hne, hsegments⟩
    by_cases hbefore : before = []
    · subst hbefore
      exact .inl ⟨after, hne, hsegments⟩
    · rw [List.append_assoc, Path.segments_eq_append_iff hbefore (by simp [hne])] at hsegments
      obtain ⟨first, inner, hp, -, hinner⟩ := hsegments
      obtain ⟨rest, rfl⟩ := (exists_slash_iff d inner).mpr ⟨after, hne, hinner⟩
      exact .inr ⟨first, rest, hp⟩

theorem exists_append_singleton_iff {s : String} {segments : List String} :
    (∃ before after, after ≠ [] ∧ segments = before ++ [s] ++ after) ↔ s ∈ segments.dropLast := by
  constructor
  · rintro ⟨before, after, hne, rfl⟩
    rw [List.dropLast_append_of_ne_nil hne]
    simp
  · intro h
    rcases List.eq_nil_or_concat' segments with rfl | ⟨front, last, rfl⟩
    · cases h
    · rw [List.dropLast_concat] at h
      obtain ⟨before, after, rfl⟩ := List.append_of_mem h
      exact ⟨before, after ++ [last], by simp, by simp⟩

/-- **Patterns for directories match whole segments.**  The pattern `**/dir/*` leaves out a path
exactly if the segments of `dir` stand next to each other in it, none of them the last; for a
directory of one segment, if that is one of the segments before the last.  And `dir/*` leaves out the
same paths, unless it is itself read as a pattern that starts with `**/`. -/
theorem excludes_directory (p d : String) :
    ((parse ("**/" ++ d ++ "/*")).excludes p.toList = true ↔
      ∃ before after, after ≠ [] ∧
        Path.segments ⟨p⟩ = before ++ Path.segments ⟨d⟩ ++ after) ∧
    ('/' ∉ d.toList →
      ((parse ("**/" ++ d ++ "/*")).excludes p.toList = true ↔
        d ∈ (Path.segments ⟨p⟩).dropLast)) ∧
    (d ≠ "**" → ¬ "**/".toList <+: d.toList →
      (parse (d ++ "/*")).excludes p.toList = (parse ("**/" ++ d ++ "/*")).excludes p.toList) := by
  rw [parse_anywhere]
  refine ⟨excludes_inside_iff d p, fun hslash => ?_, fun hstars hanywhere => ?_⟩
  · rw [excludes_inside_iff, Path.segments_of_no_slash hslash, exists_append_singleton_iff]
  · rw [parse_plain hstars hanywhere]

/-- Neither a longer name nor a file of that name is left out. -/
example : ["node_modules/a.scss", "x/node_modules/a.scss", "my_node_modules/x", "x/node_modules"].map
    (fun p => (parse "**/node_modules/*").excludes p.toList) = [true, true, false, false] := by
  decide +kernel

end Pattern

end LivingGuide
