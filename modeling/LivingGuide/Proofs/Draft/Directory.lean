import LivingGuide.Manifest.Draft
import LivingGuide.Proofs.FileSystem.Plain
import Mathlib.Data.List.TakeWhile

/-!
# How a draft names the directory of a file

A walk spells the files of a project from `root/.`, and a draft names the directory of each from the
root: it shortens the path twice, at its end and at its start.  Both are read off the segments.  With
`names` behind `root/.`,

    (down (names ++ [name])).parent? = some (down names),
    (down names).relativeTo? root = some names,

so the draft names the directory by `names` alone, each with a slash behind it, and by `.` where there
are none (`Draft.directoryName_parent`).  Continued by that name, the root spells the same directory
with fewer characters than the walk did, and this is why what the walk could open can be opened again
(`Path.text_down`).

* `Path.slashed`: the text of a path as other names stand behind it.
* `Draft.named`: the name of a directory.
-/

namespace LivingGuide

namespace Path

variable {p q base : Path} {first : Option Component} {before rest segments names : List String}
  {name : String}

/-! ### Paths from their segments -/

theorem segments_ofSegments (hne : segments ≠ []) (hslash : ∀ s ∈ segments, '/' ∉ s.toList) :
    (ofSegments segments).segments = segments := by
  have hcut : (['/'].intercalate (segments.map String.toList)).splitOn '/' =
      segments.map String.toList := by
    refine List.splitOn_intercalate '/' ?_ (by simpa using hne)
    intro cs hcs
    obtain ⟨s, hs, rfl⟩ := List.mem_map.mp hcs
    exact hslash s hs
  have hid : String.ofList ∘ String.toList = id := by
    funext s
    exact String.ofList_toList
  rw [ofSegments, Path.segments, String.toList_intercalate]
  show List.map _ ((['/'].intercalate _).splitOn '/') = _
  rw [hcut, List.map_map, hid, List.map_id]

theorem filter_stem (p : Path) : p.stem.filter (!isIdle ·) = p.steps := by
  rw [steps]
  rcases p.segments_eq_stem with hstem | hstem
  · rw [← hstem]
  · rw [hstem, List.filter_append]
    simp [isIdle]

theorem start_root (hrest : rest ≠ []) : start ("" :: rest) = (some .root, rest) := by
  obtain ⟨s, rest, rfl⟩ := List.exists_cons_of_ne_nil hrest
  rfl

/-- **More segments behind a path** leave its first component, and stand behind its steps. -/
theorem start_stem_append (hp : p.text ≠ "") (rest : List String) (hrest : rest ≠ []) :
    ∃ before, start (p.stem ++ rest) = ((start p.segments).1, before ++ rest) ∧
      before.filter (!isIdle ·) = p.steps ∧
      ((start p.segments).1 = none → before.head?.all (!isIdle ·) = true ∧ before ≠ []) := by
  have hne : p.segments ≠ [""] := fun h => hp (eq_empty_of_segments h)
  have hfilter := p.filter_stem
  cases hstem : p.stem with
  | nil =>
    rcases p.segments_eq_stem with hsegments | hsegments
    · exact absurd (hsegments.trans hstem) p.segments_ne_nil
    · rw [hstem] at hsegments
      exact absurd hsegments hne
  | cons s more =>
    obtain ⟨tail, hsegments, htail⟩ : ∃ tail, p.segments = s :: tail ∧ (s = "" → tail ≠ []) := by
      rcases p.segments_eq_stem with hsegments | hsegments
      · rw [hstem] at hsegments
        refine ⟨more, hsegments, fun hs hmore => hne ?_⟩
        rw [hsegments, hs, hmore]
      · rw [hstem] at hsegments
        exact ⟨more ++ [""], hsegments, fun _ => by simp⟩
    rw [hstem] at hfilter
    rw [hsegments, List.cons_append]
    by_cases hempty : s = ""
    · subst hempty
      rw [start_root (htail rfl), start_root (by simp [hrest])]
      exact ⟨more, rfl, hfilter, nofun⟩
    · by_cases hdot : s = "."
      · subst hdot
        exact ⟨more, rfl, hfilter, nofun⟩
      · rw [start_of_ne hempty hdot, start_of_ne hempty hdot]
        refine ⟨s :: more, rfl, hfilter, fun _ => ⟨?_, List.cons_ne_nil _ _⟩⟩
        simp [isIdle, hempty, hdot]

/-! ### Shorter paths -/

theorem trimIdleEnd_concat (hname : isIdle name = false) :
    trimIdleEnd (before ++ [name]) = before ++ [name] := by
  simp [trimIdleEnd, hname]

theorem trimIdleEnd_concat_idle (hname : isIdle name = true) :
    trimIdleEnd (before ++ [name]) = trimIdleEnd before := by
  simp [trimIdleEnd, hname]

theorem exists_trimIdleEnd (segments : List String) :
    ∃ idle, segments = trimIdleEnd segments ++ idle ∧ ∀ s ∈ idle, isIdle s = true := by
  refine ⟨(segments.reverse.takeWhile isIdle).reverse, ?_, ?_⟩
  · rw [trimIdleEnd, ← List.reverse_append, List.takeWhile_append_dropWhile, List.reverse_reverse]
  · intro s hs
    have hall : (segments.reverse.takeWhile isIdle).all isIdle := List.all_takeWhile
    exact List.all_eq_true.mp hall s (List.mem_reverse.mp hs)

theorem filter_trimIdleEnd (segments : List String) :
    (trimIdleEnd segments).filter (!isIdle ·) = segments.filter (!isIdle ·) := by
  obtain ⟨idle, hsegments, hidle⟩ := exists_trimIdleEnd segments
  have hnone : idle.filter (!isIdle ·) = [] := by
    rw [List.filter_eq_nil_iff]
    intro s hs
    simp [hidle s hs]
  conv_rhs => rw [hsegments, List.filter_append, hnone, List.append_nil]

theorem parent?_of_start (hstart : start p.segments = (first, before ++ [name]))
    (hname : isIdle name = false) : p.parent? = some (restart first (trimIdleEnd before)) := by
  have hlast : dropLastName? (before ++ [name]) = some (trimIdleEnd before) := by
    simp [dropLastName?, trimIdleEnd, hname]
  simp only [parent?, hstart, hlast]

theorem exists_dropComponents? (before rest : List String) :
    ∃ left, dropComponents? ((before.filter (!isIdle ·)).map Component.ofSegment) (before ++ rest) =
      some left ∧ left.dropWhile isIdle = rest.dropWhile isIdle := by
  induction before with
  | nil =>
    refine ⟨rest, ?_, rfl⟩
    simp [dropComponents?]
  | cons s before ih =>
    obtain ⟨left, hleft, hsame⟩ := ih
    by_cases hidle : isIdle s = true
    · rw [List.filter_cons_of_neg (by simp [hidle]), List.cons_append]
      cases hcomponents : (before.filter (!isIdle ·)).map Component.ofSegment with
      | nil =>
        rw [hcomponents, dropComponents?] at hleft
        cases hleft
        refine ⟨s :: (before ++ rest), by rw [dropComponents?], ?_⟩
        rw [List.dropWhile_cons_of_pos hidle]
        exact hsame
      | cons c cs =>
        rw [hcomponents] at hleft
        refine ⟨left, ?_, hsame⟩
        rw [dropComponents?, if_pos hidle]
        exact hleft
    · rw [List.filter_cons_of_pos (by simp [hidle]), List.cons_append, List.map_cons]
      refine ⟨left, ?_, hsame⟩
      rw [dropComponents?, if_neg hidle, if_pos rfl]
      exact hleft

/-- **A path from another that it continues** is what stands behind the steps of the other. -/
theorem relativeTo?_of_start (hbase : base.components ≠ [])
    (hstart : start p.segments = ((start base.segments).1, before ++ rest))
    (hbefore : before.filter (!isIdle ·) = base.steps) :
    p.relativeTo? base = some (ofSegments (trimIdleEnd (rest.dropWhile isIdle))) := by
  obtain ⟨left, hleft, hsame⟩ := exists_dropComponents? before rest
  rw [hbefore] at hleft
  rw [components_eq] at hbase
  rw [relativeTo?, hstart, components_eq]
  cases hfirst : (start base.segments).1 with
  | some c => simp [hleft, hsame]
  | none =>
    rw [hfirst, Option.toList_none, List.nil_append] at hbase
    cases hsteps : base.steps.map Component.ofSegment with
    | nil => exact absurd hsteps hbase
    | cons c cs =>
      rw [hsteps] at hleft
      simp [hleft, hsame]

theorem components_ne_nil (hp : p.text ≠ "") : p.components ≠ [] := by
  obtain ⟨before, -, hbefore, hhead⟩ := start_stem_append hp [""] (List.cons_ne_nil _ _)
  rw [components_eq, ← hbefore]
  cases hfirst : (start p.segments).1 with
  | some c => exact List.cons_ne_nil _ _
  | none =>
    obtain ⟨hidle, hne⟩ := hhead hfirst
    obtain ⟨s, more, rfl⟩ := List.exists_cons_of_ne_nil hne
    rw [List.filter_cons_of_pos (by simpa using hidle)]
    exact List.cons_ne_nil _ _

theorem start_fst_cases (segments : List String) :
    (start segments).1 = none ∨ (start segments).1 = some .root ∨ (start segments).1 = some .here := by
  unfold start
  split <;> simp

theorem noSlash_of_mem_start {s : String} (h : s ∈ (start p.segments).2) : '/' ∉ s.toList := by
  apply noSlash_of_mem_segments (p := p)
  unfold start at h
  split at h
  · next hsegments =>
    rw [hsegments]
    exact List.mem_cons_of_mem _ h
  · next hsegments =>
    rw [hsegments]
    exact List.mem_cons_of_mem _ h
  · exact h

/-- A path that is put together again has the segments that it was put together from, but for an empty
one behind the root alone. -/
theorem start_restart {kept : List String} (hsegments : first = (start segments).1)
    (hhead : first = none → kept.head?.all (!isIdle ·) = true ∧ kept ≠ [])
    (hslash : ∀ s ∈ kept, '/' ∉ s.toList) :
    ∃ idle, start (restart first kept).segments = (first, kept ++ idle) ∧
      ∀ s ∈ idle, isIdle s = true := by
  rcases start_fst_cases segments with hfirst | hfirst | hfirst
  · rw [hfirst] at hsegments
    subst hsegments
    obtain ⟨hidle, hne⟩ := hhead rfl
    refine ⟨[], ?_, nofun⟩
    rw [restart, segments_ofSegments hne hslash, List.append_nil]
    obtain ⟨s, more, rfl⟩ := List.exists_cons_of_ne_nil hne
    have hs : s ≠ "" ∧ s ≠ "." := by simpa [isIdle] using hidle
    exact start_of_ne hs.1 hs.2 more
  · rw [hfirst] at hsegments
    subst hsegments
    cases kept with
    | nil => exact ⟨[""], by decide, by decide⟩
    | cons s more =>
      refine ⟨[], ?_, nofun⟩
      rw [restart, segments_ofSegments (List.cons_ne_nil _ _)
        (List.forall_mem_cons.mpr ⟨by decide, hslash⟩), List.append_nil]
      · rfl
      · exact nofun
  · rw [hfirst] at hsegments
    subst hsegments
    refine ⟨[], ?_, nofun⟩
    rw [restart, segments_ofSegments (List.cons_ne_nil _ _)
      (List.forall_mem_cons.mpr ⟨by decide, hslash⟩), List.append_nil]
    · rfl
    · exact nofun
    · exact nofun

/-! ### Paths continued by names -/

/-- The text of a path as another stands behind it. -/
def slashed (p : Path) : String :=
  if p.text.toList.getLast?.all (· == '/') then p.text else p.text ++ "/"

/-- Names with a slash behind each. -/
def spelled (names : List String) : String :=
  String.join (names.map (· ++ "/"))

theorem text_join (hq : q.isAbsolute = false) : (p.join q).text = p.slashed ++ q.text := by
  rw [join, hq, slashed, if_neg Bool.false_ne_true]
  split <;> rfl

theorem getLast?_ne_slash (hempty : name ≠ "") (hslash : '/' ∉ name.toList) (s : String) :
    (s ++ name).toList.getLast?.all (· == '/') = false := by
  have hne : name.toList ≠ [] := fun h => hempty (String.toList_eq_nil_iff.mp h)
  rw [String.toList_append, List.getLast?_append_of_ne_nil _ hne, List.getLast?_eq_some_getLast hne,
    Option.all_some, beq_eq_false_iff_ne]
  exact fun h => hslash (h ▸ List.getLast_mem hne)

theorem slashed_join (hrelative : (Path.mk name).isAbsolute = false) (hempty : name ≠ "")
    (hslash : '/' ∉ name.toList) : (p.join ⟨name⟩).slashed = p.slashed ++ name ++ "/" := by
  rw [slashed, text_join hrelative, if_neg]
  rw [getLast?_ne_slash hempty hslash]
  exact Bool.false_ne_true

theorem slashed_down (hnames : ∀ name ∈ names, Node.IsName name) :
    (p.down names).slashed = p.slashed ++ spelled names := by
  induction names generalizing p with
  | nil => simp [spelled]
  | cons name names ih =>
    obtain ⟨hname, hnames⟩ := List.forall_mem_cons.mp hnames
    rw [down_cons, ih hnames, slashed_join hname.relative hname.ne_empty hname.noSlash]
    simp [spelled, String.append_assoc]

theorem down_concat (p : Path) (names : List String) (name : String) :
    p.down (names ++ [name]) = (p.down names).join ⟨name⟩ := by
  simp [down]

theorem spelled_append (names names' : List String) :
    spelled (names ++ names') = spelled names ++ spelled names' := by
  simp [spelled]

/-- **The text of a path with names behind it.** -/
theorem text_down (hne : names ≠ []) (hnames : ∀ name ∈ names, Node.IsName name) :
    (p.down names).text ++ "/" = p.slashed ++ spelled names := by
  rcases List.eq_nil_or_concat' names with rfl | ⟨more, last, rfl⟩
  · exact absurd rfl hne
  · have hlast := hnames last (by simp)
    rw [down_concat, text_join hlast.relative, slashed_down fun s hs => hnames s (by simp [hs]),
      spelled_append]
    simp [spelled, String.append_assoc]

theorem stem_join (hp : p.text ≠ "") (hname : Node.IsName name) :
    (p.join ⟨name⟩).stem = p.stem ++ [name] := by
  have hlast : ¬ (p.join ⟨name⟩).text.toList.getLast? = some '/' := by
    intro h
    have hall := getLast?_ne_slash hname.ne_empty hname.noSlash p.slashed
    rw [text_join hname.relative] at h
    rw [h] at hall
    cases hall
  rw [stem, if_neg hlast, segments_join hp hname.relative, hname.segments_eq]

theorem stem_down (hp : p.text ≠ "") (hnames : ∀ name ∈ names, Node.IsName name) :
    (p.down names).stem = p.stem ++ names ∧ (p.down names).text ≠ "" := by
  induction names generalizing p with
  | nil => exact ⟨(List.append_nil _).symm, hp⟩
  | cons name names ih =>
    obtain ⟨hname, hnames⟩ := List.forall_mem_cons.mp hnames
    obtain ⟨hstem, hne⟩ := ih (text_join_ne_empty hp hname.relative) hnames
    refine ⟨?_, hne⟩
    rw [down_cons, hstem, stem_join hp hname, List.append_assoc]
    rfl

theorem segments_down (hp : p.text ≠ "") (hnames : ∀ name ∈ names, Node.IsName name)
    (hname : Node.IsName name) : (p.down (names ++ [name])).segments = p.stem ++ names ++ [name] := by
  obtain ⟨hstem, hne⟩ := stem_down hp hnames
  rw [down_concat, segments_join hne hname.relative, hstem, hname.segments_eq]

theorem trimIdleEnd_append_idle {idle : List String} (hidle : ∀ s ∈ idle, isIdle s = true) :
    trimIdleEnd (segments ++ idle) = trimIdleEnd segments := by
  rw [trimIdleEnd, List.reverse_append, List.dropWhile_append_of_pos, trimIdleEnd]
  intro s hs
  exact hidle s (List.mem_reverse.mp hs)

theorem trimIdleEnd_of_names (hnames : ∀ name ∈ names, Node.IsName name) :
    trimIdleEnd names = names := by
  rcases List.eq_nil_or_concat' names with rfl | ⟨more, last, rfl⟩
  · rfl
  · exact trimIdleEnd_concat (hnames last (by simp)).notIdle

theorem trimIdleEnd_dropWhile {idle : List String} (hnames : ∀ name ∈ names, Node.IsName name)
    (hidle : ∀ s ∈ idle, isIdle s = true) :
    trimIdleEnd ((names ++ idle).dropWhile isIdle) = names := by
  cases names with
  | nil =>
    rw [List.nil_append, List.dropWhile_eq_nil_iff.mpr hidle]
    rfl
  | cons name names =>
    have hname : ¬ isIdle name = true := by simp [(hnames name List.mem_cons_self).notIdle]
    rw [List.cons_append, List.dropWhile_cons_of_neg hname, ← List.cons_append,
      trimIdleEnd_append_idle hidle, trimIdleEnd_of_names hnames]

theorem text_ofSegments_append (hne : names ≠ []) :
    (ofSegments names).text ++ "/" = spelled names := by
  induction names with
  | nil => exact absurd rfl hne
  | cons name names ih =>
    cases names with
    | nil => simp [ofSegments, spelled]
    | cons second names =>
      have htail := ih (List.cons_ne_nil _ _)
      rw [ofSegments] at htail ⊢
      rw [String.intercalate_cons_cons, String.append_assoc, String.append_assoc]
      show name ++ ("/" ++ (String.intercalate "/" (second :: names) ++ "/")) = _
      rw [htail]
      simp [spelled, String.append_assoc]

theorem stem_join_dot (hp : p.text ≠ "") : (p.join ⟨"."⟩).stem = p.stem ++ ["."] := by
  have hdot : (Path.mk ".").isAbsolute = false := by decide
  have hlast : ¬ (p.join ⟨"."⟩).text.toList.getLast? = some '/' := by
    rw [text_join hdot, String.toList_append, List.getLast?_append]
    simp
  rw [stem, if_neg hlast, segments_join hp hdot]
  congr 1

theorem head?_trimIdleEnd (hidle : segments.head?.all (!isIdle ·) = true) (hne : segments ≠ []) :
    (trimIdleEnd segments).head?.all (!isIdle ·) = true ∧ trimIdleEnd segments ≠ [] := by
  obtain ⟨s, more, rfl⟩ := List.exists_cons_of_ne_nil hne
  have hs : isIdle s = false := by simpa using hidle
  obtain ⟨idle, hsplit, hall⟩ := exists_trimIdleEnd (s :: more)
  cases htrim : trimIdleEnd (s :: more) with
  | nil =>
    rw [htrim, List.nil_append] at hsplit
    have := hall s (by rw [← hsplit]; exact List.mem_cons_self)
    rw [hs] at this
    cases this
  | cons t kept =>
    rw [htrim, List.cons_append] at hsplit
    obtain ⟨rfl, -⟩ := List.cons.inj hsplit
    exact ⟨by simpa using hs, List.cons_ne_nil _ _⟩

/-- A dot between a path and names goes with the path where there are no names. -/
theorem exists_trimIdleEnd_dot (hnames : ∀ name ∈ names, Node.IsName name)
    (hhead : first = none → before.head?.all (!isIdle ·) = true ∧ before ≠ []) :
    ∃ front, trimIdleEnd (before ++ "." :: names) = front ++ names ∧
      front.filter (!isIdle ·) = before.filter (!isIdle ·) ∧
      (first = none → front.head?.all (!isIdle ·) = true ∧ front ≠ []) := by
  rcases List.eq_nil_or_concat' names with rfl | ⟨more, last, rfl⟩
  · refine ⟨trimIdleEnd before, ?_, filter_trimIdleEnd before, fun h => ?_⟩
    · rw [trimIdleEnd_concat_idle (by decide), List.append_nil]
    · exact head?_trimIdleEnd (hhead h).1 (hhead h).2
  · have hlast : isIdle last = false := (hnames last (by simp)).notIdle
    have hsplit : before ++ "." :: (more ++ [last]) = (before ++ "." :: more) ++ [last] := by simp
    refine ⟨before ++ ["."], ?_, ?_, fun h => ?_⟩
    · rw [hsplit, trimIdleEnd_concat hlast]
      simp
    · rw [List.filter_append]
      simp [isIdle]
    · rw [List.head?_append_of_ne_nil _ (hhead h).2]
      exact ⟨(hhead h).1, by simp⟩

end Path

namespace Draft

variable {root : Path} {names : List String} {name : String}

/-- The name of the directory that names lead to from the root. -/
def named (names : List String) : String :=
  if names = [] then "." else Path.spelled names

/-- **A draft names the directory of a file by the names that lead there.** -/
theorem directoryName_parent (hroot : root.text ≠ "") (hnames : ∀ name ∈ names, Node.IsName name)
    (hname : Node.IsName name) :
    ∃ parent, ((root.join ⟨"."⟩).down (names ++ [name])).parent? = some parent ∧
      directoryName root parent = named names := by
  have hdot : (root.join ⟨"."⟩).text ≠ "" := Path.text_join_ne_empty hroot (by decide)
  have hsegments : ((root.join ⟨"."⟩).down (names ++ [name])).segments =
      root.stem ++ ("." :: names ++ [name]) := by
    rw [Path.segments_down hdot hnames hname, Path.stem_join_dot hroot]
    simp
  obtain ⟨before, hstart, hbefore, hhead⟩ :=
    Path.start_stem_append hroot ("." :: names ++ [name]) (by simp)
  rw [← hsegments, ← List.append_assoc] at hstart
  obtain ⟨front, hkept, hfront, hfirst⟩ := Path.exists_trimIdleEnd_dot hnames hhead
  have hslash : ∀ s ∈ front ++ names, '/' ∉ s.toList := by
    intro s hs
    obtain ⟨idle, hsplit, -⟩ := Path.exists_trimIdleEnd (before ++ "." :: names)
    apply Path.noSlash_of_mem_start
    rw [hstart, hsplit, hkept, List.append_assoc]
    exact List.mem_append_left _ hs
  have hparent := Path.parent?_of_start hstart hname.notIdle
  rw [hkept] at hparent
  have hhead' : (Path.start root.segments).1 = none →
      (front ++ names).head?.all (!Path.isIdle ·) = true ∧ front ++ names ≠ [] := by
    intro h
    rw [List.head?_append_of_ne_nil _ (hfirst h).2]
    exact ⟨(hfirst h).1, by simp [(hfirst h).2]⟩
  obtain ⟨idle, hrestart, hidle⟩ := Path.start_restart rfl hhead' hslash
  rw [List.append_assoc] at hrestart
  have hrelative := Path.relativeTo?_of_start (Path.components_ne_nil hroot) hrestart
    (hfront.trans hbefore)
  rw [Path.trimIdleEnd_dropWhile hnames hidle] at hrelative
  refine ⟨_, hparent, ?_⟩
  rw [directoryName, hrelative, named]
  by_cases hne : names = []
  · subst hne
    rfl
  · have htext : (Path.ofSegments names).text ≠ "" := by
      obtain ⟨first, more, rfl⟩ := List.exists_cons_of_ne_nil hne
      intro hempty
      have hsegments := Path.segments_ofSegments hne fun s hs => (hnames s hs).noSlash
      rw [Path.segments, hempty] at hsegments
      exact (hnames first List.mem_cons_self).ne_empty (List.cons.inj hsegments).1.symm
    simp [hne, htext, Path.text_ofSegments_append hne]

end Draft
end LivingGuide
