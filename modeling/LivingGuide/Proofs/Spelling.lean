import LivingGuide.Proofs.Path
import Mathlib.Logic.Relation

/-!
# The spellings of a path

Two texts are the same path when their components agree.  On the texts this comes from four changes:
a slash may be doubled, a `.` may stand between two slashes, and a path that is written at all may end
in a slash, or in a slash and a `.`.  `Pads` is one such change, and no others are needed:

    p.components = q.components ↔ p.Respelled q.

Each change puts in a segment that is skipped, so the components stay (`Pads.components_eq`).  For the
converse every path is led back to one spelling of its components, `ofComponents`, by taking out its
skipped segments one after the other (`respelled_filter`).

The root is the one component that is spelled by the slash behind it and not by a segment.  Its
spelling here has two slashes, so that the slash stays whatever is taken out behind it.
-/

namespace LivingGuide.Path

variable {p q : Path} {before after : List String} {s : String}

/-! ### One change -/

/-- The second path has a slash or a `.` more than the first, where it makes no difference. -/
inductive Pads : Path → Path → Prop
  | slash (before after : String) : Pads ⟨before ++ "/" ++ after⟩ ⟨before ++ "//" ++ after⟩
  | dot (before after : String) : Pads ⟨before ++ "/" ++ after⟩ ⟨before ++ "/./" ++ after⟩
  | finalSlash {text : String} (written : text ≠ "") : Pads ⟨text⟩ ⟨text ++ "/"⟩
  | finalDot {text : String} (written : text ≠ "") : Pads ⟨text⟩ ⟨text ++ "/."⟩

/-- The two paths are spellings of one: changes, made or taken back, lead from one to the other. -/
def Respelled : Path → Path → Prop :=
  Relation.EqvGen Pads

theorem segments_between (before between after : String) :
    segments ⟨before ++ ("/" ++ between ++ "/") ++ after⟩ =
      segments ⟨before⟩ ++ (segments ⟨between⟩ ++ segments ⟨after⟩) := by
  have hwhole : before ++ ("/" ++ between ++ "/") ++ after =
      before ++ "/" ++ (between ++ "/" ++ after) := by
    simp only [String.append_assoc]
  rw [hwhole, segments_slash, segments_slash]

theorem segments_final (before after : String) :
    segments ⟨before ++ ("/" ++ after)⟩ = segments ⟨before⟩ ++ segments ⟨after⟩ := by
  rw [← String.append_assoc, segments_slash]

/-- A segment that is skipped makes no difference behind others, as long as a slash that is the root
stays one. -/
theorem components_eq_of_insert (hs : isIdle s) (hp : p.segments = before ++ after)
    (hq : q.segments = before ++ s :: after) (hne : before ≠ []) (hroot : before = [""] → after ≠ []) :
    p.components = q.components := by
  have hstart : (start p.segments).1 = (start q.segments).1 := by
    rw [hp, hq]
    exact start_append hne fun hbefore => ⟨hroot hbefore, List.cons_ne_nil _ _⟩
  rw [components_eq, components_eq, hstart, steps, steps, hp, hq, List.filter_append,
    List.filter_append, List.filter_cons_of_neg (by simp [hs])]

/-- **One change leaves the components as they are.** -/
theorem Pads.components_eq (h : Pads p q) : p.components = q.components := by
  cases h with
  | slash before after =>
    exact components_eq_of_insert (by decide) (segments_slash before after)
      (segments_between before "" after) (segments_ne_nil _) fun _ => segments_ne_nil _
  | dot before after =>
    exact components_eq_of_insert (by decide) (segments_slash before after)
      (segments_between before "." after) (segments_ne_nil _) fun _ => segments_ne_nil _
  | finalSlash written =>
    exact components_eq_of_insert (by decide) (List.append_nil _).symm (segments_final _ "")
      (segments_ne_nil _) fun hempty => absurd (eq_empty_of_segments hempty) written
  | finalDot written =>
    exact components_eq_of_insert (by decide) (List.append_nil _).symm (segments_final _ ".")
      (segments_ne_nil _) fun hempty => absurd (eq_empty_of_segments hempty) written

/-! ### Many changes -/

theorem Respelled.refl (p : Path) : p.Respelled p :=
  Relation.EqvGen.refl p

theorem Respelled.symm (h : p.Respelled q) : q.Respelled p :=
  Relation.EqvGen.symm p q h

theorem Respelled.trans {r : Path} (h : p.Respelled q) (h' : q.Respelled r) : p.Respelled r :=
  Relation.EqvGen.trans p q r h h'

theorem Pads.respelled (h : Pads p q) : p.Respelled q :=
  Relation.EqvGen.rel p q h

theorem ofSegments_append (hbefore : before ≠ []) (hafter : after ≠ []) :
    ofSegments (before ++ after) =
      ⟨(ofSegments before).text ++ ("/" ++ (ofSegments after).text)⟩ := by
  rw [ofSegments, String.intercalate_append_of_ne_nil hbefore hafter, String.append_assoc]
  rfl

theorem text_ofSegments_ne_empty (hne : before ≠ []) (hroot : before ≠ [""]) :
    (ofSegments before).text ≠ "" := by
  cases before with
  | nil => exact absurd rfl hne
  | cons s more =>
    by_cases hmore : more = []
    · subst hmore
      intro hempty
      exact hroot (congrArg (fun s => [s]) hempty)
    · rw [← List.singleton_append, ofSegments_append (List.cons_ne_nil _ _) hmore]
      simp

/-- **A skipped segment can be put in** behind others, where it does not make a slash the root. -/
theorem respelled_insert (hs : isIdle s) (before after : List String) (hne : before ≠ [])
    (hroot : before = [""] → after ≠ []) :
    (ofSegments (before ++ after)).Respelled (ofSegments (before ++ s :: after)) := by
  have hcases : s = "" ∨ s = "." := by simpa [isIdle] using hs
  by_cases hafter : after = []
  · subst hafter
    have hwritten := text_ofSegments_ne_empty hne fun hbefore => hroot hbefore rfl
    rw [List.append_nil, ofSegments_append hne (List.cons_ne_nil _ _)]
    rcases hcases with rfl | rfl
    · exact (Pads.finalSlash hwritten).respelled
    · exact (Pads.finalDot hwritten).respelled
  · have hcons : ofSegments (s :: after) = ⟨s ++ ("/" ++ (ofSegments after).text)⟩ :=
      ofSegments_append (List.cons_ne_nil s []) hafter
    have hwhole (b a : String) : b ++ ("/" ++ (s ++ ("/" ++ a))) = b ++ ("/" ++ s ++ "/") ++ a := by
      simp only [String.append_assoc]
    rw [ofSegments_append hne hafter, ofSegments_append hne (List.cons_ne_nil _ _), hcons, hwhole,
      ← String.append_assoc]
    rcases hcases with rfl | rfl
    · exact (Pads.slash _ _).respelled
    · exact (Pads.dot _ _).respelled

/-- **The skipped segments of a path can be taken out.** -/
theorem respelled_filter (before rest : List String) (hne : before ≠ []) (hroot : before ≠ [""]) :
    (ofSegments (before ++ rest)).Respelled (ofSegments (before ++ rest.filter (!isIdle ·))) := by
  induction rest generalizing before with
  | nil => exact .refl _
  | cons s rest ih =>
    by_cases hs : isIdle s
    · have hinsert := respelled_insert hs before rest hne fun hbefore => absurd hbefore hroot
      rw [List.filter_cons_of_neg (by simp [hs])]
      exact hinsert.symm.trans (ih before hne hroot)
    · have hlong : before ++ [s] ≠ [""] := by simp [List.append_eq_singleton_iff, hne]
      rw [List.filter_cons_of_pos (by simp [hs]), List.append_cons before s rest,
        List.append_cons before s (rest.filter _)]
      exact ih (before ++ [s]) (by simp) hlong

/-! ### One spelling for the components -/

/-- The segments that spell a component. -/
def Component.written : Component → List String
  | .root => ["", ""]
  | .here => ["."]
  | .up => [".."]
  | .name text => [text]

/-- A path with the given components. -/
def ofComponents (components : List Component) : Path :=
  ofSegments (components.flatMap Component.written)

theorem Component.written_ofSegment (s : String) : (Component.ofSegment s).written = [s] := by
  rw [Component.ofSegment]
  by_cases hs : s = ".."
  · rw [hs]
    rfl
  · rw [if_neg (by simpa using hs)]
    rfl

theorem ofComponents_components (p : Path) :
    ofComponents p.components =
      ofSegments ((start p.segments).1.toList.flatMap Component.written ++ p.steps) := by
  have hsteps : (p.steps.map Component.ofSegment).flatMap Component.written = p.steps := by
    simp [List.flatMap_map, Component.written_ofSegment]
  rw [ofComponents, components_eq, List.flatMap_append, hsteps]

/-- **Every path is respelled from its components alone.** -/
theorem respelled_ofComponents (p : Path) : p.Respelled (ofComponents p.components) := by
  have hp := ofSegments_segments p
  obtain ⟨s, rest, hsegments⟩ := List.exists_cons_of_ne_nil p.segments_ne_nil
  rw [ofComponents_components, steps, hsegments]
  rw [hsegments] at hp
  by_cases hempty : s = ""
  · subst hempty
    by_cases hrest : rest = []
    · subst hrest
      rw [← hp]
      exact .refl _
    -- with a second slash at the start, every segment behind it can go
    · have hroot := respelled_insert (s := "") (by decide) [""] rest (List.cons_ne_nil _ _)
        fun _ => hrest
      have hfilter := respelled_filter ["", ""] rest (List.cons_ne_nil _ _) (by decide)
      obtain ⟨t, rest, rfl⟩ := List.exists_cons_of_ne_nil hrest
      rw [← hp, List.filter_cons_of_neg (by decide)]
      exact hroot.trans hfilter
  · by_cases hdot : s = "."
    · subst hdot
      rw [← hp, List.filter_cons_of_neg (by decide)]
      exact respelled_filter ["."] rest (List.cons_ne_nil _ _) (by decide)
    · have hs : isIdle s = false := by simp [isIdle, hempty, hdot]
      rw [← hp, start_of_ne hempty hdot, List.filter_cons_of_pos (by simp [hs])]
      exact respelled_filter [s] rest (List.cons_ne_nil _ _) (by simpa using hempty)

/-- **Two paths are the same exactly if one is respelled as the other.** -/
theorem components_eq_iff_respelled : p.components = q.components ↔ p.Respelled q := by
  constructor
  · intro h
    have hp := respelled_ofComponents p
    rw [h] at hp
    exact hp.trans (respelled_ofComponents q).symm
  · intro h
    induction h with
    | rel p q hpads => exact hpads.components_eq
    | refl p => rfl
    | symm p q _ ih => exact ih.symm
    | trans p q r _ _ ih ih' => exact ih.trans ih'

instance : DecidableRel Respelled := fun _ _ => decidable_of_iff _ components_eq_iff_respelled

/-- A `.` makes no difference behind a slash, and it does at the start. -/
example : Respelled ⟨"//a/./b/."⟩ ⟨"/a/b"⟩ ∧ ¬ Respelled ⟨"./a"⟩ ⟨"a"⟩ := by decide

end LivingGuide.Path
