import LivingGuide.Source
import LivingGuide.Proofs.Comment
import LivingGuide.Proofs.FirstError

/-!
# Sources one after the other

Two source texts with two line feeds between them document what each of them documents, in order:

    runs (s ++ "\n\n" ++ t) = runs s ++ (the run that the end of s cuts off) ++ runs t.

The first line feed ends the last line of `s`, or is an empty line when `s` has none open; the
second is an empty line in any case, and so it closes what `s` left open and nothing of `s` reaches
`t`.  A carriage return at the end of `s` becomes part of a line end, but it was a trailing blank
before and is not in the content of a comment either way (`content?_return`).

* `exists_openLine`: a text is read up to its last line, whatever follows it.
* `stretches_append_stop`: a line that is no comment cuts the stretches around it apart.
* `Source.parse_concatenated`: the laws for runs and blocks.
-/

namespace LivingGuide

/-! ### The last line of a text -/

namespace Text

theorem lines_return_cons {cs : List Char} (h : cs.head? = some '\n') :
    lines ('\r' :: cs) = lines cs := by
  cases cs with
  | nil => cases h
  | cons c cs =>
    obtain rfl := Option.some.inj h
    rw [lines, lines]

theorem lines_ne_nil {cs : List Char} (h : cs ≠ []) : lines cs ≠ [] := by
  rw [lines.eq_def]
  split
  · exact absurd rfl h
  · exact List.cons_ne_nil _ _
  · exact List.cons_ne_nil _ _
  · split
    · exact List.cons_ne_nil _ _
    · exact List.cons_ne_nil _ _

/-- **A line feed cuts the lines of a text.** -/
theorem lines_cut (cs rest : List Char) :
    lines (cs ++ '\n' :: rest) = lines (cs ++ ['\n']) ++ lines rest := by
  induction cs with
  | nil => rfl
  | cons c cs ih =>
    have hhead : (cs ++ '\n' :: rest).head? = (cs ++ ['\n']).head? := by cases cs <;> rfl
    rw [List.cons_append, List.cons_append]
    by_cases hc : c = '\n'
    · subst hc
      rw [lines, lines, ih, List.cons_append]
    · by_cases hcr : c = '\r' ∧ (cs ++ ['\n']).head? = some '\n'
      · obtain ⟨rfl, hcs⟩ := hcr
        rw [lines_return_cons hcs, lines_return_cons (hhead.trans hcs), ih]
      · have hne : lines (cs ++ ['\n']) ≠ [] := lines_ne_nil (by simp)
        obtain ⟨l, ls, hls⟩ := List.exists_cons_of_ne_nil hne
        rw [lines_cons_of_ne hc hcr, lines_cons_of_ne hc (by rw [hhead]; exact hcr), ih, hls]
        rfl

/-- **A text is read up to its last line, whatever follows it.** -/
theorem exists_openLine (cs : List Char) :
    ∃ (ls : List (List Char)) (l : List Char), '\n' ∉ l ∧
      ∀ rest, lines (cs ++ rest) = ls ++ lines (l ++ rest) := by
  by_cases hmem : '\n' ∈ cs
  · obtain ⟨after, before, hcut, hafter⟩ :=
      List.eq_append_cons_of_mem (List.mem_reverse.mpr hmem)
    have hcs : cs = before.reverse ++ '\n' :: after.reverse := by
      rw [← List.reverse_reverse cs, hcut]
      simp
    refine ⟨lines (before.reverse ++ ['\n']), after.reverse, ?_, fun rest => ?_⟩
    · rwa [List.mem_reverse]
    · rw [hcs, List.append_assoc, List.cons_append, lines_cut]
  · exact ⟨[], cs, hmem, fun rest => rfl⟩

theorem lines_append_return {l : List Char} (hl : '\n' ∉ l) :
    lines (l ++ ['\r', '\n']) = [l] := by
  induction l with
  | nil => rfl
  | cons c l ih =>
    rw [List.mem_cons, not_or] at hl
    have hcr : ¬ (c = '\r' ∧ (l ++ ['\r', '\n']).head? = some '\n') := by
      rintro ⟨-, h⟩
      cases l with
      | nil => exact absurd h (by decide)
      | cons d l => exact hl.2 (by rw [← Option.some.inj h]; exact List.mem_cons_self)
    rw [List.cons_append, lines_cons_of_ne (Ne.symm hl.1) hcr, ih hl.2]

/-- A last line that a line feed ends loses a carriage return at its end. -/
theorem lines_lineFeed {l : List Char} (hl : '\n' ∉ l) :
    ∃ l', lines (l ++ ['\n']) = [l'] ∧ (l = l' ∨ l = l' ++ ['\r']) := by
  by_cases hlast : l.getLast? = some '\r'
  · obtain ⟨l', rfl⟩ := List.getLast?_eq_some_iff.mp hlast
    rw [List.mem_append, not_or] at hl
    refine ⟨l', ?_, Or.inr rfl⟩
    rw [List.append_assoc]
    exact lines_append_return hl.1
  · exact ⟨l, lines_append_lineFeed [] hl hlast, Or.inl rfl⟩

end Text

/-! ### Stretches on both sides of a line -/

namespace Comment

open Text

/-- **A line that is no comment cuts the stretches around it apart.** -/
theorem stretches_append_stop {stop : String} (hstop : content? stop = none)
    (before after : List String) :
    stretches (before ++ stop :: after) =
      ((stretches before).1 ++ (stretches before).2 :: (stretches after).1,
        (stretches after).2) := by
  induction before with
  | nil =>
    rw [List.nil_append, stretches.eq_2, hstop]
    rfl
  | cons line before ih =>
    rw [List.cons_append, stretches, ih, stretches]
    rcases stretches before with ⟨closed, opened⟩
    cases content? line with
    | none => rfl
    | some content =>
      cases closed with
      | nil => rfl
      | cons stretch closed => rfl

theorem stretches_congr {ls ls' : List String} (h : ls.map content? = ls'.map content?) :
    stretches ls = stretches ls' := by
  induction ls generalizing ls' with
  | nil =>
    rw [List.map_nil, eq_comm, List.map_eq_nil_iff] at h
    rw [h]
  | cons l ls ih =>
    cases ls' with
    | nil => cases h
    | cons l' ls' =>
      obtain ⟨hl, hls⟩ := List.cons.inj h
      rw [stretches, stretches, hl, ih hls]

theorem trimEnd_return (cs : List Char) : trimEnd (cs ++ ['\r']) = trimEnd cs := by
  rw [trimEnd_eq_rdropWhile, trimEnd_eq_rdropWhile, List.rdropWhile_concat_pos]
  decide

theorem content?_behind (cs : List Char) :
    content? (String.ofList ('/' :: '/' :: cs)) =
      some (String.ofList (trimEnd (if cs.head? = some ' ' then cs.tail else cs))) := by
  rw [content?, String.toList_ofList]
  cases cs with
  | nil => rfl
  | cons c cs =>
    by_cases hc : c = ' '
    · subst hc
      rfl
    · rw [List.head?_cons, if_neg (by simpa using hc)]
      split
      · next h =>
        cases h
        exact absurd rfl hc
      · next h =>
        cases h
        rfl
      · next h => exact absurd rfl (h _)

theorem content?_of_no_sign {cs : List Char} (h : ¬ ['/', '/'] <+: cs) :
    content? (String.ofList cs) = none := by
  rw [content?, String.toList_ofList]
  split
  · exact absurd (List.prefix_append _ _) h
  · exact absurd (List.prefix_append _ _) h
  · rfl

theorem content?_return (cs : List Char) :
    content? (String.ofList (cs ++ ['\r'])) = content? (String.ofList cs) := by
  by_cases hsign : ['/', '/'] <+: cs
  · obtain ⟨tail, rfl⟩ := hsign
    change content? (String.ofList ('/' :: '/' :: (tail ++ ['\r']))) =
      content? (String.ofList ('/' :: '/' :: tail))
    rw [content?_behind, content?_behind]
    cases tail with
    | nil => decide
    | cons c tail =>
      rw [List.cons_append, List.head?_cons, List.head?_cons, List.tail_cons, List.tail_cons,
        ← List.cons_append]
      split
      · rw [trimEnd_return]
      · rw [trimEnd_return]
  · have hreturn : ¬ ['/', '/'] <+: cs ++ ['\r'] := by
      rw [List.prefix_concat_iff, not_or]
      refine ⟨fun h => ?_, hsign⟩
      have hlast := congrArg List.getLast? h
      rw [List.getLast?_concat] at hlast
      exact absurd hlast (by decide)
    rw [content?_of_no_sign hsign, content?_of_no_sign hreturn]

/-! ### Two texts -/

/-- The stretches of two texts with two line feeds between them.  Where the first has no line
open there is one more, which is empty. -/
theorem stretches_concatenated (s t : String) :
    ∃ gap : List (List String), (∀ stretch ∈ gap, stretch = []) ∧
      stretches (linesOf (s ++ "\n\n" ++ t)) =
        ((stretches (linesOf s)).1 ++ (stretches (linesOf s)).2 ::
          (gap ++ (stretches (linesOf t)).1), (stretches (linesOf t)).2) := by
  obtain ⟨ls, l, hl, hread⟩ := exists_openLine s.toList
  obtain ⟨l', hl', hreturn⟩ := lines_lineFeed hl
  have hwhole : linesOf (s ++ "\n\n" ++ t) =
      ls.map String.ofList ++ String.ofList l' :: "" :: linesOf t := by
    have hcs : (s ++ "\n\n" ++ t).toList = s.toList ++ ('\n' :: '\n' :: t.toList) := by
      simp
    rw [linesOf, hcs, hread, lines_cut, hl', lines]
    simp [linesOf]
  have hfirst : linesOf s = ls.map String.ofList ++ (lines l).map String.ofList := by
    have hs := hread []
    rw [List.append_nil, List.append_nil] at hs
    rw [linesOf, hs, List.map_append]
  have hsame : content? (String.ofList l') = content? (String.ofList l) := by
    rcases hreturn with rfl | rfl
    · rfl
    · exact (content?_return l').symm
  rw [hwhole, hfirst]
  cases l with
  | nil =>
    -- No line is open: both line feeds are empty lines, and the second closes nothing.
    refine ⟨[[]], fun stretch h => List.mem_singleton.mp h, ?_⟩
    have hstop : content? (String.ofList l') = none := hsame.trans content?_empty
    rw [stretches_append_stop hstop, stretches.eq_2, content?_empty, lines, List.map_nil,
      List.append_nil]
    rfl
  | cons c l =>
    refine ⟨[], fun stretch h => absurd h (by simp), ?_⟩
    have hline : lines (c :: l) = [c :: l] := lines_of_noLineFeed hl (List.cons_ne_nil c l)
    have hcontents : (ls.map String.ofList ++ [String.ofList l']).map content? =
        (ls.map String.ofList ++ [String.ofList (c :: l)]).map content? := by
      simp [hsame]
    rw [List.append_cons, stretches_append_stop content?_empty, stretches_congr hcontents, hline]
    rfl

theorem filter_isDocumented_gap {gap : List (List String)} (h : ∀ stretch ∈ gap, stretch = []) :
    gap.filter isDocumented = [] := by
  rw [List.filter_eq_nil_iff]
  intro stretch hstretch
  rw [h stretch hstretch]
  decide

/-- **The runs of two texts are those of the first, the one it leaves open, and those of the
second.** -/
theorem runs_concatenated (s t : String) :
    runs (linesOf (s ++ "\n\n" ++ t)) =
      runs (linesOf s) ++ (unterminated? (linesOf s)).toList ++ runs (linesOf t) := by
  obtain ⟨gap, hgap, hstretches⟩ := stretches_concatenated s t
  rw [runs, hstretches, List.filter_append, List.filter_cons, List.filter_append,
    filter_isDocumented_gap hgap, runs, runs, unterminated?]
  split
  · simp
  · simp

theorem unterminated?_concatenated (s t : String) :
    unterminated? (linesOf (s ++ "\n\n" ++ t)) = unterminated? (linesOf t) := by
  obtain ⟨gap, -, hstretches⟩ := stretches_concatenated s t
  rw [unterminated?, hstretches, unterminated?]

end Comment

/-! ### Blocks -/

open Text Comment

namespace Source

theorem parse_eq_ok_iff {text : String} {source : Source} :
    Source.parse text = .ok source ↔
      (runs (linesOf text)).mapM Block.ofLines = .ok source.blocks ∧
        unterminated? (linesOf text) = source.unterminated := by
  obtain ⟨blocks, unterminated⟩ := source
  rw [Source.parse]
  constructor
  · intro h
    split at h
    · next found hfound =>
      cases h
      exact ⟨hfound, rfl⟩
    · cases h
  · rintro ⟨hblocks, hopen⟩
    simp only [hblocks, hopen]

theorem mapM_ofLines_append {xs ys : List (List String)} {bs cs : List Block}
    (hxs : xs.mapM Block.ofLines = .ok bs) (hys : ys.mapM Block.ofLines = .ok cs) :
    (xs ++ ys).mapM Block.ofLines = .ok (bs ++ cs) := by
  rw [mapM_eq_ok_iff] at hxs hys ⊢
  exact List.rel_append hxs hys

/-- **Sources one after the other document what each of them documents.**  The runs of the two are
put together, with the one that the end of the first cuts off between them.  So two line feeds at
the end of a text recover the block that was left open, and texts that leave none open can be joined
by them. -/
theorem parse_concatenated (s t : String) :
    (runs (linesOf (s ++ "\n\n" ++ t)) =
        runs (linesOf s) ++ (unterminated? (linesOf s)).toList ++ runs (linesOf t) ∧
      unterminated? (linesOf (s ++ "\n\n" ++ t)) = unterminated? (linesOf t)) ∧
    (∀ blocks run b, Source.parse s = .ok ⟨blocks, some run⟩ → Block.ofLines run = .ok b →
      Source.parse (s ++ "\n\n") = .ok ⟨blocks ++ [b], none⟩) ∧
    (∀ blocks blocks' opened, Source.parse s = .ok ⟨blocks, none⟩ →
      Source.parse t = .ok ⟨blocks', opened⟩ →
      Source.parse (s ++ "\n\n" ++ t) = .ok ⟨blocks ++ blocks', opened⟩) := by
  refine ⟨⟨runs_concatenated s t, unterminated?_concatenated s t⟩, ?_, ?_⟩
  · intro blocks run b hs hb
    obtain ⟨hblocks, hopen⟩ := parse_eq_ok_iff.mp hs
    have hruns := runs_concatenated s ""
    have hend := unterminated?_concatenated s ""
    rw [String.append_empty] at hruns hend
    have hrun : [run].mapM Block.ofLines = .ok [b] :=
      mapM_eq_ok_iff.mpr (.cons hb .nil)
    have hempty : runs (linesOf "") = [] := rfl
    refine parse_eq_ok_iff.mpr ⟨?_, hend⟩
    rw [hruns, hopen, hempty, List.append_nil]
    exact mapM_ofLines_append hblocks hrun
  · intro blocks blocks' opened hs ht
    obtain ⟨hblocks, hopen⟩ := parse_eq_ok_iff.mp hs
    obtain ⟨hblocks', hopen'⟩ := parse_eq_ok_iff.mp ht
    refine parse_eq_ok_iff.mpr ⟨?_, ?_⟩
    · rw [runs_concatenated, hopen, Option.toList_none, List.append_nil]
      exact mapM_ofLines_append hblocks hblocks'
    · rw [unterminated?_concatenated, hopen']

/-- A card that the end of the text cuts off, with a carriage return behind it, is recovered, and
then a second text can follow. -/
theorem parse_concatenated_card :
    let s := "// Card\n//\n// Styleguide 1\r"
    let t := "//Tail\n//\n// Styleguide 3"
    let card : Block := ⟨"Card", "", [], "", "1"⟩
    Source.parse s = .ok ⟨[], some ["Card", "", "Styleguide 1"]⟩ ∧
      Source.parse (s ++ "\n\n") = .ok ⟨[card], none⟩ ∧
      Source.parse (s ++ "\n\n" ++ "\n\n" ++ t) =
        .ok ⟨[card], some ["Tail", "", "Styleguide 3"]⟩ := by
  intro s t card
  have hs : Source.parse s = .ok ⟨[], some ["Card", "", "Styleguide 1"]⟩ := by decide +kernel
  have ht : Source.parse t = .ok ⟨[], some ["Tail", "", "Styleguide 3"]⟩ := by decide +kernel
  have hcard : Block.ofLines ["Card", "", "Styleguide 1"] = .ok card := by decide +kernel
  have hclosed := (parse_concatenated s t).2.1 _ _ _ hs hcard
  exact ⟨hs, hclosed, (parse_concatenated (s ++ "\n\n") t).2.2 _ _ _ hclosed ht⟩

end Source

end LivingGuide
