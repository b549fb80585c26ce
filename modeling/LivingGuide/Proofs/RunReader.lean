import LivingGuide.Proofs.Concatenation
import Mathlib.Data.List.ReduceOption

/-!
# Runs one at a time

A `Comment.Reader` goes over lines and gives one documentation run for each call of `Reader.next`.
It keeps the comment lines of the stretch that it is in, and forgets them at the end of every
stretch, be it documentation or not.  This file says what any number of calls give, without the
reader.

* `closedStretches lines`, `openStretch lines`: the lines cut where they are no comments, and the
  text of each comment line (`stripped`).  Every stretch but the last is closed by the line behind
  it.
* `Reader.pending`: the stretches that a reader has not yet given away.  **A call takes the first
  documented one off, or there is none and the open stretch stays with the reader**
  (`accounts_next`).
* `Reader.answered_calls`: from it, by induction, what any number of calls answer and what the
  reader keeps.
* `Reader.calls_ofLines`: both for a reader at the start of lines, in terms of the cuts.
-/

namespace LivingGuide.Comment

open Text

/-! ### Lines cut at those that are no comments -/

/-- Whether a line starts with the comment sign. -/
def isComment (line : String) : Bool :=
  ['/', '/'].isPrefixOf line.toList

/-- A comment line without its sign, without one space behind the sign and without the blanks at the
end. -/
def stripped (line : String) : String :=
  let behind := line.toList.drop 2
  String.ofList ((if behind.head? = some ' ' then behind.tail else behind).rdropWhile isBlank)

/-- The stretches of comment lines, cut at the lines that are none. -/
def cuts (lines : List String) : List (List String) :=
  lines.splitOnP (!isComment ·)

/-- The stretches that a line which is no comment closes: all but the last. -/
def closedStretches (lines : List String) : List (List String) :=
  (cuts lines).dropLast.map (List.map stripped)

/-- The stretch behind the last line that is no comment. -/
def openStretch (lines : List String) : List String :=
  ((cuts lines).getLastD []).map stripped

/-- A stretch whose last line holds the marker. -/
def EndsInMarker (stretch : List String) : Prop :=
  ∃ last, stretch.getLast? = some last ∧ "Styleguide".toList <:+: last.toList

theorem isDocumented_iff {stretch : List String} :
    isDocumented stretch = true ↔ EndsInMarker stretch := by
  rw [isDocumented, EndsInMarker]
  cases stretch.getLast? with
  | none => exact ⟨nofun, nofun⟩
  | some last =>
    rw [Option.any_some, contains, occursIn_iff]
    exact ⟨fun h => ⟨last, rfl, h⟩, fun ⟨_, heq, h⟩ => Option.some.inj heq ▸ h⟩

instance : DecidablePred EndsInMarker := fun _ =>
  decidable_of_iff _ isDocumented_iff

theorem content?_eq_stripped (line : String) :
    content? line = if isComment line then some (stripped line) else none := by
  by_cases h : isComment line = true
  · obtain ⟨behind, hbehind⟩ := List.isPrefixOf_iff_prefix.mp h
    have hline : line = String.ofList ('/' :: '/' :: behind) := by
      rw [← String.ofList_toList (s := line), ← hbehind]
      rfl
    have hdrop : line.toList.drop 2 = behind := by
      rw [← hbehind]
      rfl
    rw [if_pos h, stripped, hdrop, hline, content?_behind, trimEnd_eq_rdropWhile]
  · rw [if_neg h, ← String.ofList_toList (s := line)]
    exact content?_of_no_sign (fun hsign => h (List.isPrefixOf_iff_prefix.mpr hsign))

theorem cuts_cons (line : String) (lines : List String) :
    cuts (line :: lines) =
      if isComment line then (cuts lines).modifyHead (line :: ·) else [] :: cuts lines := by
  rw [cuts, List.splitOnP_cons_eq_if_modifyHead]
  by_cases h : isComment line = true
  · rw [h]
    rfl
  · rw [Bool.not_eq_true] at h
    rw [h]
    rfl

/-- **The stretches of lines are their cuts.** -/
theorem stretches_eq_cuts (lines : List String) :
    stretches lines = (closedStretches lines, openStretch lines) := by
  induction lines with
  | nil => rfl
  | cons line lines ih =>
    obtain ⟨first, later, hcuts⟩ : ∃ first later, cuts lines = first :: later :=
      List.exists_cons_of_ne_nil (List.splitOnP_ne_nil _ _)
    rw [closedStretches, openStretch, hcuts] at ih
    rw [stretches, content?_eq_stripped, ih, closedStretches, openStretch, cuts_cons, hcuts]
    by_cases h : isComment line = true
    · rw [if_pos h, if_pos h]
      cases later with
      | nil => rfl
      | cons second later => rfl
    · rw [if_neg h, if_neg h]
      rfl

theorem runs_eq_filter (lines : List String) :
    runs lines = (closedStretches lines).filter (EndsInMarker ·) := by
  rw [runs, stretches_eq_cuts]
  refine List.filter_congr (fun stretch _ => ?_)
  rw [Bool.eq_iff_iff, decide_eq_true_iff, isDocumented_iff]

theorem unterminated?_eq (lines : List String) :
    unterminated? lines =
      if EndsInMarker (openStretch lines) then some (openStretch lines) else none := by
  simp only [unterminated?, stretches_eq_cuts, isDocumented_iff]

/-! ### What a reader has not yet given away -/

namespace Reader

/-- The stretches that are still to come: the first of them starts with the comment lines that the
reader keeps. -/
def pending (reader : Reader) : List (List String) × List String :=
  match stretches reader.unread with
  | ([], opened) => ([], reader.current ++ opened)
  | (stretch :: closed, opened) => ((reader.current ++ stretch) :: closed, opened)

/-- The runs that are still to come. -/
def runsLeft (reader : Reader) : List (List String) :=
  reader.pending.1.filter isDocumented

theorem pending_ofLines (lines : List String) : (ofLines lines).pending = stretches lines := by
  rw [pending, ofLines]
  rcases stretches lines with ⟨_ | ⟨stretch, closed⟩, opened⟩
  · rfl
  · rfl

theorem pending_comment {line content : String} (h : content? line = some content)
    (current lines : List String) :
    pending ⟨current, line :: lines⟩ = pending ⟨current ++ [content], lines⟩ := by
  rw [pending, pending]
  simp only [stretches, h]
  rcases stretches lines with ⟨_ | ⟨stretch, closed⟩, opened⟩
  · simp
  · simp

theorem pending_stop {line : String} (h : content? line = none) (current lines : List String) :
    pending ⟨current, line :: lines⟩ =
      (current :: (pending ⟨[], lines⟩).1, (pending ⟨[], lines⟩).2) := by
  rw [pending, pending]
  simp only [stretches, h]
  rcases stretches lines with ⟨_ | ⟨stretch, closed⟩, opened⟩
  · simp
  · simp

/-! ### One call -/

/-- **What a call does with the stretches that are still to come.**  It takes the first run off and
leaves the open stretch where it is; or there is no run left, and all that the reader keeps is the
open stretch. -/
def Accounts (before : Reader) : Option (List String) × Reader → Prop
  | (some run, behind) => before.runsLeft = run :: behind.runsLeft ∧
      behind.pending.2 = before.pending.2 ∧ behind.current = []
  | (none, behind) => before.runsLeft = [] ∧ behind = ⟨before.pending.2, []⟩

theorem Accounts.congr {before before' : Reader} {result : Option (List String) × Reader}
    (hruns : before.runsLeft = before'.runsLeft) (hopen : before.pending.2 = before'.pending.2)
    (h : Accounts before' result) : Accounts before result := by
  rcases result with ⟨_ | run, behind⟩
  · rw [Accounts, hruns, hopen]
    exact h
  · rw [Accounts, hruns, hopen]
    exact h

theorem accounts_nextFrom (current lines : List String) :
    Accounts ⟨current, lines⟩ (nextFrom current lines) := by
  fun_induction nextFrom current lines with
  | case1 current =>
    refine ⟨rfl, ?_⟩
    show (⟨current, []⟩ : Reader) = ⟨current ++ [], []⟩
    rw [List.append_nil]
  | case2 current line lines content hline ih =>
    have hpending := pending_comment hline current lines
    refine ih.congr ?_ (congrArg Prod.snd hpending)
    rw [runsLeft, runsLeft, hpending]
  | case3 current line lines hline hdoc =>
    have hpending := pending_stop hline current lines
    refine ⟨?_, (congrArg Prod.snd hpending).symm, rfl⟩
    rw [runsLeft, hpending, List.filter_cons_of_pos hdoc, runsLeft]
  | case4 current line lines hline hdoc ih =>
    have hpending := pending_stop hline current lines
    refine ih.congr ?_ ?_
    · rw [runsLeft, hpending, List.filter_cons_of_neg hdoc, runsLeft]
    · rw [hpending]

/-- **One call takes the first run off, or finds none left.** -/
theorem accounts_next (reader : Reader) : Accounts reader reader.next :=
  accounts_nextFrom reader.current reader.unread

/-! ### Any number of calls -/

/-- What a number of calls answer, one after the other, and the reader behind them. -/
def calls : Nat → Reader → List (Option (List String)) × Reader
  | 0, reader => ([], reader)
  | k + 1, reader =>
    let rest := calls k reader.next.2
    (reader.next.1 :: rest.1, rest.2)

theorem calls_exhausted (k : Nat) (current : List String) :
    calls k ⟨current, []⟩ = (List.replicate k none, ⟨current, []⟩) := by
  induction k with
  | zero => rfl
  | succ k ih =>
    show (none :: (calls k ⟨current, []⟩).1, (calls k ⟨current, []⟩).2) = _
    rw [ih]
    rfl

/-- What calls of a reader come to: **the runs in order and nothing after them**, and once an answer
was nothing the reader keeps the open stretch. -/
structure Answered (k : Nat) (before : Reader) : Prop where
  answers : (calls k before).1 = (before.runsLeft.take k).map some ++
    List.replicate (k - before.runsLeft.length) none
  current : (calls k before).2.current =
    if before.runsLeft.length < k then before.pending.2 else []

/-- By induction on the number of calls: behind a run the reader keeps no comment lines, so the
calls that follow are those of a reader like the first. -/
theorem answered_calls (k : Nat) {reader : Reader} (h : reader.current = []) :
    Answered k reader := by
  induction k generalizing reader with
  | zero =>
    refine ⟨by simp [calls], ?_⟩
    rw [if_neg (Nat.not_lt_zero _)]
    exact h
  | succ k ih =>
    have hcall := accounts_next reader
    rcases hnext : reader.next with ⟨_ | run, behind⟩
    · rw [hnext] at hcall
      obtain ⟨hruns, rfl⟩ := hcall
      have hcalls : calls (k + 1) reader =
          (List.replicate (k + 1) none, ⟨reader.pending.2, []⟩) := by
        rw [calls, hnext, calls_exhausted]
        rfl
      refine ⟨?_, ?_⟩
      · rw [hcalls, hruns, List.take_nil, List.map_nil, List.nil_append, List.length_nil,
          Nat.sub_zero]
      · rw [hcalls, hruns, List.length_nil, if_pos (Nat.succ_pos k)]
    · rw [hnext] at hcall
      obtain ⟨hruns, hopen, hcurrent⟩ := hcall
      have hrest := ih hcurrent
      have hcalls : calls (k + 1) reader =
          (some run :: (calls k behind).1, (calls k behind).2) := by
        rw [calls, hnext]
      refine ⟨?_, ?_⟩
      · rw [hcalls, hruns, List.take_succ_cons, List.map_cons, List.cons_append, List.length_cons,
          Nat.add_sub_add_right, hrest.answers]
      · rw [hcalls, hrest.current, hruns, hopen, List.length_cons]
        simp only [Nat.add_lt_add_iff_right]

/-- Taking runs stops at the first answer that is nothing; more calls would change nothing. -/
theorem take_eq_calls (k : Nat) (reader : Reader) :
    reader.take k = ((calls k reader).1.reduceOption, (calls k reader).2) := by
  induction k generalizing reader with
  | zero => rfl
  | succ k ih =>
    have hcall := accounts_next reader
    rw [take, calls]
    rcases hnext : reader.next with ⟨_ | run, behind⟩
    · rw [hnext] at hcall
      obtain ⟨-, rfl⟩ := hcall
      simp only [calls_exhausted, List.reduceOption_cons_of_none, List.reduceOption_replicate_none]
    · simp only [ih behind, List.reduceOption_cons_of_some]

/-! ### A reader at the start of lines -/

theorem runsLeft_ofLines (lines : List String) : (ofLines lines).runsLeft = runs lines := by
  rw [runsLeft, pending_ofLines, runs]

theorem answers_ofLines (lines : List String) (k : Nat) :
    (calls k (ofLines lines)).1 =
      ((runs lines).take k).map some ++ List.replicate (k - (runs lines).length) none := by
  have hanswered : Answered k (ofLines lines) := answered_calls k rfl
  rw [hanswered.answers, runsLeft_ofLines]

theorem unterminated?_ofLines (lines : List String) (k : Nat) :
    (calls k (ofLines lines)).2.unterminated? =
      if (runs lines).length < k then Comment.unterminated? lines else none := by
  have hanswered : Answered k (ofLines lines) := answered_calls k rfl
  rw [unterminated?, hanswered.current, runsLeft_ofLines, pending_ofLines]
  by_cases hk : (runs lines).length < k
  · rw [if_pos hk, if_pos hk, Comment.unterminated?]
  · rw [if_neg hk, if_neg hk, if_neg (by decide)]

theorem none_mem_answers_iff (lines : List String) (k : Nat) :
    none ∈ (calls k (ofLines lines)).1 ↔ (runs lines).length < k := by
  rw [answers_ofLines, List.mem_append, List.mem_replicate]
  constructor
  · rintro (h | ⟨h, -⟩)
    · obtain ⟨run, -, hrun⟩ := List.mem_map.mp h
      cases hrun
    · omega
  · intro h
    exact .inr ⟨by omega, rfl⟩

/-- **Pulling runs gives the first of them**, and the unterminated one when they were too few. -/
theorem pull_eq (wanted : Nat) (lines : List String) :
    pull wanted lines =
      ((runs lines).take wanted, (calls wanted (ofLines lines)).2.unterminated?) := by
  have hruns : (calls wanted (ofLines lines)).1.reduceOption = (runs lines).take wanted := by
    rw [answers_ofLines, List.reduceOption_append, List.reduceOption_replicate_none,
      List.append_nil]
    simp [List.reduceOption]
  rw [pull, take_eq_calls, hruns]

/-- **Calls give the documented stretches of the lines that are closed, one after the other, and
then nothing.**  The open stretch is the unterminated run when it is documented and some call answered
nothing; so it is not seen as long as the calls are no more than the runs. -/
theorem calls_ofLines (lines : List String) (k : Nat) :
    let found := (closedStretches lines).filter (EndsInMarker ·)
    let opened := openStretch lines
    let answers := (calls k (ofLines lines)).1
    let behind := (calls k (ofLines lines)).2
    answers = (found.take k).map some ++ List.replicate (k - found.length) none ∧
      behind.unterminated? =
        (if none ∈ answers ∧ EndsInMarker opened then some opened else none) ∧
      pull k lines = (found.take k, behind.unterminated?) := by
  intro found opened answers behind
  have hfound : runs lines = found := runs_eq_filter lines
  refine ⟨?_, ?_, ?_⟩
  · rw [← hfound]
    exact answers_ofLines lines k
  · have hbehind := unterminated?_ofLines lines k
    rw [Comment.unterminated?_eq] at hbehind
    simp only [answers, none_mem_answers_iff, ite_and]
    exact hbehind
  · rw [← hfound]
    exact pull_eq k lines

/-- The open stretch is seen by the call that finds no run, and not before. -/
example : pull 1 ["// Styleguide 1", "a", "// Styleguide 2"] = ([["Styleguide 1"]], none) ∧
    pull 2 ["// Styleguide 1", "a", "// Styleguide 2"] =
      ([["Styleguide 1"]], some ["Styleguide 2"]) := by
  decide +kernel

end Reader

end LivingGuide.Comment
