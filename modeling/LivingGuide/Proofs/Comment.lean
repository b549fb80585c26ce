import LivingGuide.Comment
import LivingGuide.Proofs.Text
import Mathlib.Data.List.Forall2

/-!
# What comment lines hold

The text of a comment line has no line feed and no blank at its end (`IsContent`), and such a text,
written behind a comment sign and a space, is read back (`content?_sign`).  A line that is no
comment closes the stretch of comment lines before it, whatever follows (`stretches_append`).
-/

namespace LivingGuide.Comment

open Text

/-- A text that a comment line can hold: no line feed inside and no blank at the end. -/
structure IsContent (s : String) : Prop where
  noLineFeed : '\n' ∉ s.toList
  noTrailingBlank : NoTrailingBlank s.toList

/-- A comment line with the given text. -/
def sign (s : String) : String :=
  "// " ++ s

/-! ### One line -/

theorem isContent_trimEnd {cs : List Char} (h : '\n' ∉ cs) :
    IsContent (String.ofList (trimEnd cs)) := by
  refine ⟨?_, ?_⟩
  · rw [String.toList_ofList]
    exact fun hmem => h ((prefix_trimEnd cs).subset hmem)
  · rw [String.toList_ofList]
    exact noTrailingBlank_trimEnd cs

theorem isContent_of_content? {line s : String} (hline : '\n' ∉ line.toList)
    (h : content? line = some s) : IsContent s := by
  rw [content?] at h
  split at h
  · next cs hcs =>
    cases h
    rw [hcs] at hline
    exact isContent_trimEnd (fun hmem => hline (by simp [hmem]))
  · next cs hcs =>
    cases h
    rw [hcs] at hline
    exact isContent_trimEnd (fun hmem => hline (by simp [hmem]))
  · cases h

theorem subset_of_content? {line s : String} (h : content? line = some s) :
    s.toList ⊆ line.toList := by
  have htrim : ∀ before cs : List Char, trimEnd cs ⊆ before ++ cs := fun before cs =>
    List.subset_append_of_subset_right before (prefix_trimEnd cs).subset
  rw [content?] at h
  split at h
  · next hcs =>
    cases h
    rw [hcs, String.toList_ofList]
    exact htrim ['/', '/', ' '] _
  · next hcs =>
    cases h
    rw [hcs, String.toList_ofList]
    exact htrim ['/', '/'] _
  · cases h

theorem toList_sign (s : String) : (sign s).toList = '/' :: '/' :: ' ' :: s.toList := by
  rw [sign, String.toList_append]
  rfl

theorem content?_sign {s : String} (h : IsContent s) : content? (sign s) = some s := by
  rw [content?, toList_sign]
  simp only [trimEnd_of_noTrailingBlank h.noTrailingBlank, String.ofList_toList]

theorem isLine_sign {s : String} (h : IsContent s) : IsLine (sign s) := by
  rw [IsLine, toList_sign]
  refine ⟨?_, fun hlast => ?_⟩
  · simp only [List.mem_cons, not_or]
    exact ⟨by decide, by decide, by decide, h.noLineFeed⟩
  · cases hs : s.toList with
    | nil => rw [hs] at hlast; cases hlast
    | cons c cs =>
      rw [hs, List.getLast?_cons_cons, List.getLast?_cons_cons, List.getLast?_cons_cons, ← hs]
        at hlast
      exact absurd (h.noTrailingBlank _ hlast) (by decide)

theorem content?_bare : content? "//" = some "" := by decide

theorem content?_empty : content? "" = none := by decide

/-! ### Stretches -/

/-- **A line that is no comment closes the comment lines before it.** -/
theorem stretches_append {ls contents : List String} {stop : String}
    (h : List.Forall₂ (fun l s => content? l = some s) ls contents) (hstop : content? stop = none)
    (rest : List String) :
    stretches (ls ++ stop :: rest) = (contents :: (stretches rest).1, (stretches rest).2) := by
  induction h with
  | nil => rw [List.nil_append, stretches, hstop]
  | cons hl _ ih => rw [List.cons_append, stretches, hl, ih]

theorem exists_line_of_mem_stretches : ∀ {lines : List String} {stretch : List String},
    stretch ∈ (stretches lines).1 → ∀ s ∈ stretch, ∃ line ∈ lines, content? line = some s := by
  intro lines
  induction lines with
  | nil => exact fun h => absurd h (by simp [stretches])
  | cons line lines ih =>
    intro stretch hstretch s hs
    have hrest : ∀ {stretch : List String}, stretch ∈ (stretches lines).1 → s ∈ stretch →
        ∃ l ∈ line :: lines, content? l = some s := by
      intro stretch hstretch hs
      obtain ⟨l, hl, hcontent⟩ := ih hstretch s hs
      exact ⟨l, List.mem_cons_of_mem line hl, hcontent⟩
    rw [stretches] at hstretch
    split at hstretch
    · next closed opened hline hlines =>
      rw [hlines] at hrest
      rcases List.mem_cons.mp hstretch with rfl | hstretch
      · exact absurd hs (by simp)
      · exact hrest hstretch hs
    · exact absurd hstretch (by simp)
    · next content stretch' closed opened hline hlines =>
      rw [hlines] at hrest
      rcases List.mem_cons.mp hstretch with rfl | hstretch
      · rcases List.mem_cons.mp hs with rfl | hs
        · exact ⟨line, List.mem_cons_self, hline⟩
        · exact hrest List.mem_cons_self hs
      · exact hrest (List.mem_cons_of_mem _ hstretch) hs

theorem exists_line_of_mem_opened : ∀ {lines : List String} {s : String},
    s ∈ (stretches lines).2 → ∃ line ∈ lines, content? line = some s := by
  intro lines
  induction lines with
  | nil => exact fun h => absurd h (by simp [stretches])
  | cons line lines ih =>
    intro s hs
    have hrest : s ∈ (stretches lines).2 → ∃ l ∈ line :: lines, content? l = some s := by
      intro hs
      obtain ⟨l, hl, hcontent⟩ := ih hs
      exact ⟨l, List.mem_cons_of_mem line hl, hcontent⟩
    rw [stretches] at hs
    split at hs
    · next closed opened hline hlines =>
      rw [hlines] at hrest
      exact hrest hs
    · next content opened hline hlines =>
      rw [hlines] at hrest
      rcases List.mem_cons.mp hs with rfl | hs
      · exact ⟨line, List.mem_cons_self, hline⟩
      · exact hrest hs
    · next content stretch closed opened hline hlines =>
      rw [hlines] at hrest
      exact hrest hs

theorem isContent_of_mem_runs {text : String} {run : List String}
    (hrun : run ∈ runs (linesOf text)) {s : String} (hs : s ∈ run) : IsContent s := by
  have hstretch : run ∈ (stretches (linesOf text)).1 := List.mem_of_mem_filter hrun
  obtain ⟨line, hline, hcontent⟩ := exists_line_of_mem_stretches hstretch s hs
  exact isContent_of_content? (noLineFeed_of_mem_linesOf hline) hcontent

end LivingGuide.Comment
