import LivingGuide.Text.Basic
import Mathlib.Data.List.DropRight
import Mathlib.Data.List.TakeWhile

/-!
# Lines, blanks and words

What the cutting and trimming of `Text` give back.

* `lines_append_lineFeed`, `lines_of_noLineFeed`: a line that has no line feed and does not end in a
  carriage return is read back as it was written, be it followed by a line feed or the last one.
  `linesOf_join`, `linesOf_intercalate` say so of whole texts.
* `NoLeadingBlank`, `NoTrailingBlank`: what trimming reaches, and where it changes nothing.
* `words_append`, `isWord_of_mem_words`: words are the runs of non-blank characters.
* `append_of_splitAtFirst`: a text cut at a mark is the text.  `replaceAll_of_not_infix`: without the
  mark it stays as it is.
-/

namespace LivingGuide.Text

/-! ### Cutting where a condition stops -/

theorem span_of_stop {α : Type} {p : α → Bool} {xs ys : List α} (hxs : ∀ x ∈ xs, p x = true)
    (hys : ∀ y ∈ ys.head?, p y = false) :
    (xs ++ ys).takeWhile p = xs ∧ (xs ++ ys).dropWhile p = ys := by
  rw [List.takeWhile_append_of_pos hxs, List.dropWhile_append_of_pos hxs]
  cases ys with
  | nil => exact ⟨List.append_nil xs, rfl⟩
  | cons y ys =>
    have hy : ¬ p y = true := by rw [hys y rfl]; exact Bool.false_ne_true
    rw [List.takeWhile_cons_of_neg hy, List.dropWhile_cons_of_neg hy]
    exact ⟨List.append_nil xs, rfl⟩

theorem stop_of_dropWhile {α : Type} {p : α → Bool} {xs : List α} {y : α}
    (h : y ∈ (xs.dropWhile p).head?) : p y = false := by
  have hstop := List.head?_dropWhile_not p xs
  rw [Option.mem_def.mp h] at hstop
  exact hstop

/-! ### Joining -/

theorem mem_intercalate {α : Type} {sep : List α} {xs : List (List α)} {a : α}
    (h : a ∈ sep.intercalate xs) : a ∈ sep ∨ ∃ x ∈ xs, a ∈ x := by
  induction xs with
  | nil => cases h
  | cons x xs ih =>
    cases xs with
    | nil =>
      rw [List.intercalate_singleton] at h
      exact .inr ⟨x, List.mem_cons_self, h⟩
    | cons y ys =>
      rw [List.intercalate_cons_cons, List.mem_append, List.mem_append] at h
      rcases h with (h | h) | h
      · exact .inr ⟨x, List.mem_cons_self, h⟩
      · exact .inl h
      · rcases ih h with h | ⟨z, hz, ha⟩
        · exact .inl h
        · exact .inr ⟨z, List.mem_cons_of_mem _ hz, ha⟩

theorem mem_intercalate_of_mem {α : Type} {sep x : List α} {xs : List (List α)} {a : α}
    (hx : x ∈ xs) (ha : a ∈ x) : a ∈ sep.intercalate xs := by
  induction xs with
  | nil => cases hx
  | cons y ys ih =>
    cases ys with
    | nil =>
      obtain rfl := List.mem_singleton.mp hx
      rwa [List.intercalate_singleton]
    | cons z zs =>
      rw [List.intercalate_cons_cons, List.mem_append, List.mem_append]
      rcases List.mem_cons.mp hx with rfl | hx
      · exact .inl (.inl ha)
      · exact .inr (ih hx)

theorem map_intercalate {α β : Type} (f : α → β) (sep : List α) (xs : List (List α)) :
    (sep.intercalate xs).map f = (sep.map f).intercalate (xs.map (List.map f)) := by
  induction xs with
  | nil => rfl
  | cons x xs ih =>
    cases xs with
    | nil => rw [List.intercalate_singleton, List.map_singleton, List.intercalate_singleton]
    | cons y ys =>
      rw [List.intercalate_cons_cons, List.map_append, List.map_append, ih]
      simp only [List.map_cons, List.intercalate_cons_cons]

/-- **Between separators no separator is left.** -/
theorem notMem_of_mem_splitOn {α : Type} [BEq α] [LawfulBEq α] {sep : α} {xs piece : List α}
    (h : piece ∈ xs.splitOn sep) : sep ∉ piece := by
  induction xs generalizing piece with
  | nil =>
    rw [List.splitOn_nil, List.mem_singleton] at h
    rw [h]
    exact List.not_mem_nil
  | cons x xs ih =>
    rw [List.splitOn_cons_eq_if_modifyHead] at h
    split at h
    · rcases List.mem_cons.mp h with rfl | h
      · exact List.not_mem_nil
      · exact ih h
    · next hx =>
      obtain ⟨first, rest, hsplit⟩ := List.exists_cons_of_ne_nil (List.splitOn_ne_nil sep xs)
      rw [hsplit] at ih
      rw [hsplit, List.modifyHead_cons] at h
      rcases List.mem_cons.mp h with rfl | h
      · rw [List.mem_cons, not_or]
        exact ⟨fun heq => hx (beq_iff_eq.mpr heq.symm), ih List.mem_cons_self⟩
      · exact ih (List.mem_cons_of_mem _ h)

theorem nil_mem_splitOn_of_getLast? {α : Type} [BEq α] [LawfulBEq α] {sep : α} {xs : List α}
    (h : xs.getLast? = some sep) : [] ∈ xs.splitOn sep := by
  obtain ⟨before, rfl⟩ := List.getLast?_eq_some_iff.mp h
  rw [List.splitOn_append_cons_self, List.splitOn_nil]
  exact List.mem_append_right _ List.mem_cons_self

/-! ### Lines -/

theorem lines_cons_of_ne {c : Char} {cs : List Char} (hc : c ≠ '\n')
    (hcr : ¬ (c = '\r' ∧ cs.head? = some '\n')) :
    lines (c :: cs) =
      match lines cs with
      | [] => [[c]]
      | l :: ls => (c :: l) :: ls := by
  rw [lines.eq_def]
  split
  · next h => cases h
  · next h =>
    cases h
    exact absurd rfl hc
  · next h =>
    cases h
    exact absurd ⟨rfl, rfl⟩ hcr
  · next h =>
    cases h
    rfl

/-- **A line before a line feed is read as it is.** -/
theorem lines_append_lineFeed : ∀ {l : List Char} (rest : List Char), '\n' ∉ l →
    l.getLast? ≠ some '\r' → lines (l ++ '\n' :: rest) = l :: lines rest := by
  intro l rest hl hlast
  induction l with
  | nil => rw [List.nil_append, lines]
  | cons c l ih =>
    have hc : c ≠ '\n' := fun h => hl (h ▸ List.mem_cons_self)
    have hl' : '\n' ∉ l := fun h => hl (List.mem_cons_of_mem c h)
    cases l with
    | nil =>
      have hcr : ¬ (c = '\r' ∧ ('\n' :: rest).head? = some '\n') :=
        fun h => hlast (by rw [h.1]; rfl)
      rw [List.cons_append, List.nil_append, lines_cons_of_ne hc hcr, lines]
    | cons d l =>
      have hcr : ¬ (c = '\r' ∧ (d :: l ++ '\n' :: rest).head? = some '\n') := by
        rintro ⟨-, h⟩
        exact hl' (by rw [← Option.some.inj h]; exact List.mem_cons_self)
      rw [List.getLast?_cons_cons] at hlast
      rw [List.cons_append, lines_cons_of_ne hc hcr, ih hl' hlast]

theorem lines_of_noLineFeed : ∀ {l : List Char}, '\n' ∉ l → l ≠ [] → lines l = [l] := by
  intro l hl hne
  induction l with
  | nil => exact absurd rfl hne
  | cons c l ih =>
    have hc : c ≠ '\n' := fun h => hl (h ▸ List.mem_cons_self)
    have hl' : '\n' ∉ l := fun h => hl (List.mem_cons_of_mem c h)
    have hcr : ¬ (c = '\r' ∧ l.head? = some '\n') := fun h => hl' (List.mem_of_mem_head? h.2)
    rw [lines_cons_of_ne hc hcr]
    cases l with
    | nil => rfl
    | cons d l => rw [ih hl' (by simp)]

theorem subset_of_mem_lines : ∀ {cs l : List Char}, l ∈ lines cs → l ⊆ cs := by
  intro cs
  fun_induction lines cs with
  | case1 => exact fun h => absurd h (by simp)
  | case2 cs ih =>
    intro l hl
    rcases List.mem_cons.mp hl with rfl | hl
    · exact List.nil_subset _
    · exact List.subset_cons_of_subset _ (ih hl)
  | case3 cs ih =>
    intro l hl
    rcases List.mem_cons.mp hl with rfl | hl
    · exact List.nil_subset _
    · exact List.subset_cons_of_subset _ (List.subset_cons_of_subset _ (ih hl))
  | case4 c cs hc hcr h ih =>
    intro l hl
    obtain rfl := List.mem_singleton.mp hl
    exact List.cons_subset_cons c (List.nil_subset _)
  | case5 c cs hc hcr l ls h ih =>
    intro l' hl'
    rcases List.mem_cons.mp hl' with rfl | hl'
    · exact List.cons_subset_cons c (ih (by rw [h]; exact List.mem_cons_self))
    · exact List.subset_cons_of_subset c (ih (by rw [h]; exact List.mem_cons_of_mem l hl'))

theorem noLineFeed_of_mem_lines : ∀ {cs l : List Char}, l ∈ lines cs → '\n' ∉ l := by
  intro cs
  fun_induction lines cs with
  | case1 => exact fun h => absurd h (by simp)
  | case2 cs ih | case3 cs ih =>
    intro l hl
    rcases List.mem_cons.mp hl with rfl | hl
    · simp
    · exact ih hl
  | case4 c cs hc hcr h ih =>
    intro l hl
    obtain rfl := List.mem_singleton.mp hl
    rw [List.mem_singleton]
    exact fun h => hc h.symm
  | case5 c cs hc hcr l ls h ih =>
    intro l' hl'
    rcases List.mem_cons.mp hl' with rfl | hl'
    · rw [List.mem_cons, not_or]
      exact ⟨fun h => hc h.symm, ih (by rw [h]; simp)⟩
    · exact ih (by rw [h]; simp [hl'])

/-- A string that can stand as a line: it has no line feed, and no carriage return at its end that
the line feed after it would take along. -/
def IsLine (s : String) : Prop :=
  '\n' ∉ s.toList ∧ s.toList.getLast? ≠ some '\r'

theorem linesOf_append {l rest : String} (hl : IsLine l) :
    linesOf (l ++ "\n" ++ rest) = l :: linesOf rest := by
  have hcs : (l ++ "\n" ++ rest).toList = l.toList ++ '\n' :: rest.toList := by
    rw [String.toList_append, String.toList_append, List.append_assoc]
    rfl
  rw [linesOf, hcs, lines_append_lineFeed _ hl.1 hl.2, List.map_cons, String.ofList_toList]
  rfl

/-- **Lines that each end in a line feed are read back.** -/
theorem linesOf_join {ls : List String} (h : ∀ l ∈ ls, IsLine l) :
    linesOf (String.join (ls.map (· ++ "\n"))) = ls := by
  induction ls with
  | nil => rfl
  | cons l ls ih =>
    rw [List.map_cons, String.join_cons, linesOf_append (h l (by simp)),
      ih (fun m hm => h m (by simp [hm]))]

/-- Lines with line feeds between them are read back when none is empty. -/
theorem linesOf_intercalate {ls : List String} (h : ∀ l ∈ ls, IsLine l ∧ l ≠ "") :
    linesOf (String.intercalate "\n" ls) = ls := by
  induction ls with
  | nil => rfl
  | cons l ls ih =>
    obtain ⟨hl, hne⟩ := h l (by simp)
    cases ls with
    | nil =>
      have hcs : l.toList ≠ [] := fun h => hne (String.toList_eq_nil_iff.mp h)
      rw [String.intercalate_singleton, linesOf, lines_of_noLineFeed hl.1 hcs, List.map_singleton,
        String.ofList_toList]
    | cons m ls =>
      rw [String.intercalate_cons_cons, linesOf_append hl, ih (fun k hk => h k (by simp [hk]))]

theorem noLineFeed_of_mem_linesOf {s l : String} (h : l ∈ linesOf s) : '\n' ∉ l.toList := by
  obtain ⟨cs, hcs, rfl⟩ := List.mem_map.mp h
  rw [String.toList_ofList]
  exact noLineFeed_of_mem_lines hcs

/-! ### Blanks -/

/-- No blank stands at the start of a text. -/
def NoLeadingBlank (cs : List Char) : Prop :=
  ∀ c ∈ cs.head?, isBlank c = false

/-- No blank stands at the end of a text. -/
def NoTrailingBlank (cs : List Char) : Prop :=
  ∀ c ∈ cs.getLast?, isBlank c = false

theorem trimEnd_eq_rdropWhile (cs : List Char) : trimEnd cs = cs.rdropWhile isBlank := rfl

theorem noTrailingBlank_trimEnd (cs : List Char) : NoTrailingBlank (trimEnd cs) := by
  intro c hc
  rw [trimEnd, List.getLast?_reverse] at hc
  exact stop_of_dropWhile hc

theorem trimEnd_of_noTrailingBlank {cs : List Char} (h : NoTrailingBlank cs) : trimEnd cs = cs := by
  rw [trimEnd_eq_rdropWhile, List.rdropWhile_eq_self_iff]
  intro hne
  rw [h _ (List.getLast_mem_getLast? hne)]
  exact Bool.false_ne_true

theorem prefix_trimEnd (cs : List Char) : trimEnd cs <+: cs :=
  List.rdropWhile_prefix isBlank cs

theorem trim_subset (cs : List Char) : trim cs ⊆ cs :=
  List.Subset.trans (prefix_trimEnd _).subset (List.dropWhile_sublist _).subset

theorem NoTrailingBlank.append {ys : List Char} (h : NoTrailingBlank ys) (hne : ys ≠ [])
    (xs : List Char) : NoTrailingBlank (xs ++ ys) := by
  rw [NoTrailingBlank, List.getLast?_append_of_ne_nil xs hne]
  exact h

theorem NoTrailingBlank.of_append {xs ys : List Char} (h : NoTrailingBlank (xs ++ ys)) :
    NoTrailingBlank ys := by
  cases ys with
  | nil => exact fun c hc => absurd hc (by simp)
  | cons y ys =>
    rw [NoTrailingBlank, List.getLast?_append_of_ne_nil xs (by simp)] at h
    exact h

theorem trim_of_noBlank {cs : List Char} (hl : NoLeadingBlank cs) (ht : NoTrailingBlank cs) :
    trim cs = cs := by
  cases cs with
  | nil => rfl
  | cons c cs =>
    have hc : ¬ isBlank c = true := by rw [hl c rfl]; exact Bool.false_ne_true
    rw [trim, List.dropWhile_cons_of_neg hc, trimEnd_of_noTrailingBlank ht]

theorem noTrailingBlank_trim (cs : List Char) : NoTrailingBlank (trim cs) :=
  noTrailingBlank_trimEnd _

theorem head?_trim {cs : List Char} {c : Char} (hc : cs.head? = some c) (hb : isBlank c = false) :
    (trim cs).head? = some c := by
  cases cs with
  | nil => cases hc
  | cons d cs =>
    obtain rfl := Option.some.inj hc
    have hd : ¬ isBlank d = true := by rw [hb]; exact Bool.false_ne_true
    rw [trim, List.dropWhile_cons_of_neg hd]
    cases htrim : trimEnd (d :: cs) with
    | nil =>
      rw [trimEnd_eq_rdropWhile, List.rdropWhile_eq_nil_iff] at htrim
      exact absurd (htrim d (by simp)) hd
    | cons e rest =>
      have hpre := prefix_trimEnd (d :: cs)
      rw [htrim, List.cons_prefix_cons] at hpre
      rw [hpre.1]
      rfl

/-! ### Words -/

/-- One or more characters, none of them blank. -/
def IsWord (cs : List Char) : Prop :=
  cs ≠ [] ∧ ∀ c ∈ cs, isBlank c = false

/-- One or more blanks. -/
def IsGap (cs : List Char) : Prop :=
  cs ≠ [] ∧ ∀ c ∈ cs, isBlank c = true

theorem isGap_space : IsGap [' '] :=
  ⟨by decide, List.forall_mem_singleton.mpr rfl⟩

theorem IsWord.noLeadingBlank {w : List Char} (hw : IsWord w) (rest : List Char) :
    NoLeadingBlank (w ++ rest) := by
  intro c hc
  rw [List.head?_append_of_ne_nil w hw.1] at hc
  exact hw.2 c (List.mem_of_mem_head? hc)

/-- **A word before a blank or the end is read as it is.** -/
theorem words_append {w rest : List Char} (hw : IsWord w) (hrest : ∀ c ∈ rest.head?, isBlank c) :
    words (w ++ rest) = w :: words rest := by
  obtain ⟨hne, hall⟩ := hw
  cases w with
  | nil => exact absurd rfl hne
  | cons c w =>
    have hc : ¬ isBlank c = true := by rw [hall c (by simp)]; exact Bool.false_ne_true
    have hspan : (w ++ rest).takeWhile (!isBlank ·) = w ∧
        (w ++ rest).dropWhile (!isBlank ·) = rest :=
      span_of_stop (fun d hd => by rw [hall d (by simp [hd])]; rfl)
        (fun d hd => by rw [hrest d hd]; rfl)
    rw [List.cons_append, words_cons, if_neg hc, hspan.1, hspan.2]

theorem words_cons_blank {c : Char} (hc : isBlank c = true) (cs : List Char) :
    words (c :: cs) = words cs := by
  rw [words_cons, if_pos hc]

theorem isWord_of_mem_words : ∀ {cs w : List Char}, w ∈ words cs → IsWord w := by
  intro cs
  fun_induction words cs with
  | case1 => exact fun h => absurd h (by simp)
  | case2 c cs hc ih => exact ih
  | case3 c cs hc ih =>
    intro w hw
    rcases List.mem_cons.mp hw with rfl | hw
    · refine ⟨by simp, fun d hd => ?_⟩
      rcases List.mem_cons.mp hd with rfl | hd
      · exact Bool.eq_false_iff.mpr hc
      · have := List.mem_takeWhile_imp hd
        rwa [Bool.not_eq_true'] at this
    · exact ih hw

theorem subset_of_mem_words : ∀ {cs w : List Char}, w ∈ words cs → w ⊆ cs := by
  intro cs
  fun_induction words cs with
  | case1 => exact fun h => absurd h (by simp)
  | case2 c cs hc ih => exact fun hw => List.subset_cons_of_subset c (ih hw)
  | case3 c cs hc ih =>
    intro w hw
    rcases List.mem_cons.mp hw with rfl | hw
    · exact List.cons_subset_cons c (List.takeWhile_sublist _).subset
    · exact List.subset_cons_of_subset c
        (List.Subset.trans (ih hw) (List.dropWhile_sublist _).subset)

/-! ### Marks -/

theorem append_of_splitAtFirst {mark cs before rest : List Char}
    (h : splitAtFirst mark cs = some (before, rest)) : before ++ (mark ++ rest) = cs := by
  induction cs generalizing before with
  | nil =>
    rw [splitAtFirst] at h
    split at h
    · next hmark =>
      cases h
      rw [List.isEmpty_iff.mp hmark, List.append_nil, List.append_nil]
    · cases h
  | cons c cs ih =>
    rw [splitAtFirst] at h
    split at h
    · next hmark =>
      cases h
      obtain ⟨tail, htail⟩ := List.isPrefixOf_iff_prefix.mp hmark
      rw [← htail, List.drop_left, List.nil_append]
    · obtain ⟨⟨b, r⟩, hb, he⟩ := Option.map_eq_some_iff.mp h
      cases he
      rw [List.cons_append, ih hb]

theorem replaceAll_of_not_infix {mark cs : List Char} (h : ¬ mark <:+: cs) (new : List Char) :
    replaceAll mark new cs = cs := by
  induction cs with
  | nil => rw [replaceAll_nil]
  | cons c cs ih =>
    have hhere : ¬ mark.isPrefixOf (c :: cs) = true := by
      intro hmark
      exact h (List.isPrefixOf_iff_prefix.mp hmark).isInfix
    have hlater : ¬ mark <:+: cs := fun hmark => h (List.infix_cons hmark)
    rw [replaceAll_cons, if_neg hhere, ih hlater]

end LivingGuide.Text
