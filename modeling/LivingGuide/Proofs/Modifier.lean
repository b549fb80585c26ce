import LivingGuide.Modifier
import LivingGuide.Proofs.Text

/-!
# The grammar of modifier lines

A trimmed line declares a modifier when it is a word, blanks, a hyphen, blanks, and a description
that starts with no blank and has no line feed.  `Modifier.cut?` finds exactly this
(`cut?_eq_some_iff`), and the text of a modifier that was read is read as the same modifier
(`parse_text`).
-/

namespace LivingGuide.Modifier

open Text

/-- A selector and a description, and between them a hyphen with blanks on both sides. -/
def Declares (cs selector description : List Char) : Prop :=
  ∃ gap gap', cs = selector ++ (gap ++ '-' :: (gap' ++ description)) ∧ IsWord selector ∧
    IsGap gap ∧ IsGap gap' ∧ description ≠ [] ∧ NoLeadingBlank description ∧ '\n' ∉ description

theorem declares_of_cut? {cs selector description : List Char}
    (h : cut? cs = some (selector, description)) : Declares cs selector description := by
  dsimp only [cut?] at h
  split at h
  · next b gap rest hgap hrest =>
    split at h
    · next b' gap' c tail hgap' htail =>
      split at h
      · cases h
      · next hnot =>
        obtain ⟨rfl, rfl⟩ := Prod.mk.inj (Option.some.inj h)
        rw [Bool.or_eq_true, not_or, List.isEmpty_iff, List.contains_iff_mem] at hnot
        refine ⟨b :: gap, b' :: gap', ?_, ⟨hnot.1, fun d hd => ?_⟩, ⟨by simp, fun d hd => ?_⟩,
          ⟨by simp, fun d hd => ?_⟩, by simp, fun d hd => ?_, hnot.2⟩
        · rw [← htail, ← hgap', List.takeWhile_append_dropWhile, ← hrest, ← hgap,
            List.takeWhile_append_dropWhile, List.takeWhile_append_dropWhile]
        · have := List.mem_takeWhile_imp hd
          rwa [Bool.not_eq_true'] at this
        · rw [← hgap] at hd
          exact List.mem_takeWhile_imp hd
        · rw [← hgap'] at hd
          exact List.mem_takeWhile_imp hd
        · rw [← htail] at hd
          exact stop_of_dropWhile hd
    · cases h
  · cases h

theorem cut?_of_declares {cs selector description : List Char}
    (h : Declares cs selector description) : cut? cs = some (selector, description) := by
  obtain ⟨gap, gap', rfl, hsel, hgap, hgap', hne, hlead, hline⟩ := h
  have hwordStop : ∀ c ∈ (gap ++ '-' :: (gap' ++ description)).head?, (!isBlank c) = false := by
    intro c hc
    rw [List.head?_append_of_ne_nil gap hgap.1] at hc
    rw [hgap.2 c (List.mem_of_mem_head? hc)]
    rfl
  have hword := span_of_stop (p := (!isBlank ·))
    (fun c hc => by rw [hsel.2 c hc]; rfl) hwordStop
  have hhyphen := span_of_stop hgap.2
    (fun c (hc : c ∈ ('-' :: (gap' ++ description)).head?) => by cases hc; rfl)
  have hdescription := span_of_stop hgap'.2 hlead
  obtain ⟨b, gap, rfl⟩ := List.exists_cons_of_ne_nil hgap.1
  obtain ⟨b', gap', rfl⟩ := List.exists_cons_of_ne_nil hgap'.1
  obtain ⟨c, description, rfl⟩ := List.exists_cons_of_ne_nil hne
  dsimp only [cut?]
  rw [hword.1, hword.2, hhyphen.1, hhyphen.2]
  simp only [hdescription.1, hdescription.2]
  rw [if_neg]
  rw [Bool.or_eq_true, not_or, List.isEmpty_iff, List.contains_iff_mem]
  exact ⟨hsel.1, hline⟩

/-- **Cutting a trimmed line finds its selector and description, and nothing else does.** -/
theorem cut?_eq_some_iff {cs selector description : List Char} :
    cut? cs = some (selector, description) ↔ Declares cs selector description :=
  ⟨declares_of_cut?, cut?_of_declares⟩

/-- **A line is read as a modifier exactly when it declares it**, blanks around it ignored. -/
theorem parse_eq_ok_iff {line : String} {m : Modifier} :
    parse line = .ok m ↔
      Declares (trim line.toList) m.selector.toList m.description.toList := by
  rw [← cut?_eq_some_iff, parse]
  constructor
  · intro h
    split at h
    · next selector description hcut =>
      cases h
      rw [hcut, String.toList_ofList, String.toList_ofList]
    · cases h
  · intro h
    rw [h]
    simp only [String.ofList_toList]

theorem selector_subset {line : String} {m : Modifier} (h : parse line = .ok m) :
    m.selector.toList ⊆ line.toList := by
  obtain ⟨gap, gap', hline, -⟩ := parse_eq_ok_iff.mp h
  have htrim := trim_subset line.toList
  rw [hline] at htrim
  exact List.Subset.trans (List.subset_append_left _ _) htrim

/-! ### The text of a modifier -/

theorem text_toList (m : Modifier) :
    m.text.toList = m.selector.toList ++ ([' '] ++ '-' :: ([' '] ++ m.description.toList)) := by
  rw [text, String.toList_append, String.toList_append, List.append_assoc]
  rfl

variable {line : String} {m : Modifier}

theorem noTrailingBlank_description (h : parse line = .ok m) :
    NoTrailingBlank m.description.toList := by
  obtain ⟨gap, gap', hline, -⟩ := parse_eq_ok_iff.mp h
  have htrim := noTrailingBlank_trim line.toList
  rw [hline] at htrim
  have hhyphen : NoTrailingBlank (['-'] ++ (gap' ++ m.description.toList)) :=
    htrim.of_append.of_append
  exact hhyphen.of_append.of_append

theorem declares_text (h : parse line = .ok m) :
    Declares m.text.toList m.selector.toList m.description.toList := by
  obtain ⟨-, -, -, hsel, -, -, hdescription⟩ := parse_eq_ok_iff.mp h
  exact ⟨[' '], [' '], text_toList m, hsel, isGap_space, isGap_space, hdescription⟩

theorem noTrailingBlank_text (h : parse line = .ok m) : NoTrailingBlank m.text.toList := by
  obtain ⟨-, -, -, -, -, -, hne, -⟩ := declares_text h
  have happend := (noTrailingBlank_description h).append hne (m.selector.toList ++ [' ', '-', ' '])
  rw [List.append_assoc] at happend
  rw [text_toList]
  exact happend

/-- **The text of a modifier that was read is read as the same modifier.** -/
theorem parse_text (h : parse line = .ok m) : parse m.text = .ok m := by
  obtain ⟨gap, gap', htext, hsel, -⟩ := declares_text h
  have hlead : NoLeadingBlank m.text.toList := htext ▸ hsel.noLeadingBlank _
  rw [parse_eq_ok_iff, trim_of_noBlank hlead (noTrailingBlank_text h)]
  exact declares_text h

theorem noLineFeed_text (h : parse line = .ok m) : '\n' ∉ m.text.toList := by
  obtain ⟨-, -, -, hsel, -, -, -, -, hdescription⟩ := declares_text h
  have hselector : '\n' ∉ m.selector.toList := fun hmem => absurd (hsel.2 _ hmem) (by decide)
  rw [text_toList]
  simp only [List.mem_append, List.mem_cons, not_or]
  exact ⟨hselector, by decide, by decide, by decide, hdescription⟩

theorem head?_text {c : Char} (h : parse line = .ok m) (hc : line.toList.head? = some c)
    (hb : isBlank c = false) : m.text.toList.head? = some c := by
  obtain ⟨gap, gap', hline, hsel, -⟩ := parse_eq_ok_iff.mp h
  have htrim := head?_trim hc hb
  rw [hline, List.head?_append_of_ne_nil _ hsel.1] at htrim
  rw [text_toList, List.head?_append_of_ne_nil _ hsel.1, htrim]

end LivingGuide.Modifier
