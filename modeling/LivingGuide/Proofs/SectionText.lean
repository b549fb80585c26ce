import LivingGuide.Proofs.SectionNumber
import LivingGuide.Proofs.Text
import Mathlib.Data.Nat.Digits.Lemmas

/-!
# The texts of section numbers

A section is written as segments between dots, with one more dot at its end or without
(`Segmented`), and it is a number when every segment is a decimal number that fits into 64 bits
(`IsDecimal`).  Leading zeros are allowed, so a number has many texts; `SectionNumber.text` is the
one without zeros and without a last dot, and reading it gives the number back,

    parse number.text = .ok number.

So two sections have one number exactly when they have one text of this kind.

* `segment?_eq_some_iff`, `segmented_iff`: what the reader finds in a segment and in a section.
* `NoLeadingZero`: `0` itself, or digits that start with another one.
* `parse_exactly`: **which texts are section numbers, how others are reported, and their canonical
  texts.**
-/

namespace LivingGuide.SectionNumber

/-! ### Segments -/

/-- **A decimal number of at most 64 bits**: one or more of the digits `0` to `9`, the last of them
counting ones, the one before it tens, and so on. -/
structure IsDecimal (cs : List Char) (n : Nat) : Prop where
  nonempty : cs ≠ []
  digits : ∀ c ∈ cs, '0' ≤ c ∧ c ≤ '9'
  value : n = Nat.ofDigits 10 (cs.reverse.map fun c => c.toNat - '0'.toNat)
  fits : n ≤ 2 ^ 64 - 1

theorem isDigit_iff (c : Char) : c.isDigit = true ↔ '0' ≤ c ∧ c ≤ '9' := by
  rw [Char.isDigit, Bool.and_eq_true, decide_eq_true_iff, decide_eq_true_iff]
  exact Iff.rfl

theorem digitsValue_eq_ofDigits (cs : List Char) :
    digitsValue cs = Nat.ofDigits 10 (cs.reverse.map fun c => c.toNat - '0'.toNat) := by
  induction cs using List.reverseRecOn with
  | nil => rfl
  | append_singleton cs c ih =>
    have hstep : digitsValue (cs ++ [c]) = 10 * digitsValue cs + (c.toNat - '0'.toNat) := by
      rw [digitsValue, List.foldl_append]
      rfl
    rw [hstep, ih, List.reverse_append, List.reverse_singleton, List.singleton_append,
      List.map_cons, Nat.ofDigits_cons]
    omega

theorem segment?_eq_some_iff {cs : List Char} {n : Nat} :
    segment? cs = some n ↔ IsDecimal cs n := by
  have hmax : maxSegment = 2 ^ 64 - 1 := rfl
  rw [segment?]
  constructor
  · intro h
    split at h
    · next hcs =>
      simp only [Bool.and_eq_true, Bool.not_eq_true', List.isEmpty_eq_false_iff, List.all_eq_true,
        decide_eq_true_iff] at hcs
      obtain rfl := Option.some.inj h
      refine ⟨hcs.1.1, ?_, digitsValue_eq_ofDigits cs, hmax ▸ hcs.2⟩
      intro c hc
      exact (isDigit_iff c).mp (hcs.1.2 c hc)
    · cases h
  · rintro ⟨hne, hdigits, hvalue, hfits⟩
    rw [← digitsValue_eq_ofDigits] at hvalue
    subst hvalue
    rw [if_pos]
    simp only [Bool.and_eq_true, Bool.not_eq_true', List.isEmpty_eq_false_iff, List.all_eq_true,
      decide_eq_true_iff]
    refine ⟨⟨hne, ?_⟩, hmax ▸ hfits⟩
    intro c hc
    exact (isDigit_iff c).mpr (hdigits c hc)

theorem segment?_eq_none_iff {cs : List Char} : segment? cs = none ↔ ∀ n, ¬ IsDecimal cs n := by
  simp only [← segment?_eq_some_iff, Option.eq_none_iff_forall_ne_some, ne_eq]

/-! ### Sections -/

/-- **A section as segments between dots.**  One dot at the end of the section belongs to no
segment. -/
structure Segmented (whole : String) (segments : List (List Char)) : Prop where
  nonempty : segments ≠ []
  noDot : ∀ cs ∈ segments, '.' ∉ cs
  joined : whole.toList = ['.'].intercalate segments ∧ whole.toList.getLast? ≠ some '.' ∨
    whole.toList = ['.'].intercalate segments ++ ['.']

theorem segmented_iff {whole : String} {segments : List (List Char)} :
    Segmented whole segments ↔ (dropFinalDot whole.toList).splitOn '.' = segments := by
  constructor
  · rintro ⟨hne, hdot, hjoined⟩
    have hdropped : dropFinalDot whole.toList = ['.'].intercalate segments := by
      rcases hjoined with ⟨h, hlast⟩ | h
      · rw [dropFinalDot, if_neg hlast, h]
      · rw [h, dropFinalDot, if_pos List.getLast?_concat, List.dropLast_concat]
    rw [hdropped, List.splitOn_intercalate '.' hdot hne]
  · rintro rfl
    refine ⟨List.splitOn_ne_nil _ _, fun cs hcs => Text.notMem_of_mem_splitOn hcs, ?_⟩
    rw [List.intercalate_splitOn]
    by_cases hlast : whole.toList.getLast? = some '.'
    · right
      obtain ⟨before, hbefore⟩ := List.getLast?_eq_some_iff.mp hlast
      rw [dropFinalDot, if_pos hlast, hbefore, List.dropLast_concat]
    · left
      rw [dropFinalDot, if_neg hlast]
      exact ⟨rfl, hlast⟩

variable {s t : String} {number other : SectionNumber}

theorem parse_eq_ok_iff_decimals :
    parse s = .ok number ↔
      ∃ segments, Segmented s segments ∧ List.Forall₂ IsDecimal segments number.segments := by
  have hrel : (fun cs n => segment? cs = some n) = IsDecimal := by
    funext cs n
    exact propext segment?_eq_some_iff
  rw [parse_eq_ok_iff, hrel]
  constructor
  · intro h
    exact ⟨_, segmented_iff.mpr rfl, h⟩
  · rintro ⟨segments, hsegmented, hdecimals⟩
    rwa [segmented_iff.mp hsegmented]

theorem parse_eq_error_iff_decimals {e : Error} :
    parse s = .error e ↔
      ∃ before bad after, Segmented s (before ++ bad :: after) ∧
        (∀ cs ∈ before, ∃ n, IsDecimal cs n) ∧ (∀ n, ¬ IsDecimal bad n) ∧
        e = .sectionNumber s (String.ofList bad) := by
  rw [parse_eq_error_iff]
  simp only [segmented_iff, segment?_eq_none_iff, segment?_eq_some_iff]

/-! ### The text of a number -/

/-- A decimal number without needless zeros in front. -/
def NoLeadingZero (cs : List Char) : Prop :=
  cs.head? = some '0' → cs = ['0']

theorem noLeadingZero_toDigits (n : Nat) : NoLeadingZero (Nat.toDigits 10 n) := by
  induction n using Nat.strongRecOn with
  | ind n ih =>
    intro hhead
    by_cases hn : n < 10
    · rw [Nat.toDigits_of_lt_base hn] at hhead ⊢
      rw [Option.some.inj hhead]
    · -- The digits in front of the last one are those of a tenth, which is no zero.
      rw [Nat.toDigits_of_base_le (by omega) (by omega),
        List.head?_append_of_ne_nil _ Nat.toDigits_ne_nil] at hhead
      have htenth := congrArg (Nat.ofDigitChars 10 · 0) (ih (n / 10) (by omega) hhead)
      simp only [Nat.ofDigitChars_toDigits (by omega : 1 < 10) (by omega : 10 ≤ 10)] at htenth
      have hzero : n / 10 = 0 := htenth
      omega

theorem isDecimal_toDigits {n : Nat} (h : n ≤ 2 ^ 64 - 1) : IsDecimal (Nat.toDigits 10 n) n := by
  refine ⟨Nat.toDigits_ne_nil, ?_, ?_, h⟩
  · intro c hc
    exact (isDigit_iff c).mp (Nat.isDigit_of_mem_toDigits (by omega) (by omega) hc)
  · rw [← digitsValue_eq_ofDigits]
    exact (Nat.ofDigitChars_toDigits (by omega) (by omega)).symm

theorem toList_text (number : SectionNumber) :
    number.text.toList = ['.'].intercalate (number.segments.map (Nat.toDigits 10)) := by
  rw [text, String.toList_intercalate, List.map_map]
  simp only [Function.comp_def, Nat.toList_repr]
  rfl

theorem segmented_text (hne : number.segments ≠ []) :
    Segmented number.text (number.segments.map (Nat.toDigits 10)) ∧
      number.text.toList.getLast? ≠ some '.' := by
  have hnonempty : number.segments.map (Nat.toDigits 10) ≠ [] := by
    rwa [ne_eq, List.map_eq_nil_iff]
  have hdot : ∀ cs ∈ number.segments.map (Nat.toDigits 10), '.' ∉ cs := by
    intro cs hcs hmem
    obtain ⟨n, -, rfl⟩ := List.mem_map.mp hcs
    exact absurd (Nat.isDigit_of_mem_toDigits (by omega) (by omega) hmem) (by decide)
  have hlast : number.text.toList.getLast? ≠ some '.' := by
    intro hlast
    have hempty := Text.nil_mem_splitOn_of_getLast? hlast
    rw [toList_text, List.splitOn_intercalate '.' hdot hnonempty] at hempty
    obtain ⟨n, -, hn⟩ := List.mem_map.mp hempty
    exact Nat.toDigits_ne_nil hn
  exact ⟨⟨hnonempty, hdot, Or.inl ⟨toList_text number, hlast⟩⟩, hlast⟩

theorem fits_of_parse (h : parse s = .ok number) :
    number.segments ≠ [] ∧ ∀ n ∈ number.segments, n ≤ 2 ^ 64 - 1 := by
  obtain ⟨segments, hsegmented, hdecimals⟩ := parse_eq_ok_iff_decimals.mp h
  constructor
  · intro hnil
    rw [hnil, List.forall₂_nil_right_iff] at hdecimals
    exact hsegmented.nonempty hdecimals
  · intro n hn
    obtain ⟨cs, -, hdecimal⟩ := exists_left_of_forall₂ hdecimals n hn
    exact hdecimal.fits

/-- **The text of a number that was read is read as the same number.** -/
theorem parse_text_of_parse (h : parse s = .ok number) : parse number.text = .ok number := by
  obtain ⟨hne, hfits⟩ := fits_of_parse h
  refine parse_eq_ok_iff_decimals.mpr ⟨_, (segmented_text hne).1, ?_⟩
  rw [List.forall₂_map_left_iff, List.forall₂_same]
  intro n hn
  exact isDecimal_toDigits (hfits n hn)

theorem eq_iff_text_eq (hs : parse s = .ok number) (ht : parse t = .ok other) :
    number = other ↔ number.text = other.text := by
  constructor
  · rintro rfl
    rfl
  · intro htext
    have hread := parse_text_of_parse hs
    rw [htext, parse_text_of_parse ht] at hread
    exact (Except.ok.inj hread).symm

/-- **Section numbers and their texts.**  A section is a number exactly when it is one or more
decimal numbers of at most 64 bits between dots, a dot at its end not counted, and its segments are
their values.  Any other section is reported with its whole text and the first segment that is no
such number.  The text of a number that was read is read as that number, it has no leading zeros and
no dot at its end, and two sections have one number exactly when their numbers have one text. -/
theorem parse_exactly (s : String) :
    (∀ number, parse s = .ok number ↔
      ∃ segments, Segmented s segments ∧ List.Forall₂ IsDecimal segments number.segments) ∧
    (∀ e, parse s = .error e ↔
      ∃ before bad after, Segmented s (before ++ bad :: after) ∧
        (∀ cs ∈ before, ∃ n, IsDecimal cs n) ∧ (∀ n, ¬ IsDecimal bad n) ∧
        e = .sectionNumber s (String.ofList bad)) ∧
    ∀ number, parse s = .ok number →
      parse number.text = .ok number ∧
      (∀ segments, Segmented number.text segments → ∀ cs ∈ segments, NoLeadingZero cs) ∧
      number.text.toList.getLast? ≠ some '.' ∧
      ∀ t other, parse t = .ok other → (number = other ↔ number.text = other.text) := by
  refine ⟨fun number => parse_eq_ok_iff_decimals, fun e => parse_eq_error_iff_decimals, ?_⟩
  intro number h
  obtain ⟨hsegmented, hlast⟩ := segmented_text (fits_of_parse h).1
  refine ⟨parse_text_of_parse h, ?_, hlast, fun t other ht => eq_iff_text_eq h ht⟩
  intro segments hsegments cs hcs
  rw [← segmented_iff.mp hsegments, segmented_iff.mp hsegmented] at hcs
  obtain ⟨n, -, rfl⟩ := List.mem_map.mp hcs
  exact noLeadingZero_toDigits n

/-- The greatest segment with zeros in front, and a section that is one too great. -/
example :
    parse "007.00018446744073709551615." = .ok ⟨[7, 18446744073709551615]⟩ ∧
    parse "7.18446744073709551616.x" =
      .error (.sectionNumber "7.18446744073709551616.x" "18446744073709551616") := by
  decide +kernel

end LivingGuide.SectionNumber
