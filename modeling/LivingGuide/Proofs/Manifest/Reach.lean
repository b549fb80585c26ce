import LivingGuide.Proofs.Manifest.Anywhere
import Mathlib.Data.List.Infix

/-!
# Patterns and what stands before a path

Patterns are tested on the whole text of a path, and that text starts with the path of the directory
that the path was found from.  This file says which patterns can tell one such start from another.
Every pattern leaves out at least what it leaves out without the start (`excludes_append`), since
the start ends in a slash.  It leaves out more only where a match begins in the start:

* a pattern for a directory, or for a part of a path, occurs in the start or begins at its end;
* a pattern for the end of a path never does, since it has no slash.

`reaches` is this test on the start alone, and a pattern that does not reach into the start treats a
path with it as it treats the path alone (`excludes_append_of_not_reaches`).
-/

namespace LivingGuide

/-! ### Marks that begin in a text -/

/-- Whether a mark occurs in a text, or begins at its end. -/
def Text.beginsIn (mark start : List Char) : Bool :=
  occursIn mark start || start.tails.any fun last => !last.isEmpty && last.isPrefixOf mark

variable {mark start rest : List Char}

theorem Text.beginsIn_iff : beginsIn mark start = true ↔
    mark <:+: start ∨ ∃ first, first ≠ [] ∧ first <+: mark ∧ first <:+ start := by
  rw [beginsIn, Bool.or_eq_true, occursIn_iff, List.any_eq_true]
  refine or_congr_right (exists_congr fun first => ?_)
  rw [List.mem_tails, Bool.and_eq_true, List.isPrefixOf_iff_prefix, Bool.not_eq_true',
    List.isEmpty_eq_false_iff]
  constructor
  · rintro ⟨hend, hne, hbegin⟩
    exact ⟨hne, hbegin, hend⟩
  · rintro ⟨hne, hbegin, hend⟩
    exact ⟨hend, hne, hbegin⟩

/-- **A mark that does not begin in a text is found behind it or not at all.** -/
theorem Text.infix_append_iff_of_not_beginsIn (h : ¬ beginsIn mark start = true) :
    mark <:+: start ++ rest ↔ mark <:+: rest := by
  rw [beginsIn_iff, not_or] at h
  constructor
  · intro hinfix
    rcases List.infix_append_iff.mp hinfix with hstart | hrest | ⟨first, more, rfl, hend, hbegin⟩
    · exact absurd hstart h.1
    · exact hrest
    · by_cases hne : first = []
      · subst hne
        exact hbegin.isInfix
      · exact absurd ⟨first, hne, List.prefix_append first more, hend⟩ h.2
  · exact List.infix_append_of_infix_right

namespace Pattern

/-! ### Texts that are looked for -/

theorem excludes_inside_iff_slashed {directory path : List Char} :
    (Pattern.inside directory).excludes path = true ↔
      '/' :: directory ++ ['/'] <:+: '/' :: path := by
  rw [excludes, Bool.or_eq_true, Text.occursIn_iff, List.isPrefixOf_iff_prefix,
    List.infix_cons_iff, List.cons_append, List.cons_prefix_cons, eq_self, true_and, or_comm]

theorem noSlash_of_parseLocal {cs tail : List Char} (h : parseLocal cs = .ending tail) :
    '/' ∉ tail := by
  rw [parseLocal.eq_def] at h
  split at h
  · split at h
    · split at h <;> cases h
    · next hslash =>
      cases h
      rw [List.contains_iff_mem] at hslash
      exact fun hmem => hslash (List.mem_cons_of_mem _ hmem)
  · split at h <;> cases h

theorem noSlash_of_parse {s : String} {tail : List Char} (h : parse s = .ending tail) :
    '/' ∉ tail := by
  rw [parse] at h
  split at h
  · split at h <;> cases h
  · exact noSlash_of_parseLocal h

theorem suffix_append_slash_iff {tail before path : List Char} (htail : '/' ∉ tail) :
    tail <:+ before ++ '/' :: path ↔ tail <:+ path := by
  constructor
  · intro h
    rcases List.suffix_or_suffix_of_suffix h (List.suffix_append before ('/' :: path)) with h | h
    · rcases List.suffix_cons_iff.mp h with rfl | h
      · exact absurd List.mem_cons_self htail
      · exact h
    · exact absurd (h.subset List.mem_cons_self) htail
  · intro h
    exact List.suffix_append_of_suffix (List.suffix_cons_iff.mpr (.inr h))

/-! ### Reaching into a start -/

/-- **Whether a pattern has matches that begin in the start of a path.** -/
def reaches : Pattern → List Char → Bool
  | .inside directory, start =>
    Text.beginsIn ('/' :: directory ++ ['/']) ('/' :: start.dropLast)
  | .containing part, start => !part.isEmpty && Text.beginsIn part start
  | .ending _, _ => false

variable {before path : List Char}

theorem excludes_append {pattern : Pattern} (h : pattern.excludes path = true) :
    pattern.excludes (before ++ '/' :: path) = true := by
  cases pattern with
  | inside directory =>
    rw [excludes_inside_iff_slashed] at h ⊢
    exact List.infix_cons (List.infix_append_of_infix_right h)
  | containing part =>
    rw [excludes_containing_iff] at h ⊢
    exact List.infix_append_of_infix_right (List.infix_cons h)
  | ending tail =>
    rw [excludes_ending_iff] at h ⊢
    exact List.suffix_append_of_suffix (List.suffix_cons_iff.mpr (.inr h))

/-- **A pattern that does not reach into a start does not see it.** -/
theorem excludes_append_of_not_reaches {s : String}
    (hreaches : ¬ (parse s).reaches (before ++ ['/']) = true)
    (h : (parse s).excludes (before ++ '/' :: path) = true) : (parse s).excludes path = true := by
  cases hs : parse s with
  | inside directory =>
    rw [hs, reaches, List.dropLast_concat] at hreaches
    rw [hs, excludes_inside_iff_slashed, ← List.cons_append,
      Text.infix_append_iff_of_not_beginsIn hreaches] at h
    exact excludes_inside_iff_slashed.mpr h
  | containing part =>
    rw [hs, excludes_containing_iff] at h
    rw [excludes_containing_iff]
    by_cases hpart : part = []
    · subst hpart
      exact List.nil_infix
    · have hbegins : ¬ Text.beginsIn part (before ++ ['/']) = true := by
        intro hbegins
        apply hreaches
        rw [hs, reaches, hbegins, Bool.and_true, Bool.not_eq_true', List.isEmpty_eq_false_iff]
        exact hpart
      rw [List.append_cons, Text.infix_append_iff_of_not_beginsIn hbegins] at h
      exact h
  | ending tail =>
    rw [hs, excludes_ending_iff, suffix_append_slash_iff (noSlash_of_parse hs)] at h
    exact excludes_ending_iff.mpr h

/-- `vendor` reaches into a directory of that name and not into its neighbour; `./*` reaches into
the working directory as it is spelled; `*.bak` reaches nowhere. -/
example : [("vendor", "my-vendor/"), ("vendor", "lib/"), ("**/lib/css/*", "x/lib/"), ("./*", "./"),
    ("*.bak", "x.bak/")].map (fun p => (parse p.1).reaches p.2.toList) =
      [true, false, true, true, false] := by
  decide +kernel

end Pattern

end LivingGuide
