import LivingGuide.Proofs.Manifest.Pattern

/-!
# Patterns behind `**/`

A pattern without a slash is a text that paths contain, or a star and a text that they end in.
Behind `**/` there is no second reading: whatever stands there is a text that paths contain, and a
star in it is a star of the path.  So `**/` changes nothing for a plain name, and it narrows every
pattern that starts with a star: `*.bak` leaves out the path `.bak`, in which the longer `*.bak`
cannot occur.

* `Pattern.Covers`: a pattern leaves out all that another does.
* `Pattern.parse_plainName`, `Pattern.parse_starred`, `Pattern.parse_anywhere_name`: the three
  readings.
* `Pattern.anywhere_covers_iff`: **`**/` keeps a pattern without a slash exactly if it has no star
  in front.**
-/

namespace LivingGuide.Pattern

/-- A pattern leaves out every path that another leaves out. -/
def Covers (wide narrow : Pattern) : Prop :=
  ∀ path, narrow.excludes path = true → wide.excludes path = true

/-! ### Reading patterns without a slash -/

theorem dropSuffix?_of_no_slash {cs : List Char} (h : '/' ∉ cs) :
    dropSuffix? ['/', '*'] cs = none := by
  have hsuffix : ¬ ['/', '*'].isSuffixOf cs = true := by
    rw [List.isSuffixOf_iff_suffix]
    intro hsuffix
    exact h (hsuffix.subset List.mem_cons_self)
  rw [dropSuffix?, if_neg hsuffix]

variable {q : String}

theorem parse_of_no_slash (hq : '/' ∉ q.toList) : parse q = parseLocal q.toList := by
  rw [parse]
  split
  · next rest htext =>
    exfalso
    apply hq
    rw [htext]
    simp
  · rfl

theorem parse_plainName (hq : '/' ∉ q.toList) (hstar : q.toList.head? ≠ some '*') :
    parse q = .containing q.toList := by
  rw [parse_of_no_slash hq, parseLocal.eq_def]
  split
  · next tail htext =>
    rw [htext] at hstar
    exact absurd rfl hstar
  · rw [dropSuffix?_of_no_slash hq]

theorem parse_starred {tail : String} (htail : '/' ∉ tail.toList) :
    parse ("*" ++ tail) = .ending tail.toList := by
  have htext : ("*" ++ tail).toList = '*' :: tail.toList := String.toList_append
  have hslash : '/' ∉ ("*" ++ tail).toList := by
    rw [htext, List.mem_cons, not_or]
    exact ⟨by decide, htail⟩
  have hcontains : ¬ ('*' :: tail.toList).contains '/' = true := by
    rw [List.contains_iff_mem, ← htext]
    exact hslash
  rw [parse_of_no_slash hslash, htext, parseLocal, if_neg hcontains]

/-- **Behind `**/` a star is a character like any other.** -/
theorem parse_anywhere_name (hq : '/' ∉ q.toList) :
    parse ("**/" ++ q) = .containing q.toList := by
  have htext : ("**/" ++ q).toList = '*' :: '*' :: '/' :: q.toList := String.toList_append
  rw [parse, htext]
  simp only [dropSuffix?_of_no_slash hq]

/-! ### What `**/` keeps -/

theorem excludes_containing_iff {part path : List Char} :
    (Pattern.containing part).excludes path = true ↔ part <:+: path := by
  rw [excludes, Text.occursIn_iff]

theorem excludes_ending_iff {tail path : List Char} :
    (Pattern.ending tail).excludes path = true ↔ tail <:+ path := by
  rw [excludes, List.isSuffixOf_iff_suffix]

theorem not_covers_ending (c : Char) (tail : List Char) :
    ¬ (Pattern.containing (c :: tail)).Covers (.ending tail) := by
  intro h
  have hinfix := excludes_containing_iff.mp (h tail (excludes_ending_iff.mpr (List.suffix_refl _)))
  have hlength := hinfix.length_le
  rw [List.length_cons] at hlength
  omega

/-- **`**/` keeps what a pattern without a slash leaves out exactly if the pattern has no star in
front.**  Without one the two leave out the same paths.  With one, the pattern leaves out the paths
that end in what follows the star, but behind `**/` only those that contain the star as well. -/
theorem anywhere_covers_iff (q : String) (hq : '/' ∉ q.toList) :
    ((parse ("**/" ++ q)).Covers (parse q) ↔ q.toList.head? ≠ some '*') ∧
    (q.toList.head? ≠ some '*' →
      ∀ p : String, (parse ("**/" ++ q)).excludes p.toList = (parse q).excludes p.toList) ∧
    ∀ tail, q = "*" ++ tail → ∀ p : String,
      ((parse q).excludes p.toList = true ↔ tail.toList <:+ p.toList) ∧
      ((parse ("**/" ++ q)).excludes p.toList = true ↔ q.toList <:+: p.toList) := by
  rw [parse_anywhere_name hq]
  refine ⟨⟨?_, ?_⟩, ?_, ?_⟩
  · intro hcovers hstar
    obtain ⟨tail, htail⟩ := List.head?_eq_some_iff.mp hstar
    obtain rfl : q = "*" ++ String.ofList tail := by
      rw [← String.toList_inj, htail]
      simp
    rw [htail, List.mem_cons, not_or, ← String.toList_ofList (l := tail)] at hq
    rw [parse_starred hq.2, htail, String.toList_ofList] at hcovers
    exact not_covers_ending '*' tail hcovers
  · intro hstar path hpath
    rw [parse_plainName hq hstar] at hpath
    exact hpath
  · intro hstar p
    rw [parse_plainName hq hstar]
  · rintro tail rfl p
    rw [String.toList_append, List.mem_append, not_or] at hq
    rw [parse_starred hq.2]
    exact ⟨excludes_ending_iff, excludes_containing_iff⟩

/-- `vendor` keeps its meaning behind `**/`, and `*.bak` does not. -/
theorem anywhere_covers_iff_names :
    ('/' ∉ "vendor".toList ∧ '/' ∉ "*.bak".toList) ∧
      (parse ("**/" ++ "vendor")).Covers (parse "vendor") ∧
      ¬ (parse ("**/" ++ "*.bak")).Covers (parse "*.bak") := by
  have hvendor : '/' ∉ "vendor".toList := by decide
  have hbak : '/' ∉ "*.bak".toList := by decide
  refine ⟨⟨hvendor, hbak⟩, (anywhere_covers_iff "vendor" hvendor).1.mpr (by decide), ?_⟩
  intro hcovers
  exact (anywhere_covers_iff "*.bak" hbak).1.mp hcovers (by decide)

/-- **A star behind `**/` leaves out less than without it**: `*.bak` leaves out `file.bak`, and
`**/*.bak` does not. -/
theorem starred_narrowed_anywhere :
    '/' ∉ "*.bak".toList ∧ (parse "*.bak").excludes "file.bak".toList = true ∧
      (parse ("**/" ++ "*.bak")).excludes "file.bak".toList = false := by
  decide +kernel

end LivingGuide.Pattern
