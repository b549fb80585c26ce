import LivingGuide.Proofs.Text

/-!
# Regular expressions

An expression describes texts, and its groups keep parts of them.  It is matched from the left, and
where it can go on in more than one way the ways have an order: an alternative before the other, one
more round of a repetition before its end, or the end before one more round.  `Regex.found` lists
all matches at the start of a text in this order, `Regex.first?` is the first of them, and
`Regex.whole?` is the first that takes the whole text.

What the matches are can be said without the order.  `Denotes r run groups` says which texts an
expression describes and what its groups keep then, by recursion on the expression, and

    m ∈ r.found cs ↔ cs = m.taken ++ m.rest ∧ r.Denotes m.taken m.groups

(`mem_found_iff`).  So an expression whose groups are determined by the text has one outcome on it,
in whatever order it is tried (`whole?_eq_some_iff`).

Where the order matters, the first match of a sequence goes through the first match of its beginning
that the rest can go on from (`first?_seq`), and a repetition of as few rounds as possible goes
round by round until something holds (`find?_few`).
-/

namespace LivingGuide.Text

/-- What groups kept, each with its index. -/
abbrev Groups := List (Nat × List Char)

/-- A match at the start of a text: what it took, what its groups kept, and what it left. -/
structure Match where
  taken : List Char
  groups : Groups
  rest : List Char
deriving DecidableEq, Repr

namespace Match

/-- The match that takes nothing. -/
def here (cs : List Char) : Match :=
  ⟨[], [], cs⟩

/-- Two matches, the second of what the first left. -/
def andThen (m n : Match) : Match :=
  ⟨m.taken ++ n.taken, m.groups ++ n.groups, n.rest⟩

/-- What a group kept; a group that took no part kept nothing. -/
def group (m : Match) (index : Nat) : List Char :=
  (m.groups.lookup index).getD []

end Match

/-- An expression over characters. -/
inductive Regex where
  /-- Nothing. -/
  | empty
  /-- One character of a class. -/
  | char (p : Char → Bool)
  /-- One expression and then another. -/
  | seq (first second : Regex)
  /-- One expression or else another. -/
  | alt (preferred other : Regex)
  /-- An expression any number of times, as often as possible. -/
  | many (body : Regex)
  /-- An expression any number of times, as seldom as possible. -/
  | few (body : Regex)
  /-- An expression whose part of the text is kept. -/
  | group (index : Nat) (body : Regex)

namespace Regex

/-- An expression or nothing. -/
def optional (body : Regex) : Regex :=
  .alt body .empty

/-- An expression one or more times, as often as possible. -/
def atLeastOnce (body : Regex) : Regex :=
  .seq body (.many body)

/-! ### Matching -/

/-- At most so many rounds that each take something, one more round before none. -/
def rounds (step : List Char → List Match) : Nat → List Char → List Match
  | 0, cs => [.here cs]
  | n + 1, cs =>
    ((step cs).filter (!·.taken.isEmpty)).flatMap (fun m => (rounds step n m.rest).map m.andThen)
      ++ [.here cs]

/-- At most so many rounds that each take something, none before one more round. -/
def fewRounds (step : List Char → List Match) : Nat → List Char → List Match
  | 0, cs => [.here cs]
  | n + 1, cs =>
    .here cs :: ((step cs).filter (!·.taken.isEmpty)).flatMap
      (fun m => (fewRounds step n m.rest).map m.andThen)

/-- **The matches at the start of a text, in the order in which they are tried.**  A text has no
more rounds that take something than it has characters. -/
def found : Regex → List Char → List Match
  | .empty, cs => [.here cs]
  | .char _, [] => []
  | .char p, c :: cs => if p c then [⟨[c], [], cs⟩] else []
  | .seq first second, cs => (first.found cs).flatMap fun m => (second.found m.rest).map m.andThen
  | .alt preferred other, cs => preferred.found cs ++ other.found cs
  | .many body, cs => rounds body.found cs.length cs
  | .few body, cs => fewRounds body.found cs.length cs
  | .group index body, cs =>
    (body.found cs).map fun m => ⟨m.taken, (index, m.taken) :: m.groups, m.rest⟩

/-- **The match at the start of a text** is the first. -/
def first? (r : Regex) (cs : List Char) : Option Match :=
  (r.found cs).head?

/-- **The match of a whole text** is the first that leaves nothing. -/
def whole? (r : Regex) (cs : List Char) : Option Match :=
  (r.found cs).find? (·.rest.isEmpty)

/-! ### What an expression describes -/

/-- Rounds that each take something, one after the other. -/
inductive Rounds (step : List Char → Groups → Prop) : List Char → Groups → Prop
  | stop : Rounds step [] []
  | more {x y : List Char} {gx gy : Groups} : step x gx → x ≠ [] → Rounds step y gy →
      Rounds step (x ++ y) (gx ++ gy)

/-- **The texts that an expression describes, with what its groups keep.** -/
def Denotes : Regex → List Char → Groups → Prop
  | .empty, run, groups => run = [] ∧ groups = []
  | .char p, run, groups => (∃ c, p c = true ∧ run = [c]) ∧ groups = []
  | .seq first second, run, groups =>
    ∃ x gx y gy, first.Denotes x gx ∧ second.Denotes y gy ∧ run = x ++ y ∧ groups = gx ++ gy
  | .alt preferred other, run, groups => preferred.Denotes run groups ∨ other.Denotes run groups
  | .many body, run, groups => Rounds body.Denotes run groups
  | .few body, run, groups => Rounds body.Denotes run groups
  | .group index body, run, groups =>
    ∃ inner, body.Denotes run inner ∧ groups = (index, run) :: inner

/-- A list of matches holds the parts at the start of every text that a description allows. -/
def Enumerates (step : List Char → List Match) (P : List Char → Groups → Prop) : Prop :=
  ∀ cs m, m ∈ step cs ↔ cs = m.taken ++ m.rest ∧ P m.taken m.groups

variable {step : List Char → List Match} {P : List Char → Groups → Prop}

theorem mem_rounds_succ {n : Nat} {cs : List Char} {m : Match} :
    m ∈ rounds step (n + 1) cs ↔
      (∃ a ∈ step cs, a.taken ≠ [] ∧ ∃ b ∈ rounds step n a.rest, m = a.andThen b) ∨
        m = .here cs := by
  have hsome : ∀ a : Match, (!a.taken.isEmpty) = true ↔ a.taken ≠ [] := by
    intro a
    rw [Bool.not_eq_true', List.isEmpty_eq_false_iff]
  simp only [rounds, List.mem_append, List.mem_flatMap, List.mem_filter, List.mem_map,
    List.mem_singleton, hsome, and_assoc, eq_comm (a := m)]

theorem rounds_sound (h : Enumerates step P) {n : Nat} {cs : List Char} {m : Match}
    (hm : m ∈ rounds step n cs) : cs = m.taken ++ m.rest ∧ Rounds P m.taken m.groups := by
  induction n generalizing cs m with
  | zero =>
    obtain rfl := List.mem_singleton.mp hm
    exact ⟨rfl, .stop⟩
  | succ n ih =>
    rcases mem_rounds_succ.mp hm with ⟨a, ha, hne, b, hb, rfl⟩ | rfl
    · obtain ⟨hcs, hPa⟩ := (h cs a).mp ha
      obtain ⟨hrest, hPb⟩ := ih hb
      refine ⟨?_, .more hPa hne hPb⟩
      show cs = a.taken ++ b.taken ++ b.rest
      rw [List.append_assoc, ← hrest, ← hcs]
    · exact ⟨rfl, .stop⟩

/-- As many rounds as the text has characters are enough. -/
theorem rounds_complete (h : Enumerates step P) {run : List Char} {groups : Groups}
    (hrun : Rounds P run groups) {n : Nat} (hn : run.length ≤ n) (rest : List Char) :
    ⟨run, groups, rest⟩ ∈ rounds step n (run ++ rest) := by
  induction hrun generalizing n with
  | stop =>
    cases n with
    | zero => exact List.mem_singleton_self _
    | succ n => exact mem_rounds_succ.mpr (Or.inr rfl)
  | @more x y gx gy hx hne _ ih =>
    have hlen : 0 < x.length := List.length_pos_of_ne_nil hne
    rw [List.length_append] at hn
    cases n with
    | zero => omega
    | succ n =>
      have ha : ⟨x, gx, y ++ rest⟩ ∈ step (x ++ y ++ rest) :=
        (h _ _).mpr ⟨List.append_assoc x y rest, hx⟩
      exact mem_rounds_succ.mpr (Or.inl ⟨_, ha, hne, _, ih (by omega), rfl⟩)

theorem mem_fewRounds_iff {n : Nat} {cs : List Char} {m : Match} :
    m ∈ fewRounds step n cs ↔ m ∈ rounds step n cs := by
  induction n generalizing cs m with
  | zero => rfl
  | succ n ih =>
    rw [fewRounds, rounds, List.mem_append, List.mem_cons, List.mem_singleton, or_comm]
    simp only [List.mem_flatMap, List.mem_map, ih]

/-- Rounds up to the length of the text are all there are. -/
theorem Enumerates.rounds (h : Enumerates step P) :
    Enumerates (fun cs => Regex.rounds step cs.length cs) (Rounds P) := by
  intro cs m
  constructor
  · exact rounds_sound h
  · rintro ⟨rfl, hrun⟩
    exact rounds_complete h hrun (by rw [List.length_append]; omega) m.rest

section Constructors

variable {body first second preferred other : Regex}

theorem enumerates_empty : Enumerates empty.found empty.Denotes := by
  rintro cs ⟨taken, groups, rest⟩
  rw [found, List.mem_singleton, Match.here, Match.mk.injEq]
  constructor
  · rintro ⟨rfl, rfl, rfl⟩
    exact ⟨rfl, rfl, rfl⟩
  · rintro ⟨hcs, rfl, rfl⟩
    exact ⟨rfl, rfl, hcs.symm⟩

theorem enumerates_char (p : Char → Bool) : Enumerates (char p).found (char p).Denotes := by
  rintro cs ⟨taken, groups, rest⟩
  constructor
  · intro hm
    cases cs with
    | nil => cases hm
    | cons c cs =>
      rw [found] at hm
      split at hm
      · next hc =>
        cases List.mem_singleton.mp hm
        exact ⟨rfl, ⟨c, hc, rfl⟩, rfl⟩
      · cases hm
  · rintro ⟨hcs, ⟨c, hc, htaken⟩, hgroups⟩
    cases htaken
    cases hgroups
    cases hcs
    show _ ∈ if p c then [_] else []
    rw [if_pos hc]
    exact List.mem_singleton_self _

/-- A match of a sequence is one of its beginning and one of the rest behind what that left. -/
theorem Enumerates.seq (hfirst : Enumerates first.found first.Denotes)
    (hsecond : Enumerates second.found second.Denotes) :
    Enumerates (seq first second).found (seq first second).Denotes := by
  rintro cs ⟨taken, groups, rest⟩
  rw [found, List.mem_flatMap]
  constructor
  · rintro ⟨a, ha, hm⟩
    obtain ⟨b, hb, heq⟩ := List.mem_map.mp hm
    cases heq
    obtain ⟨hcs, hPa⟩ := (hfirst cs a).mp ha
    obtain ⟨hrest, hPb⟩ := (hsecond a.rest b).mp hb
    refine ⟨?_, a.taken, a.groups, b.taken, b.groups, hPa, hPb, rfl, rfl⟩
    show cs = a.taken ++ b.taken ++ b.rest
    rw [List.append_assoc, ← hrest, ← hcs]
  · rintro ⟨hcs, x, gx, y, gy, hx, hy, htaken, hgroups⟩
    obtain rfl : taken = x ++ y := htaken
    obtain rfl : groups = gx ++ gy := hgroups
    have ha : ⟨x, gx, y ++ rest⟩ ∈ first.found cs :=
      (hfirst cs _).mpr ⟨hcs.trans (List.append_assoc x y rest), hx⟩
    exact ⟨_, ha, List.mem_map.mpr ⟨⟨y, gy, rest⟩, (hsecond _ _).mpr ⟨rfl, hy⟩, rfl⟩⟩

theorem Enumerates.alt (hpreferred : Enumerates preferred.found preferred.Denotes)
    (hother : Enumerates other.found other.Denotes) :
    Enumerates (alt preferred other).found (alt preferred other).Denotes := by
  intro cs m
  rw [found, List.mem_append, hpreferred cs m, hother cs m, ← and_or_left]
  rfl

theorem Enumerates.many (h : Enumerates body.found body.Denotes) :
    Enumerates (many body).found (many body).Denotes := by
  intro cs m
  rw [found]
  exact h.rounds cs m

theorem Enumerates.few (h : Enumerates body.found body.Denotes) :
    Enumerates (few body).found (few body).Denotes := by
  intro cs m
  rw [found, mem_fewRounds_iff]
  exact h.rounds cs m

theorem Enumerates.group (index : Nat) (h : Enumerates body.found body.Denotes) :
    Enumerates (group index body).found (group index body).Denotes := by
  rintro cs ⟨taken, groups, rest⟩
  rw [found, List.mem_map]
  constructor
  · rintro ⟨a, ha, hm⟩
    cases hm
    obtain ⟨hcs, hPa⟩ := (h cs a).mp ha
    exact ⟨hcs, a.groups, hPa, rfl⟩
  · rintro ⟨hcs, inner, hinner, hgroups⟩
    obtain rfl : groups = (index, taken) :: inner := hgroups
    exact ⟨⟨taken, inner, rest⟩, (h cs _).mpr ⟨hcs, hinner⟩, rfl⟩

end Constructors

/-- **The matches at the start of a text are its beginnings that the expression describes.** -/
theorem mem_found_iff (r : Regex) : Enumerates r.found r.Denotes := by
  induction r with
  | empty => exact enumerates_empty
  | char p => exact enumerates_char p
  | seq first second ihfirst ihsecond => exact ihfirst.seq ihsecond
  | alt preferred other ihpreferred ihother => exact ihpreferred.alt ihother
  | many body ih => exact ih.many
  | few body ih => exact ih.few
  | group index body ih => exact ih.group index

/-- **A text with one reading is read so**, whatever the order of the matches. -/
theorem whole?_eq_some_iff {r : Regex} {cs : List Char} {m : Match}
    (h : ∀ g g', r.Denotes cs g → r.Denotes cs g' → g = g') :
    r.whole? cs = some m ↔ ∃ groups, r.Denotes cs groups ∧ m = ⟨cs, groups, []⟩ := by
  have hwhole : ∀ a, r.whole? cs = some a → r.Denotes cs a.groups ∧ a = ⟨cs, a.groups, []⟩ := by
    intro a ha
    have hrest := List.find?_some (p := fun b : Match => b.rest.isEmpty) ha
    obtain ⟨taken, groups, rest⟩ := a
    obtain rfl := List.isEmpty_iff.mp hrest
    obtain ⟨hcs, hdenotes⟩ := (mem_found_iff r cs _).mp (List.mem_of_find?_eq_some ha)
    rw [List.append_nil] at hcs
    obtain rfl : cs = taken := hcs
    exact ⟨hdenotes, rfl⟩
  constructor
  · intro hm
    exact ⟨m.groups, hwhole m hm⟩
  · rintro ⟨groups, hdenotes, rfl⟩
    have hmem : ⟨cs, groups, []⟩ ∈ r.found cs :=
      (mem_found_iff r cs _).mpr ⟨(List.append_nil cs).symm, hdenotes⟩
    cases hfind : r.whole? cs with
    | none => exact absurd rfl (List.find?_eq_none.mp hfind _ hmem)
    | some a =>
      obtain ⟨ha, heq⟩ := hwhole a hfind
      rw [heq, h a.groups groups ha hdenotes]

/-! ### The first match -/

variable {r body : Regex} {cs : List Char} {m : Match}

theorem first?_eq_none_iff : r.first? cs = none ↔ r.found cs = [] :=
  List.head?_eq_none_iff

theorem first?_group (index : Nat) : (group index r).first? cs =
    (r.first? cs).map fun m => ⟨m.taken, (index, m.taken) :: m.groups, m.rest⟩ :=
  List.head?_map

theorem first?_char {p : Char → Bool} {c : Char} (h : p c = true) (cs : List Char) :
    (char p).first? (c :: cs) = some ⟨[c], [], cs⟩ := by
  rw [first?, found, if_pos h]
  rfl

/-- **A sequence goes through the first match of its beginning that the rest goes on from.** -/
theorem first?_seq (a b : Regex) (cs : List Char) :
    (seq a b).first? cs =
      ((a.found cs).find? fun m => (b.first? m.rest).isSome).bind fun m =>
        (b.first? m.rest).map m.andThen := by
  rw [first?, found, List.head?_flatMap]
  induction a.found cs with
  | nil => rfl
  | cons m ms ih =>
    rw [List.findSome?_cons, List.head?_map, List.find?_cons, ih, ← first?]
    cases hb : b.first? m.rest with
    | none => rfl
    | some k =>
      show some (m.andThen k) = (b.first? m.rest).map m.andThen
      rw [hb]
      rfl

theorem first?_seq_group (index : Nat) (a b : Regex) (cs : List Char) :
    (seq (group index a) b).first? cs =
      ((a.found cs).find? fun m => (b.first? m.rest).isSome).bind fun m =>
        (b.first? m.rest).map fun k =>
          ⟨m.taken ++ k.taken, (index, m.taken) :: (m.groups ++ k.groups), k.rest⟩ := by
  rw [first?_seq, found, List.find?_map, Option.bind_map]
  rfl

theorem first?_seq_of_first {a b : Regex} {k : Match} (ha : a.first? cs = some m)
    (hb : b.first? m.rest = some k) : (seq a b).first? cs = some (m.andThen k) := by
  obtain ⟨ms, hms⟩ := List.head?_eq_some_iff.mp ha
  rw [first?_seq, hms, List.find?_cons_of_pos (by rw [hb]; rfl), Option.bind_some, hb]
  rfl

theorem first?_seq_eq_none {a b : Regex} (h : ∀ m ∈ a.found cs, b.first? m.rest = none) :
    (seq a b).first? cs = none := by
  have hnone : ((a.found cs).find? fun m => (b.first? m.rest).isSome) = none := by
    rw [List.find?_eq_none]
    intro m hm
    rw [h m hm]
    exact Bool.false_ne_true
  rw [first?_seq, hnone]
  rfl

/-- **An expression with one match at most** at the start of a text, as often as it is listed. -/
def Sole (r : Regex) : Prop :=
  ∀ cs, ∀ m ∈ r.found cs, ∀ n ∈ r.found cs, m = n

theorem sole_of_denotes
    (h : ∀ {x y x' y' : List Char} {g g' : Groups}, r.Denotes x g → r.Denotes x' g' →
      x ++ y = x' ++ y' → x = x' ∧ g = g') : r.Sole := by
  rintro cs ⟨x, g, y⟩ hm ⟨x', g', y'⟩ hn
  obtain ⟨hcs, hx⟩ := (mem_found_iff r cs _).mp hm
  obtain ⟨hcs', hx'⟩ := (mem_found_iff r cs _).mp hn
  have hsame : x ++ y = x' ++ y' := hcs.symm.trans hcs'
  obtain ⟨rfl, rfl⟩ := h hx hx' hsame
  rw [List.append_cancel_left hsame]

/-- The only match is the first, whatever the order. -/
theorem Sole.first?_eq_some_iff (h : r.Sole) :
    r.first? cs = some m ↔ cs = m.taken ++ m.rest ∧ r.Denotes m.taken m.groups := by
  rw [← mem_found_iff r cs m]
  constructor
  · exact List.mem_of_head?
  · intro hm
    cases hfirst : r.first? cs with
    | none =>
      rw [first?_eq_none_iff.mp hfirst] at hm
      cases hm
    | some n => rw [h cs n (List.mem_of_head? hfirst) m hm]

/-! ### As few rounds as possible -/

theorem fewRounds_succ (h : Enumerates step P) {n : Nat} {cs : List Char} (hn : cs.length ≤ n) :
    fewRounds step (n + 1) cs = fewRounds step n cs := by
  have hshorter : ∀ {cs m}, m ∈ (step cs).filter (!·.taken.isEmpty) →
      m.rest.length < cs.length := by
    intro cs m hm
    obtain ⟨hstep, htaken⟩ := List.mem_filter.mp hm
    have hlength := congrArg List.length ((h cs m).mp hstep).1
    rw [Bool.not_eq_true', List.isEmpty_eq_false_iff] at htaken
    have hpos := List.length_pos_of_ne_nil htaken
    rw [List.length_append] at hlength
    omega
  induction n generalizing cs with
  | zero =>
    have hnone : (step cs).filter (!·.taken.isEmpty) = [] := by
      rw [List.eq_nil_iff_forall_not_mem]
      intro m hm
      have := hshorter hm
      omega
    rw [fewRounds.eq_2, hnone]
    rfl
  | succ n ih =>
    rw [fewRounds, fewRounds]
    congr 1
    apply List.flatMap_congr
    intro m hm
    have := hshorter hm
    rw [ih (by omega)]

theorem fewRounds_of_le (h : Enumerates step P) {n : Nat} {cs : List Char} (hn : cs.length ≤ n) :
    fewRounds step n cs = fewRounds step cs.length cs := by
  induction n, hn using Nat.le_induction with
  | base => rfl
  | succ n hn ih => rw [fewRounds_succ h hn, ih]

/-- **A repetition ends here, or goes on behind one round.** -/
theorem found_few (body : Regex) (cs : List Char) :
    (few body).found cs = .here cs :: ((body.found cs).filter (!·.taken.isEmpty)).flatMap
      fun m => ((few body).found m.rest).map m.andThen := by
  rw [found, ← fewRounds_succ (mem_found_iff body) le_rfl, fewRounds]
  congr 1
  apply List.flatMap_congr
  intro m hm
  have hlength := congrArg List.length ((mem_found_iff body cs m).mp (List.mem_of_mem_filter hm)).1
  rw [List.length_append] at hlength
  rw [fewRounds_of_le (mem_found_iff body) (by omega), found]

theorem findSome?_cons_of_same {α β : Type} {f : α → Option β} {x : α} {xs : List α}
    (h : ∀ y ∈ xs, y = x) : (x :: xs).findSome? f = f x := by
  rw [List.findSome?_cons]
  cases hx : f x with
  | some b => rfl
  | none =>
    rw [List.findSome?_eq_none_iff]
    intro y hy
    rw [h y hy, hx]

/-- **Rounds that can go on in one way only are repeated until a condition on the rest holds.** -/
theorem find?_few (hsole : body.Sole) (htakes : ∀ {run groups}, body.Denotes run groups → run ≠ [])
    (p : List Char → Bool) (cs : List Char) :
    ((few body).found cs).find? (p ·.rest) =
      if p cs then some (.here cs)
      else (body.first? cs).bind fun m =>
        (((few body).found m.rest).find? (p ·.rest)).map m.andThen := by
  have hfilter : (body.found cs).filter (!·.taken.isEmpty) = body.found cs := by
    rw [List.filter_eq_self]
    intro m hm
    rw [Bool.not_eq_true', List.isEmpty_eq_false_iff]
    exact htakes ((mem_found_iff body cs m).mp hm).2
  have hround : ∀ m : Match, (((few body).found m.rest).map m.andThen).find? (p ·.rest) =
      (((few body).found m.rest).find? (p ·.rest)).map m.andThen := fun m => List.find?_map
  rw [found_few, hfilter, List.find?_cons, List.find?_flatMap]
  simp only [hround, Match.here]
  cases p cs with
  | true => rfl
  | false =>
    simp only [Bool.false_eq_true, if_false]
    cases hfound : body.found cs with
    | nil => rw [first?, hfound]; rfl
    | cons m ms =>
      have hsame : ∀ n ∈ ms, n = m := fun n hn =>
        hsole cs n (by rw [hfound]; exact List.mem_cons_of_mem m hn) m
          (by rw [hfound]; exact List.mem_cons_self)
      rw [findSome?_cons_of_same hsame, first?, hfound]
      rfl

/-! ### Runs of characters -/

theorem denotes_many_char {p : Char → Bool} {run : List Char} {groups : Groups} :
    (many (.char p)).Denotes run groups ↔ (∀ c ∈ run, p c = true) ∧ groups = [] := by
  constructor
  · intro h
    induction h with
    | stop => exact ⟨nofun, rfl⟩
    | more hx _ _ ih =>
      obtain ⟨⟨c, hc, rfl⟩, rfl⟩ := hx
      exact ⟨List.forall_mem_cons.mpr ⟨hc, ih.1⟩, ih.2⟩
  · rintro ⟨hrun, rfl⟩
    induction run with
    | nil => exact .stop
    | cons c run ih =>
      obtain ⟨hc, hrun⟩ := List.forall_mem_cons.mp hrun
      have hround : (Regex.char p).Denotes [c] [] := ⟨⟨c, hc, rfl⟩, rfl⟩
      exact Rounds.more hround (List.cons_ne_nil c []) (ih hrun)

theorem denotes_atLeastOnce_char {p : Char → Bool} {run : List Char} {groups : Groups} :
    (atLeastOnce (.char p)).Denotes run groups ↔
      run ≠ [] ∧ (∀ c ∈ run, p c = true) ∧ groups = [] := by
  constructor
  · rintro ⟨_, _, y, gy, ⟨⟨c, hc, rfl⟩, rfl⟩, hmany, rfl, rfl⟩
    obtain ⟨hy, rfl⟩ := denotes_many_char.mp hmany
    exact ⟨List.cons_ne_nil c y, List.forall_mem_cons.mpr ⟨hc, hy⟩, rfl⟩
  · rintro ⟨hne, hrun, rfl⟩
    obtain ⟨c, run, rfl⟩ := List.exists_cons_of_ne_nil hne
    obtain ⟨hc, hrun⟩ := List.forall_mem_cons.mp hrun
    exact ⟨[c], [], run, [], ⟨⟨c, hc, rfl⟩, rfl⟩, denotes_many_char.mpr ⟨hrun, rfl⟩, rfl, rfl⟩

theorem first?_many_char (p : Char → Bool) (cs : List Char) :
    (many (.char p)).first? cs = some ⟨cs.takeWhile p, [], cs.dropWhile p⟩ := by
  have hrounds : ∀ n, cs.length ≤ n →
      (rounds (char p).found n cs).head? = some ⟨cs.takeWhile p, [], cs.dropWhile p⟩ := by
    induction cs with
    | nil =>
      intro n _
      cases n with
      | zero => rfl
      | succ n => rfl
    | cons c cs ih =>
      intro n hn
      cases n with
      | zero => cases hn
      | succ n =>
        rw [rounds, found]
        split
        · next hc =>
          rw [List.takeWhile_cons_of_pos hc, List.dropWhile_cons_of_pos hc]
          show (((rounds (char p).found n cs).map _ ++ []) ++ _).head? = _
          rw [List.append_nil, List.head?_append, List.head?_map, ih n (Nat.le_of_succ_le_succ hn)]
          rfl
        · next hc =>
          rw [List.takeWhile_cons_of_neg hc, List.dropWhile_cons_of_neg hc]
          rfl
  exact hrounds cs.length le_rfl

end Regex

end LivingGuide.Text
