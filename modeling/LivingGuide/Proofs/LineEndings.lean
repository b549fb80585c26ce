import LivingGuide.Proofs.Concatenation

/-!
# Line endings do not matter

Stylesheets come with line feeds, or with a carriage return before each of them, or with both kinds
mixed.  Putting a carriage return before every line feed of a text changes nothing that is read from
it:

    Source.parse (withReturns text) = Source.parse text.

A line that ended in a line feed alone is the same line as before (`lines_append_return`).  A line
that ended in a carriage return and a line feed now has the first carriage return at its end, so the
lines of the two texts differ; but a carriage return at the end of a line is not in its content
(`content?_return`), and a line that is no comment stays none.  So the contents are the same, line by
line (`contents_returned`), and the rest of the reading sees nothing else.  The last line, when no
line feed ends it, is left as it is.
-/

namespace LivingGuide

/-! ### A carriage return before every line feed -/

namespace Text

/-- The characters of a text with a carriage return before every line feed. -/
def returned (cs : List Char) : List Char :=
  cs.flatMap fun c => if c = '\n' then ['\r', '\n'] else [c]

/-- The text with a carriage return before every line feed. -/
def withReturns (s : String) : String :=
  String.ofList (returned s.toList)

theorem returned_of_noLineFeed {l : List Char} (hl : '\n' ∉ l) : returned l = l := by
  induction l with
  | nil => rfl
  | cons c l ih =>
    rw [List.mem_cons, not_or] at hl
    rw [returned, List.flatMap_cons, if_neg (Ne.symm hl.1)]
    exact congrArg (c :: ·) (ih hl.2)

theorem returned_append_lineFeed {l : List Char} (hl : '\n' ∉ l) (rest : List Char) :
    returned (l ++ '\n' :: rest) = (l ++ ['\r']) ++ '\n' :: returned rest := by
  have hfirst : returned (l ++ '\n' :: rest) = returned l ++ returned ('\n' :: rest) :=
    List.flatMap_append
  rw [hfirst, returned_of_noLineFeed hl, List.append_assoc]
  rfl

end Text

/-! ### Contents -/

namespace Comment

open Text

/-- **The contents of a text stay the same, line by line.** -/
theorem contents_returned (cs : List Char) :
    (lines (returned cs)).map (fun l => content? (String.ofList l)) =
      (lines cs).map fun l => content? (String.ofList l) := by
  -- The induction is on the number of lines that a line feed ends, measured by the length.
  induction hn : cs.length using Nat.strong_induction_on generalizing cs with
  | _ n ih =>
    by_cases hmem : '\n' ∈ cs
    · obtain ⟨l, rest, rfl, hl⟩ := List.eq_append_cons_of_mem hmem
      have hrest : rest.length < n := by
        rw [← hn, List.length_append, List.length_cons]
        omega
      obtain ⟨l', hl', hreturn⟩ := lines_lineFeed hl
      have hsame : content? (String.ofList l) = content? (String.ofList l') := by
        rcases hreturn with rfl | rfl
        · rfl
        · exact content?_return l'
      have hfirst : lines ((l ++ ['\r']) ++ ['\n']) = [l] := by
        rw [List.append_assoc]
        exact lines_append_return hl
      rw [returned_append_lineFeed hl, lines_cut, hfirst, lines_cut l, hl', List.map_append,
        List.map_append, ih rest.length hrest rest rfl, List.map_singleton, List.map_singleton,
        hsame]
    · rw [returned_of_noLineFeed hmem]

theorem stretches_withReturns (text : String) :
    stretches (linesOf (withReturns text)) = stretches (linesOf text) := by
  apply stretches_congr
  rw [linesOf, linesOf, List.map_map, List.map_map, withReturns, String.toList_ofList]
  exact contents_returned text.toList

end Comment

/-! ### Sources -/

/-- **Line endings do not matter.**  With a carriage return before every line feed a text documents the
same blocks and leaves the same run open, or it fails with the same error. -/
theorem Source.parse_withReturns (text : String) :
    Source.parse (Text.withReturns text) = Source.parse text := by
  have hstretches := Comment.stretches_withReturns text
  have hruns : Comment.runs (Text.linesOf (Text.withReturns text)) =
      Comment.runs (Text.linesOf text) := by
    rw [Comment.runs, hstretches, Comment.runs]
  have hopen : Comment.unterminated? (Text.linesOf (Text.withReturns text)) =
      Comment.unterminated? (Text.linesOf text) := by
    rw [Comment.unterminated?, hstretches, Comment.unterminated?]
  simp only [Source.parse, hruns, hopen]

end LivingGuide
