import LivingGuide.Text.Basic

/-!
# Comment runs

Documentation stands in line comments.  Lines that are no comments cut a text into *stretches* of
comment lines; each such line closes a stretch, and the comment lines after the last of them are
left open.  A stretch is documentation when its last line holds the marker word.

Only a closed stretch is a documentation run.  An open one at the end of the text was not finished,
and is reported apart.

* `Comment.content?`: the text of a comment line
* `Comment.stretches`: closed stretches and the open one
* `Comment.runs`, `Comment.unterminated?`: the documentation among them
* `Comment.Reader.next`: the runs one after the other, each read when it is asked for
* `Comment.pull`: the first runs only
-/

namespace LivingGuide.Comment

/-- The word that marks the last line of documentation. -/
def marker : String := "Styleguide"

/-- The text of a comment line, without the comment sign, one space after it and the blanks at the
end. A line that does not start with the comment sign is no comment. -/
def content? (line : String) : Option String :=
  match line.toList with
  | '/' :: '/' :: ' ' :: cs => some (String.ofList (Text.trimEnd cs))
  | '/' :: '/' :: cs => some (String.ofList (Text.trimEnd cs))
  | _ => none

/-- **The stretches of comment lines**: those that a line which is no comment closes, and the open
one at the end. -/
def stretches : List String → List (List String) × List String
  | [] => ([], [])
  | line :: lines =>
    match content? line, stretches lines with
    | none, (closed, opened) => ([] :: closed, opened)
    | some content, ([], opened) => ([], content :: opened)
    | some content, (stretch :: closed, opened) => ((content :: stretch) :: closed, opened)

/-- Whether a stretch is documentation: its last line holds the marker. -/
def isDocumented (stretch : List String) : Bool :=
  stretch.getLast?.any (Text.contains · marker)

/-- The documentation runs of some lines. -/
def runs (lines : List String) : List (List String) :=
  (stretches lines).1.filter isDocumented

/-- The documentation that the end of the text cuts off. -/
def unterminated? (lines : List String) : Option (List String) :=
  let opened := (stretches lines).2
  if isDocumented opened then some opened else none

/-! ### One run at a time -/

/-- A reader of documentation runs: the comment lines since the last line that was none, and the
lines not yet read. -/
structure Reader where
  current : List String
  unread : List String
deriving DecidableEq, Repr

namespace Reader

/-- The reader at the start of some lines. -/
def ofLines (lines : List String) : Reader :=
  ⟨[], lines⟩

/-- The next run after the given comment lines, and the reader behind it. -/
def nextFrom (current : List String) : List String → Option (List String) × Reader
  | [] => (none, ⟨current, []⟩)
  | line :: lines =>
    match content? line with
    | some content => nextFrom (current ++ [content]) lines
    | none => if isDocumented current then (some current, ⟨[], lines⟩) else nextFrom [] lines

/-- **The next run, and the reader behind it.** Lines are read only up to the one that closes the
run. When there is no run left, the comment lines at the end stay with the reader. -/
def next (reader : Reader) : Option (List String) × Reader :=
  nextFrom reader.current reader.unread

/-- At most as many runs as wanted, and the reader behind them. -/
def take : Nat → Reader → List (List String) × Reader
  | 0, reader => ([], reader)
  | wanted + 1, reader =>
    match reader.next with
    | (none, behind) => ([], behind)
    | (some run, behind) =>
      let rest := take wanted behind
      (run :: rest.1, rest.2)

/-- The documentation among the comment lines that stay with a reader. -/
def unterminated? (reader : Reader) : Option (List String) :=
  if isDocumented reader.current then some reader.current else none

end Reader

/-- The first runs, at most as many as wanted, and the unterminated one. **Lines are read only as
far as needed**, so the unterminated run is seen only when fewer runs were found than wanted. -/
def pull (wanted : Nat) (lines : List String) : List (List String) × Option (List String) :=
  let (found, reader) := (Reader.ofLines lines).take wanted
  (found, reader.unterminated?)

end LivingGuide.Comment
