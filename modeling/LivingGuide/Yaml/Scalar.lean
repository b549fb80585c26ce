import LivingGuide.Yaml.Cursor

/-!
# Scalars

A scalar is a text in one of three forms: plain, between quotes, or as an indented block after `|` or
`>`.  In the first two forms a line break is folded: one break becomes a space, of several the first is
dropped.  A literal block keeps its breaks, and a folded one folds those between lines that do not start
with a blank.

Every reader returns the text and the cursor after it, and `none` where the text is malformed.

* `Gap`: blanks and breaks between two words, and what they are folded into
* `plain`, `quoted`, `block`: the three forms
-/

namespace LivingGuide.Yaml

/-! ### Gaps -/

/-- What stands between two words of a scalar: nothing, blanks on one line, or line breaks. After an
escaped line break the first break is empty. Blanks next to a line break do not count. -/
inductive Gap where
  | empty
  | spaces (cs : List Char)
  | breaks (first later : List Char)
deriving DecidableEq, Repr

namespace Gap

/-- The gap with one more blank. -/
def addSpace (c : Char) : Gap → Gap
  | .empty => .spaces [c]
  | .spaces cs => .spaces (cs ++ [c])
  | gap => gap

/-- The gap with one more line break. -/
def addBreak (c : Char) : Gap → Gap
  | .breaks first later => .breaks first (later ++ breakText c)
  | _ => .breaks (breakText c) []

/-- **What a gap is folded into.** -/
def text : Gap → List Char
  | .empty => []
  | .spaces cs => cs
  | .breaks first later =>
    if first == ['\n'] then if later.isEmpty then [' '] else later
    else first ++ later

/-- Whether the gap holds a line break. -/
def hasBreak : Gap → Bool
  | .breaks _ _ => true
  | _ => false

end Gap

/-- A scalar and what follows it. -/
structure Scanned where
  text : List Char
  cursor : Cursor
  /-- Whether a line break was read after the text. -/
  brokeLine : Bool := false

/-! ### Plain scalars -/

/-- The signs that end a plain scalar inside brackets. -/
def isFlowSign (c : Char) : Bool :=
  c == ',' || c == '[' || c == ']' || c == '\x7b' || c == '\x7d'

/-- The rest of a plain scalar, after the text that was read (in reverse) and a gap. It ends at `: `,
at a comment, at a document mark, at a line that is not indented enough, and, inside brackets, at
their signs. -/
def plainFrom (flow : Bool) (indent : Nat) (position : Position) (gap : Gap) (read : List Char) :
    List Char → Option Scanned
  | [] => some ⟨read.reverse, ⟨position, []⟩, gap.hasBreak⟩
  | '\r' :: '\n' :: cs => plainFrom flow indent position.newLine (gap.addBreak '\n') read cs
  | c :: cs =>
    if isSpace c then
      if gap.hasBreak && c == '\t' && position.column < indent then none
      else plainFrom flow indent (position.after c) (gap.addSpace c) read cs
    else if isBreak c then plainFrom flow indent position.newLine (gap.addBreak c) read cs
    else if gap != .empty && (c == '#' || (!flow && position.column < indent)
        || (position.column == 0 && atDocumentMark (c :: cs))) then
      some ⟨read.reverse, ⟨position, c :: cs⟩, gap.hasBreak⟩
    else if flow && c == ':' && cs.head?.any (fun d => isFlowSign d || d == '?') then none
    else if (c == ':' && atGap cs) || (flow && isFlowSign c) then
      some ⟨read.reverse, ⟨position, c :: cs⟩, gap.hasBreak⟩
    else
      plainFrom flow indent (position.after c) .empty (c :: (gap.text.reverse ++ read)) cs

/-- **A plain scalar** at the cursor. -/
def plain (flow : Bool) (indent : Nat) (cur : Cursor) : Option Scanned :=
  plainFrom flow indent cur.position .empty [] cur.rest

/-! ### Quoted scalars -/

/-- The value of hexadecimal digits. -/
def hexValue? (cs : List Char) : Option Nat :=
  cs.foldl (fun value c => do
    let n ← value
    if c.isDigit then some (16 * n + (c.toNat - '0'.toNat))
    else if 'a' ≤ c && c ≤ 'f' then some (16 * n + (c.toNat - 'a'.toNat + 10))
    else if 'A' ≤ c && c ≤ 'F' then some (16 * n + (c.toNat - 'A'.toNat + 10))
    else none) (some 0)

/-- The character with the code that the given number of digits write. -/
def codeEscape? (digits : Nat) (cs : List Char) : Option (Char × Nat) :=
  let taken := cs.take digits
  if taken.length < digits then none
  else
    match hexValue? taken with
    | some n =>
      if n.isValidChar then some (Char.ofNat n, digits + 1) else none
    | none => none

/-- The character that an escape stands for, and its length after the backslash. -/
def escape? : List Char → Option (Char × Nat)
  | [] => none
  | c :: cs =>
    match c with
    | '0' => some ('\x00', 1)
    | 'a' => some ('\x07', 1)
    | 'b' => some ('\x08', 1)
    | 't' => some ('\t', 1)
    | '\t' => some ('\t', 1)
    | 'n' => some ('\n', 1)
    | 'v' => some ('\x0b', 1)
    | 'f' => some ('\x0c', 1)
    | 'r' => some ('\r', 1)
    | 'e' => some ('\x1b', 1)
    | ' ' => some (' ', 1)
    | '"' => some ('"', 1)
    | '/' => some ('/', 1)
    | '\\' => some ('\\', 1)
    | 'N' => some ('\u0085', 1)
    | '_' => some ('\u00a0', 1)
    | 'L' => some ('\u2028', 1)
    | 'P' => some ('\u2029', 1)
    | 'x' => codeEscape? 2 cs
    | 'u' => codeEscape? 4 cs
    | 'U' => codeEscape? 8 cs
    | _ => none

/-- The rest of a quoted scalar, after the text that was read (in reverse) and a gap. Between single
quotes only a doubled quote is special; between double quotes a backslash escapes characters and
line breaks. A document mark may not start a line. -/
def quotedFrom (double : Bool) (position : Position) (gap : Gap) (read : List Char) :
    List Char → Option Scanned
  | [] => none
  | '\r' :: '\n' :: cs => quotedFrom double position.newLine (gap.addBreak '\n') read cs
  | c :: cs =>
    if isSpace c then quotedFrom double (position.after c) (gap.addSpace c) read cs
    else if isBreak c then quotedFrom double position.newLine (gap.addBreak c) read cs
    else if position.column == 0 && atDocumentMark (c :: cs) then none
    else
      let read := gap.text.reverse ++ read
      if !double && c == '\'' && cs.head? == some '\'' then
        quotedFrom double (position.afterAll ['\'', '\'']) .empty ('\'' :: read) (cs.drop 1)
      else if c == (if double then '"' else '\'') then
        some ⟨read.reverse, ⟨position.after c, cs⟩, false⟩
      else if double && c == '\\' then
        match cs with
        | '\r' :: '\n' :: rest => quotedFrom double position.newLine (.breaks [] []) read rest
        | d :: rest =>
          if isBreak d then quotedFrom double position.newLine (.breaks [] []) read rest
          else
            match escape? (d :: rest) with
            | some (found, n) =>
              quotedFrom double ((position.after c).afterAll ((d :: rest).take n)) .empty
                (found :: read) ((d :: rest).drop n)
            | none => none
        | [] => none
      else quotedFrom double (position.after c) .empty (c :: read) cs
termination_by cs => cs.length
decreasing_by
  all_goals simp only [List.length_cons, List.length_drop]
  all_goals omega

/-- **A quoted scalar** at the cursor, which stands at its opening quote. -/
def quoted (double : Bool) (cur : Cursor) : Option Scanned :=
  let cur := cur.advance 1
  quotedFrom double cur.position .empty [] cur.rest

/-! ### Block scalars -/

/-- What becomes of the line breaks at the end of a block. -/
inductive Chomping where
  | strip
  | clip
  | keep
deriving DecidableEq, Repr

/-- The sign for a chomping at the start of a text, and what follows it. -/
def chomping? : List Char → Option Chomping × List Char
  | '+' :: cs => (some .keep, cs)
  | '-' :: cs => (some .strip, cs)
  | cs => (none, cs)

/-- The digit for an indentation at the start of a text, zero standing for none, and what follows it.
The digit may not be zero. -/
def increment? : List Char → Option (Nat × List Char)
  | [] => some (0, [])
  | c :: cs =>
    if c == '0' then none
    else if c.isDigit then some (c.toNat - '0'.toNat, cs)
    else some (0, c :: cs)

/-- Chomping and indentation after the sign of a block, in either order, and what follows them. -/
def blockHeader? (cs : List Char) : Option (Chomping × Nat × List Char) :=
  match chomping? cs with
  | (some chomping, rest) => (increment? rest).map fun found => (chomping, found.1, found.2)
  | (none, rest) =>
    (increment? rest).map fun found =>
      if found.1 = 0 then (.clip, 0, found.2)
      else
        match chomping? found.2 with
        | (some chomping, rest) => (chomping, found.1, rest)
        | (none, rest) => (.clip, found.1, rest)

/-- The line breaks ahead in a block with the given indentation, zero when it is not known yet, and the
greatest column that was met. Spaces are skipped up to the indentation; a tab may not stand
there. -/
def blockBreaks? (indent : Nat) (position : Position) (widest : Nat) (breaks : List Char) :
    List Char → Option (Nat × List Char × Cursor)
  | [] => some (max widest position.column, breaks, ⟨position, []⟩)
  | '\r' :: '\n' :: cs =>
    blockBreaks? indent position.newLine (max widest position.column) (breaks ++ ['\n']) cs
  | c :: cs =>
    let inIndent := indent == 0 || position.column < indent
    if c == ' ' && inIndent then blockBreaks? indent (position.after c) widest breaks cs
    else if c == '\t' && inIndent then none
    else if isBreak c then
      blockBreaks? indent position.newLine (max widest position.column)
        (breaks ++ breakText c) cs
    else some (max widest position.column, breaks, ⟨position, c :: cs⟩)

theorem length_rest_blockBreaks?_le {indent : Nat} {position : Position} {widest : Nat}
    {breaks cs : List Char} {found : Nat × List Char × Cursor}
    (h : blockBreaks? indent position widest breaks cs = some found) :
    found.2.2.rest.length ≤ cs.length := by
  fun_induction blockBreaks? indent position widest breaks cs <;> grind

/-- The lines of a block from the cursor on, after the text that was read (in reverse). The first break
is the one that ended the line before, the later ones are those of the empty lines after it. -/
def blockLines? (literal : Bool) (chomping : Chomping) (indent : Nat) (cur : Cursor)
    (read first later : List Char) (afterBlank : Bool) : Option Scanned :=
  match hr : cur.rest with
  | c :: _ =>
    if cur.position.column == indent then
      let blank := isSpace c
      let joint :=
        if !literal && first == ['\n'] && !afterBlank && !blank then
          if later.isEmpty then [' '] else []
        else first
      let line := cur.rest.takeWhile (!isBreak ·)
      match hb : blockBreaks? indent cur.dropLine.position 0 [] cur.dropLine.rest with
      | none => none
      | some (_, breaks, ahead) =>
        have : ahead.rest.length < cur.rest.length :=
          Nat.lt_of_le_of_lt (length_rest_blockBreaks?_le hb)
            (cur.length_rest_dropLine_lt (by simp [hr]))
        blockLines? literal chomping indent ahead
          (line.reverse ++ (later.reverse ++ (joint.reverse ++ read)))
          (cur.dropWhile (!isBreak ·)).breakAhead breaks blank
    else some (finish cur)
  | [] => some (finish cur)
termination_by cur.rest.length
where
  /-- The scalar with the breaks at its end chomped. -/
  finish (cur : Cursor) : Scanned :=
    let tail := match chomping with
      | .strip => []
      | .clip => first
      | .keep => first ++ later
    ⟨read.reverse ++ tail, cur, true⟩

/-- **A block scalar** at the cursor, which stands at its sign. The indentation of the surrounding
block is given, counted from -1 outside of all. -/
def block (literal : Bool) (outer : Int) (cur : Cursor) : Option Scanned := do
  let (chomping, increment, rest) ← blockHeader? (cur.rest.drop 1)
  let cur ← (cur.moveTo rest).endLine?
  let given := if increment = 0 then 0 else (max outer 0).toNat + increment
  let (widest, breaks, ahead) ← blockBreaks? given cur.position 0 [] cur.rest
  let indent := if given = 0 then max (max widest (outer + 1).toNat) 1 else given
  blockLines? literal chomping indent ahead [] [] breaks false

end LivingGuide.Yaml
