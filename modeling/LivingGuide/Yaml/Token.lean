import LivingGuide.Yaml.Scalar

/-!
# Tokens

YAML text becomes a list of tokens.  Blocks nest by their columns, and the tokens make that visible: a
block collection opens where its first entry lies further right than the block around it, and closes
where a line lies further left.

That a scalar is a key shows only at the colon after it.  So wherever a key may start its place is
kept, and when the colon comes, in time, the token for the key is put back there.  In time means: on
the same line, and within 1024 octets.  At the column of the enclosing block a key is required.

* `Token`: the tokens
* `Reader`: what has been read, with the open blocks and the places where keys may start
* `Token.ofText?`: the tokens of a text
-/

namespace LivingGuide.Yaml

/-- What a tag is made of. Tags are compared octet by octet, and may hold octets that are no text. -/
abbrev Octets := List UInt8

/-- The octets of a text. -/
def Octets.ofString (s : String) : Octets :=
  s.toUTF8.toList

/-- The octets before the first zero, where a tag ends. -/
def Octets.beforeZero (octets : Octets) : Octets :=
  octets.takeWhile (· != 0)

/-- The tokens. Collections inside brackets are flow collections, the others are blocks. -/
inductive Token where
  | version (major minor : Nat)
  | tagHandle (handle : String) (uri : Octets)
  | documentStart
  | documentEnd
  | streamEnd
  | sequenceOpen
  | mappingOpen
  | blockClose
  | flowSequenceOpen
  | flowSequenceClose
  | flowMappingOpen
  | flowMappingClose
  | entry
  | flowEntry
  | key
  | value
  | alias (name : String)
  | anchor (name : String)
  | tag (handle : String) (suffix : Octets)
  | scalar (plain : Bool) (text : String)
deriving DecidableEq, Repr

/-! ### Tags and directives -/

/-- The characters of a tag, as written. Inside angle brackets and in directives the flow signs
belong to them. -/
def isTagChar (verbatim : Bool) (c : Char) : Bool :=
  isNameChar c || ";/?:@&=+$.%!~*'()".toList.contains c
    || (verbatim && ",[]".toList.contains c)

/-- The octet that a percent escape writes. -/
def octet? : List Char → Option UInt8
  | '%' :: a :: b :: _ => (hexValue? [a, b]).map Nat.toUInt8
  | _ => none

/-- How many octets follow the given one in the sequence that it starts. -/
def followers? (octet : UInt8) : Option Nat :=
  if octet < 0x80 then some 0
  else if 0xc0 ≤ octet && octet < 0xe0 then some 1
  else if 0xe0 ≤ octet && octet < 0xf0 then some 2
  else if 0xf0 ≤ octet && octet < 0xf8 then some 3
  else none

/-- The given number of octets that may follow in a sequence. -/
def continuation? : Nat → List Char → Option Octets
  | 0, _ => some []
  | n + 1, cs => do
    let octet ← octet? cs
    if 0x80 ≤ octet && octet < 0xc0 then (continuation? n (cs.drop 3)).map (octet :: ·) else none

/-- The sequence of octets that percent escapes write. -/
def percentEscape? (cs : List Char) : Option Octets := do
  let first ← octet? cs
  let count ← followers? first
  (continuation? count (cs.drop 3)).map (first :: ·)

/-- The run of tag characters at the start of a text, escapes decoded, and what follows it. -/
def tagRun? (verbatim : Bool) : List Char → Option (Octets × List Char)
  | [] => some ([], [])
  | c :: cs =>
    if c == '%' then
      match percentEscape? (c :: cs) with
      | some found =>
        (tagRun? verbatim (cs.drop (3 * found.length - 1))).map fun run => (found ++ run.1, run.2)
      | none => none
    else if isTagChar verbatim c then
      (tagRun? verbatim cs).map fun run => (c.toNat.toUInt8 :: run.1, run.2)
    else some ([], c :: cs)
termination_by cs => cs.length
decreasing_by
  all_goals simp only [List.length_cons, List.length_drop]
  all_goals omega

/-- The text from an exclamation mark over name characters to a second exclamation mark, if there is
one, and what follows it. -/
def handleRun (cs : List Char) : List Char × List Char :=
  let name := (cs.drop 1).takeWhile isNameChar
  match (cs.drop 1).dropWhile isNameChar with
  | '!' :: rest => ('!' :: name ++ ['!'], rest)
  | rest => ('!' :: name, rest)

/-- A tag at the cursor: a verbatim one in angle brackets, one with a handle, or a local one. The tag
that is only an exclamation mark has no handle. -/
def tagToken? (flow : Bool) (cur : Cursor) : Option (Token × Cursor) := do
  let (token, rest) ← match cur.rest with
    | '!' :: '<' :: cs => do
      let (uri, rest) ← tagRun? true cs
      match uri, rest with
      | _ :: _, '>' :: rest => some (Token.tag "" uri, rest)
      | _, _ => none
    | cs => do
      let (handle, rest) := handleRun cs
      let (suffix, rest) ← tagRun? false rest
      if 1 < handle.length && handle.getLast? == some '!' then
        if suffix.isEmpty then none
        else some (Token.tag (String.ofList handle) suffix, rest)
      else
        let whole := Octets.ofString (String.ofList (handle.drop 1)) ++ suffix
        if whole.beforeZero.isEmpty then some (Token.tag "" (Octets.ofString "!"), rest)
        else some (Token.tag "!" whole, rest)
  if atGap rest || (flow && rest.head? == some ',') then some (token, cur.moveTo rest) else none

/-- The number at the start of a text, of at most nine digits, and what follows it. -/
def versionNumber? (cs : List Char) : Option (Nat × List Char) :=
  let digits := cs.takeWhile Char.isDigit
  if digits.isEmpty || 9 < digits.length then none
  else some (digits.foldl (fun n c => 10 * n + (c.toNat - '0'.toNat)) 0, cs.dropWhile Char.isDigit)

/-- The value of a version directive, and what follows it. -/
def versionToken? (cs : List Char) : Option (Token × List Char) := do
  let (major, rest) ← versionNumber? (cs.dropWhile isSpace)
  match rest with
  | '.' :: rest =>
    let (minor, rest) ← versionNumber? rest
    return (.version major minor, rest)
  | _ => none

/-- The value of a tag directive, and what follows it. -/
def tagHandleToken? (cs : List Char) : Option (Token × List Char) := do
  let cs := cs.dropWhile isSpace
  let (handle, rest) := handleRun cs
  if cs.head? != some '!' then none
  else if !(handle == ['!'] || (handle.drop 1).getLast? == some '!') then none
  else if !(rest.head?.any isSpace) then none
  else
    let (uri, rest) ← tagRun? true (rest.dropWhile isSpace)
    if uri.isEmpty || !atGap rest then none
    else some (.tagHandle (String.ofList handle) uri, rest)

/-- A directive at the cursor, up to the end of its line. -/
def directiveToken? (cur : Cursor) : Option (Token × Cursor) := do
  let name := (cur.rest.drop 1).takeWhile isNameChar
  let rest := (cur.rest.drop 1).dropWhile isNameChar
  if !atGap rest then none
  else
    let (token, rest) ←
      if name == "YAML".toList then versionToken? rest
      else if name == "TAG".toList then tagHandleToken? rest
      else none
    let cur ← (cur.moveTo rest).endLine?
    return (token, cur)

/-- The name of an anchor or an alias at the cursor, after its sign. -/
def anchorName? (cur : Cursor) : Option (String × Cursor) :=
  let name := (cur.rest.drop 1).takeWhile isNameChar
  let rest := (cur.rest.drop 1).dropWhile isNameChar
  if name.isEmpty then none
  else if atGap rest || rest.head?.any ("?:,]\x7d%@`".toList.contains ·) then
    some (String.ofList name, cur.moveTo rest)
  else none

/-! ### The state of reading -/

/-- A place where a key may start: how many tokens stand before it, its position, and whether there
has to be a key. -/
structure KeyPlace where
  tokens : Nat
  position : Position
  required : Bool

/-- What has been read so far. -/
structure Reader where
  cursor : Cursor
  /-- The tokens, the last one first. -/
  tokens : List Token := []
  /-- The number of tokens. -/
  count : Nat := 0
  /-- The column of the innermost open block, -1 outside of all. -/
  indent : Int := -1
  /-- The columns of the blocks around it. -/
  outer : List Int := []
  /-- The place where a key may start, inside the innermost brackets. -/
  place : Option KeyPlace := none
  /-- Those places inside the brackets around them, and outside of all. -/
  places : List (Option KeyPlace) := []
  /-- Whether a key may start at the next token. -/
  keyAllowed : Bool := true
  /-- Whether the end of the text was reached. -/
  ended : Bool := false

namespace Reader

/-- Whether reading is inside brackets. -/
def inFlow (r : Reader) : Bool :=
  !r.places.isEmpty

/-- The column of the next character. -/
def column (r : Reader) : Nat :=
  r.cursor.position.column

/-- The reader with one more token, which ends at the given cursor. -/
def emit (r : Reader) (token : Token) (cursor : Cursor) : Reader :=
  { r with tokens := token :: r.tokens, count := r.count + 1, cursor }

/-- The reader with one more token, which goes before those after the given number. -/
def insert (r : Reader) (place : Nat) (token : Token) : Reader :=
  { r with tokens := r.tokens.insertIdx (r.count - place) token, count := r.count + 1 }

/-! ### Blocks -/

/-- The columns of open blocks after those right of the given column are closed, and their number. -/
def closeRight (column : Int) (indent : Int) : List Int → Int × List Int × Nat
  | [] => (indent, [], 0)
  | around :: outer =>
    if column < indent then
      let (indent, outer, n) := closeRight column around outer
      (indent, outer, n + 1)
    else (indent, around :: outer, 0)

/-- The reader with the blocks right of the given column closed. -/
def closeBlocks (r : Reader) (column : Int) : Reader :=
  if r.inFlow then r
  else
    let (indent, outer, n) := closeRight column r.indent r.outer
    { r with
      indent, outer, tokens := List.replicate n .blockClose ++ r.tokens, count := r.count + n }

/-- The reader with a block opened at the given column, if it lies right of the innermost one. The
token goes before those after the given number. -/
def openBlock (r : Reader) (column place : Nat) (token : Token) : Reader :=
  if r.inFlow || (column : Int) ≤ r.indent then r
  else
    { r.insert place token with indent := column, outer := r.indent :: r.outer }

/-! ### Keys -/

/-- Whether a key that starts at a place can no longer end in time. -/
def KeyPlace.isStale (place : KeyPlace) (position : Position) : Bool :=
  place.position.line < position.line || place.position.octets + 1024 < position.octets

/-- A place, dropped when no key can start there any more; a required one must not be dropped. -/
def keepPlace? (position : Position) (place : Option KeyPlace) : Option (Option KeyPlace) :=
  match place with
  | none => some none
  | some p => if KeyPlace.isStale p position then if p.required then none else some none
      else some (some p)

/-- The reader without the places where no key can start any more. -/
def dropStale? (r : Reader) : Option Reader := do
  let place ← keepPlace? r.cursor.position r.place
  let places ← r.places.mapM (keepPlace? r.cursor.position)
  return { r with place, places }

/-- The reader with no place for a key inside the innermost brackets. -/
def dropPlace? (r : Reader) : Option Reader :=
  if r.place.any (·.required) then none else some { r with place := none }

/-- The reader with the next token as a place for a key, if one may start there. -/
def savePlace? (r : Reader) : Option Reader :=
  if r.keyAllowed then do
    let required := !r.inFlow && r.indent == (r.column : Int)
    let r ← r.dropPlace?
    return { r with place := some ⟨r.count, r.cursor.position, required⟩ }
  else some r

/-! ### Tokens -/

/-- The cursor before the next token, and whether a line break was skipped. Tabs are skipped inside
brackets and where no key may start. -/
def skipToToken (flow : Bool) (keyAllowed : Bool) (position : Position) :
    List Char → Cursor × Bool
  | [] => (⟨position, []⟩, keyAllowed)
  | '\r' :: '\n' :: cs => skipToToken flow (keyAllowed || !flow) position.newLine cs
  | c :: cs =>
    if position.column == 0 && c.toNat == 0xfeff then
      skipToToken flow keyAllowed (position.after c) cs
    else if c == ' ' || (c == '\t' && (flow || !keyAllowed)) then
      skipToToken flow keyAllowed (position.after c) cs
    else if isBreak c then skipToToken flow (keyAllowed || !flow) position.newLine cs
    else if c == '#' then
      let cur := (Cursor.mk (position.after c) cs).dropWhile (!isBreak ·)
      skipToToken flow keyAllowed cur.position cur.rest
    else (⟨position, c :: cs⟩, keyAllowed)
termination_by cs => cs.length
decreasing_by
  · simp only [List.length_cons]
    omega
  · simp
  · simp
  · simp
  · exact Nat.lt_succ_of_le (Cursor.length_rest_dropWhile_le ⟨_, cs⟩ _)

/-- The end of the text. -/
def readEnd? (r : Reader) : Option Reader := do
  let r ← (r.closeBlocks (-1)).dropPlace?
  return { r.emit .streamEnd r.cursor with ended := true }

/-- A directive or the mark of a document, after which no key may start on its line. -/
def readApart? (r : Reader) (found : Option (Token × Cursor)) : Option Reader := do
  let r ← (r.closeBlocks (-1)).dropPlace?
  let (token, cursor) ← found
  return { r.emit token cursor with keyAllowed := false }

/-- An opening bracket. -/
def readOpen? (r : Reader) (token : Token) : Option Reader := do
  let r ← r.savePlace?
  return { r.emit token (r.cursor.advance 1) with
    place := none, places := r.place :: r.places, keyAllowed := true }

/-- A closing bracket. -/
def readClose? (r : Reader) (token : Token) : Option Reader := do
  let r ← r.dropPlace?
  let r := { r.emit token (r.cursor.advance 1) with keyAllowed := false }
  match r.places with
  | place :: places => some { r with place, places }
  | [] => some r

/-- A comma between brackets. -/
def readComma? (r : Reader) : Option Reader := do
  let r ← r.dropPlace?
  return { r.emit .flowEntry (r.cursor.advance 1) with keyAllowed := true }

/-- The sign of a block entry. -/
def readEntry? (r : Reader) : Option Reader := do
  if !r.inFlow && !r.keyAllowed then none
  else
    let r ← (r.openBlock r.column r.count .sequenceOpen).dropPlace?
    return { r.emit .entry (r.cursor.advance 1) with keyAllowed := true }

/-- The sign of a key. -/
def readKey? (r : Reader) : Option Reader := do
  if !r.inFlow && !r.keyAllowed then none
  else
    let r ← (r.openBlock r.column r.count .mappingOpen).dropPlace?
    return { r.emit .key (r.cursor.advance 1) with keyAllowed := !r.inFlow }

/-- The sign of a value. It makes a key of what stands at the place that was kept. -/
def readValue? (r : Reader) : Option Reader :=
  match r.place with
  | some place =>
    let r := { r.insert place.tokens .key with place := none }
    let r := r.openBlock place.position.column place.tokens .mappingOpen
    some { r.emit .value (r.cursor.advance 1) with keyAllowed := false }
  | none =>
    if !r.inFlow && !r.keyAllowed then none
    else
      let r := r.openBlock r.column r.count .mappingOpen
      some { r.emit .value (r.cursor.advance 1) with keyAllowed := !r.inFlow }

/-- A token that may start a key. -/
def readAtom? (r : Reader) (read : Cursor → Option (Token × Cursor)) : Option Reader := do
  let r ← r.savePlace?
  let (token, cursor) ← read r.cursor
  return { r.emit token cursor with keyAllowed := false }

/-- A scalar, plain or in quotes. After a plain one that runs to the end of a line a key may start. -/
def readScalar? (r : Reader) (plain : Bool) (read : Cursor → Option Scanned) : Option Reader := do
  let r ← r.savePlace?
  let found ← read r.cursor
  return { r.emit (.scalar plain (String.ofList found.text)) found.cursor with
    keyAllowed := found.brokeLine }

/-- A block scalar. -/
def readBlockScalar? (r : Reader) (literal : Bool) : Option Reader := do
  let r ← r.dropPlace?
  let found ← block literal r.indent r.cursor
  return { r.emit (.scalar false (String.ofList found.text)) found.cursor with keyAllowed := true }

/-- The signs that cannot start a plain scalar. -/
def isIndicator (c : Char) : Bool :=
  "-?:,[]\x7b\x7d#&*!|>'\"%@`".toList.contains c

/-- Whether a plain scalar starts with the given character before the given text. -/
def startsPlain (flow : Bool) (c : Char) (cs : List Char) : Bool :=
  !(isSpace c || isBreak c || isIndicator c)
    || (c == '-' && !(cs.head?.any isSpace))
    || (!flow && (c == '?' || c == ':') && !atGap cs)

/-- **The next token**, after the blanks and comments before it. -/
def next? (r : Reader) : Option Reader := do
  let (cursor, keyAllowed) := skipToToken r.inFlow r.keyAllowed r.cursor.position r.cursor.rest
  let r ← { r with cursor, keyAllowed }.dropStale?
  let r := r.closeBlocks r.column
  match r.cursor.rest with
  | [] => r.readEnd?
  | c :: cs =>
    if r.column == 0 && c == '%' then r.readApart? (directiveToken? r.cursor)
    else if r.column == 0 && atDocumentMark (c :: cs) then
      r.readApart? (some (if c == '-' then .documentStart else .documentEnd, r.cursor.advance 3))
    else if c == '[' then r.readOpen? .flowSequenceOpen
    else if c == '\x7b' then r.readOpen? .flowMappingOpen
    else if c == ']' then r.readClose? .flowSequenceClose
    else if c == '\x7d' then r.readClose? .flowMappingClose
    else if c == ',' then r.readComma?
    else if c == '-' && atGap cs then r.readEntry?
    else if c == '?' && (r.inFlow || atGap cs) then r.readKey?
    else if c == ':' && (r.inFlow || atGap cs) then r.readValue?
    else if c == '*' then
      r.readAtom? fun cur => (anchorName? cur).map fun found => (.alias found.1, found.2)
    else if c == '&' then
      r.readAtom? fun cur => (anchorName? cur).map fun found => (.anchor found.1, found.2)
    else if c == '!' then r.readAtom? (tagToken? r.inFlow)
    else if c == '|' && !r.inFlow then r.readBlockScalar? true
    else if c == '>' && !r.inFlow then r.readBlockScalar? false
    else if c == '\'' then r.readScalar? false (quoted false)
    else if c == '"' then r.readScalar? false (quoted true)
    else if startsPlain r.inFlow c cs then
      r.readScalar? true (plain r.inFlow (r.indent + 1).toNat)
    else none

/-- The tokens up to the end of the text, if no more than the first argument says are to be read. -/
def readAll? : Nat → Reader → Option (List Token)
  | 0, _ => none
  | fuel + 1, r =>
    match r.next? with
    | none => none
    | some r => if r.ended then some r.tokens.reverse else readAll? fuel r

end Reader

/-- **The tokens of a text**; `none` when it is malformed or holds a control character. Every token but
the end takes at least one character of the text. -/
def Token.ofText? (text : List Char) : Option (List Token) :=
  if text.all isAllowed then Reader.readAll? (text.length + 1) { cursor := ⟨{}, text⟩ } else none

end LivingGuide.Yaml
