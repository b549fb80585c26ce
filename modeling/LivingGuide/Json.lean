/-!
# JSON

The values that are exported, and two ways of writing them: on one line without spaces, and spread
over lines with two spaces of indentation to a level.

In a string the quote, the backslash and the control characters below the space are escaped; every
other character stands for itself.

* `Json`: null, truth values, strings, arrays and objects with their fields in order
* `Json.compact`: a value on one line
* `Json.pretty`: a value over lines
-/

namespace LivingGuide

/-- A JSON value. The fields of an object keep their order. -/
inductive Json where
  | null
  | bool (value : Bool)
  | string (value : String)
  | array (items : List Json)
  | object (fields : List (String × Json))

namespace Json

/-! ### Strings -/

/-- A hexadecimal digit, in lower case. -/
def hexDigit (n : Nat) : Char :=
  if n < 10 then Char.ofNat (0x30 + n) else Char.ofNat (0x61 + (n - 10))

/-- A character inside a string. -/
def escapeChar (c : Char) : List Char :=
  if c == '"' then ['\\', '"']
  else if c == '\\' then ['\\', '\\']
  else if c == '\x08' then ['\\', 'b']
  else if c == '\x0c' then ['\\', 'f']
  else if c == '\n' then ['\\', 'n']
  else if c == '\r' then ['\\', 'r']
  else if c == '\t' then ['\\', 't']
  else if c.toNat < 0x20 then
    ['\\', 'u', '0', '0', hexDigit (c.toNat / 16), hexDigit (c.toNat % 16)]
  else [c]

/-- A string between its quotes. -/
def quoted (s : String) : List Char :=
  '"' :: s.toList.flatMap escapeChar ++ ['"']

/-- The word for a truth value. -/
def boolWord (value : Bool) : List Char :=
  if value then "true".toList else "false".toList

/-! ### On one line -/

mutual

/-- A value on one line. -/
def compactChars : Json → List Char
  | .null => "null".toList
  | .bool value => boolWord value
  | .string value => quoted value
  | .array items => '[' :: compactItems items ++ [']']
  | .object fields => '\x7b' :: compactFields fields ++ ['\x7d']

/-- Items with commas between them. -/
def compactItems : List Json → List Char
  | [] => []
  | [item] => item.compactChars
  | item :: items => item.compactChars ++ ',' :: compactItems items

/-- Fields with commas between them. -/
def compactFields : List (String × Json) → List Char
  | [] => []
  | [(key, value)] => quoted key ++ ':' :: value.compactChars
  | (key, value) :: fields =>
    quoted key ++ ':' :: value.compactChars ++ ',' :: compactFields fields

end

/-- **A value on one line.** -/
def compact (value : Json) : String :=
  String.ofList value.compactChars

/-! ### Over lines -/

/-- A new line at the given level of indentation. -/
def newLine (level : Nat) : List Char :=
  '\n' :: List.replicate (2 * level) ' '

mutual

/-- A value over lines, its first line where the text stands and the others at the given level. -/
def prettyChars (level : Nat) : Json → List Char
  | .null => "null".toList
  | .bool value => boolWord value
  | .string value => quoted value
  | .array [] => ['[', ']']
  | .array items => '[' :: prettyItems (level + 1) items ++ newLine level ++ [']']
  | .object [] => ['\x7b', '\x7d']
  | .object fields => '\x7b' :: prettyFields (level + 1) fields ++ newLine level ++ ['\x7d']

/-- Items with commas between them, each on a new line. -/
def prettyItems (level : Nat) : List Json → List Char
  | [] => []
  | [item] => newLine level ++ item.prettyChars level
  | item :: items => newLine level ++ item.prettyChars level ++ ',' :: prettyItems level items

/-- Fields with commas between them, each on a new line. -/
def prettyFields (level : Nat) : List (String × Json) → List Char
  | [] => []
  | [(key, value)] => newLine level ++ quoted key ++ ':' :: ' ' :: value.prettyChars level
  | (key, value) :: fields =>
    newLine level ++ quoted key ++ ':' :: ' ' :: value.prettyChars level
      ++ ',' :: prettyFields level fields

end

/-- **A value over lines.** -/
def pretty (value : Json) : String :=
  String.ofList (value.prettyChars 0)

end Json

end LivingGuide
