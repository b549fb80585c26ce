import LivingGuide.Text.Basic

/-!
# Exclude patterns

A pattern says which paths are left out.  It has one of five shapes:

* `**/dir/*` and `dir/*`: what lies inside `dir`, at the start of the path or after a slash;
* `**/part`: paths that contain `part`;
* `*end`, without a slash: paths that end so;
* anything else: paths that contain the pattern.

Paths and patterns are compared as text.

* `Pattern.parse`: the shape of a pattern
* `Pattern.excludes`: whether a pattern leaves out a path
-/

namespace LivingGuide

/-- The shape of a pattern. -/
inductive Pattern where
  /-- What lies inside a directory. -/
  | inside (directory : List Char)
  /-- What contains a text. -/
  | containing (part : List Char)
  /-- What ends in a text. -/
  | ending (tail : List Char)
deriving DecidableEq, Repr

namespace Pattern

/-- A text without the given end, if it has it. -/
def dropSuffix? (tail cs : List Char) : Option (List Char) :=
  if tail.isSuffixOf cs then some (cs.take (cs.length - tail.length)) else none

/-- The shape of a pattern that does not start with `**/`. -/
def parseLocal (cs : List Char) : Pattern :=
  match cs with
  | '*' :: tail =>
    if cs.contains '/' then
      match dropSuffix? ['/', '*'] cs with
      | some directory => .inside directory
      | none => .containing cs
    else .ending tail
  | _ =>
    match dropSuffix? ['/', '*'] cs with
    | some directory => .inside directory
    | none => .containing cs

/-- **The shape of a pattern.** -/
def parse (pattern : String) : Pattern :=
  match pattern.toList with
  | '*' :: '*' :: '/' :: rest =>
    match dropSuffix? ['/', '*'] rest with
    | some directory => .inside directory
    | none => .containing rest
  | cs => parseLocal cs

/-- **Whether a pattern leaves out a path.** -/
def excludes : Pattern → List Char → Bool
  | .inside directory, path =>
    Text.occursIn ('/' :: directory ++ ['/']) path || (directory ++ ['/']).isPrefixOf path
  | .containing part, path => Text.occursIn part path
  | .ending tail, path => tail.isSuffixOf path

end Pattern

end LivingGuide
