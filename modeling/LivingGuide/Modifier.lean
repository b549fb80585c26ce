import LivingGuide.Error

/-!
# Modifiers

A modifier names a class such as `.primary` or a pseudo-class such as `:hover` that changes the look
of a component, and says what it does.  It is written on one line, the selector and the description
separated by a hyphen with blanks on both sides.

* `Modifier.parse`: the modifier that a line declares
* `Modifier.text`: the line that declares a modifier
-/

namespace LivingGuide

/-- A selector with a description. -/
structure Modifier where
  selector : String
  description : String
deriving DecidableEq, Repr

namespace Modifier

/-- Selector and description of a trimmed line. **The selector is the first word, so only the first
separator cuts**; the description starts at the first character after the blanks behind the hyphen
and runs to the end, with no line feed inside. -/
def cut? (cs : List Char) : Option (List Char × List Char) :=
  let selector := cs.takeWhile (!Text.isBlank ·)
  let rest := cs.dropWhile (!Text.isBlank ·)
  match rest.takeWhile Text.isBlank, rest.dropWhile Text.isBlank with
  | _ :: _, '-' :: rest =>
    match rest.takeWhile Text.isBlank, rest.dropWhile Text.isBlank with
    | _ :: _, c :: description =>
      if selector.isEmpty || (c :: description).contains '\n' then none
      else some (selector, c :: description)
    | _, _ => none
  | _, _ => none

/-- **The modifier that a line declares**, blanks around it ignored. -/
def parse (line : String) : Except Error Modifier :=
  match cut? (Text.trim line.toList) with
  | some (selector, description) => .ok ⟨String.ofList selector, String.ofList description⟩
  | none => .error (.modifier line)

/-- Whether the selector is a pseudo-class. -/
def isPseudoClass (m : Modifier) : Bool :=
  m.selector.toList.head? == some ':'

/-- The class that stands for the modifier in markup: the selector without its leading dot, and a
pseudo-class as it is. -/
def markupClass (m : Modifier) : String :=
  match m.selector.toList with
  | '.' :: cs => String.ofList cs
  | _ => m.selector

/-- The line that declares a modifier. -/
def text (m : Modifier) : String :=
  m.selector ++ " - " ++ m.description

end Modifier

end LivingGuide
