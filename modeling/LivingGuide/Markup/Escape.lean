/-!
# Escaping

Characters that mean something in markup are written as entities.  Text between tags needs three of
them; a value that may also stand inside an attribute needs six.

* `escapeText`: for text between tags
* `escapeValue`: for text and attribute values
-/

namespace LivingGuide.Markup

/-- A character as text between tags. -/
def textEntity : Char → List Char
  | '&' => "&amp;".toList
  | '<' => "&lt;".toList
  | '>' => "&gt;".toList
  | c => [c]

/-- A character as text or part of an attribute value. -/
def valueEntity : Char → List Char
  | '&' => "&amp;".toList
  | '<' => "&lt;".toList
  | '>' => "&gt;".toList
  | '"' => "&quot;".toList
  | '\'' => "&#x27;".toList
  | '/' => "&#x2F;".toList
  | c => [c]

/-- A text to stand between tags. -/
def escapeText (cs : List Char) : List Char :=
  cs.flatMap textEntity

/-- A text to stand between tags or in an attribute value. -/
def escapeValue (s : String) : String :=
  String.ofList (s.toList.flatMap valueEntity)

end LivingGuide.Markup
