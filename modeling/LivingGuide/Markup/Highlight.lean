import LivingGuide.Markup.Escape
import LivingGuide.Markup.Style

/-!
# Highlighted markup

Example markup is shown as text, with every token in a `span` of the class of its role.  All
characters are escaped, so nothing of the example acts as markup here.

* `Piece.html`: a piece as escaped text
* `highlight`: markup as highlighted text
-/

namespace LivingGuide.Markup

/-- A piece as escaped text, a token inside a `span`. -/
def Piece.html : Piece → List Char
  | .text cs => escapeText cs
  | .token role cs =>
    "<span class=\"".toList ++ role.className.toList ++ "\">".toList ++ escapeText cs
      ++ "</span>".toList

/-- The pieces of markup as escaped text. -/
def highlightBody (markup : List Char) : List Char :=
  (pieces markup).flatMap Piece.html

/-- **Markup as highlighted text.** -/
def highlight (markup : String) : String :=
  "<div class=\"highlight\"><pre>" ++ String.ofList (highlightBody markup.toList)
    ++ "</pre></div>"

end LivingGuide.Markup
