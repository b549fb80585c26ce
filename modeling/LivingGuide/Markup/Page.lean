import LivingGuide.Block.Basic
import LivingGuide.Markup.Highlight

/-!
# The page of a guide

A guide becomes one page: a table of contents, and a part for every block with its description, its
modifiers, its example as it is and once for every modifier, and the example as highlighted text.

Titles, names, sections and descriptions are values and are escaped.  Example markup is shown as
markup, which is its purpose.

* `Page.anchor`: the id of the part of a section
* `Page.render`: the page of some blocks
-/

namespace LivingGuide

/-- The settings of a page: its title, and the stylesheet it links to. -/
structure Page where
  title : String
  stylesheet : Option String

namespace Page

open Markup (escapeValue)

/-- The id of the part of a section: its numbers between hyphens, dots at the end ignored. -/
def anchor (sectionText : String) : String :=
  let kept := (sectionText.toList.reverse.dropWhile (· == '.')).reverse
  "section-" ++ String.ofList (kept.map fun c => if c == '.' then '-' else c)

/-- The level of the heading of a block, one below its depth and never beyond the sixth. -/
def headingLevel (b : Block) : Nat :=
  min (b.depth + 1) 6

/-- The section and the name of a block, as a value. -/
def caption (b : Block) : String :=
  escapeValue b.sectionText ++ " " ++ escapeValue b.name

/-- The entry of a block in the table of contents. -/
def contentsEntry (b : Block) : String :=
  "\n        <li class=\"" ++ (if b.isModule then "toc-module" else "toc-block")
    ++ "\"><a href=\"#" ++ escapeValue (anchor b.sectionText) ++ "\">" ++ caption b
    ++ "</a></li>"

/-- The heading of a block, in the given class. -/
def heading (b : Block) (className : String) : String :=
  let level := (headingLevel b).repr
  "\n      <h" ++ level ++ " class=\"" ++ className ++ "\">" ++ caption b ++ "</h" ++ level ++ ">"

/-- The description of a block, if it has one. -/
def descriptionPart (b : Block) : String :=
  if b.description.isEmpty then ""
  else "\n        <p class=\"block-description\">" ++ escapeValue b.description ++ "</p>"

/-- The row of a modifier. -/
def modifierRow (m : Modifier) : String :=
  "\n          <tr>\n            <td>" ++ escapeValue m.selector ++ "</td><td>"
    ++ escapeValue m.description ++ "</td>\n          </tr>"

/-- The table of the modifiers of a block, if it has any. -/
def modifiersPart (b : Block) : String :=
  if b.modifiers.isEmpty then ""
  else "\n        <table class=\"block-modifiers\">" ++ String.join (b.modifiers.map modifierRow)
    ++ "\n        </table>"

/-- The example of a block for one modifier. -/
def variantPart (b : Block) (m : Modifier) : String :=
  "\n        <div class=\"block-example\">\n          <em class=\"block-example-modifier\">"
    ++ escapeValue m.selector ++ "</em>\n          " ++ b.markupWith m.markupClass
    ++ "\n        </div>"

/-- The examples of a block, if it has markup: without a modifier, with each of them, and as
highlighted text. -/
def examplePart (b : Block) : String :=
  if b.markup.isEmpty then ""
  else "\n        <div class=\"block-example\">\n          " ++ b.markupWith ""
    ++ "\n        </div>" ++ String.join (b.modifiers.map (variantPart b))
    ++ "\n        <code>" ++ Markup.highlight b.markup ++ "</code>"

/-- The part of the page for a block. -/
def blockPart (b : Block) : String :=
  "<section id=\"" ++ escapeValue (anchor b.sectionText) ++ "\" class=\"level-" ++ b.depth.repr
    ++ "\">"
    ++ (if b.isModule then heading b "module-title"
      else heading b "block-title" ++ "\n      <div class=\"block\">" ++ descriptionPart b
        ++ modifiersPart b ++ examplePart b ++ "\n      </div>")
    ++ "\n    </section>\n    "

/-- The link to the stylesheet, if one with a name is given. -/
def stylesheetLink (page : Page) : String :=
  match page.stylesheet with
  | none => ""
  | some href =>
    if href.isEmpty then ""
    else "\n    <link rel=\"stylesheet\" href=\"" ++ escapeValue href ++ "\">"

/-- **The page of some blocks.** -/
def render (page : Page) (blocks : List Block) : String :=
  "<!DOCTYPE html>\n<html>\n  <head>\n    <meta charset=\"utf-8\">\n    <title>"
    ++ escapeValue page.title ++ "</title>" ++ page.stylesheetLink
    ++ "\n    <style>\n" ++ Markup.layoutText
    ++ "\n    </style>\n    <style>\n" ++ Markup.highlightRules ".highlight"
    ++ "\n    </style>\n  </head>\n  <body>\n    <h1>" ++ escapeValue page.title
    ++ "</h1>\n\n    <nav class=\"toc\">\n      <ol>"
    ++ String.join (blocks.map contentsEntry)
    ++ "\n      </ol>\n    </nav>\n\n    " ++ String.join (blocks.map blockPart)
    ++ "\n  </body>\n</html>\n"

end Page

end LivingGuide
