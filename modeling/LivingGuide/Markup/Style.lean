import LivingGuide.Markup.Piece

/-!
# Style rules of the page

The page carries two style sheets: the layout of the guide, and the look of highlighted markup.  Both
are data here; the layout is written with one declaration to a line, the rules of highlighted markup
with one rule to a line.

* `layout`: the rules for the parts of a guide
* `highlightRules`: the rules for highlighted markup inside a scope
-/

namespace LivingGuide.Markup

/-- A selector with its declarations. -/
structure Rule where
  selector : String
  declarations : List (String × String)

/-- A rule with one declaration to a line. -/
def Rule.text (rule : Rule) : String :=
  rule.selector ++ " \x7b\n"
    ++ String.join (rule.declarations.map fun d => "  " ++ d.1 ++ ": " ++ d.2 ++ ";\n") ++ "\x7d\n"

/-- The rules for the parts of a guide. -/
def layout : List Rule :=
  [ ⟨"body", [("background", "none"), ("color", "black"), ("padding", "20px"),
      ("padding-left", "240px"), ("max-width", "720px")]⟩,
    ⟨".toc", [("position", "fixed"), ("top", "20px"), ("left", "20px"), ("width", "180px"),
      ("font-size", "13px")]⟩,
    ⟨".toc ol", [("list-style", "none"), ("padding", "0")]⟩,
    ⟨".toc .toc-module", [("font-weight", "bold"), ("margin-top", "8px")]⟩,
    ⟨".block-title", [("color", "#fff"), ("padding", "3px"),
      ("border-bottom", "5px solid #A7DBD8"), ("background", "#69D2E7")]⟩,
    ⟨".module-title", [("border-bottom", "2px solid #69D2E7")]⟩,
    ⟨".block", [("padding", "0px 10px")]⟩,
    ⟨".block-description", [("white-space", "pre-line")]⟩,
    ⟨".block-example", [("position", "relative"), ("padding", "10px"), ("padding-top", "20px"),
      ("border", "2px solid #eee"), ("margin-bottom", "5px")]⟩,
    ⟨".block-example-modifier", [("position", "absolute"), ("right", "0"), ("top", "0"),
      ("background", "#aaa"), ("color", "white"), ("padding", "2px 3px"),
      ("font-style", "normal"), ("font-size", "11px")]⟩,
    ⟨".block-modifiers", [("width", "100%"), ("margin-bottom", "10px")]⟩,
    ⟨".block-modifiers td:first-child", [("width", "30%"), ("font-family", "monospace")]⟩,
    ⟨".highlight pre", [("background", "#E0E4CC"), ("padding", "10px"),
      ("overflow-x", "auto")]⟩ ]

/-- The style sheet of the layout: its rules with an empty line between them. -/
def layoutText : String :=
  String.intercalate "\n" (layout.map Rule.text)

/-- The class that marks a token of the given role. -/
def Role.className : Role → String
  | .comment => "c"
  | .tagName => "nt"
  | .attributeName => "na"
  | .operator => "o"
  | .value => "s"
  | .punctuation => "p"

/-- The look of tokens, role by role. -/
def tokenLooks : List (Role × String) :=
  [ (.comment, "color: #3D7B7B; font-style: italic"),
    (.tagName, "color: #008000; font-weight: bold"),
    (.attributeName, "color: #687822"),
    (.operator, "color: #666666"),
    (.value, "color: #BA2121"),
    (.punctuation, "color: #555555") ]

/-- The rules for highlighted markup below the given selector. -/
def highlightRules (scope : String) : String :=
  scope ++ " pre \x7b line-height: 125%; margin: 0; \x7d\n"
    ++ String.join (tokenLooks.map fun look =>
      scope ++ " ." ++ look.1.className ++ " \x7b " ++ look.2 ++ " \x7d\n")

end LivingGuide.Markup
