import LivingGuide.Finding
import LivingGuide.Text.Basic

/-!
# Terminal output

Commands say what they do in *messages*: lines with a verb, and findings.  A message does not know
whether it is shown in colour or not at all.  A terminal decides that: a quiet one drops status and
information, and one with colours paints the verb, the labels and parts of the text.

* `Message`: what a command says
* `Terminal.render`: the lines that show a message
-/

namespace LivingGuide

/-- Text with the tone it is shown in. -/
inductive Span where
  | plain (text : String)
  | dim (text : String)
  | cyan (text : String)
deriving DecidableEq, Repr

/-- What a command says. -/
inductive Message where
  /-- A step of the work. -/
  | status (verb : String) (text : List Span)
  /-- A result worth knowing. -/
  | info (verb : String) (text : List Span)
  /-- A warning that is no finding. -/
  | warning (verb : String) (text : List Span)
  /-- Something a check has to say. -/
  | finding (found : Finding)
deriving DecidableEq, Repr

/-- How messages are shown. -/
structure Terminal where
  colours : Bool
  quiet : Bool
deriving DecidableEq, Repr

namespace Terminal

/-! ### Paint -/

/-- The control sequence with the given number. -/
def sequence (number : Nat) : String :=
  "\x1b[" ++ number.repr ++ "m"

/-- The sequence that ends all paint. -/
def reset : String := sequence 0

/-- The sequence for bold. -/
def bold : String := sequence 1

/-- The sequence for dim. -/
def faint : String := sequence 2

/-- The sequence for red. -/
def red : String := sequence 31

/-- The sequence for green. -/
def green : String := sequence 32

/-- The sequence for yellow. -/
def yellow : String := sequence 33

/-- The sequence for cyan. -/
def cyan : String := sequence 36

/-- A text between the paint and its end, on a terminal with colours. -/
def paint (terminal : Terminal) (colour text : String) : String :=
  if terminal.colours then colour ++ text ++ reset else text

/-- A text in its tone. -/
def showSpan (terminal : Terminal) : Span → String
  | .plain text => text
  | .dim text => terminal.paint faint text
  | .cyan text => terminal.paint cyan text

/-- The label of an error or a warning. -/
def showLabel (terminal : Terminal) (isError : Bool) (label : String) : String :=
  terminal.paint (bold ++ if isError then red else yellow) label

/-! ### Lines -/

/-- The width of the column of verbs. -/
def verbWidth : Nat := 12

/-- A line with a verb in the given colour. -/
def showLine (terminal : Terminal) (colour verb : String) (text : List Span) : String :=
  terminal.paint (bold ++ colour) (Text.alignRight verbWidth verb) ++ " "
    ++ String.join (text.map terminal.showSpan) ++ "\n"

/-- The lines of a finding, the advice on a line of its own. -/
def showFinding (terminal : Terminal) (f : Finding) : String :=
  terminal.showLabel (f.severity == .error) f.severity.label
    ++ terminal.paint faint (" " ++ f.text) ++ "\n"
    ++ match f.help with
      | some help => "  " ++ terminal.paint cyan "help:" ++ " " ++ help ++ "\n"
      | none => ""

/-- **The lines that show a message.** -/
def render (terminal : Terminal) : Message → String
  | .status verb text => if terminal.quiet then "" else terminal.showLine green verb text
  | .info verb text => if terminal.quiet then "" else terminal.showLine cyan verb text
  | .warning verb text => terminal.showLine yellow verb text
  | .finding found => terminal.showFinding found

/-- The lines that show messages in turn. -/
def renderAll (terminal : Terminal) (messages : List Message) : String :=
  String.join (messages.map terminal.render)

end Terminal

/-- The messages of a report. -/
def Report.messages (report : Report) : List Message :=
  report.findings.map .finding

end LivingGuide
