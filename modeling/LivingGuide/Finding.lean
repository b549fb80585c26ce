/-!
# Findings

A finding is something that a check has to say about a guide: an error or a warning with a code, a
message, and perhaps the section it is about and an advice.  A report is a list of findings.

* `Finding.text`: the line that shows a finding
* `Report`: findings in the order they were made, with their counts
-/

namespace LivingGuide

/-- How grave a finding is. -/
inductive Severity where
  | warning
  | error
deriving DecidableEq, Repr

/-- The word for a severity. -/
def Severity.label : Severity → String
  | .warning => "warning"
  | .error => "error"

/-- Something that a check has to say. -/
structure Finding where
  severity : Severity
  code : String
  message : String
  sectionText : Option String := none
  help : Option String := none
deriving DecidableEq, Repr

/-- The line that shows a finding: code, message, and the section in parentheses. -/
def Finding.text (f : Finding) : String :=
  let line := "[" ++ f.code ++ "] " ++ f.message
  match f.sectionText with
  | some sectionText => line ++ " (" ++ sectionText ++ ")"
  | none => line

/-- Findings in the order they were made. -/
structure Report where
  findings : List Finding := []
deriving DecidableEq, Repr

namespace Report

/-- The report with one more finding. -/
def push (report : Report) (finding : Finding) : Report :=
  ⟨report.findings ++ [finding]⟩

/-- The report with the findings of another after its own. -/
def merge (report other : Report) : Report :=
  ⟨report.findings ++ other.findings⟩

/-- The number of findings of a severity. -/
def count (report : Report) (severity : Severity) : Nat :=
  report.findings.countP (·.severity == severity)

/-- The number of errors. -/
def errors (report : Report) : Nat :=
  report.count .error

/-- The number of warnings. -/
def warnings (report : Report) : Nat :=
  report.count .warning

/-- Whether nothing was found. -/
def isClean (report : Report) : Bool :=
  report.findings.isEmpty

end Report

end LivingGuide
