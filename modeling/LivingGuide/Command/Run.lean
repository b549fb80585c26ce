import LivingGuide.Command.Document
import LivingGuide.Command.Setup
import LivingGuide.Command.Survey
import LivingGuide.CommandLine.Completion

/-!
# Running a command

* `Command.run`: the outcome of a command on a file system
* `Invocation.run`: what is seen of it
-/

namespace LivingGuide

/-- **The outcome of a command.** It holds the messages themselves and not how they are shown, so it is
one and the same on every terminal, quiet or not. -/
def Command.run (fs : FileSystem) : Command → Outcome
  | .build request => request.run fs
  | .list paths => Survey.list fs paths
  | .validate paths => Survey.validate fs paths
  | .init path force => Setup.run fs path force
  | .completions shell => { result := .ok (), output := shell.completions, files := fs }

/-- What is seen of running a command. -/
structure Transcript where
  result : Except Error Unit
  /-- What was printed. -/
  output : String
  /-- The messages as they were shown. -/
  said : String
  /-- The file system that was left behind. -/
  files : FileSystem

/-- **What is seen of an invocation**, with its messages shown on a terminal or not. All of them are
shown in their order once the command is done, also when it failed, as if each were shown at once:
what a command does next never depends on what was shown. -/
def Invocation.run (fs : FileSystem) (onTerminal : Bool) (invocation : Invocation) : Transcript :=
  let outcome := invocation.command.run fs
  let terminal : Terminal := ⟨onTerminal, invocation.quiet⟩
  { result := outcome.result
    output := outcome.output
    said := terminal.renderAll outcome.messages
    files := outcome.files }

end LivingGuide
