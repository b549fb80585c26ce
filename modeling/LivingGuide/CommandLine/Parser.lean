import LivingGuide.CommandLine.Given

/-!
# Reading a command line

The first word of a command line names the command.  Before it there may be flags, after it stand the
arguments of the command.

* `CommandName.command`: the command with what is given to it
* `Invocation.parse`: the invocation that a command line describes
-/

namespace LivingGuide

/-- The paths that are given. -/
def Given.paths (given : Given) : List Path :=
  (given.values .paths).map Path.mk

/-- The build that is asked for. A document is not both printed and written. -/
def Given.buildRequest (given : Given) : Except Usage BuildRequest :=
  if given.has .stdout && given.has .output then .error .conflict
  else
    .ok {
      paths := given.paths
      stylesheet := given.value? .stylesheet
      output := (given.value? .output).map Path.mk
      title := given.value? .title
      format := ((given.value? .format).bind Format.ofName?).getD .html
      printed := given.has .stdout }

/-- **The command with what is given to it.** -/
def CommandName.command (name : CommandName) (given : Given) : Except Usage Command :=
  match name with
  | .build => given.buildRequest.map .build
  | .list => .ok (.list given.paths)
  | .validate => .ok (.validate given.paths)
  | .init => .ok (.init ⟨(given.value? .directory).getD "."⟩ (given.has .force))
  | .completions =>
    match (given.value? .shell).bind Shell.ofName? with
    | some shell => .ok (.completions shell)
    | none => .error .missingArgument

namespace Invocation

/-- A command with its arguments, after the flags before it. Quiet may be asked for in either
place. -/
def ofCommand (outer : Given) (name : CommandName) (arguments : List String) :
    Except Usage Invocation := do
  let given ← Given.read name.grammar {} arguments
  let command ← name.command given
  return { quiet := outer.has .quiet || given.has .quiet, command }

/-- What a command line without a command is refused for. -/
def withoutCommand (outer : Given) : Usage :=
  if outer.settled.isEmpty then .nothing else .noCommand

/-- What a call for help is answered with: help on everything or on one command. -/
def helpOn : List String → Usage
  | [] => .help
  | [word] => if CommandName.isCommandWord word then .help else .unknownCommand
  | _ => .unknownCommand

/-- What a command line is refused for that has a divider where a command should be. -/
def afterDivider (outer : Given) : List String → Usage
  | [] => withoutCommand outer
  | word :: _ => if CommandName.isCommandWord word then .unknownArgument else .unknownCommand

/-- The invocation that arguments describe after the given flags. -/
def parseFrom (outer : Given) : List String → Except Usage Invocation
  | [] => .error (withoutCommand outer)
  | text :: rest =>
    if text = CommandName.helpWord then .error (helpOn rest)
    else
      match CommandName.ofWord? text, Form.ofText text with
      | some name, _ => ofCommand outer name rest
      | none, .divider => .error (afterDivider outer rest)
      | none, .long name value => do
        let outer ← outer.long Grammar.outer name value
        parseFrom outer rest
      | none, .letters cluster => do
        let outer ← outer.letters Grammar.outer cluster
        parseFrom outer rest
      | none, .word _ => .error .unknownCommand

/-- **The invocation that a command line describes.** -/
def parse (arguments : List String) : Except Usage Invocation :=
  parseFrom {} arguments

end Invocation

end LivingGuide
