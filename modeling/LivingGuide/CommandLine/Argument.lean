import LivingGuide.Command.Basic

/-!
# Arguments of a command line

A command line names a command and gives it arguments.  A *flag* stands alone, an *option* has a value,
and a word that belongs to neither is given by its place.  Which arguments there are depends on the
command.

* `Argument`: what can be given
* `CommandName`: the commands
* `Grammar`: which arguments a command takes
* `Usage`: why a command line is no invocation
-/

namespace LivingGuide

/-- Why a command line is no invocation, or what it asks for instead of one. -/
inductive Usage where
  /-- It asks for help. -/
  | help
  /-- It asks for the version. -/
  | version
  /-- It is empty. -/
  | nothing
  /-- It names no command. -/
  | noCommand
  /-- It names a command that there is not. -/
  | unknownCommand
  /-- It gives an argument that the command does not take. -/
  | unknownArgument
  /-- It gives no value, or a wrong one, to an argument that takes one. -/
  | invalidValue
  /-- It gives a value to a flag. -/
  | surplusValue
  /-- It gives an argument twice, or two that exclude each other. -/
  | conflict
  /-- It lacks an argument that the command needs. -/
  | missingArgument
deriving DecidableEq, Repr

/-- What can be given to a command. -/
inductive Argument where
  | quiet
  | help
  | version
  | stdout
  | force
  | output
  | stylesheet
  | title
  | format
  /-- The one directory, given by its place. -/
  | directory
  /-- The files and directories, given by their places. -/
  | paths
  /-- The shell, given by its place. -/
  | shell
deriving DecidableEq, Repr

namespace Argument

/-- The long name of an argument. -/
def name : Argument → String
  | .quiet => "quiet"
  | .help => "help"
  | .version => "version"
  | .stdout => "stdout"
  | .force => "force"
  | .output => "output"
  | .stylesheet => "stylesheet"
  | .title => "title"
  | .format => "format"
  | .directory => "path"
  | .paths => "paths"
  | .shell => "shell"

/-- The letter of an argument that has one. -/
def letter? : Argument → Option Char
  | .quiet => some 'q'
  | .help => some 'h'
  | .version => some 'V'
  | .output => some 'o'
  | _ => none

/-- Whether a named argument has a value. -/
def isOption : Argument → Bool
  | .output | .stylesheet | .title | .format => true
  | _ => false

/-- Whether an argument may be given again. -/
def repeats : Argument → Bool
  | .paths => true
  | _ => false

end Argument

/-- The format with the given name. -/
def Format.ofName? (name : String) : Option Format :=
  [Format.html, Format.json].find? (·.name == name)

/-- The shell with the given name. -/
def Shell.ofName? (name : String) : Option Shell :=
  Shell.all.find? (·.name == name)

/-- Whether a value is right for an argument. Paths are not empty, and formats and shells are named
exactly. -/
def Argument.accepts (argument : Argument) (value : String) : Bool :=
  match argument with
  | .output | .directory | .paths => !value.isEmpty
  | .format => (Format.ofName? value).isSome
  | .shell => (Shell.ofName? value).isSome
  | _ => true

/-! ### Commands -/

/-- The commands. -/
inductive CommandName where
  | build
  | list
  | validate
  | init
  | completions
deriving DecidableEq, Repr

/-- The arguments of a command: the named ones, and the one for words given by their place. -/
structure Grammar where
  named : List Argument
  placed : Option Argument
deriving DecidableEq, Repr

/-- The arguments that may stand before a command. -/
def Grammar.outer : Grammar :=
  ⟨[.quiet, .help, .version], none⟩

/-- The argument with the given long name. -/
def Grammar.ofName? (grammar : Grammar) (name : String) : Option Argument :=
  grammar.named.find? (·.name == name)

/-- The argument with the given letter. -/
def Grammar.ofLetter? (grammar : Grammar) (letter : Char) : Option Argument :=
  grammar.named.find? (·.letter? == some letter)

namespace CommandName

/-- All commands. -/
def all : List CommandName :=
  [.build, .list, .validate, .init, .completions]

/-- The word for a command. -/
def word : CommandName → String
  | .build => "build"
  | .list => "list"
  | .validate => "validate"
  | .init => "init"
  | .completions => "completions"

/-- The command for a word. -/
def ofWord? (word : String) : Option CommandName :=
  all.find? (·.word == word)

/-- The word for the command that shows help. -/
def helpWord : String := "help"

/-- Whether a word names a command, that for help included. -/
def isCommandWord (word : String) : Bool :=
  word == helpWord || (ofWord? word).isSome

/-- **The arguments of a command.** -/
def grammar : CommandName → Grammar
  | .build =>
    ⟨[.quiet, .help, .stylesheet, .output, .title, .format, .stdout], some .paths⟩
  | .list => ⟨[.quiet, .help], some .paths⟩
  | .validate => ⟨[.quiet, .help], some .paths⟩
  | .init => ⟨[.quiet, .help, .force], some .directory⟩
  | .completions => ⟨[.quiet, .help], some .shell⟩

end CommandName

end LivingGuide
