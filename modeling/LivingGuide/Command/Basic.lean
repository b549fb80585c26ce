import LivingGuide.Error
import LivingGuide.FileSystem.Lookup
import LivingGuide.Terminal

/-!
# Commands

A command is what a user asks for.  Running one on a file system has an *outcome*: whether it
succeeded, what it prints, what it says on the way, and the files it leaves behind.

What it says are *messages*, and messages are data: a verb, texts with a tone, a finding.  Showing one
gives nothing back to the command, neither whether there are colours nor whether it was shown at all,
and a text that was painted goes into other messages only.  So a command needs neither the terminal nor
the wish to be quiet, and takes neither: its outcome is the same for all of them, and the terminal comes
in when the messages are shown (`Invocation.run`).

* `Command`, `Invocation`: what a user asks for
* `Outcome`: what comes of it
-/

namespace LivingGuide

/-- The formats of a document. -/
inductive Format where
  /-- A page. -/
  | html
  /-- An export. -/
  | json
deriving DecidableEq, Repr

/-- The name of a format. -/
def Format.name : Format → String
  | .html => "html"
  | .json => "json"

/-- The shells that have completions. -/
inductive Shell where
  | bash
  | elvish
  | fish
  | powershell
  | zsh
deriving DecidableEq, Repr

/-- All shells. -/
def Shell.all : List Shell :=
  [.bash, .elvish, .fish, .powershell, .zsh]

/-- The name of a shell. -/
def Shell.name : Shell → String
  | .bash => "bash"
  | .elvish => "elvish"
  | .fish => "fish"
  | .powershell => "powershell"
  | .zsh => "zsh"

/-- What a build is asked for. -/
structure BuildRequest where
  /-- The files and directories to read, instead of those of the project. -/
  paths : List Path := []
  /-- The stylesheet to link to, instead of that of the manifest. -/
  stylesheet : Option String := none
  /-- Where to write, instead of where the manifest says. -/
  output : Option Path := none
  /-- The title, instead of that of the manifest. -/
  title : Option String := none
  format : Format := .html
  /-- Whether the document is printed and not written. -/
  printed : Bool := false
deriving DecidableEq, Repr

/-- What a user asks for. -/
inductive Command where
  /-- Write the document of a project. -/
  | build (request : BuildRequest)
  /-- Print the blocks in section order. -/
  | list (paths : List Path)
  /-- Check the blocks. -/
  | validate (paths : List Path)
  /-- Write a first manifest into a directory. -/
  | init (path : Path) (force : Bool)
  /-- Print the completions for a shell. -/
  | completions (shell : Shell)
deriving DecidableEq, Repr

/-- A command and whether it is to be run without status messages. -/
structure Invocation where
  quiet : Bool
  command : Command
deriving DecidableEq, Repr

/-- What comes of running a command. -/
structure Outcome where
  result : Except Error Unit
  /-- What is printed. -/
  output : String := ""
  /-- What the command says, up to its end or its failure. -/
  messages : List Message := []
  /-- The file system it leaves behind. -/
  files : FileSystem

namespace Outcome

/-- The outcome of a command that fails before it changes anything. -/
def failed (files : FileSystem) (messages : List Message) (error : Error) : Outcome :=
  { result := .error error, messages, files }

end Outcome

/-- A number of blocks in words. -/
def countedBlocks (n : Nat) : String :=
  Text.counted n "block" "blocks"

/-- A number of files in words. -/
def countedFiles (n : Nat) : String :=
  Text.counted n "file" "files"

/-- A number of warnings in words. -/
def countedWarnings (n : Nat) : String :=
  Text.counted n "warning" "warnings"

/-- A path as messages show it. -/
def FileSystem.shown (fs : FileSystem) (path : Path) : String :=
  path.shownFrom fs.workingPath

end LivingGuide
