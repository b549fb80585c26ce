import LivingGuide.CommandLine.Argument

/-!
# Completions

A completion script tells a shell which words can follow the name of the program: the commands, and
the named arguments of all of them.

* `Shell.completions`: the script for a shell
-/

namespace LivingGuide

/-- The name of the program. -/
def programName : String := "styleguide"

namespace Completion

/-- The words for the commands. -/
def commandWords : List String :=
  CommandName.all.map CommandName.word ++ [CommandName.helpWord]

/-- The named arguments of all commands, each once. -/
def namedWords : List String :=
  (CommandName.all.flatMap (·.grammar.named)).eraseDups.map ("--" ++ ·.name)

/-- All words that can be completed, between blanks. -/
def allWords : String :=
  " ".intercalate (commandWords ++ namedWords)

/-- All words that can be completed, in quotes and with commas between. -/
def quotedWords : String :=
  ", ".intercalate ((commandWords ++ namedWords).map fun word => "'" ++ word ++ "'")

end Completion

/-- **The script for a shell.** -/
def Shell.completions (shell : Shell) : String :=
  match shell with
  | .bash =>
    "_" ++ programName ++ "() \x7b\n    COMPREPLY=($(compgen -W \"" ++ Completion.allWords
      ++ "\" -- \"$2\"))\n\x7d\ncomplete -o bashdefault -o default -F _" ++ programName ++ " "
      ++ programName ++ "\n"
  | .elvish =>
    "set edit:completion:arg-completer[" ++ programName ++ "] = \x7b|@words| put "
      ++ Completion.allWords ++ " \x7d\n"
  | .fish => "complete -c " ++ programName ++ " -a \"" ++ Completion.allWords ++ "\"\n"
  | .powershell =>
    "Register-ArgumentCompleter -Native -CommandName '" ++ programName
      ++ "' -ScriptBlock \x7b\n    param($word)\n    @(" ++ Completion.quotedWords
      ++ ") | Where-Object \x7b $_ -like \"$word*\" \x7d\n\x7d\n"
  | .zsh =>
    "#compdef " ++ programName ++ "\n\n_arguments '*: :(" ++ Completion.allWords
      ++ ")' '*:file:_files'\n"

end LivingGuide
