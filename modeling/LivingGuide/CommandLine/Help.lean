import LivingGuide.CommandLine.Completion

/-!
# Help

What a user reads who asks for help or the version, or whose command line is no invocation.

* `Usage.text`: the answer to a command line that is no invocation
-/

namespace LivingGuide

/-- The version of the program. -/
def programVersion : String := "0.1.0"

/-- What a command does. -/
def CommandName.summary : CommandName → String
  | .build => "Build a styleguide page from documented stylesheets"
  | .list => "List documented blocks in section order"
  | .validate => "Check documentation blocks without rendering"
  | .init => "Initialize a styleguide project (generates styleguide.yaml)"
  | .completions => "Generate shell completions"

/-- What an argument is for. -/
def Argument.summary : Argument → String
  | .quiet => "Suppress status output"
  | .help => "Print help"
  | .version => "Print version"
  | .stdout => "Write the document to stdout instead of a file"
  | .force => "Overwrite existing styleguide.yaml"
  | .output => "Output file"
  | .stylesheet => "Stylesheet the page links to"
  | .title => "Page title"
  | .format => "Output format"
  | .directory => "Directory to scan"
  | .paths => "Files or directories to scan"
  | .shell => "Shell to generate completions for"

namespace Help

/-- A word in its column, and what it is for. -/
def entry (word summary : String) : String :=
  "  " ++ word ++ String.ofList (List.replicate (14 - word.toList.length) ' ') ++ summary ++ "\n"

/-- The line of a command, with the arguments it takes. -/
def commandEntry (name : CommandName) : String :=
  entry name.word name.summary

/-- The line of a named argument. -/
def argumentEntry (argument : Argument) : String :=
  entry ("--" ++ argument.name) argument.summary

/-- All commands and named arguments. -/
def text : String :=
  "Usage: " ++ programName ++ " [OPTIONS] <COMMAND>\n\nCommands:\n"
    ++ String.join (CommandName.all.map commandEntry) ++ "\nOptions:\n"
    ++ String.join ((Grammar.outer.named ++ CommandName.all.flatMap (·.grammar.named)).eraseDups.map
      argumentEntry)

end Help

/-- Whether the user asked for what the answer says. -/
def Usage.isAnswer : Usage → Bool
  | .help => true
  | .version => true
  | _ => false

/-- **The answer to a command line that is no invocation.** -/
def Usage.text : Usage → String
  | .help => Help.text
  | .version => programName ++ " " ++ programVersion ++ "\n"
  | .nothing => Help.text
  | .noCommand => "error: a command is missing\n\n" ++ Help.text
  | .unknownCommand => "error: there is no such command\n\n" ++ Help.text
  | .unknownArgument => "error: unexpected argument\n\n" ++ Help.text
  | .invalidValue => "error: invalid or missing value\n\n" ++ Help.text
  | .surplusValue => "error: unexpected value for a flag\n\n" ++ Help.text
  | .conflict => "error: arguments cannot be used together or more than once\n\n" ++ Help.text
  | .missingArgument => "error: a required argument is missing\n\n" ++ Help.text

end LivingGuide
