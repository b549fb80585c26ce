import LivingGuide.Command.Basic
import LivingGuide.Project
import LivingGuide.Reading

/-!
# Surveys

Two commands look at the blocks of a project and change nothing: one prints them, the other checks
them.

* `Survey.listing`: the lines that print the blocks
* `Survey.list`, `Survey.validate`: the commands
-/

namespace LivingGuide.Survey

/-- How far the line of a block is moved to the right: modules not at all, deeper sections more. -/
def indent (b : Block) : String :=
  String.ofList (List.replicate (2 * (b.depth - 1)) ' ')

/-- The line of a block: its section and its name. -/
def line (b : Block) : String :=
  indent b ++ b.sectionText ++ " " ++ b.name ++ "\n"

/-- The lines of blocks. -/
def listing (blocks : List Block) : String :=
  String.join (blocks.map line)

/-- **Prints the blocks in section order.** -/
def list (fs : FileSystem) (paths : List Path) : Outcome :=
  match Project.find fs paths with
  | .error error => .failed fs [] error
  | .ok project =>
    match Reading.ofFiles fs project.inventory.files with
    | .error error => .failed fs [] error
    | .ok reading =>
      let blocks := reading.guide.blocks
      { result := .ok ()
        output := listing blocks
        messages := [.info "Listed"
          [.plain (countedBlocks blocks.length ++ " from "
            ++ countedFiles reading.counts.length)]]
        files := fs }

/-- The words for a check without errors. -/
def summary (blocks : Nat) (report : Report) : String :=
  countedBlocks blocks
    ++ if 0 < report.warnings then " (" ++ countedWarnings report.warnings ++ ")" else ""

/-- **Checks the blocks.** Errors among the findings make the command fail; warnings do not. -/
def validate (fs : FileSystem) (paths : List Path) : Outcome :=
  match Project.find fs paths with
  | .error error => .failed fs [] error
  | .ok project =>
    let files := project.inventory.files
    let checking := [Message.status "Checking" [.plain (countedFiles files.length)]]
    match Reading.ofFiles fs files with
    | .error error => .failed fs checking error
    | .ok reading =>
      let report := reading.findings
      let messages := checking ++ report.messages
      if 0 < report.errors then .failed fs messages (.findings report.errors report.warnings)
      else
        { result := .ok ()
          messages := messages
            ++ [.status "Finished" [.plain (summary reading.guide.blocks.length report)]]
          files := fs }

end LivingGuide.Survey
