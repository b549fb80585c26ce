import LivingGuide.FileSystem.Basic
import LivingGuide.Text.Basic

/-!
# Errors

An error is its cause.  What a reader sees of it, a message, a code and an advice, is computed from
the cause in one place.

* `Error`: the causes
* `Error.message`, `Error.code`, `Error.help`: their wording
-/

namespace LivingGuide

/-- Why comment lines are no block. -/
inductive BlockFault where
  /-- There is no line with text. -/
  | empty
  /-- The first group has several lines. -/
  | longName (count : Nat) (first : String)
  /-- The section line has no second word. -/
  | noIdentifier (line name : String)
  /-- No group is left for the section line. -/
  | noSection (name : String)
deriving DecidableEq, Repr

/-- What was being done when the file system refused. -/
inductive Task where
  | readSource
  | readManifest
  | makeDirectory
  | writeDocument
  | writeManifest
deriving DecidableEq, Repr

/-- The causes of failure. -/
inductive Error where
  /-- A line of a modifier group is not a modifier. -/
  | modifier (line : String)
  /-- Comment lines are no block. -/
  | block (fault : BlockFault)
  /-- A section has a segment that is no number. -/
  | sectionNumber (whole segment : String)
  /-- The file system refused. -/
  | file (path : Path) (task : Task) (fault : Fault)
  /-- A source could not be read or parsed. -/
  | source (path : Path) (cause : Error)
  /-- The text of a manifest does not describe one. What the YAML reader has to say about it is not
  kept. -/
  | manifest
  /-- A guide was found wrong. -/
  | findings (errors warnings : Nat)
  /-- A page is wanted and no stylesheet is named. -/
  | noStylesheet
  /-- There is already a manifest. -/
  | manifestExists
deriving DecidableEq, Repr

/-- The name of the manifest file. -/
def manifestName : String := "styleguide.yaml"

/-- What is wrong with comment lines that are no block. -/
def BlockFault.message : BlockFault → String
  | .empty => "comment block is empty"
  | .longName count first =>
    "name must be a single line, found " ++ count.repr ++ " lines starting with '" ++ first ++ "'"
  | .noIdentifier line name =>
    "section line '" ++ line ++ "' of block '" ++ name ++ "' has no identifier"
  | .noSection name => "block '" ++ name ++ "' has no section line"

/-- How to mend comment lines that are no block. -/
def BlockFault.help : BlockFault → Option String
  | .empty => none
  | .longName _ _ => some "Leave a blank comment line between the name and the description"
  | .noIdentifier _ _ => some "Write the section as `Styleguide 1.2`"
  | .noSection _ => some "End the block with a line like `Styleguide 1.2`"

/-- The words before the system's own for a refused task. -/
def Task.label : Task → String
  | .readSource => ""
  | .readManifest => "Failed to read manifest: "
  | .makeDirectory => "Failed to create output directory: "
  | .writeDocument => "Failed to write output: "
  | .writeManifest => "Failed to write manifest: "

namespace Error

/-- What went wrong. For a text that is no manifest the words of the YAML reader, which say where it
stopped, are left out: they would come behind a colon. -/
def message : Error → String
  | .modifier line => "'" ++ line ++ "' is not a valid modifier line"
  | .block fault => "Malformed block: " ++ fault.message
  | .sectionNumber whole segment =>
    "Malformed section '" ++ whole ++ "': '" ++ segment ++ "' is not a number"
  | .file path task fault => "IO error with " ++ path.text ++ ": " ++ task.label ++ fault.message
  | .source path _ => "Failed to load " ++ path.text
  | .manifest => "Config error: Invalid manifest"
  | .findings errors warnings =>
    "Validation error: " ++ Text.counted errors "error" "errors" ++ " and "
      ++ Text.counted warnings "warning" "warnings"
  | .noStylesheet => "Build error: No stylesheet to link from the styleguide page"
  | .manifestExists => "Build error: " ++ manifestName ++ " already exists"

/-- The code that names the kind of failure. -/
def code : Error → String
  | .modifier _ => "styleguide::parse::modifier"
  | .block _ => "styleguide::parse::block"
  | .sectionNumber _ _ => "styleguide::parse::section"
  | .file _ _ _ => "styleguide::io"
  | .source _ _ => "styleguide::load"
  | .manifest => "styleguide::config"
  | .findings _ _ => "styleguide::validate"
  | .noStylesheet => "styleguide::build"
  | .manifestExists => "styleguide::build"

/-- How to mend it. -/
def help : Error → Option String
  | .modifier _ =>
    some "Modifiers are written as `.selector - Description` or `:pseudo - Description`"
  | .block fault => fault.help
  | .sectionNumber _ _ => some "Sections are dotted numbers such as `1.2` or `10.3.1`"
  | .file _ _ _ => none
  | .source _ _ => none
  | .manifest => some "Check styleguide.yaml syntax"
  | .findings _ _ => some "Fix the errors above and run `styleguide validate` again"
  | .noStylesheet => some "Pass --stylesheet <HREF> or set `stylesheet` in styleguide.yaml"
  | .manifestExists => some "Use --force to overwrite"

end Error

end LivingGuide
