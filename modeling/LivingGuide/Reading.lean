import LivingGuide.Check
import LivingGuide.FileSystem.Lookup

/-!
# Reading the stylesheets

The stylesheets of an inventory are read in turn and their blocks make one guide, in section order.  A
stylesheet that cannot be read or parsed is an error that names it; a block that the end of a
stylesheet cuts off is left out with a warning.

* `Source.load`: the documentation in a file
* `Reading.ofFiles`: the guide of some files, with the number of blocks of each and the warnings
-/

namespace LivingGuide

/-- The documentation in a file. -/
def Source.load (fs : FileSystem) (path : Path) : Except Error Source :=
  match fs.read path with
  | .ok text => Source.parse text
  | .error fault => .error (.file path .readSource fault)

/-- What some files document. -/
structure Reading where
  /-- The blocks of all files in section order. -/
  guide : Guide
  /-- The number of blocks of each file. -/
  counts : List (Path × Nat)
  /-- The warnings about blocks that were left out. -/
  report : Report
deriving DecidableEq, Repr

namespace Reading

/-- The warning that a block at the end of a file is left out. The first line of a run is the name of
its block. -/
def cutOff (path : Path) (run : List String) : Finding where
  severity := .warning
  code := "styleguide::load::unterminated"
  message := path.text ++ ": block '" ++ run.head?.getD ""
    ++ "' at the end of the file was skipped"
  help := some "Add a line of code or an empty line after the `Styleguide` line"

/-- The warning about a file whose end cuts off a block. -/
def cutOff? (file : Path × Source) : Option Finding :=
  file.2.unterminated.map (cutOff file.1)

/-- The documentation in a file beside its path. An error names the file. -/
def loadFile (fs : FileSystem) (path : Path) : Except Error (Path × Source) :=
  match Source.load fs path with
  | .ok source => .ok (path, source)
  | .error cause => .error (.source path cause)

/-- The blocks of all files, in their order. -/
def blocksOf (files : List (Path × Source)) : List Block :=
  files.flatMap (·.2.blocks)

/-- What sources document. The error is that of the first block whose section is no number. -/
def ofSources (files : List (Path × Source)) : Except Error Reading :=
  match (Guide.empty.add (blocksOf files)).sort with
  | .error error => .error error
  | .ok guide =>
    .ok {
      guide
      counts := files.map fun file => (file.1, file.2.blocks.length)
      report := ⟨files.filterMap cutOff?⟩ }

/-- **What files document.** The error is that of the first file that cannot be read or parsed, and
only when there is none that of a section. -/
def ofFiles (fs : FileSystem) (paths : List Path) : Except Error Reading :=
  match paths.mapM (loadFile fs) with
  | .error error => .error error
  | .ok files => ofSources files

/-- All findings about what was read: the warnings of the reading, then the report of the guide. -/
def findings (reading : Reading) : Report :=
  reading.report.merge reading.guide.check

end Reading

end LivingGuide
