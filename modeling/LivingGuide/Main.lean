import LivingGuide.Command.Run
import LivingGuide.CommandLine.Help
import LivingGuide.CommandLine.Parser

/-!
# The program

What a command can reach on disk is read into a file system, the command is run on it, and what it
changed is written back.  The directories are read first, without the files in them; the text of a
file is read only if the command asks for it.
-/

namespace LivingGuide.Program

/-- The location of a path that is written from the root. -/
def locationOf (text : String) : Location :=
  (Path.mk text).segments.filter (!Path.isIdle ·)

/-- A location written as a path. -/
def spelled (here : Location) : String :=
  "/" ++ "/".intercalate here

/-- The tree with what is on disk at a location: a file without its content, a directory with all
that is below it if that is asked for, a link with where it leads.  What is none of these, such as a
pipe or a socket, is listed like a file: below a directory always, at the location itself on
request. -/
partial def look (deep listed : Bool) (root : Node) (here : Location) : IO Node := do
  let disk := (← IO.currentDir) / spelled here
  let seen := root.at? here
  match (← disk.symlinkMetadata).type with
  | .file => return if seen.isSome then root else root.put here (.file .empty)
  | .symlink =>
    if seen.isSome then return root
    try
      let target := (← IO.FS.realPath disk).toString
      look deep listed (root.put here (.link ⟨target⟩)) (locationOf target)
    catch _ => return root
  | .dir =>
    let root := if seen.isSome then root else root.put here (.directory [])
    if !deep then return root
    let mut found := root
    for entry in ← disk.readDir do
      try
        found ← look true true found (here ++ [entry.fileName])
      catch _ => pure ()
    return found
  | .other => return if listed && seen.isNone then root.put here (.file .empty) else root

/-- The location of what a path names, itself a link or not. -/
def locationOnDisk (path : Path) : IO Location := do
  match path.parent?, path.fileName? with
  | some parent, some name =>
    return locationOf (← IO.FS.realPath parent.text).toString ++ [name]
  | _, _ => return locationOf (← IO.FS.realPath path.text).toString

/-- The file system with what is on disk at a path, and what leads to it. A path that leads nowhere
adds what there is of it. -/
def lookAt (fs : FileSystem) (listed : Bool) (path : Path) : IO FileSystem := do
  let whole := fs.workingPath.join path
  let mut root := fs.root
  for step in whole.above.reverse ++ [whole] do
    try
      root ← look (step.text == whole.text) listed root (← locationOnDisk step)
    catch _ => pure ()
  return { fs with root }

/-- The file system with the content of the file that a path leads to. -/
def fetch (fs : FileSystem) (path : Path) : IO FileSystem := do
  match fs.locate path with
  | .error _ => return fs
  | .ok here =>
    if fs.isFile path then return fs.put here (.file (← IO.FS.readBinFile (spelled here)))
    else return fs

/-- The paths that a command is given, and the directory whose manifest it reads. -/
def named : Command → List Path × Option Path
  | .build request => (request.paths, if request.paths.isEmpty then some ⟨"."⟩ else none)
  | .list paths => (paths, if paths.isEmpty then some ⟨"."⟩ else none)
  | .validate paths => (paths, if paths.isEmpty then some ⟨"."⟩ else none)
  | .init path _ => ([], some path)
  | .completions _ => ([], none)

/-- The project of a command, as far as it can be found. -/
def projectOf (fs : FileSystem) (command : Command) : Option Project :=
  match (named command).2 with
  | some root => (Project.atRoot fs root).toOption
  | none => some (Project.ofPaths fs (named command).1)

/-- The file system with what a command needs of its project besides the paths: the stylesheets that it
reads, and where it writes. -/
def reachProject (fs : FileSystem) (command : Command) (project : Project) : IO FileSystem := do
  let mut fs := fs
  if let .build request := command then
    fs ← lookAt fs false (request.outputPath project)
  match command with
  | .init _ _ | .completions _ => return fs
  | _ =>
    for path in project.inventory.files do
      fs ← fetch fs path
    return fs

/-- What a command can reach on disk. A path that the command is given is taken for a stylesheet
whatever is there; a source of a manifest is one only if it is a file. -/
def reach (command : Command) : IO FileSystem := do
  let here := locationOf (← IO.currentDir).toString
  let mut fs : FileSystem := ⟨(Node.directory []).put here (.directory []), here⟩
  for path in (named command).1 do
    fs ← lookAt fs true path
  if let some root := (named command).2 then
    fs ← lookAt fs true (Project.manifestPath root)
    fs ← fetch fs (Project.manifestPath root)
    if let .ok declared := Project.manifestAt fs root then
      for source in (declared.getD Manifest.default).effectiveSources do
        fs ← lookAt fs false (root.join ⟨source⟩)
  match projectOf fs command with
  | some project => reachProject fs command project
  | none => return fs

/-- Writes to disk what is new or changed at a location and below it. -/
partial def keep (before : Option Node) (after : Node) (here : Location) : IO Unit := do
  match after, before with
  | .file new, some (.file old) => if new != old then IO.FS.writeBinFile (spelled here) new
  | .file new, _ => IO.FS.writeBinFile (spelled here) new
  | .link _, _ => return
  | .directory entries, before =>
    if before.isNone then IO.FS.createDirAll (spelled here)
    for (name, node) in entries do
      keep (before.bind (·.child? name)) node (here ++ [name])

/-- An error as the user reads it. -/
def errorText (error : Error) : String :=
  let cause := match error with
    | .source _ cause => "  " ++ cause.message ++ "\n"
    | _ => ""
  let help := match error.help with
    | some help => "  help: " ++ help ++ "\n"
    | none => ""
  "Error: " ++ error.code ++ "\n\n  " ++ error.message ++ "\n" ++ cause ++ help

/-- Runs a command and reports how it ended. -/
def execute (invocation : Invocation) : IO UInt32 := do
  let fs ← reach invocation.command
  let errors ← IO.getStderr
  let seen := invocation.run fs (← errors.isTty)
  errors.putStr seen.said
  keep (some fs.root) seen.files.root []
  IO.print seen.output
  match seen.result with
  | .ok () => return 0
  | .error error =>
    errors.putStr (errorText error)
    return 1

end LivingGuide.Program

/-- The program. -/
def main (arguments : List String) : IO UInt32 := do
  match LivingGuide.Invocation.parse arguments with
  | .ok invocation => LivingGuide.Program.execute invocation
  | .error usage =>
    if usage.isAnswer then
      IO.print usage.text
      return 0
    else
      (← IO.getStderr).putStr usage.text
      return 2
