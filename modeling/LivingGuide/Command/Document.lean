import LivingGuide.Command.Basic
import LivingGuide.Export
import LivingGuide.FileSystem.Change
import LivingGuide.Markup.Page
import LivingGuide.Project
import LivingGuide.Reading

/-!
# Building the document

The document of a project is its page or its export.  It is printed, or written where the request
says, else where the manifest says; directories on the way to it are made.

* `BuildRequest.document`: the text of the document
* `BuildRequest.outputPath`: where it is written
* `BuildRequest.run`: the command
-/

namespace LivingGuide

namespace BuildRequest

/-! ### The document -/

/-- The page that is asked for. A page needs a stylesheet to link to. -/
def page (request : BuildRequest) (manifest : Manifest) : Except Error Page :=
  match request.stylesheet <|> manifest.stylesheet with
  | none => .error .noStylesheet
  | some stylesheet =>
    .ok { title := request.title.getD manifest.effectiveTitle, stylesheet := some stylesheet }

/-- **The text of the document.** -/
def document (request : BuildRequest) (manifest : Manifest) (blocks : List Block) :
    Except Error String :=
  match request.format with
  | .html => (request.page manifest).map (·.render blocks)
  | .json => .ok (exportBlocks blocks)

/-- **Where the document is written.** A path of the request is taken as it is. That of a manifest is
read from the root of the project, and an export has an extension of its own. -/
def outputPath (request : BuildRequest) (project : Project) : Path :=
  match request.output with
  | some path => path
  | none =>
    let path := match project.declared with
      | some manifest => project.root.join manifest.output
      | none => project.manifest.output
    match request.format with
    | .html => path
    | .json => path.withExtension "json"

end BuildRequest

/-! ### Writing -/

namespace FileSystem

/-- The file system with the directory that holds a path, and the ones above it. A path without a
directory needs none. -/
def makeParent (fs : FileSystem) (path : Path) : FileSystem × Except Error Unit :=
  match path.parent? with
  | none => (fs, .ok ())
  | some parent =>
    if parent.text.isEmpty then (fs, .ok ())
    else
      match fs.makeDirectories parent with
      | (made, .ok ()) => (made, .ok ())
      | (made, .error fault) => (made, .error (.file parent .makeDirectory fault))

/-- The file system with the document at a path. -/
def writeDocument (fs : FileSystem) (path : Path) (text : String) :
    FileSystem × Except Error Unit :=
  match fs.makeParent path with
  | (made, .error error) => (made, .error error)
  | (made, .ok ()) =>
    match made.write path text with
    | .ok written => (written, .ok ())
    | .error fault => (made, .error (.file path .writeDocument fault))

end FileSystem

/-! ### The command -/

namespace BuildRequest

/-- What is said about the stylesheets of a project. -/
def scanMessages (fs : FileSystem) (project : Project) : List Message :=
  let files := project.inventory.files
  Message.status "Scanning"
      [.plain (fs.shown project.root ++ " "), .dim ("(" ++ countedFiles files.length ++ ")")]
    :: if files.isEmpty then [.warning "warning" [.plain "no stylesheets found"]] else []

/-- What is said about a stylesheet that was read. -/
def fileMessage (fs : FileSystem) (file : Path × Nat) : Message :=
  .status "Parsing" [.plain (fs.shown file.1 ++ " "), .dim ("(" ++ countedBlocks file.2 ++ ")")]

/-- What is said about what was read. -/
def readMessages (fs : FileSystem) (request : BuildRequest) (reading : Reading) : List Message :=
  reading.counts.map (fileMessage fs) ++ reading.findings.messages
    ++ [.status "Rendering"
      [.plain (countedBlocks reading.guide.blocks.length ++ " as " ++ request.format.name)]]

/-- What is said about a document that was written. -/
def writtenMessage (fs : FileSystem) (reading : Reading) (path : Path) : Message :=
  .status "Finished"
    [.plain (countedBlocks reading.guide.blocks.length ++ " to "), .cyan (fs.shown path)]

/-- The outcome once there is a document. -/
def deliver (fs : FileSystem) (request : BuildRequest) (project : Project) (reading : Reading)
    (messages : List Message) (text : String) : Outcome :=
  if request.printed then { result := .ok (), output := text ++ "\n", messages, files := fs }
  else
    let path := request.outputPath project
    match fs.writeDocument path text with
    | (files, .error error) => { result := .error error, messages, files }
    | (files, .ok ()) =>
      { result := .ok (), messages := messages ++ [writtenMessage fs reading path], files }

/-- **Builds the document.** -/
def run (request : BuildRequest) (fs : FileSystem) : Outcome :=
  match Project.find fs request.paths with
  | .error error => .failed fs [] error
  | .ok project =>
    let scanned := scanMessages fs project
    match Reading.ofFiles fs project.inventory.files with
    | .error error => .failed fs scanned error
    | .ok reading =>
      let messages := scanned ++ readMessages fs request reading
      match request.document project.manifest reading.guide.blocks with
      | .error error => .failed fs messages error
      | .ok text => deliver fs request project reading messages text

end BuildRequest

end LivingGuide
