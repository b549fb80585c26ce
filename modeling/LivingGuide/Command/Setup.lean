import LivingGuide.Command.Basic
import LivingGuide.FileSystem.Change
import LivingGuide.Manifest.Draft
import LivingGuide.Project

/-!
# Setting up a project

A directory becomes a project by a first manifest.  One that is there already is kept, unless the user
insists.

* `Setup.run`: the command
-/

namespace LivingGuide.Setup

/-- What is said about a manifest that was written. -/
def messages (directories : List String) (stylesheets : Nat) : List Message :=
  (if directories.isEmpty then []
    else [.info "Discovered" [.plain (", ".intercalate directories)]])
  ++ [.status "Created"
    [.plain (manifestName ++ " (" ++ Text.counted stylesheets "stylesheet" "stylesheets"
      ++ " found)")]]

/-- Writes the manifest of a project that was found. -/
def writeDraft (fs : FileSystem) (said : List Message) (project : Project) : Outcome :=
  let files := project.inventory.files
  let directories := Draft.directories project.root files
  let path := Project.manifestPath project.root
  match fs.write path (Draft.text directories) with
  | .error fault => .failed fs said (.file path .writeManifest fault)
  | .ok written =>
    { result := .ok ()
      messages := said ++ messages directories files.length
      files := written }

/-- **Writes a first manifest into a directory.** A manifest that is there already says where the
stylesheets are, also when it is about to be replaced. -/
def run (fs : FileSystem) (path : Path) (force : Bool) : Outcome :=
  if fs.exists? (Project.manifestPath path) && !force then .failed fs [] .manifestExists
  else
    let said := [Message.status "Scanning" [.plain (fs.shown path)]]
    match Project.atRoot fs path with
    | .error error => .failed fs said error
    | .ok project => writeDraft fs said project

end LivingGuide.Setup
