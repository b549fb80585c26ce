import LivingGuide.Path

/-!
# Drafts of a manifest

The first manifest of a project names the directories where its stylesheets were found.  Stylesheets
at the root alone need no naming, because the root is where a manifest without sources looks.

Names are text here, as everywhere in a `Path`.  A system may allow a name of octets that are no text;
such a name has no spelling in a manifest, and a draft could only put something else in its place.

* `Draft.directories`: the directories of some files, from the root
* `Draft.text`: the manifest that names directories
-/

namespace LivingGuide.Draft

/-- A directory as a manifest names it: from the root of the project and with a slash at the end. The
root itself is a dot, and a directory outside the root keeps its path. The name is taken as it stands:
a text is shown by itself. -/
def directoryName (root directory : Path) : String :=
  let path := (directory.relativeTo? root).getD directory
  if path.text.isEmpty then "." else path.text ++ "/"

/-- **The directories of some files**, each once, in the order of their names. -/
def directories (root : Path) (files : List Path) : List String :=
  ((files.filterMap Path.parent?).map (directoryName root)).eraseDups.mergeSort
    fun a b => !decide (b < a)

/-- The line that names a directory. -/
def sourceLine (directory : String) : String :=
  "  - \"" ++ directory ++ "\"\n"

/-- The lines that name directories, none if there is only the root. -/
def sourceLines (directories : List String) : String :=
  if directories.isEmpty || directories == ["."] then ""
  else "sources:\n" ++ String.join (directories.map sourceLine)

/-- **The manifest that names directories.** -/
def text (directories : List String) : String :=
  sourceLines directories ++ "# stylesheet: css/main.css\noutput: styleguide.html\n"

end LivingGuide.Draft
