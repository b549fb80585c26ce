import LivingGuide.Json
import LivingGuide.Manifest.Pattern
import LivingGuide.Path

/-!
# Manifests

A manifest describes a project: where its stylesheets are, which of them to leave out, and what to
make of them.  Every setting has a default.

* `Manifest.isExcluded`, `Manifest.isStylesheet`: which files belong to the guide
* `Manifest.record`: a manifest as JSON
-/

namespace LivingGuide

/-- The settings of a project. -/
structure Manifest where
  /-- Directories and files to read, from the root of the project. -/
  sources : List String := []
  /-- The stylesheet that the page links to. -/
  stylesheet : Option String := none
  /-- Where the document is written. -/
  output : Path := ⟨"styleguide.html"⟩
  /-- The title of the page. -/
  title : Option String := none
  /-- The extensions of stylesheets. -/
  extensions : List String := ["scss", "less", "sass", "styl"]
  /-- The patterns of paths to leave out. -/
  excludes : List String := []
deriving DecidableEq, Repr

namespace Manifest

/-- The manifest of a project that has none. -/
def default : Manifest := {}

/-- Whether a pattern leaves out a path. -/
def isExcluded (manifest : Manifest) (path : Path) : Bool :=
  manifest.excludes.any fun pattern => (Pattern.parse pattern).excludes path.text.toList

/-- Whether two texts differ at most in the case of ASCII letters. -/
def sameIgnoringCase (a b : String) : Bool :=
  a.toList.map Char.toLower == b.toList.map Char.toLower

/-- Whether a path has the extension of a stylesheet, in any case. -/
def isStylesheet (manifest : Manifest) (path : Path) : Bool :=
  path.extension?.any fun extension => manifest.extensions.any (sameIgnoringCase · extension)

/-- Where to look for sources: the root of the project when nothing is named. -/
def effectiveSources (manifest : Manifest) : List String :=
  if manifest.sources.isEmpty then ["."] else manifest.sources

/-- The title of the page. -/
def effectiveTitle (manifest : Manifest) : String :=
  manifest.title.getD "Styleguide"

/-- A setting that may be missing, as JSON. -/
def optional (value : Option String) : Json :=
  match value with
  | some text => .string text
  | none => .null

/-- A list of texts as JSON. -/
def strings (values : List String) : Json :=
  .array (values.map .string)

/-- A manifest as JSON. -/
def record (manifest : Manifest) : Json :=
  .object [("sources", strings manifest.sources), ("stylesheet", optional manifest.stylesheet),
    ("output", .string manifest.output.text), ("title", optional manifest.title),
    ("extensions", strings manifest.extensions), ("excludes", strings manifest.excludes)]

end Manifest

end LivingGuide
