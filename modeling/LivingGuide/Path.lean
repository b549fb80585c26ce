/-!
# Paths

A path keeps the text it was written with, and that text is what messages show.  What two paths have
in common is decided by their *components*: repeated and trailing slashes and a `.` inside a path
make no difference, a leading `.` does, and `..` is never resolved.

The text of a path is its *segments* joined by slashes, and every operation here is an operation on
segments.

* `Path.components`: the view by which paths are compared
* `Path.join`: a path continued by another
* `Path.parent?`, `Path.relativeTo?`: shorter paths, keeping the spelling of what is left
* `Path.extension?`, `Path.withExtension`: the end of the last component
* `Path.shownFrom`: a path as messages show it
-/

namespace LivingGuide

/-- A path, as written. -/
structure Path where
  text : String
deriving DecidableEq, Repr, Inhabited

namespace Path

/-! ### Segments and components -/

/-- The pieces between the slashes of a path. -/
def segments (p : Path) : List String :=
  (p.text.toList.splitOn '/').map String.ofList

/-- The path with the given pieces between its slashes. -/
def ofSegments (segments : List String) : Path :=
  ⟨String.intercalate "/" segments⟩

/-- Whether the path starts at the root of the file system. -/
def isAbsolute (p : Path) : Bool :=
  p.text.toList.head? == some '/'

/-- A step of a path. -/
inductive Component where
  /-- The root of the file system. -/
  | root
  /-- A `.` at the start of a path. -/
  | here
  /-- A `..`. -/
  | up
  /-- A named entry of a directory. -/
  | name (text : String)
deriving DecidableEq, Repr

/-- Whether a segment that does not start the path is skipped. -/
def isIdle (segment : String) : Bool :=
  segment == "" || segment == "."

/-- The component of a segment that is not skipped. -/
def Component.ofSegment (segment : String) : Component :=
  if segment == ".." then .up else .name segment

/-- The first component of a path, when its first segment stands for one whatever follows, and the
segments left to read. An empty first segment before a slash is the root. -/
def start (segments : List String) : Option Component × List String :=
  match segments with
  | "" :: s :: rest => (some .root, s :: rest)
  | "." :: rest => (some .here, rest)
  | _ => (none, segments)

/-- **The components of a path.** Two paths are the same path when their components agree. -/
def components (p : Path) : List Component :=
  let parts := start p.segments
  parts.1.toList ++ (parts.2.filter (!isIdle ·)).map Component.ofSegment

/-- Whether two paths are the same, however they are spelled. -/
def same (p q : Path) : Bool :=
  p.components == q.components

/-! ### Joining -/

/-- A path continued by another. An absolute continuation stands alone; otherwise a slash is put
between the two unless the first is empty or already ends in one. -/
def join (p q : Path) : Path :=
  if q.isAbsolute then q
  else if p.text.toList.getLast?.all (· == '/') then ⟨p.text ++ q.text⟩
  else ⟨p.text ++ "/" ++ q.text⟩

/-! ### Shortening -/

/-- Segments without the skipped ones at their end. -/
def trimIdleEnd (segments : List String) : List String :=
  (segments.reverse.dropWhile isIdle).reverse

/-- Segments without their last one and the skipped ones around it; `none` when all are skipped. -/
def dropLastName? (segments : List String) : Option (List String) :=
  match segments.reverse.dropWhile isIdle with
  | [] => none
  | _ :: rest => some (rest.dropWhile isIdle).reverse

/-- The path with the given first component and segments after it. -/
def restart (first : Option Component) (rest : List String) : Path :=
  match first, rest with
  | some .root, [] => ⟨"/"⟩
  | some .root, rest => ofSegments ("" :: rest)
  | some _, rest => ofSegments ("." :: rest)
  | none, rest => ofSegments rest

/-- The path of the directory that holds a path: the text before its last component. The root and
the empty path have none. -/
def parent? (p : Path) : Option Path :=
  match start p.segments with
  | (first, rest) =>
    match dropLastName? rest with
    | some kept => some (restart first kept)
    | none => if first = some .here then some ⟨""⟩ else none

/-- The segments that are left when the given components are taken off the front. -/
def dropComponents? : List Component → List String → Option (List String)
  | [], segments => some segments
  | _ :: _, [] => none
  | c :: cs, s :: rest =>
    if isIdle s then dropComponents? (c :: cs) rest
    else if Component.ofSegment s = c then dropComponents? cs rest
    else none
termination_by _ segments => segments.length

/-- What follows a base path: the text after the components of the base, without skipped segments
at either end. `none` when the components of the path do not start with those of the base. -/
def relativeTo? (p base : Path) : Option Path :=
  match start p.segments, base.components with
  | (first, rest), [] => some (restart first (trimIdleEnd rest))
  | (some first, rest), c :: cs =>
    if first = c then
      (dropComponents? cs rest).map fun left => ofSegments (trimIdleEnd (left.dropWhile isIdle))
    else none
  | (none, rest), cs =>
    (dropComponents? cs rest).map fun left => ofSegments (trimIdleEnd (left.dropWhile isIdle))

/-! ### Extensions -/

/-- The last component of a path, when it is a name. -/
def fileName? (p : Path) : Option String :=
  match p.components.getLast? with
  | some (.name n) => some n
  | _ => none

/-- A name cut at its last dot. A dot that starts the name does not count. -/
def cutExtension (name : String) : String × Option String :=
  match name.toList.reverse.span (· != '.') with
  | (_, []) => (name, none)
  | (_, [_]) => (name, none)
  | (ext, _ :: stem) => (String.ofList stem.reverse, some (String.ofList ext.reverse))

/-- What follows the last dot of the last component. -/
def extension? (p : Path) : Option String :=
  p.fileName?.bind fun name => (cutExtension name).2

/-- A path with the given extension after the stem of its last component. A path whose last
component is no name stays as it is. -/
def setExtension (p : Path) (extension : String) : Path :=
  match p.fileName? with
  | none => p
  | some name =>
    ofSegments ((trimIdleEnd p.segments).dropLast ++ [(cutExtension name).1 ++ "." ++ extension])

/-- A path with another extension. The old extension is taken off the end of the text first, so a
last component such as `..a` leaves `..`, which is no name and gets no extension. -/
def withExtension (p : Path) (extension : String) : Path :=
  match p.extension? with
  | none => p.setExtension extension
  | some old =>
    let text := p.text.toList
    setExtension ⟨String.ofList (text.take (text.length - old.toList.length))⟩ extension

/-! ### Spellings -/

/-- A path for display: relative to the working directory when it lies inside, `.` for the working
directory itself, and as written otherwise. -/
def shownFrom (p directory : Path) : String :=
  match p.relativeTo? directory with
  | some q => if q.text.isEmpty then "." else q.text
  | none => p.text

end Path

end LivingGuide
