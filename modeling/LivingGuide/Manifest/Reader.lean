import LivingGuide.Error
import LivingGuide.Manifest.Basic
import LivingGuide.Yaml.Event

/-!
# Reading a manifest

A manifest is a YAML mapping.  Its known keys are the settings, each at most once; other keys are
passed over with whatever they hold.  A text without content is the default manifest.

A setting that is a text takes any scalar as written.  One that may be missing is so when its value is
left out or is one of the words for null, unless quotes or a tag make it a text.  A list takes a
sequence of scalars, or a value that is left out for the empty list.

* `Manifest.parse`: the manifest that a text describes
-/

namespace LivingGuide

namespace Yaml

/-! ### Values -/

/-- The words for null. -/
def isNull (text : String) : Bool :=
  ["~", "null", "Null", "NULL"].contains text

/-- The tag that says that a value is null. -/
def nullTag : Octets := Octets.ofString "tag:yaml.org,2002:null"

namespace Document

/-- The events of a node, an alias replaced by its target. -/
def resolve (document : Document) : List (Event Nat) → List (Event Nat)
  | .alias number :: _ => document.target number
  | node => node

/-- The text of a scalar. -/
def text? (document : Document) (node : List (Event Nat)) : Option String :=
  match document.resolve node with
  | .scalar _ _ text :: _ => some text
  | _ => none

/-- The text of a scalar that may stand for nothing. A tag for null on anything else is
malformed. -/
def optionalText? (document : Document) (node : List (Event Nat)) : Option (Option String) :=
  match document.resolve node with
  | .scalar properties plain text :: _ =>
    if !plain then some (some text)
    else
      match properties.tag with
      | none => some (if text.isEmpty || isNull text then none else some text)
      | some tag =>
        if tag != nullTag then some (some text)
        else if isNull text then some none
        else none
  | _ => none

/-- The texts of a sequence, up to its end. -/
def items? (document : Document) : List (Event Nat) → Option (List String)
  | [] => none
  | .sequenceEnd :: _ => some []
  | event :: events => do
    let text ← document.text? [event]
    let texts ← items? document events
    return text :: texts

/-- The texts of a list. -/
def list? (document : Document) (node : List (Event Nat)) : Option (List String) :=
  match document.resolve node with
  | .sequenceStart _ :: events => document.items? events
  | .scalar _ true "" :: _ => some []
  | _ => none

end Document

/-! ### Entries -/

/-- How an event changes the number of open collections. -/
def Event.depthAfter {α : Type} (depth : Nat) : Event α → Nat
  | .sequenceStart _ => depth + 1
  | .mappingStart _ => depth + 1
  | .sequenceEnd => depth - 1
  | .mappingEnd => depth - 1
  | _ => depth

/-- Events cut into nodes, after those (in reverse) of a node that is open to the given depth. -/
def nodesFrom (opened : List (Event Nat)) (depth : Nat) : List (Event Nat) → List (List (Event Nat))
  | [] => []
  | event :: events =>
    match event.depthAfter depth with
    | 0 => (event :: opened).reverse :: nodesFrom [] 0 events
    | depth + 1 => nodesFrom (event :: opened) (depth + 1) events

/-- Nodes in pairs of a key and a value. -/
def pairs : List (List (Event Nat)) → List (List (Event Nat) × List (Event Nat))
  | key :: value :: rest => (key, value) :: pairs rest
  | _ => []

/-- The entries of a document: none when it has no content, and `none` when it is no mapping or has a
key that is no scalar. -/
def Document.entries? (document : Document) : Option (List (String × List (Event Nat))) :=
  match document.events with
  | [] => some []
  | .scalar _ true "" :: _ => some []
  | .mappingStart _ :: events =>
    (pairs (nodesFrom [] 0 events.dropLast)).mapM fun entry =>
      (document.text? entry.1).map fun key => (key, entry.2)
  | _ => none

end Yaml

namespace Manifest

/-- The names of the settings. -/
def settings : List String :=
  ["sources", "stylesheet", "output", "title", "extensions", "excludes"]

/-- The manifest with one more setting. -/
def set? (document : Yaml.Document) (manifest : Manifest)
    (entry : String × List (Yaml.Event Nat)) : Option Manifest :=
  let (key, node) := entry
  if key = "sources" then (document.list? node).map ({ manifest with sources := · })
  else if key = "stylesheet" then
    (document.optionalText? node).map ({ manifest with stylesheet := · })
  else if key = "output" then (document.text? node).map ({ manifest with output := ⟨·⟩ })
  else if key = "title" then (document.optionalText? node).map ({ manifest with title := · })
  else if key = "extensions" then (document.list? node).map ({ manifest with extensions := · })
  else if key = "excludes" then (document.list? node).map ({ manifest with excludes := · })
  else some manifest

/-- The manifest that a document describes. -/
def ofDocument? (document : Yaml.Document) : Option Manifest := do
  let entries ← document.entries?
  if ((entries.map (·.1)).filter (settings.contains ·)).Nodup then
    entries.foldlM (set? document) default
  else none

/-- **The manifest that a text describes.** -/
def parse (text : String) : Except Error Manifest :=
  if (Text.trim text.toList).isEmpty then .ok default
  else
    match (Yaml.Document.ofText? text.toList).bind ofDocument? with
    | some manifest => .ok manifest
    | none => .error .manifest

end Manifest

end LivingGuide
