import LivingGuide.Yaml.Token

/-!
# Events

The structure of a document as a list of events: the scalars in the order of the text, and the start
and end of every collection.  What is left out in the text, such as a value after `key:`, is an empty
plain scalar.

The events are made by a machine with a stack of *expectations*: what may come next in each of the
collections that are open.  It makes one event at a time.

An alias refers to the node with the anchor of its name.  In the text it has a name; when a document is
linked, every alias gets the number of its target.

* `Event`: the events
* `Event.ofTokens?`: the events of the only document of a text
* `Document`: events with the targets of aliases
-/

namespace LivingGuide.Yaml

/-- Anchor and tag of a node. -/
structure Properties where
  anchor : Option String := none
  tag : Option Octets := none
deriving DecidableEq, Repr

/-- The events of a document, whose aliases refer to their targets by `α`. -/
inductive Event (α : Type) where
  | alias (target : α)
  | scalar (properties : Properties) (plain : Bool) (text : String)
  | sequenceStart (properties : Properties)
  | sequenceEnd
  | mappingStart (properties : Properties)
  | mappingEnd
deriving DecidableEq, Repr

/-- The event for a node that is left out. -/
def Event.missing {α : Type} : Event α :=
  .scalar {} true ""

/-- What may come next in an open collection. -/
inductive Expectation where
  | blockEntry
  | indentlessEntry
  | blockKey
  | blockValue
  | flowItem (first : Bool)
  | flowPairKey
  | flowPairValue
  | flowPairEnd
  | flowKey (first : Bool)
  | flowValue
  | flowNoValue
deriving DecidableEq, Repr

/-- An event with what is expected after it and the tokens left. -/
structure Step where
  event : Event String
  expected : List Expectation
  rest : List Token

/-! ### Nodes -/

/-- The tag that a handle and a suffix stand for. -/
def resolveTag? (handles : List (String × Octets)) (handle : String) (suffix : Octets) :
    Option Octets :=
  if handle.isEmpty then some suffix.beforeZero
  else (handles.lookup handle).map (·.beforeZero ++ suffix.beforeZero)

/-- Anchor and tag before a node, in either order, and the tokens after them. -/
def properties? (handles : List (String × Octets)) :
    List Token → Option (Properties × List Token)
  | .anchor name :: .tag handle suffix :: rest =>
    (resolveTag? handles handle suffix).map fun tag => (⟨some name, some tag⟩, rest)
  | .anchor name :: rest => some (⟨some name, none⟩, rest)
  | .tag handle suffix :: .anchor name :: rest =>
    (resolveTag? handles handle suffix).map fun tag => (⟨some name, some tag⟩, rest)
  | .tag handle suffix :: rest =>
    (resolveTag? handles handle suffix).map fun tag => (⟨none, some tag⟩, rest)
  | rest => some ({}, rest)

/-- The event that starts a node. Block collections are accepted where blocks may stand, and entries
without an indentation of their own where a mapping allows them. -/
def node? (handles : List (String × Octets)) (block indentless : Bool)
    (expected : List Expectation) (tokens : List Token) : Option Step :=
  match tokens with
  | .alias name :: rest => some ⟨.alias name, expected, rest⟩
  | _ => do
    let (properties, rest) ← properties? handles tokens
    let missing :=
      if properties = {} then none else some ⟨.scalar properties true "", expected, rest⟩
    match rest with
    | .entry :: _ =>
      if indentless then some ⟨.sequenceStart properties, .indentlessEntry :: expected, rest⟩
      else missing
    | .scalar plain text :: rest => some ⟨.scalar properties plain text, expected, rest⟩
    | .flowSequenceOpen :: rest =>
      some ⟨.sequenceStart properties, .flowItem true :: expected, rest⟩
    | .flowMappingOpen :: rest => some ⟨.mappingStart properties, .flowKey true :: expected, rest⟩
    | .sequenceOpen :: rest' =>
      if block then some ⟨.sequenceStart properties, .blockEntry :: expected, rest'⟩ else missing
    | .mappingOpen :: rest' =>
      if block then some ⟨.mappingStart properties, .blockKey :: expected, rest'⟩ else missing
    | _ => missing

/-- The event of a node, or that of a missing one when one of the given tokens is next. -/
def nodeUnless? (handles : List (String × Octets)) (stops : List Token)
    (block indentless : Bool) (expected : List Expectation) (tokens : List Token) : Option Step :=
  if tokens.head?.any (stops.contains ·) then some ⟨.missing, expected, tokens⟩
  else node? handles block indentless expected tokens

/-- The tokens after the comma between two items; before the first item there is none. -/
def afterComma? (first : Bool) : List Token → Option (List Token)
  | .flowEntry :: rest => if first then some (.flowEntry :: rest) else some rest
  | tokens => if first then some tokens else none

/-- **The next event** of the innermost open collection. -/
def step? (handles : List (String × Octets)) (expectation : Expectation)
    (around : List Expectation) (tokens : List Token) : Option Step :=
  match expectation with
  | .blockEntry =>
    match tokens with
    | .entry :: rest =>
      nodeUnless? handles [.entry, .blockClose] true false (.blockEntry :: around) rest
    | .blockClose :: rest => some ⟨.sequenceEnd, around, rest⟩
    | _ => none
  | .indentlessEntry =>
    match tokens with
    | .entry :: rest =>
      nodeUnless? handles [.entry, .key, .value, .blockClose] true false
        (.indentlessEntry :: around) rest
    | _ => some ⟨.sequenceEnd, around, tokens⟩
  | .blockKey =>
    match tokens with
    | .key :: rest =>
      nodeUnless? handles [.key, .value, .blockClose] true true (.blockValue :: around) rest
    | .blockClose :: rest => some ⟨.mappingEnd, around, rest⟩
    | _ => none
  | .blockValue =>
    match tokens with
    | .value :: rest =>
      nodeUnless? handles [.key, .value, .blockClose] true true (.blockKey :: around) rest
    | _ => some ⟨.missing, .blockKey :: around, tokens⟩
  | .flowItem first =>
    match tokens with
    | .flowSequenceClose :: rest => some ⟨.sequenceEnd, around, rest⟩
    | _ =>
      match afterComma? first tokens with
      | none => none
      | some (.key :: rest) => some ⟨.mappingStart {}, .flowPairKey :: around, rest⟩
      | some (.flowSequenceClose :: rest) => some ⟨.sequenceEnd, around, rest⟩
      | some rest => node? handles false false (.flowItem false :: around) rest
  | .flowPairKey =>
    match tokens with
    | [] => none
    | token :: rest =>
      if [Token.value, .flowEntry, .flowSequenceClose].contains token then
        some ⟨.missing, .flowPairValue :: around, rest⟩
      else node? handles false false (.flowPairValue :: around) tokens
  | .flowPairValue =>
    match tokens with
    | .value :: rest =>
      nodeUnless? handles [.flowEntry, .flowSequenceClose] false false (.flowPairEnd :: around) rest
    | _ => some ⟨.missing, .flowPairEnd :: around, tokens⟩
  | .flowPairEnd => some ⟨.mappingEnd, .flowItem false :: around, tokens⟩
  | .flowKey first =>
    match tokens with
    | .flowMappingClose :: rest => some ⟨.mappingEnd, around, rest⟩
    | _ =>
      match afterComma? first tokens with
      | none => none
      | some (.key :: rest) =>
        nodeUnless? handles [.value, .flowEntry, .flowMappingClose] false false
          (.flowValue :: around) rest
      | some (.flowMappingClose :: rest) => some ⟨.mappingEnd, around, rest⟩
      | some rest => node? handles false false (.flowNoValue :: around) rest
  | .flowValue =>
    match tokens with
    | .value :: rest =>
      nodeUnless? handles [.flowEntry, .flowMappingClose] false false (.flowKey false :: around) rest
    | _ => some ⟨.missing, .flowKey false :: around, tokens⟩
  | .flowNoValue => some ⟨.missing, .flowKey false :: around, tokens⟩

/-- The events until nothing more is expected, at most as many as the first argument says, and the
tokens left. -/
def eventsFrom? (handles : List (String × Octets)) :
    Nat → List Expectation → List Token → Option (List (Event String) × List Token)
  | _, [], tokens => some ([], tokens)
  | 0, _ :: _, _ => none
  | fuel + 1, expectation :: around, tokens => do
    let found ← step? handles expectation around tokens
    let (events, rest) ← eventsFrom? handles fuel found.expected found.rest
    return (found.event :: events, rest)

/-- **Enough events for any list of tokens**: no token stands for more than five. -/
def maxEvents (tokens : List Token) : Nat :=
  5 * tokens.length + 5

/-- The events of one node, and the tokens left. -/
def nodeEvents? (handles : List (String × Octets)) (tokens : List Token) :
    Option (List (Event String) × List Token) := do
  let found ← node? handles true false [] tokens
  let (events, rest) ← eventsFrom? handles (maxEvents tokens) found.expected found.rest
  return (found.event :: events, rest)

/-! ### Documents -/

/-- The handles that need no directive. -/
def standardHandles : List (String × Octets) :=
  [("!", Octets.ofString "!"), ("!!", Octets.ofString "tag:yaml.org,2002:")]

/-- The handles that directives declare, and the tokens after the directives. A version other than
1.1 and 1.2, a second version and a handle declared twice are malformed. -/
def directives? (versioned : Bool) (handles : List (String × Octets)) :
    List Token → Option (List (String × Octets) × List Token)
  | .version major minor :: rest =>
    if versioned || major != 1 || !(minor == 1 || minor == 2) then none
    else directives? true handles rest
  | .tagHandle handle uri :: rest =>
    if (handles.lookup handle).isSome then none
    else directives? versioned (handles ++ [(handle, uri)]) rest
  | rest => some (handles ++ standardHandles, rest)

/-- Whether a token stands between documents. -/
def Token.isApart : Token → Bool
  | .version _ _ => true
  | .tagHandle _ _ => true
  | .documentStart => true
  | .documentEnd => true
  | .streamEnd => true
  | _ => false

/-- The events of the first document, and the tokens after it. A document that starts with directives
or a mark may be empty; a text without any token has no events. -/
def firstDocument? : List Token → Option (List (Event String) × List Token)
  | [.streamEnd] => some ([], [.streamEnd])
  | .documentEnd :: _ => none
  | token :: tokens =>
    if token.isApart then do
      let (handles, rest) ← directives? false [] (token :: tokens)
      match rest with
      | .documentStart :: rest =>
        if rest.head?.all Token.isApart then some ([.missing], rest) else nodeEvents? handles rest
      | _ => none
    else nodeEvents? standardHandles (token :: tokens)
  | [] => none

/-- **The events of the only document of a text**; `none` when the text is malformed or holds a second
document. -/
def Event.ofTokens? (tokens : List Token) : Option (List (Event String)) :=
  match firstDocument? tokens with
  | some (events, rest) =>
    if rest.dropWhile (· == .documentEnd) = [.streamEnd] then some events else none
  | none => none

/-! ### Aliases -/

/-- A document with the places of the nodes that aliases refer to. -/
structure Document where
  events : List (Event Nat)
  targets : List (Nat × Nat) := []

/-- The event of a node without aliases, and its anchor. -/
def Event.withoutAlias {α : Type} : Event String → Event α × Option String
  | .alias _ => (.missing, none)
  | .scalar properties plain text => (.scalar properties plain text, properties.anchor)
  | .sequenceStart properties => (.sequenceStart properties, properties.anchor)
  | .sequenceEnd => (.sequenceEnd, none)
  | .mappingStart properties => (.mappingStart properties, properties.anchor)
  | .mappingEnd => (.mappingEnd, none)

/-- The events with every alias linked. An anchor gets as its number the count of the names known so
far, so after a name was used twice two anchors share a number; **of anchors with one number the last
is the target**. An alias has the number that its name has where it stands. -/
def linkFrom? (names : List (String × Nat)) (index : Nat) (targets : List (Nat × Nat)) :
    List (Event String) → Option Document
  | [] => some ⟨[], targets⟩
  | .alias name :: events => do
    let number ← names.lookup name
    let document ← linkFrom? names (index + 1) targets events
    return { document with events := .alias number :: document.events }
  | event :: events => do
    let (plainEvent, anchor) := event.withoutAlias
    let document ← match anchor with
      | none => linkFrom? names (index + 1) targets events
      | some name =>
        linkFrom? ((name, names.length) :: names.filter (·.1 != name)) (index + 1)
          ((names.length, index) :: targets) events
    return { document with events := plainEvent :: document.events }

/-- **The document of a text**; `none` when the text is malformed, holds a second document or an alias
without an anchor before it. -/
def Document.ofText? (text : List Char) : Option Document := do
  let tokens ← Token.ofText? text
  let events ← Event.ofTokens? tokens
  linkFrom? [] 0 [] events

/-- The events from the target of an alias on. -/
def Document.target (document : Document) (number : Nat) : List (Event Nat) :=
  match document.targets.lookup number with
  | some index => document.events.drop index
  | none => []

end LivingGuide.Yaml
