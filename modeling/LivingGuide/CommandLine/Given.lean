import LivingGuide.CommandLine.Argument

/-!
# What a command line gives

Arguments are read from left to right.  A value that stands apart from its option, and words given by
their place, are first held back: they are *settled*, that is counted and checked, when the next
argument begins or the command line ends.  A command line can therefore be refused for an unknown
argument although a value before it is wrong.

* `Form.ofText`: the forms of an argument
* `Given.settle`: the check of what is held back
* `Given.read`: what the arguments of a command give
-/

namespace LivingGuide

/-! ### Forms -/

/-- The forms of an argument. -/
inductive Form where
  /-- Two hyphens alone: all that follows is given by its place. -/
  | divider
  /-- A long name after two hyphens, with or without a value. -/
  | long (name : String) (value : Option String)
  /-- Letters after a hyphen. -/
  | letters (cluster : List Char)
  /-- Anything else, a single hyphen included. -/
  | word (text : String)
deriving DecidableEq, Repr

/-- A long name, and the value after the first equals sign. -/
def Form.ofName (text : List Char) : Form :=
  match text.span (· != '=') with
  | (name, []) => .long (String.ofList name) none
  | (name, _ :: value) => .long (String.ofList name) (some (String.ofList value))

/-- **The form of an argument.** -/
def Form.ofText (text : String) : Form :=
  match text.toList with
  | ['-', '-'] => .divider
  | '-' :: '-' :: rest => Form.ofName rest
  | '-' :: letter :: rest => .letters (letter :: rest)
  | _ => .word text

/-! ### Settling -/

/-- The arguments given so far. -/
structure Given where
  /-- The arguments that were counted and checked, with their values. -/
  settled : List (Argument × List String) := []
  /-- The argument whose values are held back. -/
  pending : Option (Argument × List String) := none
deriving DecidableEq, Repr

namespace Given

/-- Whether an argument is settled. -/
def has (given : Given) (argument : Argument) : Bool :=
  given.settled.any (·.1 == argument)

/-- All values of an argument. -/
def values (given : Given) (argument : Argument) : List String :=
  (given.settled.filter (·.1 == argument)).flatMap (·.2)

/-- The value of an argument. -/
def value? (given : Given) (argument : Argument) : Option String :=
  (given.values argument).head?

/-- One more settled argument, and nothing held back, unless it is there already and may not be
repeated. -/
def add (given : Given) (argument : Argument) (values : List String) : Except Usage Given :=
  if given.has argument && !argument.repeats then .error .conflict
  else if values.all argument.accepts then .ok ⟨given.settled ++ [(argument, values)], none⟩
  else .error .invalidValue

/-- **Settles what is held back.** An option without a value comes before one that is repeated, and
that before a wrong value. -/
def settle (given : Given) : Except Usage Given :=
  match given.pending with
  | none => .ok given
  | some (_, []) => .error .invalidValue
  | some (argument, values) => given.add argument values

/-! ### Single arguments -/

/-- A flag. Help and the version are asked for at once. -/
def flag (given : Given) (argument : Argument) : Except Usage Given := do
  let given ← given.settle
  match argument with
  | .help => .error .help
  | .version => .error .version
  | argument => given.add argument []

/-- An option. A value attached to it is settled at once, one that is to follow is held back. -/
def option (given : Given) (argument : Argument) (value : Option String) : Except Usage Given := do
  let given ← given.settle
  match value with
  | some value => given.add argument [value]
  | none => return { given with pending := some (argument, []) }

/-- A long name. -/
def long (grammar : Grammar) (given : Given) (name : String) (value : Option String) :
    Except Usage Given :=
  match grammar.ofName? name with
  | none => .error .unknownArgument
  | some argument =>
    if argument.isOption then given.option argument value
    else if value.isSome then .error .surplusValue
    else given.flag argument

/-- The value that is attached to a letter, with or without an equals sign. -/
def attached : List Char → Option String
  | [] => none
  | '=' :: value => some (String.ofList value)
  | value => some (String.ofList value)

/-- Letters in turn. The letter of an option takes what follows it as its value. -/
def letters (grammar : Grammar) (given : Given) : List Char → Except Usage Given
  | [] => .ok given
  | letter :: rest =>
    match grammar.ofLetter? letter with
    | none => .error .unknownArgument
    | some argument =>
      if argument.isOption then given.option argument (attached rest)
      else do
        let given ← given.flag argument
        letters grammar given rest

/-- Whether words for an argument are held back. -/
def holds (given : Given) (argument : Argument) : Bool :=
  given.pending.any (·.1 == argument)

/-- A word given by its place. Words for an argument that repeats are held back together, and the
other arguments take one word. -/
def place (grammar : Grammar) (given : Given) (word : String) : Except Usage Given :=
  match grammar.placed with
  | none => .error .unknownArgument
  | some argument =>
    if (given.has argument || given.holds argument) && !argument.repeats then
      .error .unknownArgument
    else if given.holds argument then
      .ok { given with pending := given.pending.map fun held => (held.1, held.2 ++ [word]) }
    else do
      let given ← given.settle
      return { given with pending := some (argument, [word]) }

/-- A word: the value of an option that waits for one, or given by its place. -/
def word (grammar : Grammar) (given : Given) (text : String) : Except Usage Given :=
  match given.pending with
  | some (argument, []) => .ok { given with pending := some (argument, [text]) }
  | _ => given.place grammar text

/-! ### All arguments -/

/-- **What the arguments of a command give.** -/
def read (grammar : Grammar) (given : Given) : List String → Except Usage Given
  | [] => given.settle
  | text :: rest =>
    match Form.ofText text with
    | .divider => do
      let given ← rest.foldlM (place grammar) given
      given.settle
    | .long name value => do
      let given ← given.long grammar name value
      read grammar given rest
    | .letters cluster => do
      let given ← given.letters grammar cluster
      read grammar given rest
    | .word text => do
      let given ← given.word grammar text
      read grammar given rest

end Given

end LivingGuide
