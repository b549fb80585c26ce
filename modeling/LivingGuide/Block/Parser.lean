import LivingGuide.Block.Basic

/-!
# Reading a block

The lines of a block fall into *groups* separated by empty lines.  The first group is the name.  Of
the others, one that starts with `<` is the example, one that starts with `.` or `:` lists modifiers,
the last one is the section line, and any other is the description.  They may come in any order, and
of two groups of one kind the later counts.

* `groups`: the maximal runs of non-empty lines
* `Block.ofLines`: the block that lines describe
-/

namespace LivingGuide

/-- **The maximal runs of non-empty lines.** -/
def groups : List String → List (List String)
  | [] => []
  | line :: lines =>
    if line.isEmpty then groups lines
    else (line :: lines.takeWhile (!·.isEmpty)) :: groups (lines.dropWhile (!·.isEmpty))
termination_by lines => lines.length
decreasing_by
  · simp
  · exact Nat.lt_succ_of_le (List.dropWhile_sublist _).length_le

@[simp]
theorem groups_nil : groups [] = [] := by
  rw [groups]

theorem groups_cons (line : String) (lines : List String) :
    groups (line :: lines) = if line.isEmpty then groups lines
      else (line :: lines.takeWhile (!·.isEmpty)) :: groups (lines.dropWhile (!·.isEmpty)) := by
  rw [groups]

/-- What a group declares, as far as its first character tells. -/
inductive GroupKind where
  | markup
  | modifiers
  | text
deriving DecidableEq, Repr

/-- The kind of a group, by the first character of its first line. -/
def GroupKind.of (group : List String) : GroupKind :=
  match (group.headD "").toList.head? with
  | some '<' => .markup
  | some '.' => .modifiers
  | some ':' => .modifiers
  | _ => .text

namespace Block

/-- The section that a section line names: its second word. -/
def sectionOfLine (name line : String) : Except Error String :=
  match (Text.wordsOf line)[1]? with
  | some word => .ok word
  | none => .error (.block (.noIdentifier line name))

/-- The block that a draft becomes when groups are added to it in turn. The last group that is
neither an example nor a list of modifiers is the section line. -/
def complete (draft : Block) : List (List String) → Except Error Block
  | [] => .error (.block (.noSection draft.name))
  | group :: rest =>
    match GroupKind.of group with
    | .markup => complete { draft with markup := String.intercalate "\n" group } rest
    | .modifiers =>
      match group.mapM Modifier.parse with
      | .ok modifiers => complete { draft with modifiers } rest
      | .error error => .error error
    | .text =>
      if rest.isEmpty then
        match sectionOfLine draft.name (group.headD "") with
        | .ok found => .ok { draft with sectionText := found }
        | .error error => .error error
      else complete { draft with description := String.intercalate "\n" group } rest

/-- **The block that lines describe.** -/
def ofLines (lines : List String) : Except Error Block :=
  match groups lines with
  | [] => .error (.block .empty)
  | [name] :: rest =>
    complete { name, description := "", modifiers := [], markup := "", sectionText := "" } rest
  | group :: _ => .error (.block (.longName group.length (group.headD "")))

end Block

end LivingGuide
