import LivingGuide.Source

/-!
# Guides

A guide is the list of the documented blocks of all sources.  Blocks are appended as they are read and
put into section order at the end.

* `Guide.addSource`: the blocks of a text appended, all or none
* `Guide.sort`: the blocks in section order, equal sections in the order of their addition
-/

namespace LivingGuide

/-- The documented blocks of all sources. -/
structure Guide where
  blocks : List Block := []
deriving DecidableEq, Repr

namespace Guide

/-- The guide without blocks. -/
def empty : Guide := {}

/-- The guide with blocks appended. -/
def add (guide : Guide) (blocks : List Block) : Guide :=
  ⟨guide.blocks ++ blocks⟩

/-- The guide with the blocks of a text appended, and their number. -/
def addSource (guide : Guide) (text : String) : Except Error (Guide × Nat) :=
  match Source.parse text with
  | .ok source => .ok (guide.add source.blocks, source.blocks.length)
  | .error error => .error error

/-- Blocks in the order of the numbers before them; blocks with equal numbers keep their order. -/
def sortByNumber (numbered : List (SectionNumber × Block)) : List Block :=
  (numbered.mergeSort fun a b => a.1.le b.1).map (·.2)

/-- **The guide in section order.** The error is that of the first block whose section is no
number. -/
def sort (guide : Guide) : Except Error Guide :=
  match guide.blocks.mapM Block.number with
  | .ok numbers => .ok ⟨sortByNumber (numbers.zip guide.blocks)⟩
  | .error error => .error error

end Guide

end LivingGuide
