import LivingGuide.Source
import LivingGuide.Proofs.Block
import Mathlib.Control.Monad.Basic

/-!
# Writing out what was read

A block can be written as comment lines again: its name, its description, its modifiers and its
example, each followed by a bare comment sign, then the section line, and an empty line that closes
the run.  This file shows that for blocks that were read from a text this is the inverse of reading:
every block comes back with all its fields, in the same order, and nothing is left open.

The steps are those of reading.  The text falls into the lines that were written
(`linesOf_writtenText`), its runs are the contents of the blocks (`stretches_writtenBlocks`), the
groups of a run are the parts of its block (`groups_contents`), and the parts make up the block
again (`ofLines_contents`).  Each step needs a fact about the fields, and `Block.WellRead` has them
all.
-/

namespace LivingGuide

open Text Comment

/-! ### The written form -/

/-- The lines of a part as comment lines, and a bare comment sign after them.  A part that is
missing is not written. -/
def writtenPart (lines : List String) : List String :=
  if lines.isEmpty then [] else lines.map sign ++ ["//"]

/-- The line that names the section of a block. -/
def Block.sectionLine (b : Block) : String :=
  marker ++ " " ++ b.sectionText

/-- The comment lines that document a block. -/
def Block.writtenLines (b : Block) : List String :=
  writtenPart [b.name] ++ (writtenPart (linesOf b.description)
    ++ (writtenPart (b.modifiers.map Modifier.text) ++ (writtenPart (linesOf b.markup)
    ++ [sign b.sectionLine])))

/-- **A block as source text**: its comment lines and an empty line, each ended by a line feed. -/
def Block.written (b : Block) : String :=
  String.join ((b.writtenLines ++ [""]).map (· ++ "\n"))

/-- Blocks as source text, one after the other. -/
def writtenText (blocks : List Block) : String :=
  String.join (blocks.map Block.written)

/-! ### The contents of the written lines -/

/-- What the comment lines of a part hold. -/
def contentPart (lines : List String) : List String :=
  if lines.isEmpty then [] else lines ++ [""]

/-- What the comment lines of a block hold. -/
def Block.contents (b : Block) : List String :=
  contentPart [b.name] ++ (contentPart (linesOf b.description)
    ++ (contentPart (b.modifiers.map Modifier.text) ++ (contentPart (linesOf b.markup)
    ++ [b.sectionLine])))

theorem content?_writtenPart {lines : List String} (h : ∀ l ∈ lines, IsContent l) :
    List.Forall₂ (fun l s => content? l = some s) (writtenPart lines) (contentPart lines) := by
  rw [writtenPart, contentPart]
  split
  · exact .nil
  · refine List.rel_append ?_ (.cons content?_bare .nil)
    rw [List.forall₂_map_left_iff, List.forall₂_same]
    exact fun l hl => content?_sign (h l hl)

theorem isLine_writtenPart {lines : List String} (h : ∀ l ∈ lines, IsContent l) :
    ∀ l ∈ writtenPart lines, IsLine l := by
  rw [writtenPart]
  split
  · exact fun l hl => absurd hl (by simp)
  · intro l hl
    rcases List.mem_append.mp hl with hl | hl
    · obtain ⟨s, hs, rfl⟩ := List.mem_map.mp hl
      exact isLine_sign (h s hs)
    · obtain rfl := List.mem_singleton.mp hl
      exact ⟨by decide, by decide⟩

theorem isPart_linesOf {kind : GroupKind} {s : String}
    (h : ∃ lines, IsPart kind lines ∧ s = String.intercalate "\n" lines) :
    IsPart kind (linesOf s) ∧ String.intercalate "\n" (linesOf s) = s := by
  obtain ⟨lines, hlines, rfl⟩ := h
  rw [linesOf_intercalate hlines.isLine]
  exact ⟨hlines, rfl⟩

theorem IsPart.isContent {kind : GroupKind} {lines : List String} (h : IsPart kind lines) :
    ∀ l ∈ lines, IsContent l := by
  rcases h with rfl | h
  · exact fun l hl => absurd hl (by simp)
  · exact h.content

namespace Block

variable {b : Block}

theorem isContent_sectionLine (h : IsWord b.sectionText.toList) : IsContent b.sectionLine := by
  have hcs : b.sectionLine.toList = (marker ++ " ").toList ++ b.sectionText.toList := by
    rw [sectionLine, String.toList_append]
  refine ⟨?_, ?_⟩
  · rw [hcs, List.mem_append, not_or]
    exact ⟨by decide, fun hmem => absurd (h.2 _ hmem) (by decide)⟩
  · rw [hcs]
    refine NoTrailingBlank.append (fun c hc => ?_) h.1 _
    exact h.2 c (List.mem_of_mem_getLast? hc)

theorem WellRead.isContent_name (h : b.WellRead) : ∀ l ∈ [b.name], IsContent l := by
  intro l hl
  rw [List.mem_singleton.mp hl]
  exact h.name.1

/-- **The written lines of a block are comment lines that hold its contents.** -/
theorem content?_writtenLines (h : b.WellRead) (hs : IsWord b.sectionText.toList) :
    List.Forall₂ (fun l s => content? l = some s) b.writtenLines b.contents := by
  refine List.rel_append (content?_writtenPart h.isContent_name) (List.rel_append
    (content?_writtenPart (isPart_linesOf h.description).1.isContent) (List.rel_append
    (content?_writtenPart h.modifiers.1.isContent) (List.rel_append
    (content?_writtenPart (isPart_linesOf h.markup).1.isContent) ?_)))
  exact .cons (content?_sign (isContent_sectionLine hs)) .nil

theorem isLine_writtenLines (h : b.WellRead) (hs : IsWord b.sectionText.toList) :
    ∀ l ∈ b.writtenLines, IsLine l := by
  intro l hl
  simp only [writtenLines, List.mem_append, List.mem_singleton] at hl
  rcases hl with hl | hl | hl | hl | rfl
  · exact isLine_writtenPart h.isContent_name l hl
  · exact isLine_writtenPart (isPart_linesOf h.description).1.isContent l hl
  · exact isLine_writtenPart h.modifiers.1.isContent l hl
  · exact isLine_writtenPart (isPart_linesOf h.markup).1.isContent l hl
  · exact isLine_sign (isContent_sectionLine hs)

/-! ### The groups of the contents -/

/-- The group that a part is. -/
def partGroup (lines : List String) : List (List String) :=
  if lines.isEmpty then [] else [lines]

theorem groups_contentPart {lines : List String} (h : ∀ l ∈ lines, l ≠ "") (rest : List String) :
    groups (contentPart lines ++ rest) = partGroup lines ++ groups rest := by
  rw [contentPart, partGroup]
  split
  · rfl
  · next hne =>
    rw [List.isEmpty_iff] at hne
    rw [List.append_assoc, List.singleton_append,
      groups_append hne h (fun l hl => by cases hl; rfl), groups_cons_empty]
    rfl

theorem sectionLine_ne_empty (b : Block) : b.sectionLine ≠ "" := by
  intro h
  have hcs := congrArg String.toList h
  rw [sectionLine, String.toList_append, String.toList_append, List.append_assoc] at hcs
  exact absurd hcs (by simp [marker])

/-- **The groups of the contents of a block are its parts.** -/
theorem groups_contents (h : b.WellRead) :
    groups b.contents =
      [b.name] :: (partGroup (linesOf b.description)
        ++ (partGroup (b.modifiers.map Modifier.text) ++ (partGroup (linesOf b.markup)
        ++ [[b.sectionLine]]))) := by
  have hname : ∀ l ∈ [b.name], l ≠ "" := by
    intro l hl
    rw [List.mem_singleton.mp hl]
    exact h.name.2
  have hsection : groups [b.sectionLine] = [[b.sectionLine]] := by
    have hgroups : groups ([b.sectionLine] ++ []) = [b.sectionLine] :: groups [] :=
      groups_append (by simp) (fun l hl => List.mem_singleton.mp hl ▸ sectionLine_ne_empty b)
        (fun l hl => absurd hl (by simp))
    rwa [List.append_nil, groups_nil] at hgroups
  rw [contents, groups_contentPart hname,
    groups_contentPart (fun l hl => ((isPart_linesOf h.description).1.isLine l hl).2),
    groups_contentPart (fun l hl => (h.modifiers.1.isLine l hl).2),
    groups_contentPart (fun l hl => ((isPart_linesOf h.markup).1.isLine l hl).2), hsection]
  rfl

/-! ### The parts make up the block -/

variable {draft : Block} {lines : List String} {rest : List (List String)}

theorem partGroup_append {kind : GroupKind} (h : IsGroup kind lines) :
    partGroup lines ++ rest = lines :: rest := by
  have hne : ¬ lines.isEmpty = true := fun hnil => h.ne_nil (List.isEmpty_iff.mp hnil)
  rw [partGroup, if_neg hne]
  rfl

theorem complete_description (h : IsPart .text lines) (hrest : rest ≠ [])
    (hdraft : draft.description = "") :
    complete draft (partGroup lines ++ rest) =
      complete { draft with description := String.intercalate "\n" lines } rest := by
  rcases h with rfl | h
  · obtain ⟨_, _, _, _, _⟩ := draft
    subst hdraft
    rfl
  · have hne : ¬ rest.isEmpty = true := fun h => hrest (List.isEmpty_iff.mp h)
    rw [partGroup_append h, complete, h.kind_eq]
    exact if_neg hne

theorem complete_modifiers {ms : List Modifier} (h : IsPart .modifiers lines)
    (hms : lines.mapM Modifier.parse = .ok ms) (hdraft : draft.modifiers = []) :
    complete draft (partGroup lines ++ rest) = complete { draft with modifiers := ms } rest := by
  rcases h with rfl | h
  · obtain ⟨_, _, _, _, _⟩ := draft
    cases hms
    subst hdraft
    rfl
  · rw [partGroup_append h, complete, h.kind_eq]
    simp only [hms]

theorem complete_markup (h : IsPart .markup lines) (hdraft : draft.markup = "") :
    complete draft (partGroup lines ++ rest) =
      complete { draft with markup := String.intercalate "\n" lines } rest := by
  rcases h with rfl | h
  · obtain ⟨_, _, _, _, _⟩ := draft
    subst hdraft
    rfl
  · rw [partGroup_append h, complete, h.kind_eq]

theorem wordsOf_sectionLine (h : IsWord b.sectionText.toList) :
    wordsOf b.sectionLine = [marker, b.sectionText] := by
  have hcs : b.sectionLine.toList = marker.toList ++ (' ' :: (b.sectionText.toList ++ [])) := by
    rw [sectionLine, String.toList_append, String.toList_append, List.append_assoc, List.append_nil]
    rfl
  have hnoBlank : marker.toList.all (!isBlank ·) = true := by decide
  have hmarker : IsWord marker.toList := ⟨by decide, by simpa using hnoBlank⟩
  rw [wordsOf, hcs, words_append hmarker (fun c hc => by cases hc; decide),
    words_cons_blank (by decide), words_append h (fun c hc => absurd hc (by simp)), words_nil,
    List.map_cons, List.map_cons, List.map_nil, String.ofList_toList, String.ofList_toList]

theorem complete_section (h : IsWord b.sectionText.toList) :
    complete draft [[b.sectionLine]] = .ok { draft with sectionText := b.sectionText } := by
  have hkind : GroupKind.of [b.sectionLine] = .text := by
    rw [GroupKind.of, List.headD_cons, sectionLine, String.toList_append, String.toList_append,
      List.append_assoc]
    rfl
  have hfound : sectionOfLine draft.name b.sectionLine = .ok b.sectionText := by
    rw [sectionOfLine, wordsOf_sectionLine h]
    rfl
  rw [complete, hkind]
  simp only [List.isEmpty_nil, if_true, List.headD_cons, hfound]

/-- **The contents of a block that was read are read as the same block.** -/
theorem ofLines_contents (h : b.WellRead) (hs : IsWord b.sectionText.toList) :
    ofLines b.contents = .ok b := by
  obtain ⟨hdescription, hdescription_eq⟩ := isPart_linesOf h.description
  obtain ⟨hmarkup, hmarkup_eq⟩ := isPart_linesOf h.markup
  rw [ofLines, groups_contents h]
  simp only
  rw [complete_description hdescription (by simp) rfl,
    complete_modifiers h.modifiers.1 h.modifiers.2 rfl, complete_markup hmarkup rfl,
    complete_section hs, hdescription_eq, hmarkup_eq]

theorem isDocumented_contents (b : Block) : isDocumented b.contents = true := by
  have hlast : b.contents.getLast? = some b.sectionLine := by
    rw [contents, ← List.append_assoc, ← List.append_assoc, ← List.append_assoc,
      List.getLast?_append_of_ne_nil _ (by simp)]
    rfl
  rw [isDocumented, hlast, Option.any_some, contains, occursIn_iff, sectionLine,
    String.toList_append, String.toList_append, List.append_assoc]
  exact (List.prefix_append _ _).isInfix

end Block

/-! ### Whole texts -/

/-- Blocks that were read, as far as writing them out is concerned. -/
def AllWellRead (blocks : List Block) : Prop :=
  ∀ b ∈ blocks, b.WellRead ∧ IsWord b.sectionText.toList

theorem linesOf_writtenText {blocks : List Block} (h : AllWellRead blocks) :
    linesOf (writtenText blocks) = blocks.flatMap fun b => b.writtenLines ++ [""] := by
  have htext : writtenText blocks =
      String.join ((blocks.flatMap fun b => b.writtenLines ++ [""]).map (· ++ "\n")) := by
    clear h
    rw [writtenText]
    induction blocks with
    | nil => rfl
    | cons b blocks ih =>
      rw [List.map_cons, String.join_cons, ih, List.flatMap_cons, List.map_append,
        String.join_append, Block.written]
  rw [htext, linesOf_join]
  intro l hl
  obtain ⟨b, hb, hl⟩ := List.mem_flatMap.mp hl
  rcases List.mem_append.mp hl with hl | hl
  · exact Block.isLine_writtenLines (h b hb).1 (h b hb).2 l hl
  · obtain rfl := List.mem_singleton.mp hl
    exact ⟨by decide, by decide⟩

/-- **The stretches of written blocks are their contents**, and none is left open. -/
theorem stretches_writtenBlocks {blocks : List Block} (h : AllWellRead blocks) :
    stretches (blocks.flatMap fun b => b.writtenLines ++ [""]) =
      (blocks.map Block.contents, []) := by
  induction blocks with
  | nil => rfl
  | cons b blocks ih =>
    have hb := h b (by simp)
    rw [List.flatMap_cons, List.append_assoc, List.singleton_append,
      stretches_append (Block.content?_writtenLines hb.1 hb.2) content?_empty,
      ih (fun c hc => h c (by simp [hc])), List.map_cons]

theorem parse_writtenText {blocks : List Block} (h : AllWellRead blocks) :
    Source.parse (writtenText blocks) = .ok ⟨blocks, none⟩ := by
  have hstretches := stretches_writtenBlocks h
  have hruns : runs (linesOf (writtenText blocks)) = blocks.map Block.contents := by
    rw [runs, linesOf_writtenText h, hstretches, List.filter_eq_self]
    intro run hrun
    obtain ⟨b, -, rfl⟩ := List.mem_map.mp hrun
    exact b.isDocumented_contents
  have hopen : unterminated? (linesOf (writtenText blocks)) = none := by
    rw [unterminated?, linesOf_writtenText h, hstretches]
    rfl
  have hread : (blocks.map Block.contents).mapM Block.ofLines = .ok blocks := by
    rw [mapM_eq_ok_iff, List.forall₂_map_left_iff, List.forall₂_same]
    exact fun b hb => Block.ofLines_contents (h b hb).1 (h b hb).2
  rw [Source.parse]
  simp only [hruns, hread, hopen]

theorem allWellRead_of_parse {text : String} {source : Source}
    (h : Source.parse text = .ok source) : AllWellRead source.blocks := by
  rw [Source.parse] at h
  split at h
  · next blocks hblocks =>
    cases h
    intro b hb
    obtain ⟨run, hrun, hread⟩ := exists_left_of_forall₂ (mapM_eq_ok_iff.mp hblocks) b hb
    exact Block.wellRead_ofLines (fun l hl => isContent_of_mem_runs hrun hl) hread
  · cases h

/-- **Writing out what was read, and reading it again, changes nothing.** -/
theorem Source.parse_writtenText_of_parse {text : String} {source : Source}
    (h : Source.parse text = .ok source) :
    Source.parse (writtenText source.blocks) = .ok ⟨source.blocks, none⟩ :=
  LivingGuide.parse_writtenText (allWellRead_of_parse h)

/-- A card whose comment sign touches its name, with an indented description, a modifier whose
selector is a hyphen, a section line that the marker follows, and an open run behind it. -/
theorem Source.parse_writtenText_card :
    let text := "//Card\n//\n//  A box.\n//\n// .wide   -   Full width \r\n//   - - odd\n//\n"
      ++ "// <i>\n//  x\n//\n// see 1.2\n// Styleguide\n\n// Tail\n//\n// Styleguide 3"
    let card : Block :=
      ⟨"Card", " A box.", [⟨".wide", "Full width"⟩, ⟨"-", "odd"⟩], "<i>\n x", "1.2"⟩
    Source.parse text = .ok ⟨[card], some ["Tail", "", "Styleguide 3"]⟩ ∧
      Source.parse (writtenText [card]) = .ok ⟨[card], none⟩ := by
  intro text card
  have h : Source.parse text = .ok ⟨[card], some ["Tail", "", "Styleguide 3"]⟩ := by
    decide +kernel
  have hwritten := Source.parse_writtenText_of_parse h
  exact ⟨h, hwritten⟩

end LivingGuide
