import LivingGuide.Check
import LivingGuide.Proofs.Markup.Page
import LivingGuide.Proofs.Text
import Mathlib.Data.List.Infix

/-!
# Placeholders in examples

The check for modifiers asks whether the placeholder occurs in an example; the page puts a class
where it stands.  The first is a search, the second a replacement from left to right that never looks
at what it has put in.  Both come down to one cut of the text.  The *pieces* of a text stand between
the occurrences of a mark, and

    replaceAll mark new cs = new.intercalate (pieces mark cs),

for any class, so the mark itself gives back the text (`intercalate_pieces`).  No piece holds the mark,
because a piece ends at the first place where the mark starts (`not_infix_of_mem_pieces`).  The
placeholder starts with a character that it holds only once, so two of its occurrences never overlap
and there is one piece more than there are occurrences (`length_pieces`).

* `Text.occurrences`: the number of places where a mark starts.
* `Block.markupWith_agrees`: **what the check says is what the page shows.**
-/

namespace LivingGuide

namespace Text

/-! ### Pieces between marks -/

/-- The texts between the occurrences of a mark, found from left to right. -/
def pieces (mark : List Char) : List Char → List (List Char)
  | [] => [[]]
  | c :: cs =>
    if mark.isPrefixOf (c :: cs) then [] :: pieces mark (cs.drop (mark.length - 1))
    else (pieces mark cs).modifyHead (c :: ·)
termination_by cs => cs.length
decreasing_by
  · simp only [List.length_drop, List.length_cons]
    omega
  · simp

/-- The number of places in a text where a mark starts. -/
def occurrences (mark cs : List Char) : Nat :=
  cs.tails.countP mark.isPrefixOf

variable {mark cs : List Char}

theorem pieces_ne_nil (mark cs : List Char) : pieces mark cs ≠ [] := by
  fun_induction pieces mark cs with
  | case1 => exact List.cons_ne_nil _ _
  | case2 => exact List.cons_ne_nil _ _
  | case3 c cs _ ih =>
    obtain ⟨first, rest, hpieces⟩ := List.exists_cons_of_ne_nil ih
    rw [hpieces, List.modifyHead_cons]
    exact List.cons_ne_nil _ _

theorem intercalate_modifyHead (new : List Char) (c : Char) {parts : List (List Char)}
    (h : parts ≠ []) :
    new.intercalate (parts.modifyHead (c :: ·)) = c :: new.intercalate parts := by
  obtain ⟨first, rest, rfl⟩ := List.exists_cons_of_ne_nil h
  rw [List.modifyHead_cons, List.intercalate_cons_cons_left]

theorem intercalate_nil_cons (new : List Char) {parts : List (List Char)} (h : parts ≠ []) :
    new.intercalate ([] :: parts) = new ++ new.intercalate parts := by
  rw [List.intercalate_cons_of_ne_nil h, List.nil_append]

/-- **Replacing a mark joins the pieces by what is put in.** -/
theorem replaceAll_eq_intercalate (mark new cs : List Char) :
    replaceAll mark new cs = new.intercalate (pieces mark cs) := by
  fun_induction pieces mark cs with
  | case1 => rw [replaceAll_nil, List.intercalate_singleton]
  | case2 c cs hmark ih =>
    rw [replaceAll_cons, if_pos hmark, ih, intercalate_nil_cons _ (pieces_ne_nil _ _)]
  | case3 c cs hmark ih =>
    rw [replaceAll_cons, if_neg hmark, ih, intercalate_modifyHead _ _ (pieces_ne_nil _ _)]

/-- **The pieces joined by the mark are the text.** -/
theorem intercalate_pieces (hmark : mark ≠ []) (cs : List Char) :
    mark.intercalate (pieces mark cs) = cs := by
  fun_induction pieces mark cs with
  | case1 => exact List.intercalate_singleton
  | case2 c cs hhere ih =>
    obtain ⟨m, rest, rfl⟩ := List.exists_cons_of_ne_nil hmark
    obtain ⟨tail, htail⟩ := List.isPrefixOf_iff_prefix.mp hhere
    rw [List.cons_append] at htail
    obtain ⟨rfl, rfl⟩ := List.cons.inj htail
    rw [intercalate_nil_cons _ (pieces_ne_nil _ _), ih]
    simp
  | case3 c cs _ ih => rw [intercalate_modifyHead _ _ (pieces_ne_nil _ _), ih]

theorem prefix_of_pieces (hmark : mark ≠ []) {first : List Char} {rest : List (List Char)}
    (h : pieces mark cs = first :: rest) : first <+: cs := by
  have hwhole := intercalate_pieces hmark cs
  rw [h] at hwhole
  cases rest with
  | nil =>
    rw [List.intercalate_singleton] at hwhole
    rw [hwhole]
  | cons second rest =>
    rw [List.intercalate_cons_cons, List.append_assoc] at hwhole
    exact ⟨_, hwhole⟩

/-- **No piece holds the mark.** -/
theorem not_infix_of_mem_pieces (hmark : mark ≠ []) {part : List Char}
    (h : part ∈ pieces mark cs) : ¬ mark <:+: part := by
  fun_induction pieces mark cs generalizing part with
  | case1 =>
    rw [List.mem_singleton.mp h, List.infix_nil]
    exact hmark
  | case2 c cs _ ih =>
    rcases List.mem_cons.mp h with rfl | h
    · rw [List.infix_nil]
      exact hmark
    · exact ih h
  | case3 c cs hhere ih =>
    obtain ⟨first, rest, hpieces⟩ := List.exists_cons_of_ne_nil (pieces_ne_nil mark cs)
    rw [hpieces, List.modifyHead_cons] at h
    rw [hpieces] at ih
    rcases List.mem_cons.mp h with rfl | h
    · -- the mark does not start here, and the rest of the piece is the piece that starts later
      rw [List.infix_cons_iff, not_or]
      refine ⟨fun hstarts => hhere ?_, ih List.mem_cons_self⟩
      have hwhole : c :: first <+: c :: cs :=
        List.cons_prefix_cons.mpr ⟨rfl, prefix_of_pieces hmark hpieces⟩
      exact List.isPrefixOf_iff_prefix.mpr (hstarts.trans hwhole)
    · exact ih (List.mem_cons_of_mem _ h)

/-! ### Counting occurrences -/

theorem occurrences_cons (mark : List Char) (c : Char) (cs : List Char) :
    occurrences mark (c :: cs) =
      occurrences mark cs + if mark.isPrefixOf (c :: cs) then 1 else 0 := by
  rw [occurrences, List.tails_cons, List.countP_cons]
  rfl

/-- A mark does not start inside a text without its first character. -/
theorem occurrences_append {m : Char} {rest before : List Char} (h : m ∉ before) (cs : List Char) :
    occurrences (m :: rest) (before ++ cs) = occurrences (m :: rest) cs := by
  induction before with
  | nil => rfl
  | cons b before ih =>
    obtain ⟨hne, hbefore⟩ := not_or.mp (fun hor => h (List.mem_cons.mpr hor))
    have hhere : ¬ (m :: rest).isPrefixOf (b :: (before ++ cs)) = true := by
      rw [List.isPrefixOf_iff_prefix, List.cons_prefix_cons]
      exact fun hstarts => hne hstarts.1
    rw [List.cons_append, occurrences_cons, if_neg hhere, Nat.add_zero, ih hbefore]

/-- **There is one piece more than there are occurrences**, when a mark cannot overlap itself. -/
theorem length_pieces {m : Char} {rest : List Char} (h : m ∉ rest) (cs : List Char) :
    (pieces (m :: rest) cs).length = occurrences (m :: rest) cs + 1 := by
  fun_induction pieces (m :: rest) cs with
  | case1 => rfl
  | case2 c cs hhere ih =>
    obtain ⟨tail, htail⟩ := List.isPrefixOf_iff_prefix.mp hhere
    rw [List.cons_append] at htail
    obtain ⟨rfl, rfl⟩ := List.cons.inj htail
    rw [List.length_cons, ih, occurrences_cons, if_pos hhere, occurrences_append h]
    simp
  | case3 c cs hhere ih =>
    rw [List.length_modifyHead, ih, occurrences_cons, if_neg hhere]

theorem occurrences_pos_iff (mark cs : List Char) : 0 < occurrences mark cs ↔ mark <:+: cs := by
  rw [occurrences, List.countP_pos_iff, List.infix_iff_prefix_suffix]
  simp only [List.mem_tails, List.isPrefixOf_iff_prefix]
  exact exists_congr fun tail => and_comm

theorem length_intercalate_lt {new : List Char} (hnew : new ≠ []) {parts : List (List Char)}
    (h : 1 < parts.length) :
    (([] : List Char).intercalate parts).length < (new.intercalate parts).length := by
  have hpos : 0 < new.length := List.length_pos_iff.mpr hnew
  induction parts with
  | nil => cases h
  | cons first parts ih =>
    cases parts with
    | nil => exact absurd h (Nat.lt_irrefl 1)
    | cons second parts =>
      rw [List.intercalate_cons_cons, List.intercalate_cons_cons]
      simp only [List.length_append, List.append_nil]
      cases parts with
      | nil =>
        simp only [List.intercalate_singleton]
        omega
      | cons third parts =>
        have := ih (by simp)
        omega

end Text

/-! ### Blocks -/

namespace Block

/-- The number of places in the example where a placeholder starts. -/
def placeholders (b : Block) : Nat :=
  Text.occurrences placeholder.toList b.markup.toList

/-- What stands between the placeholders of the example. -/
def parts (b : Block) : List String :=
  (Text.pieces placeholder.toList b.markup.toList).map String.ofList

variable (b : Block)

theorem placeholder_ne_nil : placeholder.toList ≠ [] := by
  decide

theorem toList_map_parts :
    b.parts.map String.toList = Text.pieces placeholder.toList b.markup.toList := by
  rw [parts, List.map_map]
  exact List.map_id'' (fun cs => String.toList_ofList) _

/-- **The example for a class is its parts joined by the class.** -/
theorem markupWith_eq (markupClass : String) :
    b.markupWith markupClass = String.intercalate markupClass b.parts := by
  rw [← String.toList_inj, String.toList_intercalate, toList_map_parts, markupWith,
    String.toList_ofList, Text.replaceAll_eq_intercalate]

theorem markup_eq : b.markup = String.intercalate placeholder b.parts := by
  rw [← String.toList_inj, String.toList_intercalate, toList_map_parts,
    Text.intercalate_pieces placeholder_ne_nil]

theorem length_parts : b.parts.length = b.placeholders + 1 := by
  rw [parts, List.length_map]
  exact Text.length_pieces (by decide : '$' ∉ "modifier".toList) _

theorem hasPlaceholder_iff : b.hasPlaceholder = true ↔ 0 < b.placeholders := by
  rw [placeholders, Text.occurrences_pos_iff]
  exact Text.occursIn_iff _ _

theorem markupWith_ne_empty {markupClass : String} (h : b.hasPlaceholder = true)
    (hclass : markupClass ≠ "") : b.markupWith markupClass ≠ b.markupWith "" := by
  have hparts : 1 < (b.parts.map String.toList).length := by
    rw [List.length_map, length_parts]
    have := b.hasPlaceholder_iff.mp h
    omega
  have hnew : markupClass.toList ≠ [] := fun hnil => hclass (String.toList_eq_nil_iff.mp hnil)
  intro hsame
  rw [markupWith_eq, markupWith_eq, ← String.toList_inj, String.toList_intercalate,
    String.toList_intercalate] at hsame
  have hlt := Text.length_intercalate_lt hnew hparts
  rw [hsame] at hlt
  exact Nat.lt_irrefl _ hlt

theorem not_infix_of_mem_parts {part : String} (h : part ∈ b.parts) :
    ¬ placeholder.toList <:+: part.toList := by
  obtain ⟨cs, hcs, rfl⟩ := List.mem_map.mp h
  rw [String.toList_ofList]
  exact Text.not_infix_of_mem_pieces placeholder_ne_nil hcs

theorem unusedModifiers_ne_nil_iff (hmodifiers : b.modifiers ≠ []) (hmarkup : b.markup ≠ "") :
    unusedModifiers [b] ≠ [] ↔ ¬ b.hasPlaceholder = true := by
  have hmodifiers' : ¬ b.modifiers.isEmpty = true := by simpa using hmodifiers
  have hmarkup' : ¬ b.markup.isEmpty = true := by simpa using hmarkup
  rw [unusedModifiers, List.filterMap_cons, unusedModifiers?, if_neg hmodifiers', if_neg hmarkup']
  cases b.hasPlaceholder with
  | true => simp
  | false => simp

theorem markupWith_const_iff :
    (∀ c c', b.markupWith c = b.markupWith c') ↔ ¬ b.hasPlaceholder = true := by
  constructor
  · intro hconst hplaceholder
    exact b.markupWith_ne_empty hplaceholder (by decide : "c" ≠ "") (hconst "c" "")
  · intro hnone c c'
    rw [SameOutline.markupWith_of_no_placeholder hnone,
      SameOutline.markupWith_of_no_placeholder hnone]

/-- **What the check says is what the page shows.**  Without a placeholder no class changes the
example.  With one, every class is seen in it: the example falls into one part more than it has
placeholders, none of them with a placeholder inside, and the example for a class is these parts
joined by the class.  The placeholder itself gives back the example.  So the check warns about a block
with modifiers and an example exactly if no class can change the example. -/
theorem markupWith_agrees (b : Block) :
    (b.hasPlaceholder = false → ∀ c, b.markupWith c = b.markup) ∧
    (b.hasPlaceholder = true →
      (∀ c, c ≠ "" → b.markupWith c ≠ b.markupWith "") ∧
      ∃ parts : List String, 1 ≤ b.placeholders ∧ parts.length = b.placeholders + 1 ∧
        (∀ part ∈ parts, ¬ placeholder.toList <:+: part.toList) ∧
        b.markup = String.intercalate placeholder parts ∧
        ∀ c, b.markupWith c = String.intercalate c parts) ∧
    b.markupWith placeholder = b.markup ∧
    (b.modifiers ≠ [] → b.markup ≠ "" →
      (unusedModifiers [b] ≠ [] ↔ ∀ c c', b.markupWith c = b.markupWith c')) := by
  refine ⟨fun hnone c => ?_, fun hplaceholder => ⟨fun c => b.markupWith_ne_empty hplaceholder, ?_⟩,
    ?_, fun hmodifiers hmarkup => ?_⟩
  · exact SameOutline.markupWith_of_no_placeholder (by simp [hnone]) c
  · exact ⟨b.parts, b.hasPlaceholder_iff.mp hplaceholder, b.length_parts,
      fun part => b.not_infix_of_mem_parts, b.markup_eq, b.markupWith_eq⟩
  · rw [markupWith_eq, ← markup_eq]
  · rw [b.unusedModifiers_ne_nil_iff hmodifiers hmarkup, markupWith_const_iff]

/-- A placeholder that only comes up when another is taken out stays. -/
example : markupWith ⟨"", "", [], "$mod$modifierifier", ""⟩ "" = "$modifier" := by
  cbv

end Block

end LivingGuide
