import LivingGuide.Markup.Page
import LivingGuide.Proofs.Text
import Mathlib.Data.List.Forall2

/-!
# The text of a guide is not markup

A page is markup around the texts of a guide.  This file compares two pages and shows that their
texts do not reach the markup: when two guides have the same *outline*, their pages have the same
*signs*, the characters `<`, `>`, `"`, `'` and `/` in their order, whatever is written in titles,
names, sections, descriptions and selectors.

Every text but the example goes through `escapeValue`, which leaves no sign (`signs_escapeValue`);
so the signs of each part of a page are those of its frame and of the examples.  The depth of a
section is written in digits, so it does not matter either.

* `Block.SameOutline`: what two blocks have to share.
* `Page.signs_render_eq`: pages of guides with the same outline have the same signs.
-/

namespace LivingGuide

open Markup

/-! ### Signs -/

namespace Markup

/-- Whether a character can open, close or delimit a part of markup. -/
def isSign (c : Char) : Bool :=
  c == '<' || c == '>' || c == '"' || c == '\'' || c == '/'

/-- The signs of a text, in order. -/
def signs (s : String) : List Char :=
  s.toList.filter isSign

theorem signs_append (s t : String) : signs (s ++ t) = signs s ++ signs t := by
  rw [signs, String.toList_append, List.filter_append]
  rfl

theorem signs_join_eq {α : Type} {f g : α → String} {xs ys : List α}
    (h : List.Forall₂ (fun x y => signs (f x) = signs (g y)) xs ys) :
    signs (String.join (xs.map f)) = signs (String.join (ys.map g)) := by
  induction h with
  | nil => rfl
  | cons hxy _ ih =>
    rw [List.map_cons, List.map_cons, String.join_cons, String.join_cons, signs_append,
      signs_append, hxy, ih]

theorem filter_isSign_valueEntity (c : Char) : (valueEntity c).filter isSign = [] := by
  rw [valueEntity.eq_def]
  split
  case h_7 hamp hlt hgt hquote hapostrophe hslash =>
    have hc : isSign c = false := by
      simp only [isSign, Bool.or_eq_false_iff, beq_eq_false_iff_ne]
      exact ⟨⟨⟨⟨hlt, hgt⟩, hquote⟩, hapostrophe⟩, hslash⟩
    rw [List.filter_cons_of_neg (by rw [hc]; exact Bool.false_ne_true), List.filter_nil]
  all_goals decide

theorem signs_escapeValue (s : String) : signs (escapeValue s) = [] := by
  rw [signs, escapeValue, String.toList_ofList, List.filter_flatMap, List.flatMap_eq_nil_iff]
  intro c _
  exact filter_isSign_valueEntity c

theorem signs_repr (n : Nat) : signs n.repr = [] := by
  rw [signs, Nat.toList_repr, List.filter_eq_nil_iff]
  intro c hc hsign
  have hdigit : c.isDigit = true := Nat.isDigit_of_mem_toDigits (by omega) (by omega) hc
  simp only [isSign, Bool.or_eq_true, beq_iff_eq] at hsign
  rcases hsign with (((rfl | rfl) | rfl) | rfl) | rfl
  all_goals exact absurd hdigit (by decide)

end Markup

/-! ### Outlines -/

/-- **What two blocks share when only their texts differ**: which parts they have, their example,
and, where the example asks for it, the classes of their modifiers. -/
structure Block.SameOutline (b b' : Block) : Prop where
  description : b.description = "" ↔ b'.description = ""
  modifiers : b.modifiers.length = b'.modifiers.length
  markup : b.markup = b'.markup
  classes : b.hasPlaceholder = true →
    b.modifiers.map Modifier.markupClass = b'.modifiers.map Modifier.markupClass

namespace Block.SameOutline

variable {b b' : Block}

theorem isEmpty_description (h : b.SameOutline b') :
    b.description.isEmpty = b'.description.isEmpty := by
  rw [Bool.eq_iff_iff, String.isEmpty_iff, String.isEmpty_iff]
  exact h.description

theorem isEmpty_modifiers (h : b.SameOutline b') : b.modifiers.isEmpty = b'.modifiers.isEmpty := by
  rw [Bool.eq_iff_iff, List.isEmpty_iff_length_eq_zero, List.isEmpty_iff_length_eq_zero,
    h.modifiers]

theorem isModule (h : b.SameOutline b') : b.isModule = b'.isModule := by
  rw [Block.isModule, Block.isModule, h.isEmpty_description, h.isEmpty_modifiers, h.markup]

theorem markupWith (h : b.SameOutline b') (markupClass : String) :
    b.markupWith markupClass = b'.markupWith markupClass := by
  rw [Block.markupWith, Block.markupWith, h.markup]

theorem markupWith_of_no_placeholder (h : ¬ b.hasPlaceholder = true) (markupClass : String) :
    b.markupWith markupClass = b.markup := by
  have hmark : ¬ placeholder.toList <:+: b.markup.toList := by
    rwa [← Text.occursIn_iff]
  rw [Block.markupWith, Text.replaceAll_of_not_infix hmark, String.ofList_toList]

/-- The examples for the modifiers are the same: either the classes are, or none is asked for. -/
theorem variants (h : b.SameOutline b') :
    List.Forall₂ (fun m m' => b.markupWith m.markupClass = b'.markupWith m'.markupClass)
      b.modifiers b'.modifiers := by
  simp only [← h.markupWith]
  by_cases hplace : b.hasPlaceholder = true
  · have hclasses := h.classes hplace
    rw [← List.forall₂_eq_eq_eq, List.forall₂_map_left_iff, List.forall₂_map_right_iff] at hclasses
    exact hclasses.imp fun m m' hm => by rw [hm]
  · refine List.forall₂_iff_zip.mpr ⟨h.modifiers, fun {m m'} _ => ?_⟩
    rw [markupWith_of_no_placeholder hplace, markupWith_of_no_placeholder hplace]

end Block.SameOutline

/-! ### The parts of a page -/

namespace Page

variable {b b' : Block}

theorem signs_caption (b : Block) : signs (caption b) = [] := by
  rw [caption, signs_append, signs_append, signs_escapeValue, signs_escapeValue]
  rfl

theorem signs_contentsEntry (h : b.SameOutline b') :
    signs (contentsEntry b) = signs (contentsEntry b') := by
  unfold contentsEntry
  simp only [signs_append, signs_escapeValue, signs_caption, h.isModule]

theorem signs_heading (b b' : Block) (className : String) :
    signs (heading b className) = signs (heading b' className) := by
  unfold heading
  simp only [signs_append, signs_repr, signs_caption]

theorem signs_descriptionPart (h : b.SameOutline b') :
    signs (descriptionPart b) = signs (descriptionPart b') := by
  unfold descriptionPart
  rw [h.isEmpty_description]
  split
  · rfl
  · simp only [signs_append, signs_escapeValue]

theorem signs_modifierRow (m m' : Modifier) : signs (modifierRow m) = signs (modifierRow m') := by
  unfold modifierRow
  simp only [signs_append, signs_escapeValue]

theorem signs_modifiersPart (h : b.SameOutline b') :
    signs (modifiersPart b) = signs (modifiersPart b') := by
  have hrows := signs_join_eq (h.variants.imp fun m m' _ => signs_modifierRow m m')
  unfold modifiersPart
  rw [h.isEmpty_modifiers]
  split
  · rfl
  · simp only [signs_append, hrows]

theorem signs_variantPart {m m' : Modifier}
    (h : b.markupWith m.markupClass = b'.markupWith m'.markupClass) :
    signs (variantPart b m) = signs (variantPart b' m') := by
  unfold variantPart
  simp only [signs_append, signs_escapeValue, h]

theorem signs_examplePart (h : b.SameOutline b') :
    signs (examplePart b) = signs (examplePart b') := by
  have hvariants := signs_join_eq (h.variants.imp fun m m' hm => signs_variantPart hm)
  unfold examplePart
  rw [h.markup, h.markupWith]
  split
  · rfl
  · simp only [signs_append, hvariants]

theorem signs_blockPart (h : b.SameOutline b') : signs (blockPart b) = signs (blockPart b') := by
  unfold blockPart
  simp only [signs_append, signs_escapeValue, signs_repr]
  rw [h.isModule]
  split
  · rw [signs_heading b b']
  · simp only [signs_append, signs_heading b b', signs_descriptionPart h, signs_modifiersPart h,
      signs_examplePart h]

/-! ### The page -/

/-- Whether the page has a link to a stylesheet. -/
def Links (page : Page) : Prop :=
  ∃ href, page.stylesheet = some href ∧ href ≠ ""

theorem stylesheetLink_of_links {page : Page} (h : page.Links) :
    ∃ href, page.stylesheetLink =
      "\n    <link rel=\"stylesheet\" href=\"" ++ escapeValue href ++ "\">" := by
  obtain ⟨href, hpage, hne⟩ := h
  refine ⟨href, ?_⟩
  unfold stylesheetLink
  simp only [hpage]
  rw [if_neg (by rwa [String.isEmpty_iff])]

theorem stylesheetLink_of_not_links {page : Page} (h : ¬ page.Links) : page.stylesheetLink = "" := by
  unfold stylesheetLink
  split
  · rfl
  · next href hpage =>
    have hempty : href.isEmpty = true := by
      by_contra hne
      exact h ⟨href, hpage, by rwa [String.isEmpty_iff] at hne⟩
    rw [if_pos hempty]

theorem signs_stylesheetLink {page page' : Page} (h : page.Links ↔ page'.Links) :
    signs page.stylesheetLink = signs page'.stylesheetLink := by
  by_cases hlinks : page.Links
  · obtain ⟨href, hpage⟩ := stylesheetLink_of_links hlinks
    obtain ⟨href', hpage'⟩ := stylesheetLink_of_links (h.mp hlinks)
    simp only [hpage, hpage', signs_append, signs_escapeValue]
  · rw [stylesheetLink_of_not_links hlinks, stylesheetLink_of_not_links fun h' => hlinks (h.mpr h')]

/-- **The texts of a guide do not change the markup of its page.**  Two pages, of blocks with the
same outline and both or neither with a link to a stylesheet, have the same signs in the same
order. -/
theorem signs_render_eq {page page' : Page} {blocks blocks' : List Block}
    (hlinks : page.Links ↔ page'.Links) (hblocks : List.Forall₂ Block.SameOutline blocks blocks') :
    signs (page.render blocks) = signs (page'.render blocks') := by
  have hcontents := signs_join_eq (hblocks.imp fun b b' h => signs_contentsEntry h)
  have hparts := signs_join_eq (hblocks.imp fun b b' h => signs_blockPart h)
  have hlink := signs_stylesheetLink hlinks
  unfold render
  simp only [signs_append, signs_escapeValue, hcontents, hparts, hlink]

/-- A title, a link, a name, a section, a description and modifiers that try to close what they
stand in. -/
theorem signs_render_eq_hostile :
    let markup := "<a class=\"$modifier\">x</a>"
    let plain : Block := ⟨"Button", "Use it.", [⟨".primary", "Main"⟩], markup, "1.2"⟩
    let hostile : Block :=
      ⟨"</h3><script>", "</p>\"'", [⟨"primary", "</td><b>"⟩], markup, "\"><i x='/"⟩
    let page : Page := ⟨"Acme", some "app.css"⟩
    let page' : Page := ⟨"</title><body>", some "\"><script src='/x"⟩
    plain.SameOutline hostile ∧ (page.Links ↔ page'.Links) ∧
      signs (page.render [plain]) = signs (page'.render [hostile]) := by
  intro markup plain hostile page page'
  have hblocks : plain.SameOutline hostile := ⟨by decide, rfl, rfl, fun _ => by decide⟩
  have hlinks : page.Links ↔ page'.Links :=
    iff_of_true ⟨_, rfl, by decide⟩ ⟨_, rfl, by decide⟩
  exact ⟨hblocks, hlinks, signs_render_eq hlinks (.cons hblocks .nil)⟩

end Page

end LivingGuide
