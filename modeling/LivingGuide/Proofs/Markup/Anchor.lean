import LivingGuide.Check
import LivingGuide.Markup.Page
import LivingGuide.Proofs.Markup.Page
import LivingGuide.Proofs.SectionNumber
import LivingGuide.Proofs.Text
import Mathlib.Data.List.Pairwise

/-!
# The ids of a page

The part of a block on the page has an id, and its entry in the table of contents links there.  The
id is made from the text of the section, not from its number: dots at the end are dropped, and the
others become hyphens.  The check for reused sections compares the numbers.  So two blocks that the
check tells apart must not get one id, and this is what the file shows:

    anchor s = anchor t → the numbers of s and t are equal,

when both are numbers at all.  A section that is a number has one dot at its end or none, so dropping
all of them drops what reading drops (`dropDots_eq`); what is left are runs of digits between dots,
and since no run holds a hyphen, they can be read back from the id (`anchor_eq`).

* `nodup_numbers_of_reusedSections`: without a warning no section number occurs twice.
* `Page.Anchored b id`: the part of a block has the id, and the table of contents links to it.
* `Page.anchors_distinct`: **the ids of a guide without reused sections are distinct.**
-/

namespace LivingGuide

/-! ### Sections that are claimed once -/

/-- **Without a warning about a section no number occurs twice**, nor one that was met before. -/
theorem nodup_numbers_of_reusedSections {seen : List (SectionNumber × String)}
    {blocks : List Block} (hnumbers : ∀ b ∈ blocks, ∃ number, b.number = .ok number)
    (h : reusedSections seen blocks = []) :
    (blocks.map Block.number).Nodup ∧
      ∀ b ∈ blocks, ∀ number, b.number = .ok number → seen.lookup number = none := by
  induction blocks generalizing seen with
  | nil => exact ⟨List.nodup_nil, nofun⟩
  | cons b blocks ih =>
    obtain ⟨⟨number, hnumber⟩, hlater⟩ := List.forall_mem_cons.mp hnumbers
    rw [reusedSections, hnumber] at h
    cases hseen : seen.lookup number with
    | some first =>
      simp only [hseen] at h
      cases h
    | none =>
      simp only [hseen] at h
      obtain ⟨hnodup, hfresh⟩ := ih hlater h
      -- What the later blocks were compared with holds the number of this one.
      have hfresh' : ∀ c ∈ blocks, ∀ n, c.number = .ok n → n ≠ number ∧ seen.lookup n = none := by
        intro c hc n hn
        have hlookup := hfresh c hc n hn
        rw [List.lookup_cons] at hlookup
        split at hlookup
        · cases hlookup
        · next hne => exact ⟨fun heq => by simp [heq] at hne, hlookup⟩
      refine ⟨?_, ?_⟩
      · rw [List.map_cons, List.nodup_cons]
        refine ⟨fun hmem => ?_, hnodup⟩
        obtain ⟨c, hc, hsame⟩ := List.mem_map.mp hmem
        exact (hfresh' c hc number (hsame.trans hnumber)).1 rfl
      · intro c hc n hn
        rcases List.mem_cons.mp hc with rfl | hc
        · rw [hnumber] at hn
          cases hn
          exact hseen
        · exact (hfresh' c hc n hn).2

/-! ### Values that need no escape -/

namespace Markup

theorem escapeValue_of_plain {s : String} (h : ∀ c ∈ s.toList, valueEntity c = [c]) :
    escapeValue s = s := by
  have hall : s.toList.flatMap valueEntity = s.toList := by
    generalize s.toList = cs at h
    induction cs with
    | nil => rfl
    | cons c cs ih =>
      obtain ⟨hc, hcs⟩ := List.forall_mem_cons.mp h
      rw [List.flatMap_cons, hc, ih hcs]
      rfl
  rw [escapeValue, hall, String.ofList_toList]

theorem valueEntity_digit {c : Char} (h : c.isDigit = true) : valueEntity c = [c] := by
  rw [valueEntity.eq_def]
  split
  case h_7 => rfl
  all_goals exact absurd h (by decide)

end Markup

namespace Page

open Markup SectionNumber

/-! ### The id of a section -/

/-- The segments of a section, as they are written. -/
def writtenSegments (sectionText : String) : List (List Char) :=
  (dropFinalDot sectionText.toList).splitOn '.'

variable {s t : String} {m n : SectionNumber}

theorem digits_of_parse (h : parse s = .ok n) :
    ∀ cs ∈ writtenSegments s, cs ≠ [] ∧ ∀ c ∈ cs, c.isDigit = true := by
  intro cs hcs
  obtain ⟨_, -, hsegment⟩ := exists_right_of_forall₂ (parse_eq_ok_iff.mp h) cs hcs
  exact isDigit_of_segment? hsegment

theorem getLast?_dropFinalDot (h : parse s = .ok n) :
    (dropFinalDot s.toList).getLast? ≠ some '.' := by
  intro hlast
  have hempty : [] ∈ writtenSegments s := Text.nil_mem_splitOn_of_getLast? hlast
  exact (digits_of_parse h [] hempty).1 rfl

/-- **Dropping all dots at the end drops what reading drops.** -/
theorem dropDots_eq (h : parse s = .ok n) :
    (s.toList.reverse.dropWhile (· == '.')).reverse = dropFinalDot s.toList := by
  have hkept : (dropFinalDot s.toList).rdropWhile (· == '.') = dropFinalDot s.toList := by
    rw [List.rdropWhile_eq_self_iff]
    intro hne hdot
    exact getLast?_dropFinalDot h (by
      rw [List.getLast?_eq_some_getLast hne, beq_iff_eq.mp hdot])
  change s.toList.rdropWhile (· == '.') = _
  by_cases hlast : s.toList.getLast? = some '.'
  · obtain ⟨before, hbefore⟩ := List.getLast?_eq_some_iff.mp hlast
    have hdropped : dropFinalDot s.toList = before := by
      rw [dropFinalDot, if_pos hlast, hbefore, List.dropLast_concat]
    rw [hdropped] at hkept ⊢
    rw [hbefore, List.rdropWhile_concat_pos _ _ _ (by decide), hkept]
  · have hdropped : dropFinalDot s.toList = s.toList := by
      rw [dropFinalDot, if_neg hlast]
    rw [hdropped] at hkept ⊢
    exact hkept

theorem map_hyphen_digits {cs : List Char} (h : ∀ c ∈ cs, c.isDigit = true) :
    cs.map (fun c => if c == '.' then '-' else c) = cs := by
  refine (List.map_congr_left fun c hc => ?_).trans (List.map_id cs)
  have hne : ¬ (c == '.') = true := by
    intro hdot
    exact absurd (h c hc) (by rw [beq_iff_eq.mp hdot]; decide)
  rw [if_neg hne]
  rfl

/-- **The id of a section is its segments between hyphens.** -/
theorem anchor_eq (h : parse s = .ok n) :
    anchor s = "section-" ++ String.ofList (['-'].intercalate (writtenSegments s)) := by
  have hjoined : dropFinalDot s.toList = ['.'].intercalate (writtenSegments s) :=
    (List.intercalate_splitOn '.').symm
  have hdigits : (writtenSegments s).map (List.map fun c => if c == '.' then '-' else c) =
      writtenSegments s := by
    refine (List.map_congr_left fun cs hcs => ?_).trans (List.map_id _)
    exact map_hyphen_digits (digits_of_parse h cs hcs).2
  rw [anchor, dropDots_eq h, hjoined, Text.map_intercalate, hdigits]
  rfl

theorem splitOn_hyphen (h : parse s = .ok n) :
    (['-'].intercalate (writtenSegments s)).splitOn '-' = writtenSegments s := by
  refine List.splitOn_intercalate '-' (fun cs hcs hyphen => ?_) (List.splitOn_ne_nil _ _)
  exact absurd ((digits_of_parse h cs hcs).2 '-' hyphen) (by decide)

theorem eq_of_writtenSegments (hs : parse s = .ok m) (ht : parse t = .ok n)
    (h : writtenSegments s = writtenSegments t) : m = n := by
  have hunique : Relator.RightUnique fun cs n => segment? cs = some n :=
    fun _ _ _ hm hn => Option.some.inj (hm.symm.trans hn)
  have hm := parse_eq_ok_iff.mp hs
  have hn := parse_eq_ok_iff.mp ht
  rw [writtenSegments, writtenSegments] at h
  rw [h] at hm
  obtain ⟨ms⟩ := m
  obtain ⟨ns⟩ := n
  exact congrArg SectionNumber.mk (hunique.forall₂ hm hn)

/-- **Sections with one id have one number.** -/
theorem eq_of_anchor (hs : parse s = .ok m) (ht : parse t = .ok n) (h : anchor s = anchor t) :
    m = n := by
  rw [anchor_eq hs, anchor_eq ht, String.append_right_inj, String.ofList_inj] at h
  have hsegments := congrArg (List.splitOn '-') h
  rw [splitOn_hyphen hs, splitOn_hyphen ht] at hsegments
  exact eq_of_writtenSegments hs ht hsegments

/-! ### Ids in the page -/

theorem escapeValue_anchor (h : parse s = .ok n) : escapeValue (anchor s) = anchor s := by
  have hword : "section-".toList.all (fun c => valueEntity c == [c]) = true := by decide
  apply escapeValue_of_plain
  intro c hc
  rw [anchor_eq h, String.toList_append, List.mem_append] at hc
  rcases hc with hc | hc
  · exact beq_iff_eq.mp (List.all_eq_true.mp hword c hc)
  · rw [String.toList_ofList] at hc
    rcases Text.mem_intercalate hc with hyphen | ⟨cs, hcs, hc⟩
    · rw [List.mem_singleton.mp hyphen]
      rfl
    · exact valueEntity_digit ((digits_of_parse h cs hcs).2 c hc)

/-- **The part of a block has an id, and its entry in the table of contents links to it.**  The id ends
at the quote behind it, since it holds none. -/
structure Anchored (b : Block) (id : String) : Prop where
  element : ∃ rest, blockPart b = "<section id=\"" ++ id ++ "\"" ++ rest
  target : ∃ before rest, contentsEntry b = before ++ "<a href=\"#" ++ id ++ "\"" ++ rest
  closed : '"' ∉ id.toList

theorem quote_notMem_escapeValue (s : String) : '"' ∉ (escapeValue s).toList := by
  intro hquote
  have hsign : '"' ∈ signs (escapeValue s) := List.mem_filter.mpr ⟨hquote, rfl⟩
  rw [signs_escapeValue] at hsign
  cases hsign

theorem anchored_anchor {b : Block} {number : SectionNumber} (h : b.number = .ok number) :
    Anchored b (anchor b.sectionText) where
  element := by
    have hquote : "\" class=\"level-" = "\"" ++ " class=\"level-" := by decide
    unfold blockPart
    rw [escapeValue_anchor h, hquote]
    simp only [String.append_assoc]
    exact ⟨_, rfl⟩
  target := by
    have hlink : "\"><a href=\"#" = "\">" ++ "<a href=\"#" := by decide
    have hquote : "\">" = "\"" ++ ">" := by decide
    refine ⟨"\n        <li class=\"" ++ (if b.isModule then "toc-module" else "toc-block") ++ "\">",
      ">" ++ caption b ++ "</a></li>", ?_⟩
    unfold contentsEntry
    rw [escapeValue_anchor h, hlink, hquote]
    simp only [String.append_assoc]
  closed := by
    rw [← escapeValue_anchor h]
    exact quote_notMem_escapeValue _

/-! ### All ids -/

/-- **A guide without reused sections has distinct ids.**  Two sections that are numbers and have one
id are one number, however they are written.  So where every section is a number and the check finds
none that is reused, every part of the page has an id of its own, and the table of contents links to
each of them. -/
theorem anchors_distinct :
    (∀ s t m n, SectionNumber.parse s = .ok m → SectionNumber.parse t = .ok n →
      anchor s = anchor t → m = n) ∧
    ∀ (page : Page) (blocks : List Block), (∀ b ∈ blocks, ∃ number, b.number = .ok number) →
      reusedSections [] blocks = [] →
      (blocks.map fun b => anchor b.sectionText).Nodup ∧
        (∀ b ∈ blocks, Anchored b (anchor b.sectionText)) ∧
        ∃ before between after, page.render blocks =
          before ++ String.join (blocks.map contentsEntry) ++ between
            ++ String.join (blocks.map blockPart) ++ after := by
  refine ⟨fun s t m n hs ht h => eq_of_anchor hs ht h, fun page blocks hnumbers hcheck =>
    ⟨?_, ?_, _, _, _, rfl⟩⟩
  · obtain ⟨hnodup, -⟩ := nodup_numbers_of_reusedSections hnumbers hcheck
    refine List.pairwise_map.mpr ((List.pairwise_map.mp hnodup).imp_of_mem fun {b c} hb hc hne => ?_)
    intro hsame
    obtain ⟨m, hm⟩ := hnumbers b hb
    obtain ⟨n, hn⟩ := hnumbers c hc
    exact hne (by rw [hm, hn, eq_of_anchor hm hn hsame])
  · intro b hb
    obtain ⟨number, hnumber⟩ := hnumbers b hb
    exact anchored_anchor hnumber

/-- Sections with a leading zero, a dot at the end and more than one depth. -/
theorem anchors_distinct_spelled :
    let blocks : List Block := [⟨"Tables", "", [], "", "1."⟩, ⟨"Rows", "", [], "", "1.02"⟩,
      ⟨"Cells", "", [], "", "1.2.0."⟩, ⟨"Forms", "", [], "", "12"⟩]
    reusedSections [] blocks = [] ∧
      ["section-1", "section-1-02", "section-1-2-0", "section-12"].Nodup ∧
      Anchored ⟨"Cells", "", [], "", "1.2.0."⟩ "section-1-2-0" := by
  intro blocks
  have hcheck : reusedSections [] blocks = [] := by decide +kernel
  have hnumbers : ∀ b ∈ blocks, ∃ number, b.number = .ok number := by
    simp only [blocks, List.forall_mem_cons]
    exact ⟨⟨⟨[1]⟩, by decide +kernel⟩, ⟨⟨[1, 2]⟩, by decide +kernel⟩,
      ⟨⟨[1, 2, 0]⟩, by decide +kernel⟩, ⟨⟨[12]⟩, by decide +kernel⟩, nofun⟩
  obtain ⟨hnodup, hanchored, -⟩ := anchors_distinct.2 ⟨"Acme", none⟩ blocks hnumbers hcheck
  have hids : blocks.map (fun b => anchor b.sectionText) =
      ["section-1", "section-1-02", "section-1-2-0", "section-12"] := by decide +kernel
  have hid : anchor "1.2.0." = "section-1-2-0" := by decide +kernel
  refine ⟨hcheck, hids ▸ hnodup, ?_⟩
  exact hid ▸ hanchored ⟨"Cells", "", [], "", "1.2.0."⟩ (by simp [blocks])

end Page

end LivingGuide
