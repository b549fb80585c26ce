import LivingGuide.Block.Parser
import LivingGuide.Proofs.Comment
import LivingGuide.Proofs.FirstError
import LivingGuide.Proofs.Modifier

/-!
# What every block that was read is like

The fields of a block that was read from comment lines are not arbitrary.  Each comes from a group
of non-empty lines whose first character fixed what the group declares, and none of these lines ends
in a blank.  `Block.WellRead` says this of the name, the description, the modifiers and the example;
it holds of the empty draft, each group keeps it (`wellRead_complete`), and so every block that
`Block.ofLines` gives has it (`wellRead_ofLines`), with a section that is one word.

* `groups_append`: lines before an empty one are a group.
* `IsGroup kind lines`: a group of contents of the given kind.
* `isGroup_texts`: modifiers can be written out as a group that is read as the same modifiers.
-/

namespace LivingGuide

open Text Comment

/-! ### Groups -/

theorem isEmpty_eq_false {s : String} (h : s ≠ "") : s.isEmpty = false := by
  rw [Bool.eq_false_iff, ne_eq, String.isEmpty_iff]
  exact h

/-- **Non-empty lines before an empty one, or at the end, are a group.** -/
theorem groups_append {group rest : List String} (hne : group ≠ []) (hall : ∀ l ∈ group, l ≠ "")
    (hrest : ∀ l ∈ rest.head?, l = "") : groups (group ++ rest) = group :: groups rest := by
  obtain ⟨line, lines, rfl⟩ := List.exists_cons_of_ne_nil hne
  have hspan : (lines ++ rest).takeWhile (!·.isEmpty) = lines ∧
      (lines ++ rest).dropWhile (!·.isEmpty) = rest :=
    span_of_stop (fun l hl => by rw [isEmpty_eq_false (hall l (by simp [hl]))]; rfl)
      (fun l hl => by rw [hrest l hl]; rfl)
  rw [List.cons_append, groups_cons, isEmpty_eq_false (hall line (by simp)), if_neg (by decide),
    hspan.1, hspan.2]

theorem groups_cons_empty (lines : List String) : groups ("" :: lines) = groups lines := by
  rw [groups_cons, if_pos (by decide)]

theorem ne_nil_of_mem_groups : ∀ {lines group : List String}, group ∈ groups lines →
    group ≠ [] ∧ ∀ l ∈ group, l ∈ lines ∧ l ≠ "" := by
  intro lines
  fun_induction groups lines with
  | case1 => exact fun h => absurd h (by simp)
  | case2 line lines hline ih =>
    intro group hgroup
    refine ⟨(ih hgroup).1, fun l hl => ?_⟩
    exact ⟨List.mem_cons_of_mem line ((ih hgroup).2 l hl).1, ((ih hgroup).2 l hl).2⟩
  | case3 line lines hline ih =>
    intro group hgroup
    rcases List.mem_cons.mp hgroup with rfl | hgroup
    · refine ⟨by simp, fun l hl => ?_⟩
      rcases List.mem_cons.mp hl with rfl | hl
      · exact ⟨List.mem_cons_self, fun h => hline (by rw [h]; rfl)⟩
      · have hl' := List.mem_takeWhile_imp hl
        refine ⟨List.mem_cons_of_mem line ((List.takeWhile_sublist _).subset hl), fun h => ?_⟩
        rw [h] at hl'
        exact absurd hl' (by decide)
    · refine ⟨(ih hgroup).1, fun l hl => ?_⟩
      have hmem := (List.dropWhile_sublist _).subset ((ih hgroup).2 l hl).1
      exact ⟨List.mem_cons_of_mem line hmem, ((ih hgroup).2 l hl).2⟩

/-- A group of the given kind, as comment lines can hold it. -/
structure IsGroup (kind : GroupKind) (lines : List String) : Prop where
  ne_nil : lines ≠ []
  content : ∀ l ∈ lines, IsContent l
  ne_empty : ∀ l ∈ lines, l ≠ ""
  kind_eq : GroupKind.of lines = kind

/-- The lines of a part of a block: a group of its kind, or none when the part is missing. -/
def IsPart (kind : GroupKind) (lines : List String) : Prop :=
  lines = [] ∨ IsGroup kind lines

theorem isGroup_of_mem_groups {lines group : List String} (hlines : ∀ l ∈ lines, IsContent l)
    (h : group ∈ groups lines) : IsGroup (GroupKind.of group) group := by
  obtain ⟨hne, hall⟩ := ne_nil_of_mem_groups h
  exact ⟨hne, fun l hl => hlines l (hall l hl).1, fun l hl => (hall l hl).2, rfl⟩

theorem IsPart.isLine {kind : GroupKind} {lines : List String} (h : IsPart kind lines) :
    ∀ l ∈ lines, IsLine l ∧ l ≠ "" := by
  rcases h with rfl | h
  · exact fun l hl => absurd hl (by simp)
  · intro l hl
    refine ⟨⟨(h.content l hl).noLineFeed, fun hlast => ?_⟩, h.ne_empty l hl⟩
    exact absurd ((h.content l hl).noTrailingBlank _ hlast) (by decide)

/-! ### Groups of modifiers -/

theorem exists_head_of_modifiers {group : List String} (h : GroupKind.of group = .modifiers) :
    ∃ c, (group.headD "").toList.head? = some c ∧ isBlank c = false := by
  rw [GroupKind.of] at h
  split at h
  · cases h
  · next hc => exact ⟨'.', hc, by decide⟩
  · next hc => exact ⟨':', hc, by decide⟩
  · cases h

/-- The kind of a group hangs on its first character alone. -/
theorem GroupKind.of_eq_of_head? {group group' : List String}
    (h : (group.headD "").toList.head? = (group'.headD "").toList.head?) :
    GroupKind.of group = GroupKind.of group' := by
  rw [GroupKind.of, GroupKind.of, h]

/-- **The texts of the modifiers of a group are a group that is read as the same modifiers.** -/
theorem isGroup_texts {group : List String} {ms : List Modifier} (hgroup : IsGroup .modifiers group)
    (h : group.mapM Modifier.parse = .ok ms) :
    IsGroup .modifiers (ms.map Modifier.text) ∧
      (ms.map Modifier.text).mapM Modifier.parse = .ok ms := by
  have hall := mapM_eq_ok_iff.mp h
  have hread : ∀ m ∈ ms, ∃ line, Modifier.parse line = .ok m := by
    intro m hm
    obtain ⟨line, -, hline⟩ := exists_left_of_forall₂ hall m hm
    exact ⟨line, hline⟩
  refine ⟨⟨?_, ?_, ?_, ?_⟩, ?_⟩
  · intro hnil
    have hlength := hall.length_eq
    rw [List.map_eq_nil_iff.mp hnil, List.length_nil, List.length_eq_zero_iff] at hlength
    exact hgroup.ne_nil hlength
  · intro l hl
    obtain ⟨m, hm, rfl⟩ := List.mem_map.mp hl
    obtain ⟨line, hline⟩ := hread m hm
    exact ⟨Modifier.noLineFeed_text hline, Modifier.noTrailingBlank_text hline⟩
  · intro l hl hempty
    obtain ⟨m, hm, rfl⟩ := List.mem_map.mp hl
    have hcs := Modifier.text_toList m
    rw [hempty] at hcs
    exact absurd hcs (by simp)
  · obtain ⟨c, hc, hb⟩ := exists_head_of_modifiers hgroup.kind_eq
    cases hall with
    | nil => exact absurd rfl hgroup.ne_nil
    | cons hm _ =>
      rw [← hgroup.kind_eq]
      exact GroupKind.of_eq_of_head? ((Modifier.head?_text hm hc hb).trans hc.symm)
  · rw [mapM_eq_ok_iff, List.forall₂_map_left_iff, List.forall₂_same]
    intro m hm
    obtain ⟨line, hline⟩ := hread m hm
    exact Modifier.parse_text hline

/-! ### Blocks that were read -/

namespace Block

/-- What is known of all parts of a block but its section. -/
structure WellRead (b : Block) : Prop where
  name : IsContent b.name ∧ b.name ≠ ""
  description : ∃ lines, IsPart .text lines ∧ b.description = String.intercalate "\n" lines
  modifiers : IsPart .modifiers (b.modifiers.map Modifier.text) ∧
    (b.modifiers.map Modifier.text).mapM Modifier.parse = .ok b.modifiers
  markup : ∃ lines, IsPart .markup lines ∧ b.markup = String.intercalate "\n" lines

theorem isWord_of_sectionOfLine {name line found : String}
    (h : sectionOfLine name line = .ok found) : IsWord found.toList := by
  rw [sectionOfLine] at h
  split at h
  · next word hword =>
    cases h
    obtain ⟨cs, hcs, rfl⟩ := List.mem_map.mp (List.mem_of_getElem? hword)
    rw [String.toList_ofList]
    exact isWord_of_mem_words hcs
  · cases h

/-- **Each group keeps what is known of a draft**, and the last one gives a section of one word. -/
theorem wellRead_complete : ∀ {groups : List (List String)} {draft b : Block}, draft.WellRead →
    (∀ group ∈ groups, IsGroup (GroupKind.of group) group) → complete draft groups = .ok b →
    b.WellRead ∧ IsWord b.sectionText.toList := by
  intro groups draft b hdraft hgroups h
  fun_induction complete draft groups with
  | case1 => cases h
  | case2 draft group rest hkind ih =>
    have hgroup := hgroups group (by simp)
    rw [hkind] at hgroup
    exact ih ⟨hdraft.name, hdraft.description, hdraft.modifiers, group, Or.inr hgroup, rfl⟩
      (fun g hg => hgroups g (by simp [hg])) h
  | case3 draft group rest hkind ms hms ih =>
    have hgroup := hgroups group (by simp)
    rw [hkind] at hgroup
    obtain ⟨htexts, hread⟩ := isGroup_texts hgroup hms
    exact ih ⟨hdraft.name, hdraft.description, ⟨Or.inr htexts, hread⟩, hdraft.markup⟩
      (fun g hg => hgroups g (by simp [hg])) h
  | case4 => cases h
  | case5 draft group rest hkind hrest found hfound =>
    cases h
    exact ⟨⟨hdraft.name, hdraft.description, hdraft.modifiers, hdraft.markup⟩,
      isWord_of_sectionOfLine hfound⟩
  | case6 => cases h
  | case7 draft group rest hkind hrest ih =>
    have hgroup := hgroups group (by simp)
    rw [hkind] at hgroup
    exact ih ⟨hdraft.name, ⟨group, Or.inr hgroup, rfl⟩, hdraft.modifiers, hdraft.markup⟩
      (fun g hg => hgroups g (by simp [hg])) h

/-- **What every block that was read from contents is like.** -/
theorem wellRead_ofLines {lines : List String} {b : Block} (hlines : ∀ l ∈ lines, IsContent l)
    (h : ofLines lines = .ok b) : b.WellRead ∧ IsWord b.sectionText.toList := by
  rw [ofLines] at h
  split at h
  · cases h
  · next name rest hgroups =>
    have hall : ∀ group ∈ [name] :: rest, IsGroup (GroupKind.of group) group :=
      fun group hgroup => isGroup_of_mem_groups hlines (hgroups ▸ hgroup)
    have hname := hall [name] (by simp)
    refine wellRead_complete ⟨⟨hname.content name (by simp), hname.ne_empty name (by simp)⟩,
      ⟨[], Or.inl rfl, rfl⟩, ⟨Or.inl rfl, rfl⟩, ⟨[], Or.inl rfl, rfl⟩⟩
      (fun g hg => hall g (by simp [hg])) h
  · cases h

end Block

end LivingGuide
