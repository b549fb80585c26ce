import LivingGuide.Markup.Piece
import LivingGuide.Proofs.Text

/-!
# Cutting markup loses nothing

`pieces` cuts markup by looking ahead: for the end of a comment, for the first `>` outside quotes,
for the value of an attribute.  Each of these searches either fails, and then the sign it started
at is text, or gives back what it read and what it left, and the two together are what it was given.

* `Covers`: the pieces of a text, in order and none of them empty.
* `value?_spec`, `assignment?_spec`, `tagBody?_spec`, `cutTagEnd_spec`: what the searches read and
  leave.
* `covers_attributePieces`, `covers_tag?`, `covers_construct?`: the same for the pieces of a tag and
  of a comment.
* `covers_pieces`: **the pieces of markup are all of the markup.**
-/

namespace LivingGuide.Markup

/-- Some pieces are a text cut up: their characters in order are the text, and none is empty. -/
structure Covers (ps : List Piece) (cs : List Char) : Prop where
  chars : ps.flatMap Piece.chars = cs
  nonempty : ∀ p ∈ ps, p.chars ≠ []

theorem Covers.nil : Covers [] [] :=
  ⟨rfl, by simp⟩

theorem Covers.cons {p : Piece} {ps : List Piece} {cs : List Char} (hp : p.chars ≠ [])
    (h : Covers ps cs) : Covers (p :: ps) (p.chars ++ cs) := by
  refine ⟨by rw [List.flatMap_cons, h.chars], fun q hq => ?_⟩
  rcases List.mem_cons.mp hq with rfl | hq
  · exact hp
  · exact h.nonempty q hq

theorem Covers.append {ps qs : List Piece} {cs ds : List Char} (hps : Covers ps cs)
    (hqs : Covers qs ds) : Covers (ps ++ qs) (cs ++ ds) := by
  refine ⟨by rw [List.flatMap_append, hps.chars, hqs.chars], fun p hp => ?_⟩
  rcases List.mem_append.mp hp with hp | hp
  · exact hps.nonempty p hp
  · exact hqs.nonempty p hp

theorem Covers.consText {ps : List Piece} {cs : List Char} (c : Char) (h : Covers ps cs) :
    Covers (consText c ps) (c :: cs) := by
  rw [Markup.consText.eq_def]
  split
  · next ds rest =>
    refine ⟨by rw [← h.chars]; rfl, fun p hp => ?_⟩
    rcases List.mem_cons.mp hp with rfl | hp
    · exact List.cons_ne_nil c ds
    · exact h.nonempty p (List.mem_cons_of_mem _ hp)
  · exact Covers.cons (List.cons_ne_nil c []) h

theorem Covers.textThen {ps : List Piece} {cs : List Char} (ds : List Char) (h : Covers ps cs) :
    Covers (textThen ds ps) (ds ++ cs) := by
  rw [Markup.textThen]
  split
  · next hds => rwa [List.isEmpty_iff.mp hds, List.nil_append]
  · next hds => exact Covers.cons (p := .text ds) (fun hnil => hds (List.isEmpty_iff.mpr hnil)) h

/-! ### Attributes -/

theorem value?_spec {cs value rest : List Char} (h : value? cs = some (value, rest)) :
    value ≠ [] ∧ value ++ rest = cs := by
  cases cs with
  | nil => simp [value?] at h
  | cons c cs =>
    rw [value?] at h
    split at h
    · split at h
      · cases h
      · next q tail hq =>
        -- The closing quote is the first character that the run before it stops at.
        have hcut := List.takeWhile_append_dropWhile (p := (· != c)) (l := cs)
        rw [hq] at hcut
        cases h
        exact ⟨List.cons_ne_nil _ _, by simpa using hcut⟩
    · split at h
      · cases h
        refine ⟨List.cons_ne_nil _ _, ?_⟩
        rw [List.cons_append, List.takeWhile_append_dropWhile]
      · cases h

theorem assignment?_spec {cs op value rest : List Char}
    (h : assignment? cs = some (op, value, rest)) :
    op ≠ [] ∧ value ≠ [] ∧ op ++ value ++ rest = cs := by
  rw [assignment?] at h
  split at h
  · next tail htail =>
    obtain ⟨⟨v, r⟩, hv, he⟩ := Option.map_eq_some_iff.mp h
    cases he
    obtain ⟨hne, hvalue⟩ := value?_spec hv
    refine ⟨by simp, hne, ?_⟩
    calc cs.takeWhile Text.isBlank ++ '=' :: tail.takeWhile Text.isBlank ++ v ++ r
        = cs.takeWhile Text.isBlank ++ '=' :: (tail.takeWhile Text.isBlank ++ (v ++ r)) := by simp
      _ = cs.takeWhile Text.isBlank ++ cs.dropWhile Text.isBlank := by
        rw [hvalue, List.takeWhile_append_dropWhile, htail]
      _ = cs := List.takeWhile_append_dropWhile
  · cases h

theorem covers_attributePieces (cs : List Char) : Covers (attributePieces cs) cs := by
  fun_induction attributePieces cs with
  | case1 => exact Covers.nil
  | case2 c cs hc name op value rest hassign ih =>
    obtain ⟨hop, hvalue, hrest⟩ := assignment?_spec hassign
    have hcut : name ++ (op ++ (value ++ rest)) = c :: cs := by
      rw [← List.append_assoc op, hrest, List.cons_append, List.takeWhile_append_dropWhile]
    have hcover : Covers _ (name ++ (op ++ (value ++ rest))) :=
      .cons (p := .token .attributeName name) (List.cons_ne_nil _ _)
        (.cons (p := .token .operator op) hop (.cons (p := .token .value value) hvalue ih))
    rwa [hcut] at hcover
  | case3 c cs hc name hassign ih =>
    have hcover : Covers _ (name ++ cs.dropWhile isAttributeChar) :=
      .cons (p := .token .attributeName name) (List.cons_ne_nil _ _) ih
    rwa [List.cons_append, List.takeWhile_append_dropWhile] at hcover
  | case4 c cs hc ih => exact ih.consText c

/-! ### Tags and comments -/

theorem tagBody?_spec {quote : Option Char} {cs body rest : List Char}
    (h : tagBody? quote cs = some (body, rest)) : body ++ '>' :: rest = cs := by
  fun_induction tagBody? quote cs generalizing body with
  | case1 => cases h
  | case2 c cs hc =>
    cases h
    rw [List.nil_append, beq_iff_eq.mp hc]
  | case3 c cs hc ih =>
    obtain ⟨⟨b, r⟩, hb, he⟩ := Option.map_eq_some_iff.mp h
    cases he
    rw [List.cons_append, ih hb]
  | case4 q c cs ih =>
    obtain ⟨⟨b, r⟩, hb, he⟩ := Option.map_eq_some_iff.mp h
    cases he
    rw [List.cons_append, ih hb]

theorem cutTagEnd_spec {body attributes blanks slash : List Char}
    (h : cutTagEnd body = (attributes, blanks, slash)) :
    attributes ++ (blanks ++ slash) = body := by
  have hcut : ∀ rest : List Char,
      (rest.dropWhile Text.isBlank).reverse ++ (rest.takeWhile Text.isBlank).reverse
        = rest.reverse := by
    intro rest
    rw [← List.reverse_append, List.takeWhile_append_dropWhile]
  rw [cutTagEnd.eq_def] at h
  split at h
  next rest hend =>
    cases h
    rw [← List.append_assoc, hcut]
    split at hend
    · next tail htail =>
      cases hend
      rw [← List.reverse_cons, ← htail, List.reverse_reverse]
    · cases hend
      rw [List.reverse_reverse, List.append_nil]

/-- **A tag is its pieces, and what follows is left alone.** -/
theorem covers_tag? {opening cs rest : List Char} {ps : List Piece} (hopening : opening ≠ [])
    (h : tag? opening cs = some (ps, rest)) :
    ∃ read, Covers ps read ∧ read ++ rest = opening ++ cs := by
  cases cs with
  | nil => cases h
  | cons c cs =>
    rw [tag?] at h
    split at h
    · obtain ⟨⟨body, r⟩, hbody, he⟩ := Option.map_eq_some_iff.mp h
      rcases hparts : cutTagEnd body with ⟨attributes, blanks, slash⟩
      simp only [hparts] at he
      cases he
      have hend : Covers [.token .punctuation (slash ++ ['>'])] (slash ++ ['>'] ++ []) :=
        .cons (by simp [Piece.chars]) .nil
      have hinside := (covers_attributePieces attributes).append (hend.textThen blanks)
      refine ⟨_, .cons hopening (.cons (List.cons_ne_nil c _) hinside), ?_⟩
      have hbody' : attributes ++ (blanks ++ (slash ++ '>' :: rest)) = cs.dropWhile isNameChar := by
        rw [← tagBody?_spec hbody, ← cutTagEnd_spec hparts]
        simp only [List.append_assoc]
      simp only [Piece.chars, List.append_nil, List.append_assoc, List.cons_append,
        List.nil_append, hbody', List.takeWhile_append_dropWhile]
    · cases h

theorem covers_construct? {cs rest : List Char} {ps : List Piece}
    (h : construct? cs = some (ps, rest)) :
    ∃ read, Covers ps read ∧ read ++ rest = '<' :: cs := by
  rw [construct?.eq_def] at h
  split at h
  · next tail =>
    obtain ⟨⟨before, r⟩, hbefore, he⟩ := Option.map_eq_some_iff.mp h
    cases he
    refine ⟨_, .cons (p := .token .comment _) (by simp [Piece.chars]) .nil, ?_⟩
    rw [← Text.append_of_splitAtFirst hbefore]
    simp [Piece.chars]
  · obtain ⟨read, hread, hrest⟩ := covers_tag? (by simp) h
    exact ⟨read, hread, hrest⟩
  · exact covers_tag? (by simp) h

/-- **The pieces of markup are all of the markup**, in order and none of them empty. -/
theorem covers_pieces (markup : List Char) : Covers (pieces markup) markup := by
  fun_induction pieces markup with
  | case1 => exact Covers.nil
  | case2 c cs hc found rest hconstruct ih =>
    obtain ⟨read, hread, hrest⟩ := covers_construct? hconstruct
    rw [beq_iff_eq.mp hc, ← hrest]
    exact hread.append ih
  | case3 c cs hc hconstruct ih => exact ih.consText c
  | case4 c cs hc ih => exact ih.consText c

end LivingGuide.Markup
