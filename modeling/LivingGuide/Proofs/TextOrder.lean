import Mathlib.Data.List.Basic

/-!
# Texts in order

Texts are compared by their characters, and characters by their code points.  UTF-8 keeps this order:
the encoding of a character is never the start of another one's, and the first byte that differs is
smaller in the encoding of the smaller character (`encode_lt`).  So texts, and lists of texts, are in
the order of their bytes (`utf8_lt_of_lt`, `map_utf8_lt_of_lt`).

* `pairwise_mergeSort`: things with different names, sorted by name, are in strictly increasing order.
* `utf8`: the bytes of a text.
-/

namespace LivingGuide.Text

/-! ### Sorting by name -/

theorem pairwise_mergeSort {α : Type} (name : α → String) {xs : List α}
    (hdistinct : (xs.map name).Nodup) :
    (xs.mergeSort fun a b => !decide (name b < name a)).Pairwise fun a b => name a < name b := by
  have hsorted : (xs.mergeSort fun a b => !decide (name b < name a)).Pairwise
      fun a b => (!decide (name b < name a)) = true := by
    refine List.pairwise_mergeSort ?_ ?_ xs
    · intro a b c hab hbc
      simp only [Bool.not_eq_true', decide_eq_false_iff_not, String.not_lt] at hab hbc ⊢
      exact String.le_trans hab hbc
    · intro a b
      simp only [Bool.or_eq_true, Bool.not_eq_true', decide_eq_false_iff_not, String.not_lt]
      exact String.le_total (name a) (name b)
  have hnodup : ((xs.mergeSort fun a b => !decide (name b < name a)).map name).Nodup :=
    ((List.mergeSort_perm _ _).map name).nodup_iff.mpr hdistinct
  refine (hsorted.and (List.pairwise_map.mp hnodup)).imp fun {a b} ⟨hle, hne⟩ => ?_
  simp only [Bool.not_eq_true', decide_eq_false_iff_not, String.not_lt] at hle
  by_contra hlt
  exact hne (String.le_antisymm hle (String.not_lt.mp hlt))

/-! ### Bytes -/

/-- The bytes of a text. -/
def utf8 (s : String) : List UInt8 :=
  s.toUTF8.data.toList

theorem utf8_eq_flatMap (s : String) : utf8 s = s.toList.flatMap String.utf8EncodeChar := by
  rw [utf8, String.toUTF8_eq_toByteArray, ← String.utf8Encode_toList, List.utf8Encode,
    List.toList_data_toByteArray]

variable {v w : Nat} {xs ys : List UInt8}

theorem ofNat_cons_lt_iff (hv : v < 256) (hw : w < 256) :
    UInt8.ofNat v :: xs < UInt8.ofNat w :: ys ↔ v < w ∨ v = w ∧ xs < ys := by
  rw [List.cons_lt_cons_iff, UInt8.lt_iff_toNat_lt, ← UInt8.toNat_inj, UInt8.toNat_ofNat_of_lt' hv,
    UInt8.toNat_ofNat_of_lt' hw]

/-- A byte behind the first of an encoding has six bits of the code point. -/
theorem ofNat_continuation_lt_iff :
    UInt8.ofNat (v % 64 + 128) :: xs < UInt8.ofNat (w % 64 + 128) :: ys ↔
      v % 64 < w % 64 ∨ v % 64 = w % 64 ∧ xs < ys := by
  rw [ofNat_cons_lt_iff (by omega) (by omega), Nat.add_lt_add_iff_right, Nat.add_right_cancel_iff]

/-- **Characters are encoded in their order**, whatever follows them. -/
theorem encode_lt {c d : Char} (h : c < d) (xs ys : List UInt8) :
    String.utf8EncodeChar c ++ xs < String.utf8EncodeChar d ++ ys := by
  have hlt : c.val.toNat < d.val.toNat := h
  have hmax : d.val.toNat < 0x110000 := by
    rcases d.valid with hsmall | hlarge
    · omega
    · exact hlarge.2
  rw [String.utf8EncodeChar, String.utf8EncodeChar]
  generalize c.val.toNat = v at hlt ⊢
  generalize d.val.toNat = w at hlt hmax ⊢
  split_ifs
  all_goals simp only [List.cons_append, List.nil_append]
  -- a longer encoding has a greater first byte, and one byte is the code point itself
  all_goals try omega
  all_goals try exact (ofNat_cons_lt_iff (by omega) (by omega)).mpr (.inl (by omega))
  -- of encodings of one length, the first place where the code points differ decides
  all_goals
    refine (ofNat_cons_lt_iff (by omega) (by omega)).mpr ?_
    simp only [ofNat_continuation_lt_iff]
  · omega
  · by_cases h64 : v / 64 = w / 64
    · omega
    · omega
  · by_cases h4096 : v / 4096 = w / 4096
    · refine .inr ⟨by omega, .inr ⟨by omega, ?_⟩⟩
      by_cases h64 : v / 64 = w / 64
      · omega
      · exact .inl (by omega)
    · by_cases h262144 : v / 262144 = w / 262144
      · exact .inr ⟨by omega, .inl (by omega)⟩
      · exact .inl (by omega)

/-- **The order of texts is that of their bytes.** -/
theorem utf8_lt_of_lt {s t : String} (h : s < t) : utf8 s < utf8 t := by
  rw [utf8_eq_flatMap, utf8_eq_flatMap]
  have hchars : s.toList < t.toList := h
  generalize s.toList = cs at hchars
  generalize t.toList = ds at hchars
  induction hchars with
  | @nil d ds =>
    obtain ⟨b, bs, hd⟩ := List.exists_cons_of_ne_nil (String.utf8EncodeChar_ne_nil (c := d))
    rw [List.flatMap_cons, hd, List.flatMap_nil]
    exact List.nil_lt_cons _ _
  | cons _ ih =>
    rw [List.flatMap_cons, List.flatMap_cons]
    exact List.append_left_lt ih
  | rel hcd =>
    rw [List.flatMap_cons, List.flatMap_cons]
    exact encode_lt hcd _ _

theorem map_utf8_lt_of_lt {names names' : List String} (h : names < names') :
    names.map utf8 < names'.map utf8 := by
  induction h with
  | nil => exact List.nil_lt_cons _ _
  | cons _ ih => exact List.cons_lt_cons_iff.mpr (.inr ⟨rfl, ih⟩)
  | rel h => exact List.cons_lt_cons_iff.mpr (.inl (utf8_lt_of_lt h))

end LivingGuide.Text
