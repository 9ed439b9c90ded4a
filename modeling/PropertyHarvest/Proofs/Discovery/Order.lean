/-
# The order of files

The paths that are found are kept in ascending order, each once.  Texts are
compared character by character, which is the order of their bytes: in UTF-8 a
greater character has the greater bytes, and the bytes of one character never
begin those of another (`utf8EncodeChar_append_lt`).

Nothing is said of the order of places, only of the paths as texts.  A file that is
spelled in two ways stands twice in the list, and its two paths may be far from each
other.

That characters are compared by their bytes is what makes the order one that another
program can reproduce without decoding.  The same order is used for the properties of
a module in the report.
-/
import Mathlib.Data.String.Basic
import PropertyHarvest.Discovery

namespace PropertyHarvest

/-! ## Ascending lists -/

theorem mem_insertAscending {s t : String} {ss : List String} :
    t ∈ insertAscending s ss ↔ t = s ∨ t ∈ ss := by
  fun_induction insertAscending s ss with
  | case1 => simp
  | case2 u us hlt => simp
  | case3 us hlt => simp
  | case4 u us hlt hne ih =>
      rw [List.mem_cons, ih, List.mem_cons]
      exact or_left_comm

theorem mem_ascending {t : String} {ss : List String} : t ∈ ascending ss ↔ t ∈ ss := by
  induction ss with
  | nil => exact Iff.rfl
  | cons s ss ih =>
      show t ∈ insertAscending s (ascending ss) ↔ _
      rw [mem_insertAscending, ih, List.mem_cons]

theorem pairwise_insertAscending {ss : List String} (h : ss.Pairwise (· < ·)) (s : String) :
    (insertAscending s ss).Pairwise (· < ·) := by
  fun_induction insertAscending s ss with
  | case1 => exact List.pairwise_singleton _ s
  | case2 u us hlt =>
      refine List.pairwise_cons.mpr ⟨fun t ht => ?_, h⟩
      rcases List.mem_cons.mp ht with rfl | ht
      · exact hlt
      · exact lt_trans hlt ((List.pairwise_cons.mp h).1 t ht)
  | case3 us hlt => exact h
  | case4 u us hlt hne ih =>
      obtain ⟨hu, hus⟩ := List.pairwise_cons.mp h
      refine List.pairwise_cons.mpr ⟨fun t ht => ?_, ih hus⟩
      rcases mem_insertAscending.mp ht with rfl | ht
      · exact lt_of_le_of_ne (not_lt.mp hlt) fun he => hne he.symm
      · exact hu t ht

theorem pairwise_ascending (ss : List String) : (ascending ss).Pairwise (· < ·) := by
  induction ss with
  | nil => exact .nil
  | cons s ss ih => exact pairwise_insertAscending ih s

/-- Ascending lists that hold the same are equal. -/
theorem eq_of_pairwise_lt {ss ts : List String} (hs : ss.Pairwise (· < ·))
    (ht : ts.Pairwise (· < ·)) (h : ∀ u, u ∈ ss ↔ u ∈ ts) : ss = ts := by
  have hperm : ss.Perm ts :=
    (List.perm_ext_iff_of_nodup (hs.imp ne_of_lt) (ht.imp ne_of_lt)).mpr h
  exact hperm.eq_of_pairwise (fun _ _ _ _ hlt hgt => absurd hgt (lt_asymm hlt)) hs ht

/-! ## The order of bytes -/

/-- A text as its bytes. -/
def bytes (s : String) : List UInt8 :=
  s.toUTF8.data.toList

theorem bytes_eq (s : String) : bytes s = s.toList.flatMap String.utf8EncodeChar := by
  rw [bytes, String.toUTF8_eq_toByteArray, ← String.utf8Encode_toList, List.utf8Encode,
    List.data_toByteArray]

theorem toNat_byte {n : Nat} (h : n < 256) : (UInt8.ofNat n).toNat = n := by
  rw [UInt8.toNat_ofNat', Nat.mod_eq_of_lt h]

/-- The bytes of a greater character are greater, whatever follows. -/
theorem utf8EncodeChar_append_lt {c d : Char} (h : c < d) (xs ys : List UInt8) :
    String.utf8EncodeChar c ++ xs < String.utf8EncodeChar d ++ ys := by
  have hlt : c.val.toNat < d.val.toNat := h
  have hd : d.val.toNat < 0x110000 := by
    rcases d.valid with hd | hd
    · exact Nat.lt_trans hd (by decide)
    · exact hd.2
  -- Six bits are a digit to the base 64, and the digits of both are compared.
  have h2 (n : Nat) : n / 4096 = n / 64 / 64 := by omega
  have h3 (n : Nat) : n / 262144 = n / 64 / 64 / 64 := by omega
  simp only [String.utf8EncodeChar]
  split_ifs
  all_goals
    simp (disch := omega) only [List.cons_append, List.nil_append, List.cons_lt_cons_iff,
      UInt8.lt_iff_toNat_lt, ← UInt8.toNat_inj, toNat_byte, h2, h3]
    omega

theorem bytes_lt {s t : String} (h : s < t) : bytes s < bytes t := by
  rw [bytes_eq, bytes_eq]
  have hchars : s.toList < t.toList := h
  revert hchars
  generalize s.toList = cs
  generalize t.toList = ds
  intro hchars
  induction hchars with
  | @nil d ds =>
      rw [List.flatMap_nil, List.flatMap_cons]
      obtain ⟨b, bs, hb⟩ := List.exists_cons_of_ne_nil (String.utf8EncodeChar_ne_nil (c := d))
      rw [hb]
      exact .nil
  | rel hcd =>
      rw [List.flatMap_cons, List.flatMap_cons]
      exact utf8EncodeChar_append_lt hcd _ _
  | cons _ ih =>
      rw [List.flatMap_cons, List.flatMap_cons]
      exact List.append_left_lt ih

theorem pairwise_bytes_ascending (ss : List String) :
    ((ascending ss).map bytes).Pairwise (· < ·) :=
  List.pairwise_map.mpr ((pairwise_ascending ss).imp bytes_lt)

end PropertyHarvest
