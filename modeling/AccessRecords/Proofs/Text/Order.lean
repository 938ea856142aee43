/-
The order of texts: comparing them character by character, as tables do, is comparing the bytes
that they are encoded in. Both orders agree because the encoding of a smaller character differs
from that of a larger one first at a smaller byte.
-/
import AccessRecords.Text.Utf8
import Mathlib.Data.String.Basic
import Mathlib.Tactic

namespace AccessRecords.Text

theorem compare_eq_lt {a b : String} : compare a b = .lt ↔ a < b := compareOfLessAndEq_eq_lt

theorem compare_isLE {a b : String} : (compare a b).isLE = true ↔ a ≤ b := Std.LawfulBCmp.isLE_iff_le

/-- Texts that are all different ascend strictly once they are sorted. -/
theorem mergeSort_ascending {l : List String} (h : l.Nodup) :
    (l.mergeSort fun a b => (compare a b).isLE).Pairwise (· < ·) := by
  have htotal : ∀ a b : String, ((compare a b).isLE || (compare b a).isLE) = true := by
    simpa only [Bool.or_eq_true, compare_isLE] using le_total
  have htrans : ∀ a b c : String, (compare a b).isLE = true → (compare b c).isLE = true →
      (compare a c).isLE = true := fun _ _ _ => Std.TransOrd.isLE_trans
  have hs := List.pairwise_mergeSort htrans htotal l
  have hn : (l.mergeSort fun a b => (compare a b).isLE).Nodup := (List.mergeSort_perm l _).nodup_iff.2 h
  exact (hs.and hn).imp fun hab => lt_of_le_of_ne (compare_isLE.1 hab.1) hab.2

/-- After any finite number of texts there comes another one. -/
theorem exists_gt (texts : Finset String) : ∃ t, ∀ s ∈ texts, s < t := by
  obtain ⟨m, hm⟩ := texts.exists_le
  have hlt : m < m ++ "a" := by
    rw [String.lt_iff, String.toList_append]
    conv_lhs => rw [← List.append_nil m.toList]
    exact List.append_left_lt (List.nil_lt_cons _ _)
  exact ⟨m ++ "a", fun s hs => (hm s hs).trans_lt hlt⟩

namespace Utf8

theorem encode_ofList (l : List Char) : encode (String.ofList l) = l.flatMap String.utf8EncodeChar := by
  unfold encode
  rw [String.toByteArray_ofList, List.utf8Encode]
  simp

theorem encode_eq_flatMap (s : String) : encode s = s.toList.flatMap String.utf8EncodeChar := by
  rw [← encode_ofList, String.ofList_toList]

theorem ofNat_cons_lt {a b : Nat} (ha : a < 256) (hb : b < 256) {x y : List UInt8}
    (h : a < b ∨ a = b ∧ x < y) : UInt8.ofNat a :: x < UInt8.ofNat b :: y := by
  rw [List.cons_lt_cons_iff, UInt8.lt_iff_toNat_lt, UInt8.toNat_ofNat', UInt8.toNat_ofNat',
    Nat.mod_eq_of_lt ha, Nat.mod_eq_of_lt hb]
  rcases h with h | ⟨rfl, h⟩
  · exact Or.inl h
  · exact Or.inr ⟨rfl, h⟩

/-- Of two numbers to the base 64, the last digits decide once the ones before them agree. -/
theorem digit_lt_or {m n : Nat} (h : m < n) : m / 64 < n / 64 ∨ m / 64 = n / 64 ∧ m % 64 < n % 64 := by
  omega

/-- The bytes after the first one hold the digits of the code point to the base 64. -/
theorem lastByte_lt {m n : Nat} (h : m % 64 < n % 64) (x y : List UInt8) :
    UInt8.ofNat (m % 64 + 128) :: x < UInt8.ofNat (n % 64 + 128) :: y :=
  ofNat_cons_lt (by omega) (by omega) (Or.inl (by omega))

theorem lastTwoBytes_lt {m n : Nat} (h : m / 64 % 64 < n / 64 % 64 ∨ m / 64 = n / 64 ∧ m % 64 < n % 64)
    (x y : List UInt8) :
    UInt8.ofNat (m / 64 % 64 + 128) :: UInt8.ofNat (m % 64 + 128) :: x <
      UInt8.ofNat (n / 64 % 64 + 128) :: UInt8.ofNat (n % 64 + 128) :: y := by
  refine ofNat_cons_lt (by omega) (by omega) ?_
  rcases h with h | ⟨h, h'⟩
  · exact Or.inl (by omega)
  · exact Or.inr ⟨by rw [h], lastByte_lt h' x y⟩

/-- A smaller character has the smaller encoding, whatever follows. -/
theorem encodeChar_lt {c d : Char} (h : c < d) (x y : List UInt8) :
    String.utf8EncodeChar c ++ x < String.utf8EncodeChar d ++ y := by
  have hv : c.val.toNat < d.val.toNat := h
  have hd : d.val.toNat < 0x110000 := by
    rcases d.valid with h | ⟨_, h⟩ <;> omega
  unfold String.utf8EncodeChar
  generalize c.val.toNat = m at hv
  generalize d.val.toNat = n at hv hd
  have hdiv : ∀ i : Nat, i / 4096 = i / 64 / 64 ∧ i / 262144 = i / 64 / 64 / 64 := by omega
  simp only [hdiv]
  split_ifs <;> simp only [List.cons_append, List.nil_append] <;> refine ofNat_cons_lt (by omega) (by omega) ?_
  -- encodings of different lengths differ at the first byte
  all_goals try exact Or.inl (by omega)
  · rcases digit_lt_or hv with hq | ⟨hq, hr⟩
    · exact Or.inl (by omega)
    · exact Or.inr ⟨by rw [hq], lastByte_lt hr x y⟩
  · rcases digit_lt_or hv with hq | ⟨hq, hr⟩
    · rcases digit_lt_or hq with hq' | ⟨hq', hr'⟩
      · exact Or.inl (by omega)
      · exact Or.inr ⟨by rw [hq'], lastTwoBytes_lt (Or.inl hr') x y⟩
    · exact Or.inr ⟨by rw [hq], lastTwoBytes_lt (Or.inr ⟨hq, hr⟩) x y⟩
  · rcases digit_lt_or hv with hq | ⟨hq, hr⟩
    · rcases digit_lt_or hq with hq' | ⟨hq', hr'⟩
      · rcases digit_lt_or hq' with hq'' | ⟨hq'', hr''⟩
        · exact Or.inl (by omega)
        · exact Or.inr ⟨by rw [hq''], ofNat_cons_lt (by omega) (by omega) (Or.inl (by omega))⟩
      · exact Or.inr ⟨by rw [hq'], ofNat_cons_lt (by omega) (by omega)
          (Or.inr ⟨by rw [hq'], lastTwoBytes_lt (Or.inl hr') x y⟩)⟩
    · exact Or.inr ⟨by rw [hq], ofNat_cons_lt (by omega) (by omega)
        (Or.inr ⟨by rw [hq], lastTwoBytes_lt (Or.inr ⟨hq, hr⟩) x y⟩)⟩

theorem encode_lt {s t : String} (h : s < t) : encode s < encode t := by
  rw [String.lt_iff] at h
  rw [encode_eq_flatMap, encode_eq_flatMap]
  generalize s.toList = a at h
  generalize t.toList = b at h
  induction h with
  | @nil c b =>
    obtain ⟨x, l, hx⟩ := List.exists_cons_of_ne_nil (String.utf8EncodeChar_ne_nil (c := c))
    rw [List.flatMap_cons, hx]
    exact List.nil_lt_cons x _
  | rel h => exact encodeChar_lt h _ _
  | cons _ ih => exact List.append_left_lt ih

theorem encode_lt_encode_iff {s t : String} : encode s < encode t ↔ s < t := by
  refine ⟨fun h => ?_, encode_lt⟩
  rcases lt_trichotomy s t with hlt | rfl | hgt
  · exact hlt
  · exact absurd h (List.lt_irrefl _)
  · exact absurd (List.lt_trans h (encode_lt hgt)) (List.lt_irrefl _)

end Utf8

end AccessRecords.Text
