/-
Pages of lists. A page is what is left once the offset is dropped, cut to the limit, and the pages
of one size that follow each other give the whole list.
-/
import AccessRecords.Page
import Mathlib.Tactic

namespace AccessRecords.Page

variable {α : Type}

theorem slice_index (p : Page) (l : List α) :
    (l.take (p.index l.length).2).drop (p.index l.length).1 = (l.drop p.offset).take p.limit := by
  unfold index
  split_ifs with h
  · rw [List.take_length, List.drop_length, List.drop_eq_nil_of_le h.le, List.take_nil]
  · dsimp only
    rw [List.drop_take]
    rcases Nat.le_total (p.offset + p.limit) l.length with hl | hl
    · rw [min_eq_left hl, Nat.add_sub_cancel_left]
    · rw [min_eq_right hl, List.take_of_length_le (by rw [List.length_drop]),
        List.take_of_length_le (by rw [List.length_drop]; omega)]

theorem window_eq (p : Page) (l : List α) : p.window l = (l.drop p.offset).take p.limit :=
  slice_index p l

/-- The first pages of one size give the first items. -/
theorem flatMap_pages_eq_take (l : List α) (size count : Nat) :
    ((List.range count).flatMap fun j => (l.drop (j * size)).take size) = l.take (count * size) := by
  induction count with
  | zero => simp
  | succ count ih =>
    rw [List.range_succ, List.flatMap_append, ih, List.flatMap_singleton, Nat.succ_mul, List.take_add]

/-- Enough pages of one size give the whole list. -/
theorem flatMap_pages {l : List α} {size count : Nat} (h : l.length ≤ count * size) :
    ((List.range count).flatMap fun j => (l.drop (j * size)).take size) = l := by
  rw [flatMap_pages_eq_take, List.take_of_length_le h]

/-! ## Windows in 64-bit arithmetic -/

theorem toNat_addSaturating (a b : UInt64) :
    (addSaturating a b).toNat = min (a.toNat + b.toNat) (UInt64.size - 1) := by
  have ha : a.toNat < UInt64.size := a.toNat_lt_size
  have hb : b.toNat < UInt64.size := b.toNat_lt_size
  have hs : (a + b).toNat = (a.toNat + b.toNat) % UInt64.size := UInt64.toNat_add a b
  unfold UInt64.size at ha hb hs ⊢
  unfold addSaturating
  split_ifs with h
  · -- the sum has wrapped around, so it would have exceeded the largest number
    rw [UInt64.lt_iff_toNat_lt, hs] at h
    show 18446744073709551616 - 1 = _
    omega
  · rw [UInt64.lt_iff_toNat_lt, hs] at h
    rw [hs]
    omega

theorem toNat_min (a b : UInt64) : (min a b).toNat = min a.toNat b.toNat := by
  show (if a ≤ b then a else b).toNat = _
  split_ifs with h
  · exact (min_eq_left (UInt64.le_iff_toNat_le.1 h)).symm
  · have hlt : b.toNat < a.toNat := not_le.1 fun hle => h (UInt64.le_iff_toNat_le.2 hle)
    exact (min_eq_right hlt.le).symm

/-- The bounds of a window are the same numbers when they are computed with 64 bits. -/
theorem toNat_indexWords (limit offset length : UInt64) :
    ((indexWords limit offset length).1.toNat, (indexWords limit offset length).2.toNat) =
      index ⟨limit.toNat, offset.toNat⟩ length.toNat := by
  have hl : length.toNat < UInt64.size := length.toNat_lt_size
  unfold indexWords index
  simp only [UInt64.lt_iff_toNat_lt]
  split_ifs with h
  · rfl
  · rw [toNat_min, toNat_addSaturating]
    -- the largest number is no shorter than the sequence
    have hm : min (min (offset.toNat + limit.toNat) (UInt64.size - 1)) length.toNat =
        min (offset.toNat + limit.toNat) length.toNat := by omega
    rw [hm]

theorem index_fst_le_snd (p : Page) (length : Nat) : (p.index length).1 ≤ (p.index length).2 := by
  unfold index
  split_ifs with h
  · exact le_rfl
  · exact le_min (Nat.le_add_right _ _) (not_lt.1 h)

/-- Skipping to the start and taking as many items as lie before the end is the window. -/
theorem slice_indexWords (limit offset : UInt64) {l : List α} (h : l.length < UInt64.size) :
    (l.drop (indexWords limit offset (UInt64.ofNat l.length)).1.toNat).take
        ((indexWords limit offset (UInt64.ofNat l.length)).2 -
          (indexWords limit offset (UInt64.ofNat l.length)).1).toNat =
      (l.drop offset.toNat).take limit.toNat := by
  have hn : (UInt64.ofNat l.length).toNat = l.length := UInt64.toNat_ofNat_of_lt' h
  have hw := toNat_indexWords limit offset (UInt64.ofNat l.length)
  rw [hn] at hw
  have hle := index_fst_le_snd ⟨limit.toNat, offset.toNat⟩ l.length
  rw [← hw] at hle
  rw [UInt64.toNat_sub_of_le _ _ (UInt64.le_iff_toNat_le.2 hle), ← List.drop_take]
  have hslice := slice_index ⟨limit.toNat, offset.toNat⟩ l
  rw [← hw] at hslice
  exact hslice

end AccessRecords.Page
