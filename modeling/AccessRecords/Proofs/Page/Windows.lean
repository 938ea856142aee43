/-
Windows in 64-bit arithmetic. The bounds of a window are exact for every limit, offset and length: a sum
that does not fit into a word stays above every length, where it is cut in any case. They are in order, so
neither of the two ways to take the items between them can fail: cutting the list at the end and then
taking away what lies before the start, or skipping to the start and taking as many items as the end is
away from it.
-/
import AccessRecords.Proofs.Page
import AccessRecords.Proofs.Store.Documents
import AccessRecords.Search

namespace AccessRecords

namespace Page

variable {α : Type}

/-! ## Bounds -/

/-- The words `start` and `stop` are the offset, and the exact sum of the offset and the limit, each cut
at the length. They lie in order, and between them there is as much as the limit allows of what follows
the start. -/
structure Bounds (limit offset length start stop : UInt64) : Prop where
  start_eq : start.toNat = min offset.toNat length.toNat
  stop_eq : stop.toNat = min (offset.toNat + limit.toNat) length.toNat
  start_le : start ≤ stop
  stop_le : stop ≤ length
  count_eq : stop - start = min limit (length - start)

theorem index_eq (p : Page) (length : Nat) :
    p.index length = (min p.offset length, min (p.offset + p.limit) length) := by
  unfold index
  split_ifs with h
  · rw [min_eq_right h.le, min_eq_right (by omega)]
  · rw [min_eq_left (not_lt.1 h)]

/-- The computed bounds are exact. -/
theorem bounds_indexWords (limit offset length : UInt64) :
    Bounds limit offset length (indexWords limit offset length).1 (indexWords limit offset length).2 := by
  have hw := toNat_indexWords limit offset length
  rw [index_eq, Prod.mk.injEq] at hw
  obtain ⟨hstart, hstop⟩ := hw
  dsimp only at hstart hstop
  generalize (indexWords limit offset length).1 = start at hstart ⊢
  generalize (indexWords limit offset length).2 = stop at hstop ⊢
  have hstart_le : start ≤ stop := by rw [UInt64.le_iff_toNat_le]; omega
  have hstop_le : stop ≤ length := by rw [UInt64.le_iff_toNat_le]; omega
  refine ⟨hstart, hstop, hstart_le, hstop_le, ?_⟩
  apply UInt64.toNat_inj.1
  rw [toNat_min, UInt64.toNat_sub_of_le _ _ hstart_le,
    UInt64.toNat_sub_of_le _ _ (UInt64.le_trans hstart_le hstop_le)]
  omega

/-! ## Items between the bounds -/

section Items

variable {limit offset : UInt64} {items : List α}

/-- After the cut there are enough items left to take away those before the start. -/
theorem windowWords?_eq (h : items.length < UInt64.size) :
    windowWords? limit offset items = some (window ⟨limit.toNat, offset.toNat⟩ items) := by
  have hn : (UInt64.ofNat items.length).toNat = items.length := UInt64.toNat_ofNat_of_lt' h
  have hbounds := bounds_indexWords limit offset (UInt64.ofNat items.length)
  have hstart := UInt64.le_iff_toNat_le.1 hbounds.start_le
  have hstop := UInt64.le_iff_toNat_le.1 hbounds.stop_le
  have hwords := toNat_indexWords limit offset (UInt64.ofNat items.length)
  rw [hn] at hstop hwords
  unfold windowWords? withoutFirst? window
  rw [← hwords]
  dsimp only
  rw [List.length_take, min_eq_left hstop, if_pos hstart]

/-- The end is not before the start, so their difference is the number of items between them. -/
theorem sliceWords?_some (h : items.length < UInt64.size) :
    sliceWords? (some limit) offset items = some (window ⟨limit.toNat, offset.toNat⟩ items) := by
  have hbounds := bounds_indexWords limit offset (UInt64.ofNat items.length)
  unfold sliceWords? subWord?
  dsimp only
  rw [if_pos hbounds.start_le, Option.map_some, slice_indexWords limit offset h, window_eq]

theorem sliceWords?_none (h : items.length < UInt64.size) : sliceWords? none offset items = some items := by
  have hn : (UInt64.ofNat items.length).toNat = items.length := UInt64.toNat_ofNat_of_lt' h
  unfold sliceWords? subWord?
  dsimp only
  rw [if_pos UInt64.zero_le, Option.map_some, UInt64.sub_zero, hn, UInt64.toNat_zero, List.drop_zero,
    List.take_length]

end Items

/-! ## Windows of windows -/

/-- A window of a window is a window: its offset counts from that of the first, whose limit it cannot
exceed. -/
theorem window_window (p q : Page) (items : List α) :
    q.window (p.window items) =
      (⟨min q.limit (p.limit - q.offset), p.offset + q.offset⟩ : Page).window items := by
  rw [window_eq, window_eq, window_eq, List.drop_take, List.drop_drop, List.take_take]

theorem window_again (p : Page) (items : List α) : (⟨p.limit, 0⟩ : Page).window (p.window items) = p.window items := by
  rw [window_window, Nat.sub_zero, min_self, Nat.add_zero]

theorem length_window_le (p : Page) (items : List α) : (p.window items).length ≤ items.length := by
  rw [window_eq, List.length_take, List.length_drop]
  omega

end Page

theorem Listing.window_again (p : Page) (l : Listing) : (l.window p).window ⟨p.limit, 0⟩ = l.window p := by
  cases l with
  | roles items => exact congrArg Listing.roles (Page.window_again p items)
  | policies items => exact congrArg Listing.policies (Page.window_again p items)
  | raw items => exact congrArg Listing.raw (Page.window_again p items)

/-! ## The main statement -/

/-- For all words: the bounds of a window are exact and in order. So neither way to take the items
between them fails on a list whose length is a word, and both give the items of the page; the page of
these with the same limit and no offset is all of them. The same holds for the documents that a store
lists and for listings. -/
theorem Page.window_words_exact (limit offset : UInt64) :
    let p : Page := ⟨limit.toNat, offset.toNat⟩
    let again : Page := ⟨limit.toNat, 0⟩
    (∀ length, Bounds limit offset length (indexWords limit offset length).1 (indexWords limit offset length).2) ∧
    (∀ (α : Type) (items : List α),
      p.window items = (items.drop offset.toNat).take limit.toNat ∧ again.window (p.window items) = p.window items ∧
      (items.length < UInt64.size →
        windowWords? limit offset items = some (p.window items) ∧
        windowWords? limit 0 (p.window items) = some (p.window items) ∧
        sliceWords? (some limit) offset items = some (p.window items) ∧
        sliceWords? none offset items = some items)) ∧
    (∀ (s : Store) (c : String), s.page c p = p.window (s.values c) ∧
      ((s.values c).length < UInt64.size →
        sliceWords? (some limit) offset (s.values c) = some (s.page c p) ∧
        sliceWords? none offset (s.values c) = some (s.values c))) ∧
    (∀ l : Listing, (l.window p).window again = l.window p) := by
  intro p again
  have hpage : ∀ (s : Store) (c : String), s.page c p = p.window (s.values c) := by
    intro s c
    rw [Store.page_eq, p.window_eq]
  refine ⟨bounds_indexWords limit offset, fun α items => ⟨p.window_eq items, p.window_again items, fun h => ?_⟩,
    fun s c => ⟨hpage s c, fun h => ⟨?_, sliceWords?_none h⟩⟩, Listing.window_again p⟩
  · have hwindow : (p.window items).length < UInt64.size := (p.length_window_le items).trans_lt h
    exact ⟨windowWords?_eq h, (windowWords?_eq hwindow).trans (congrArg some (p.window_again items)),
      sliceWords?_some h, sliceWords?_none h⟩
  · rw [sliceWords?_some h, hpage]

-- the sum of the offset and the limit would wrap around to zero
example : Page.indexWords 0xFFFFFFFFFFFFFFFF 1 4 = (1, 4) := by decide

end AccessRecords
