/-
Paging through a collection. The pages of one size that follow each other give every record that
the query asks for once and in the order of the keys, whether the store cuts the pages and the
records on them are filtered, or all records are filtered and then cut.
-/
import AccessRecords.Proofs.Query
import AccessRecords.Proofs.Search.Specification
import AccessRecords.Proofs.Text.Numeral

namespace AccessRecords

open Json

/-! ## Queries for pages -/

namespace Query

/-- The query for one of the pages of a size, counted from zero. -/
def page (q : Query) (size j : Nat) : Query :=
  (q.add "limit" (toString size)).add "offset" (toString (j * size))

variable {q : Query} {size j : Nat} {k : String}

theorem get?_page (hl : k ≠ "limit") (ho : k ≠ "offset") : (q.page size j).get? k = q.get? k := by
  unfold page
  rw [get?_add, if_neg ho, get?_add, if_neg hl]

theorem contains_page (hl : k ≠ "limit") (ho : k ≠ "offset") :
    (q.page size j).contains k = q.contains k := by
  unfold Table.contains
  rw [get?_page hl ho]

theorem values_page (hl : k ≠ "limit") (ho : k ≠ "offset") : (q.page size j).values k = q.values k := by
  unfold values
  rw [get?_page hl ho]

theorem ne_of_mem_dimensions {r : Record} {d : String × List String} (h : d ∈ r.dimensions) :
    d.1 ≠ "limit" ∧ d.1 ≠ "offset" := by
  cases r with
  | role r =>
    simp only [Record.dimensions, List.mem_cons, List.not_mem_nil, or_false] at h
    rcases h with rfl | rfl <;> simp
  | policy p =>
    simp only [Record.dimensions, List.mem_cons, List.not_mem_nil, or_false] at h
    rcases h with rfl | rfl | rfl | rfl <;> simp
  | raw v => cases h

/-- Pages are about the records that the query itself asks for. -/
theorem asksFor_page (r : Record) : (q.page size j).AsksFor r ↔ q.AsksFor r := by
  refine forall₂_congr fun d hd => ?_
  obtain ⟨hl, ho⟩ := ne_of_mem_dimensions hd
  rw [values_page hl ho]

theorem first?_limit (h : q.contains "limit" = false) : (q.page size j).first? "limit" = some (toString size) := by
  unfold first? page
  rw [get?_add, if_neg (by decide), get?_add, if_pos rfl]
  rw [Table.contains, Option.isSome_eq_false_iff, Option.isNone_iff_eq_none] at h
  rw [h]
  rfl

theorem first?_offset (h : q.contains "offset" = false) :
    (q.page size j).first? "offset" = some (toString (j * size)) := by
  unfold first? page
  rw [get?_add, if_pos rfl, get?_add, if_neg (by decide)]
  rw [Table.contains, Option.isSome_eq_false_iff, Option.isNone_iff_eq_none] at h
  rw [h]
  rfl

end Query

theorem Page.ofQuery_page {q : Query} {size j : Nat} (hl : q.contains "limit" = false)
    (ho : q.contains "offset" = false) (hs : size ≤ 500) (hj : j * size < 2 ^ 63) :
    Page.ofQuery {} (q.page size j) = ⟨size, j * size⟩ := by
  have hlimit : Page.number? (q.page size j) "limit" = some (size : Int) := by
    unfold number?
    rw [Query.first?_limit hl, Option.bind_some, Text.trim_toString, Text.readInt64?_toString (by omega)]
  have hoffset : Page.number? (q.page size j) "offset" = some ((j * size : Nat) : Int) := by
    unfold number?
    rw [Query.first?_offset ho, Option.bind_some, Text.trim_toString, Text.readInt64?_toString hj]
  unfold ofQuery
  rw [hlimit, hoffset, Option.map_some, Option.map_some, Option.getD_some, Option.getD_some,
    Int.toNat_natCast, Int.toNat_natCast, min_eq_left hs]

namespace Search

/-! ## One page -/

theorem scans_page {c : String} {q : Query} {size j : Nat} : Scans c (q.page size j) ↔ Scans c q := by
  unfold Scans
  rw [Query.contains_page (by decide) (by decide), Query.contains_page (by decide) (by decide),
    Query.contains_page (by decide) (by decide), Query.contains_page (by decide) (by decide)]

theorem ofCollection_filterable (c : String) : ¬ (Request.ofCollection c).Unfilterable := by
  unfold Request.ofCollection Request.Unfilterable
  cases Collection.kind c <;> simp [Request.roles, Request.policies, Request.raw]

/-- The records of a collection that are listed for a query. -/
def listed (c : String) (q : Query) (records : List Record) : List Record :=
  if Collection.kind c = .other then records else records.filter (q.AsksFor ·)

theorem kept_ofCollection (c : String) (q : Query) (records : List Record) :
    (Request.ofCollection c).strategy.kept q records = listed c q records := by
  unfold Request.ofCollection listed
  cases Collection.kind c <;> rfl

theorem answer_ofCollection (c : String) (q : Query) (records : List Record) :
    answer (.ofCollection c) q records =
      if Scans c q then
        ((listed c q records).drop (Page.ofQuery {} q).offset).take (Page.ofQuery {} q).limit
      else listed c q records := by
  unfold answer
  rw [Request.collection_ofCollection, kept_ofCollection]

theorem listed_page (c : String) (q : Query) (size j : Nat) (records : List Record) :
    listed c (q.page size j) records = listed c q records := by
  unfold listed
  simp only [Query.asksFor_page]

section Page

variable {s : Store} {c : String} {records : List Record} {q : Query} {ctx : Context} {size j : Nat}

theorem result_ofCollection (hc : ctx.isCancelled = false) :
    result (.ofCollection c) q ctx s =
      select (.ofCollection c) q (Plan.make c q) ((Plan.make c q).documents s c) := by
  rw [result_of_active (ofCollection_filterable c) hc, Request.collection_ofCollection]

theorem select_ofCollection {documents : List Value}
    (h : List.Forall₂ (fun d r => Record.ofValue (Collection.shape c) d = .ok r) documents records) :
    ∃ l, select (.ofCollection c) q (Plan.make c q) documents = .ok l ∧
      l.records = answer (.ofCollection c) q records := by
  obtain ⟨l, he, -, hr⟩ := select_eq_ok (ofCollection_filterable c) (q := q)
    (by rw [Request.shape_ofCollection]; exact Except.mapM_eq_ok.2 h)
  rw [Request.collection_ofCollection] at he
  exact ⟨l, he, hr⟩

/-- What one page lists: a part of the records asked for, or those asked for in a part. -/
theorem run_page
    (hd : List.Forall₂ (fun d r => Record.ofValue (Collection.shape c) d = .ok r) (s.values c) records)
    (hl : q.contains "limit" = false) (ho : q.contains "offset" = false) (hs : size ≤ 500)
    (hj : j * size < 2 ^ 63) (hc : ctx.isCancelled = false) :
    ∃ l, (run Store.backend ctx (.ofCollection c) (q.page size j)).runOn s = (.ok l, s) ∧
      l.records =
        if Scans c q then ((listed c q records).drop (j * size)).take size
        else listed c q ((records.drop (j * size)).take size) := by
  have hd' : List.Forall₂ (fun d r => Record.ofValue (Request.ofCollection c).shape d = .ok r)
      (s.values (Request.ofCollection c).collection) records := by
    rwa [Request.shape_ofCollection, Request.collection_ofCollection]
  obtain ⟨l, hrun, -, hrec⟩ := run_readable (ofCollection_filterable c) hc (q := q.page size j) hd'
  refine ⟨l, hrun, ?_⟩
  rw [Request.collection_ofCollection, Page.ofQuery_page hl ho hs hj] at hrec
  simpa only [kept_ofCollection, listed_page, scans_page] using hrec

/-! ## All pages -/

theorem runOn_mapM_cons {α β : Type} (f : α → Action Store β) (a : α) (as : List α) {b : β} {bs : List β}
    (h : (f a).runOn s = (.ok b, s)) (hs : (as.mapM f).runOn s = (.ok bs, s)) :
    ((a :: as).mapM f).runOn s = (.ok (b :: bs), s) := by
  rw [List.mapM_cons, Action.runOn_bind, h]
  dsimp only
  rw [Action.runOn_bind, hs]
  rfl

theorem run_pages
    (hd : List.Forall₂ (fun d r => Record.ofValue (Collection.shape c) d = .ok r) (s.values c) records)
    (hl : q.contains "limit" = false) (ho : q.contains "offset" = false) (hs : size ≤ 500)
    (hc : ctx.isCancelled = false) (js : List Nat) (hj : ∀ j ∈ js, j * size < 2 ^ 63) :
    ∃ pages, (js.mapM fun j => run Store.backend ctx (.ofCollection c) (q.page size j)).runOn s =
        (.ok pages, s) ∧
      pages.flatMap Listing.records = js.flatMap fun j =>
        if Scans c q then ((listed c q records).drop (j * size)).take size
        else listed c q ((records.drop (j * size)).take size) := by
  induction js with
  | nil => exact ⟨[], rfl, rfl⟩
  | cons j js ih =>
    obtain ⟨l, hrun, hrec⟩ := run_page hd hl ho hs (hj j List.mem_cons_self) hc
    obtain ⟨pages, hruns, hrecs⟩ := ih fun j hj' => hj j (List.mem_cons_of_mem _ hj')
    refine ⟨l :: pages, runOn_mapM_cons _ j js hrun hruns, ?_⟩
    rw [List.flatMap_cons, List.flatMap_cons, hrec, hrecs]

theorem length_listed_le (c : String) (q : Query) (records : List Record) :
    (listed c q records).length ≤ records.length := by
  unfold listed
  split_ifs
  · exact le_rfl
  · exact List.length_filter_le _ _

theorem listed_flatMap (c : String) (q : Query) (js : List Nat) (f : Nat → List Record) :
    listed c q (js.flatMap f) = js.flatMap fun j => listed c q (f j) := by
  unfold listed
  split_ifs
  · rfl
  · rw [List.filter_flatMap]

/-- Enough pages of one size, one after another, list every record of the collection that the query
asks for, or every record of one that holds documents of any form, in the order of the keys. -/
theorem pages_complete {count : Nat}
    (hd : List.Forall₂ (fun d r => Record.ofValue (Collection.shape c) d = .ok r) (s.values c) records)
    (hl : q.contains "limit" = false) (ho : q.contains "offset" = false) (hs : size ≤ 500)
    (hn : s.length c ≤ count * size) (hm : count * size < 2 ^ 63) (hc : ctx.isCancelled = false) :
    ((s.documents c).map (·.1)).Pairwise (· < ·) ∧
      ∃ pages, ((List.range count).mapM fun j =>
          run Store.backend ctx (.ofCollection c) (q.page size j)).runOn s = (.ok pages, s) ∧
        pages.flatMap Listing.records =
          if Collection.kind c = .other then records else records.filter (q.AsksFor ·) := by
  have hlen : records.length ≤ count * size := by rwa [← hd.length_eq, Store.length_values]
  have hj : ∀ j ∈ List.range count, j * size < 2 ^ 63 := fun j hj =>
    (Nat.mul_le_mul_right size (List.mem_range.1 hj).le).trans_lt hm
  obtain ⟨pages, hrun, hrec⟩ := run_pages hd hl ho hs hc (List.range count) hj
  refine ⟨s.keys_ascending c, pages, hrun, hrec.trans ?_⟩
  show _ = listed c q records
  by_cases hscan : Scans c q
  · -- filter, then cut: the pages of what is listed
    simp only [if_pos hscan]
    exact Page.flatMap_pages ((length_listed_le c q records).trans hlen)
  · -- cut, then filter: filtering goes through the concatenation of the pages
    simp only [if_neg hscan]
    rw [← listed_flatMap, Page.flatMap_pages hlen]

end Page

/-- Three roles on two pages of two: the ones with a member, in the order of their ids. -/
theorem pages_complete_two :
    let s := (∅ : Store).insertRoles "t/roles" [⟨"c", ["m"]⟩, ⟨"a", ["m", "n"]⟩, ⟨"b", ["n"]⟩]
    let records : List Record := [.role ⟨"a", ["m", "n"]⟩, .role ⟨"b", ["n"]⟩, .role ⟨"c", ["m"]⟩]
    let q := (∅ : Query).add "member" "m"
    List.Forall₂ (fun d r => Record.ofValue (Collection.shape "t/roles") d = .ok r) (s.values "t/roles") records ∧
      ∃ pages, ((List.range 2).mapM fun j =>
          run Store.backend {} (.ofCollection "t/roles") (q.page 2 j)).runOn s = (.ok pages, s) ∧
        pages.flatMap Listing.records = [.role ⟨"a", ["m", "n"]⟩, .role ⟨"c", ["m"]⟩] := by
  intro s records q
  have hd : List.Forall₂ (fun d r => Record.ofValue (Collection.shape "t/roles") d = .ok r)
      (s.values "t/roles") records := .cons rfl (.cons rfl (.cons rfl .nil))
  obtain ⟨pages, hrun, hrec⟩ : ∃ pages, ((List.range 2).mapM fun j =>
      run Store.backend {} (.ofCollection "t/roles") (q.page 2 j)).runOn s = (.ok pages, s) ∧ _ :=
    (pages_complete hd rfl rfl (by decide) (by decide) (by decide) rfl).2
  exact ⟨hd, pages, hrun, hrec⟩

end Search

end AccessRecords
