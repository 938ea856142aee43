/-
Filtering before cutting. Whether a whole collection is searched follows from its name and from the keys
of the query; whether and how records are held against the query is up to the request. Main statement:
a request that filters lists, in every store, the page of the records that the query asks for exactly if
the name calls for a search, or if the order of filtering and cutting cannot matter: the page is empty,
or nothing is asked for. If not, records that are asked for can be lost behind a page of others.
-/
import AccessRecords.Proofs.Query
import AccessRecords.Proofs.Record.Conditions
import AccessRecords.Proofs.Search.Specification

namespace AccessRecords

open Json

/-! ## Records to ask for -/

namespace Record

/-- The record of a shape that has the given values under each key, and of the ids the first. -/
def having (shape : Shape) (held : String → List String) : Record :=
  match shape with
  | .roles => .role ⟨(held "id").headD "", held "member"⟩
  | .policies =>
    .policy { id := (held "id").headD "", subjects := held "subject", resources := held "resource",
              actions := held "action" }
  | .raw => .raw .null

variable {shape : Shape} {held : String → List String}

theorem shape_having : (having shape held).shape = shape := by
  cases shape <;> rfl

theorem isPlain_having : (having shape held).isPlain = true := by
  cases shape <;> rfl

theorem dimensions_having :
    (having shape held).dimensions =
      shape.dimensions.map fun k => (k, if k = "id" then [(held k).headD ""] else held k) := by
  cases shape <;> rfl

end Record

namespace Query

variable {q : Query} {shape : Shape} {k : String}

/-- A query without values asks for every record. -/
theorem asksFor_of_values_eq_nil {record : Record} (h : ∀ k ∈ record.shape.dimensions, q.values k = []) :
    q.AsksFor record := fun _ hd => .inl (h _ (Record.mem_dimensions hd))

theorem asksFor_having {held : String → List String} :
    q.AsksFor (.having shape held) ↔ ∀ k ∈ shape.dimensions,
      q.values k = [] ∨ ∃ v ∈ q.values k, v ∈ if k = "id" then [(held k).headD ""] else held k := by
  unfold AsksFor
  rw [Record.dimensions_having, List.forall_mem_map]

theorem eq_nil_or_mem_held (wanted : List String) (k : String) :
    wanted = [] ∨ ∃ v ∈ wanted, v ∈ if k = "id" then [wanted.headD ""] else wanted := by
  cases wanted with
  | nil => exact .inl rfl
  | cons v vs =>
    refine .inr ⟨v, List.mem_cons_self, ?_⟩
    split_ifs <;> exact List.mem_cons_self

/-- Every query asks for some record: for one that has all values that are wanted. -/
theorem exists_asked (q : Query) (shape : Shape) :
    ∃ record : Record, record.shape = shape ∧ record.isPlain = true ∧ q.AsksFor record :=
  ⟨.having shape q.values, Record.shape_having, Record.isPlain_having,
    asksFor_having.2 fun k _ => eq_nil_or_mem_held (q.values k) k⟩

/-- A key that has values leaves out a record which is asked for without the key: one that has the values
wanted under the other keys, and under this key one that is not wanted. -/
theorem exists_left_out (hk : k ∈ shape.dimensions) (hv : q.values k ≠ []) :
    ∃ record : Record, record.shape = shape ∧ record.isPlain = true ∧ (q.without k).AsksFor record ∧
      ¬ q.AsksFor record := by
  obtain ⟨other, hother⟩ := Text.exists_gt (q.values k).toFinset
  have hfresh : other ∉ q.values k := fun hm => (hother other (List.mem_toFinset.2 hm)).false
  refine ⟨.having shape (Function.update q.values k [other]), Record.shape_having, Record.isPlain_having, ?_, ?_⟩
  · refine asksFor_having.2 fun k' _ => ?_
    rw [values_without]
    by_cases hkk : k' = k
    · exact .inl (if_pos hkk)
    · rw [if_neg hkk, Function.update_of_ne hkk]
      exact eq_nil_or_mem_held (q.values k') k'
  · intro hasks
    obtain ⟨v, hm, hheld⟩ := (asksFor_having.1 hasks k hk).resolve_left hv
    rw [Function.update_self, List.headD_cons, ite_self, List.mem_singleton] at hheld
    exact hfresh (hheld ▸ hm)

end Query

namespace Search

/-! ## Cutting before filtering -/

section Cutting

variable {α : Type} {p : α → Bool} {a b : α} {page : Page}

/-- Cutting first makes no difference to an empty page, or if all items pass. -/
theorem filter_window_eq {l : List α} (h : page.limit = 0 ∨ ∀ x ∈ l, p x = true) :
    ((l.drop page.offset).take page.limit).filter p = ((l.filter p).drop page.offset).take page.limit := by
  rcases h with h | h
  · simp [h]
  · have hpage : ∀ x ∈ (l.drop page.offset).take page.limit, p x = true :=
      fun x hx => h x (List.mem_of_mem_drop (List.mem_of_mem_take hx))
    rw [List.filter_eq_self.2 h, List.filter_eq_self.2 hpage]

/-- As much of one item as there is room for up to the end of a page, and more of another than fits
before the page. -/
def behind (page : Page) (b a : α) : List α :=
  List.replicate (page.offset + page.limit) b ++ List.replicate (page.offset + 1) a

theorem window_behind (page : Page) (b a : α) :
    ((behind page b a).drop page.offset).take page.limit = List.replicate page.limit b := by
  unfold behind
  rw [List.drop_append_of_le_length (by simp), List.drop_replicate, Nat.add_sub_cancel_left,
    List.take_left' (List.length_replicate ..)]

theorem filter_behind (page : Page) (ha : p a = true) (hb : p b = false) :
    (behind page b a).filter p = List.replicate (page.offset + 1) a := by
  simp [behind, List.filter_append, ha, hb]

/-- Otherwise items that pass are lost behind a page of items that do not. -/
theorem filter_window_ne (ha : p a = true) (hb : p b = false) (hl : page.limit ≠ 0) :
    (((behind page b a).drop page.offset).take page.limit).filter p ≠
      (((behind page b a).filter p).drop page.offset).take page.limit := by
  rw [window_behind, filter_behind page ha hb, List.drop_replicate, Nat.add_sub_cancel_left, List.take_replicate,
    min_eq_right (Nat.one_le_iff_ne_zero.2 hl)]
  simp [hb]

end Cutting

/-! ## The main statement -/

/-- In every store, as long as all documents of the collection can be read, the search lists the page of
the records that the query asks for, in the order of the keys of their documents. -/
def FiltersFirst (r : Request) (q : Query) (ctx : Context) : Prop :=
  ∀ (s : Store) (records : List Record),
    List.Forall₂ (fun d record => Record.ofValue r.shape d = .ok record) (s.values r.collection) records →
    ∃ l, (run Store.backend ctx r q).runOn s = (.ok l, s) ∧ l.shape = r.shape ∧
      l.records = ((records.filter (q.AsksFor ·)).drop (Page.ofQuery {} q).offset).take (Page.ofQuery {} q).limit

section Filtering

variable {r : Request} {q : Query} {ctx : Context}

/-- The law holds where the whole collection is searched. -/
theorem filtersFirst_of_scans (hs : r.strategy = .byQuery) (hv : r.validate = .ok ())
    (hc : ctx.isCancelled = false) (h : Scans r.collection q) : FiltersFirst r q ctx := by
  intro s records hd
  obtain ⟨l, hrun, hl, hrec⟩ := run_readable (filterable_of_validate hv) hc hd
  rw [if_pos h, hs] at hrec
  exact ⟨l, hrun, hl, hrec⟩

/-- Where it is not, what is asked for is picked from one page of the collection. -/
theorem run_of_not_scans (hs : r.strategy = .byQuery) (hv : r.validate = .ok ()) (hc : ctx.isCancelled = false)
    (h : ¬ Scans r.collection q) {s : Store} {records : List Record}
    (hd : List.Forall₂ (fun d record => Record.ofValue r.shape d = .ok record) (s.values r.collection) records) :
    ∃ l, (run Store.backend ctx r q).runOn s = (.ok l, s) ∧ l.shape = r.shape ∧
      l.records =
        ((records.drop (Page.ofQuery {} q).offset).take (Page.ofQuery {} q).limit).filter (q.AsksFor ·) := by
  obtain ⟨l, hrun, hl, hrec⟩ := run_readable (filterable_of_validate hv) hc hd
  rw [if_neg h, hs] at hrec
  exact ⟨l, hrun, hl, hrec⟩

theorem shape_of_mem_records {shape : Shape} {documents : List Value} {records : List Record}
    (h : List.Forall₂ (fun d record => Record.ofValue shape d = .ok record) documents records) {record : Record}
    (hm : record ∈ records) : record.shape = shape := by
  obtain ⟨d, -, hd⟩ := (Except.mem_of_mapM_eq_ok (Except.mapM_eq_ok.2 h)).2 record hm
  exact Record.shape_of_ofValue hd

/-- Records without marks are the records of a collection of some store. -/
theorem exists_store_of_records (c : String) {shape : Shape} {records : List Record}
    (h : ∀ record ∈ records, record.shape = shape ∧ record.isPlain = true) :
    ∃ s : Store, List.Forall₂ (fun d record => Record.ofValue shape d = .ok record) (s.values c) records := by
  obtain ⟨s, hs⟩ := Store.exists_values_eq c (records.map Record.toValue)
  refine ⟨s, ?_⟩
  rw [hs, List.forall₂_map_left_iff, List.forall₂_same]
  intro record hm
  obtain ⟨rfl, hp⟩ := h record hm
  exact Record.ofValue_toValue_of_isPlain hp

/-- Without a search the law fails for a query that has values and a page that is not empty. -/
theorem not_filtersFirst (hs : r.strategy = .byQuery) (hv : r.validate = .ok ()) (hc : ctx.isCancelled = false)
    (h : ¬ Scans r.collection q) (hl : (Page.ofQuery {} q).limit ≠ 0) {k : String} (hk : k ∈ r.shape.dimensions)
    (hq : q.values k ≠ []) : ¬ FiltersFirst r q ctx := by
  intro hlaw
  obtain ⟨a, hsa, hpa, ha⟩ := q.exists_asked r.shape
  obtain ⟨b, hsb, hpb, -, hb⟩ := Query.exists_left_out hk hq
  have hall : ∀ record ∈ behind (Page.ofQuery {} q) b a, record.shape = r.shape ∧ record.isPlain = true := by
    intro record hm
    rcases List.mem_append.1 hm with hm | hm <;> obtain rfl := List.eq_of_mem_replicate hm
    · exact ⟨hsb, hpb⟩
    · exact ⟨hsa, hpa⟩
  obtain ⟨s, hd⟩ := exists_store_of_records r.collection hall
  -- the law and the run disagree on what is listed
  obtain ⟨l, hrun, -, hrec⟩ := hlaw s _ hd
  obtain ⟨l', hrun', -, hrec'⟩ := run_of_not_scans hs hv hc h hd
  obtain rfl : l = l' := by simpa using hrun.symm.trans hrun'
  have hne := filter_window_ne (p := fun record => decide (q.AsksFor record)) (decide_eq_true ha)
    (decide_eq_false hb) hl
  exact hne (hrec'.symm.trans hrec)

/-- Where nothing is asked for or nothing fits the page, the law holds without a search. -/
theorem filtersFirst_of_trivial (hs : r.strategy = .byQuery) (hv : r.validate = .ok ())
    (hc : ctx.isCancelled = false)
    (h : (Page.ofQuery {} q).limit = 0 ∨ ∀ k ∈ r.shape.dimensions, q.values k = []) : FiltersFirst r q ctx := by
  by_cases hscan : Scans r.collection q
  · exact filtersFirst_of_scans hs hv hc hscan
  · intro s records hd
    obtain ⟨l, hrun, hl, hrec⟩ := run_of_not_scans hs hv hc hscan hd
    refine ⟨l, hrun, hl, hrec.trans (filter_window_eq (h.imp_right fun hnil record hm => ?_))⟩
    apply decide_eq_true
    apply Query.asksFor_of_values_eq_nil
    rw [shape_of_mem_records hd hm]
    exact hnil

/-- A request that filters lists the page of the records that the query asks for, in every store whose
documents can be read and in the order of the keys, exactly if the collection's name calls for a search
with the query, or the page is empty, or the query has no values to hold records against. The name always
calls for one if the request is for the records that the collection is named for and the query has a key
for them other than the id. Without a search the answer is what the query asks for on one page of the
collection. -/
theorem filters_first_iff (hs : r.strategy = .byQuery) (hv : r.validate = .ok ()) (q : Query)
    (hc : ctx.isCancelled = false) :
    (FiltersFirst r q ctx ↔
      Scans r.collection q ∨ (Page.ofQuery {} q).limit = 0 ∨ ∀ k ∈ r.shape.dimensions, q.values k = []) ∧
    (r.shape = Collection.shape r.collection →
      (∃ k ∈ r.shape.dimensions, k ≠ "id" ∧ q.contains k = true) → FiltersFirst r q ctx) ∧
    (¬ Scans r.collection q → ∀ (s : Store) (records : List Record),
      List.Forall₂ (fun d record => Record.ofValue r.shape d = .ok record) (s.values r.collection) records →
      ∃ l, (run Store.backend ctx r q).runOn s = (.ok l, s) ∧ l.shape = r.shape ∧
        l.records =
          ((records.drop (Page.ofQuery {} q).offset).take (Page.ofQuery {} q).limit).filter (q.AsksFor ·)) ∧
    ∀ s : Store, ((s.documents r.collection).map (·.1)).Pairwise (· < ·) := by
  refine ⟨⟨?needed, ?enough⟩, ?named, ?page, fun s => s.keys_ascending r.collection⟩
  case needed =>
    intro hlaw
    by_contra! h
    obtain ⟨hscan, hl, k, hk, hq⟩ := h
    exact not_filtersFirst hs hv hc hscan hl hk hq hlaw
  case enough =>
    rintro (h | h)
    · exact filtersFirst_of_scans hs hv hc h
    · exact filtersFirst_of_trivial hs hv hc h
  case named =>
    intro hshape hk
    rw [hshape, ← scans_iff] at hk
    exact filtersFirst_of_scans hs hv hc hk
  case page => exact fun h s records hd => run_of_not_scans hs hv hc h hd

end Filtering

/-- Two roles of which the second has the member, one on a page: it is found behind the other. -/
theorem filters_first_iff_member :
    let r := Request.roles "t/roles"
    let q := ((∅ : Query).add "member" "m").add "limit" "1"
    let s := (∅ : Store).insertRoles "t/roles" [⟨"a", []⟩, ⟨"b", ["m"]⟩]
    r.strategy = .byQuery ∧ r.validate = .ok () ∧ Scans r.collection q ∧ FiltersFirst r q {} ∧
      ∃ l, (run Store.backend {} r q).runOn s = (.ok l, s) ∧ l.records = [.role ⟨"b", ["m"]⟩] := by
  intro r q s
  have hscan : Scans r.collection q := by decide
  have hlaw : FiltersFirst r q {} := (filters_first_iff rfl rfl q rfl).1.2 (.inl hscan)
  have hd : List.Forall₂ (fun d record => Record.ofValue r.shape d = .ok record) (s.values r.collection)
      [.role ⟨"a", []⟩, .role ⟨"b", ["m"]⟩] := by
    dsimp only [r, s]
    exact .cons rfl (.cons rfl .nil)
  obtain ⟨l, hrun, -, hrec⟩ := hlaw s _ hd
  exact ⟨rfl, rfl, hscan, hlaw, l, hrun, hrec⟩

/-- In a collection that is not named for roles the same request lists nothing: the one role on the page
does not have the member, and the role that has it is not looked at. -/
theorem staff_member_lost :
    let r := Request.roles "t/staff"
    let q := ((∅ : Query).add "member" "m").add "limit" "1"
    let s := (∅ : Store).insertRoles "t/staff" [⟨"a", []⟩, ⟨"b", ["m"]⟩]
    let records : List Record := [.role ⟨"a", []⟩, .role ⟨"b", ["m"]⟩]
    r.strategy = .byQuery ∧ r.validate = .ok () ∧ q.contains "member" = true ∧
      List.Forall₂ (fun d record => Record.ofValue r.shape d = .ok record) (s.values r.collection) records ∧
      (run Store.backend {} r q).runOn s = (.ok (.roles []), s) ∧
      ((records.filter (q.AsksFor ·)).drop (Page.ofQuery {} q).offset).take (Page.ofQuery {} q).limit =
        [.role ⟨"b", ["m"]⟩] := by
  intro r q s records
  have hd : List.Forall₂ (fun d record => Record.ofValue r.shape d = .ok record) (s.values r.collection) records := by
    dsimp only [r, s]
    exact .cons rfl (.cons rfl .nil)
  refine ⟨rfl, rfl, rfl, hd, ?_, rfl⟩
  dsimp only [r, q, s]
  rfl

end Search

end AccessRecords
