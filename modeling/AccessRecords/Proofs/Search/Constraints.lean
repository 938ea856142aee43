/-
Keys that constrain. A key of a query constrains the records of a shape if it alone leaves out one of
them. Main statement: in a query made of pairs these are the keys that records of the shape are held
against and that some pair has. A search goes through the whole collection exactly if a key other than
the id is one of them; otherwise it holds the records of one page against the id and nothing else.
-/
import AccessRecords.Proofs.Record.Filters
import AccessRecords.Proofs.Search.FilterFirst
import AccessRecords.Proofs.Search.Scan

namespace AccessRecords

open Json Backend

/-! ## Keys that constrain -/

theorem Shape.ne_raw_of_mem_dimensions {shape : Shape} {k : String} (h : k ∈ shape.dimensions) :
    shape ≠ .raw := by
  rintro rfl
  cases h

theorem Record.ne_raw_of_matches {record : Record} {q : Query} (h : record.matches q = true) :
    record.shape ≠ .raw := by
  cases record with
  | role r => exact nofun
  | policy p => exact nofun
  | raw v => cases h

namespace Query

variable {q : Query} {shape : Shape} {k : String} {record : Record}

/-- Some record of the shape is left out for the key alone: it does not match the query, and does match
it without the key. -/
def Constrains (q : Query) (shape : Shape) (k : String) : Prop :=
  ∃ record : Record, record.shape = shape ∧ record.matches q = false ∧ record.matches (q.without k) = true

/-- A key that a record is not held against, or that has no values, can be left away. -/
theorem asksFor_without (h : k ∈ record.shape.dimensions → q.values k = []) :
    (q.without k).AsksFor record ↔ q.AsksFor record := by
  refine forall₂_congr fun d hd => ?_
  rw [values_without]
  split_ifs with hdk
  · rw [hdk, h (hdk ▸ Record.mem_dimensions hd)]
  · rfl

theorem constrains_iff : q.Constrains shape k ↔ k ∈ shape.dimensions ∧ q.values k ≠ [] := by
  constructor
  · rintro ⟨record, rfl, hno, hyes⟩
    have hraw := Record.ne_raw_of_matches hyes
    rw [← Bool.not_eq_true, Record.matches_iff hraw] at hno
    rw [Record.matches_iff hraw] at hyes
    by_contra hk
    -- then the record would be asked for with the key as without it
    exact hno ((asksFor_without fun hd => by_contra fun hv => hk ⟨hd, hv⟩).1 hyes)
  · rintro ⟨hk, hv⟩
    obtain ⟨record, rfl, -, hyes, hno⟩ := exists_left_out hk hv
    have hraw := Shape.ne_raw_of_mem_dimensions hk
    rw [← Record.matches_iff hraw, Bool.not_eq_true] at hno
    exact ⟨record, rfl, hno, (Record.matches_iff hraw _).2 hyes⟩

/-- The query wants no id, or the one that the record has. -/
def admitsId (q : Query) (record : Record) : Bool :=
  admits (q.values "id") fun ids => record.id?.all ids.contains

/-- If no other key has values, records are held against the id and nothing else. -/
theorem asksFor_iff_admitsId (h : ∀ k ∈ record.shape.dimensions, k ≠ "id" → q.values k = []) :
    q.AsksFor record ↔ q.admitsId record = true := by
  cases record with
  | role r =>
    have hm := h "member" (by simp [Record.shape, Shape.dimensions]) (by decide)
    rw [← Role.matches_iff, Role.matches, hm]
    rfl
  | policy p =>
    have hs := h "subject" (by simp [Record.shape, Shape.dimensions]) (by decide)
    have hr := h "resource" (by simp [Record.shape, Shape.dimensions]) (by decide)
    have ha := h "action" (by simp [Record.shape, Shape.dimensions]) (by decide)
    rw [← Policy.matches_iff, Policy.matches, hs, hr, ha]
    rfl
  | raw v => exact iff_of_true nofun (Bool.or_true _)

/-- Of the keys that call for a search, those that are there constrain the records. -/
theorem Lawful.isFilter_iff (h : q.Lawful) (kind : Collection.Kind) :
    kind.isFilter q = true ↔ ∃ k ∈ kind.scanDimensions, q.values k ≠ [] ∧ q.Constrains kind.shape k := by
  rw [Collection.Kind.isFilter, List.any_eq_true]
  refine exists_congr fun k => and_congr_right fun hk => ?_
  have hd := (Collection.Kind.mem_scanDimensions.1 hk).1
  rw [h k, constrains_iff]
  exact ⟨fun hv => ⟨hv, hd, hv⟩, And.left⟩

theorem Lawful.scans_iff (h : q.Lawful) (c : String) :
    Search.Scans c q ↔ ∃ k, k ≠ "id" ∧ q.Constrains (Collection.shape c) k := by
  rw [Search.scans_iff]
  refine exists_congr fun k => ?_
  rw [h k, constrains_iff]
  tauto

end Query

namespace Search

variable {σ : Type}

/-! ## What is fetched -/

section Fetching

variable {b : Backend σ} {ctx : Context} {r : Request} {q : Query} {s : σ}

theorem listAll_mem_iff :
    .listAll r.collection ∈ ((run b.recorded ctx r q).runOn (s, [])).2.2 ↔
      ¬ r.Unfilterable ∧ Scans r.collection q := by
  by_cases hr : r.Unfilterable
  · rw [runOn_of_unfilterable hr]
    exact iff_of_false List.not_mem_nil fun h => h.1 hr
  · rw [and_iff_right hr]
    by_cases h : Scans r.collection q
    · rw [runOn_of_fetches hr (.all h)]
      exact iff_of_true List.mem_cons_self h
    · rw [runOn_of_fetches hr (.page h), List.mem_singleton]
      exact iff_of_false nofun h

end Fetching

/-! ## What is listed of the records -/

/-- A search makes one call, leaves the state that the backend leaves on it, and lists what is picked from
the records that the documents describe, if there are documents and all describe one. -/
def Lists (b : Backend σ) (ctx : Context) (r : Request) (q : Query) (s : σ) (call : Call)
    (out : Except Failure (List Value) × σ) (pick : List Record → List Record) : Prop :=
  ∃ result, (run b.recorded ctx r q).runOn (s, []) = (result, out.2, [call]) ∧
    result.map Listing.records = do
      let documents ← out.1
      let records ← (documents.mapM (Record.ofValue r.shape)).mapError .serialization
      return pick records

variable {b : Backend σ} {ctx : Context} {r : Request} {c : String} {q : Query} {s : σ}

theorem lists_of_fetches {call : Call} {out : Except Failure (List Value) × σ} {pick : List Record → List Record}
    (hr : ¬ r.Unfilterable) (hf : Fetches b ctx r.collection q s call out)
    (hp : ∀ records : List Record, (∀ record ∈ records, record.shape = r.shape) →
      answer r q records = pick records) : Lists b ctx r q s call out pick := by
  refine ⟨_, runOn_of_fetches hr hf, ?_⟩
  rcases out with ⟨f | documents, s'⟩
  · rfl
  · show (select r q _ documents).map Listing.records =
      (documents.mapM (Record.ofValue r.shape)).mapError .serialization >>= fun records => .ok (pick records)
    cases hm : documents.mapM (Record.ofValue r.shape) with
    | error fault =>
      rw [select_eq_error hm]
      rfl
    | ok records =>
      obtain ⟨l, he, -, hl⟩ := select_eq_ok hr (q := q) hm
      rw [he]
      have hshape : ∀ record ∈ records, record.shape = r.shape :=
        fun record hrec => shape_of_mem_records (Except.mapM_eq_ok.1 hm) hrec
      exact congrArg Except.ok (hl.trans (hp records hshape))

/-- Of all records those that match are kept, and cut to the page. -/
theorem answer_of_scans (h : Scans c q) {records : List Record}
    (hs : ∀ record ∈ records, record.shape = Collection.shape c) :
    answer (.ofCollection c) q records = (Page.ofQuery {} q).window (records.filter (·.matches q)) := by
  obtain ⟨k, hk, -⟩ := (scans_iff c q).1 h
  rw [answer_ofCollection, if_pos h, listed_of_scans h, Page.window_eq]
  congr 2
  refine List.filter_congr fun record hrec => ?_
  have hraw : record.shape ≠ .raw := hs record hrec ▸ Shape.ne_raw_of_mem_dimensions hk
  rw [Bool.eq_iff_iff, decide_eq_true_iff, Record.matches_iff hraw]

/-- Of the records on a page those are kept whose id is wanted. -/
theorem answer_of_not_scans (hq : q.Lawful) (h : ¬ Scans c q) {records : List Record}
    (hs : ∀ record ∈ records, record.shape = Collection.shape c) :
    answer (.ofCollection c) q records = records.filter q.admitsId := by
  have hnone : ∀ k ∈ (Collection.shape c).dimensions, k ≠ "id" → q.values k = [] := by
    intro k hk hid
    by_contra hv
    exact h ((scans_iff c q).2 ⟨k, hk, hid, (hq k).2 hv⟩)
  have hadmits : ∀ record ∈ records, (q.AsksFor record ↔ q.admitsId record = true) :=
    fun record hrec => Query.asksFor_iff_admitsId (hs record hrec ▸ hnone)
  rw [answer_ofCollection, if_neg h]
  unfold listed
  split_ifs with hkind
  · -- documents of any form are held against nothing, so all of them stay
    refine (List.filter_eq_self.2 fun record hrec => ?_).symm
    refine (hadmits record hrec).1 (Query.asksFor_of_values_eq_nil ?_)
    rw [hs record hrec, Collection.shape, hkind]
    exact nofun
  · refine List.filter_congr fun record hrec => ?_
    rw [Bool.eq_iff_iff, decide_eq_true_iff, hadmits record hrec]

/-! ## The main statement -/

/-- The search that a collection's name calls for, by what the query constrains. -/
inductive ByConstraints (b : Backend σ) (ctx : Context) (c : String) (q : Query) (s : σ) : Prop
  /-- A key other than the id constrains the records. All are fetched, and of those that match the query
  the page is listed. -/
  | scan {k : String} : k ≠ "id" → q.Constrains (Collection.shape c) k →
      Lists b ctx (.ofCollection c) q s (.listAll c) ((b.listAll ctx c).runOn s)
        (fun records => (Page.ofQuery {} q).window (records.filter (·.matches q))) →
      ByConstraints b ctx c q s
  /-- Nothing constrains the records except perhaps the id. One page is fetched, and those on it are listed
  whose id is wanted. -/
  | page : (∀ k, q.Constrains (Collection.shape c) k → k = "id") →
      Lists b ctx (.ofCollection c) q s (.list c (Page.ofQuery {} q))
        ((b.list ctx c (Page.ofQuery {} q)).runOn s) (fun records => records.filter q.admitsId) →
      ByConstraints b ctx c q s

theorem byConstraints_of_lawful (hq : q.Lawful) (b : Backend σ) (ctx : Context) (c : String) (s : σ) :
    ByConstraints b ctx c q s := by
  have hr := ofCollection_filterable c
  by_cases h : Scans c q
  · obtain ⟨k, hid, hk⟩ := (hq.scans_iff c).1 h
    refine .scan hid hk (lists_of_fetches hr ?_ fun records hs => ?_)
    · rw [Request.collection_ofCollection]
      exact .all h
    · rw [Request.shape_ofCollection] at hs
      exact answer_of_scans h hs
  · refine .page (fun k hk => ?_) (lists_of_fetches hr ?_ fun records hs => ?_)
    · by_contra hid
      exact h ((hq.scans_iff c).2 ⟨k, hid, hk⟩)
    · rw [Request.collection_ofCollection]
      exact .page h
    · rw [Request.shape_ofCollection] at hs
      exact answer_of_not_scans hq h hs

/-- The query of a list of pairs has under each key the values of the pairs with this key in the order of
their arrival, and neither other keys nor keys without values. So a key constrains the records of a shape
exactly if these are held against it and it has values, and a kind of collection calls for a search
exactly if one of its keys for that constrains the records. Whatever the request, a whole collection is
fetched only if a key other than the id constrains the records that it is named for, and a request by the
name of the collection holds a page against nothing but the id. -/
theorem served_by_constraints (pairs : List (String × String)) :
    (Query.ofPairs pairs).Gathers pairs ∧
    (∀ shape k, (Query.ofPairs pairs).Constrains shape k ↔
      k ∈ shape.dimensions ∧ (Query.ofPairs pairs).values k ≠ []) ∧
    (∀ kind : Collection.Kind, kind.isFilter (.ofPairs pairs) = true ↔
      ∃ k ∈ kind.scanDimensions,
        (Query.ofPairs pairs).values k ≠ [] ∧ (Query.ofPairs pairs).Constrains kind.shape k) ∧
    (∀ {σ : Type} (b : Backend σ) (ctx : Context) (r : Request) (s : σ),
      .listAll r.collection ∈ ((run b.recorded ctx r (.ofPairs pairs)).runOn (s, [])).2.2 ↔
        ¬ r.Unfilterable ∧ ∃ k, k ≠ "id" ∧ (Query.ofPairs pairs).Constrains (Collection.shape r.collection) k) ∧
    ∀ {σ : Type} (b : Backend σ) (ctx : Context) (c : String) (s : σ),
      ByConstraints b ctx c (.ofPairs pairs) s := by
  have hq := Query.lawful_ofPairs pairs
  refine ⟨Query.gathers_ofPairs pairs, fun shape k => Query.constrains_iff, ?kinds, ?scans, ?served⟩
  case kinds => exact hq.isFilter_iff
  case scans =>
    intro σ b ctx r s
    rw [listAll_mem_iff, hq.scans_iff]
  case served => exact byConstraints_of_lawful hq

end Search

end AccessRecords
