/-
What a search does, stated without its steps: it is refused, or it makes one backend call, which
the collection's name and the query decide, and then fails as that call failed, fails at the first
document that is no record, or answers with the records that the query asks for, cut to the page
unless the backend has cut it. Main statement: on every backend a search does exactly that.
-/
import AccessRecords.Proofs.Collection.Names
import AccessRecords.Proofs.Record.Listing
import AccessRecords.Proofs.Search.Run

namespace AccessRecords.Search

open Json Backend

variable {σ : Type}

/-! ## The specification -/

/-- The query has a key that calls for the whole collection to be searched. -/
def Scans (c : String) (q : Query) : Prop :=
  (Collection.EndsIn c "roles" ∧ q.contains "member") ∨
    (Collection.EndsIn c "policies" ∧
      (q.contains "action" ∨ q.contains "subject" ∨ q.contains "resource"))

theorem isFilter_iff (c : String) (q : Query) : (Collection.kind c).isFilter q = true ↔ Scans c q := by
  -- the kind is read off the last segment, so the names at the end of `c` become equations for it
  unfold Scans
  rw [← Collection.lastSegment_eq_iff (by decide), ← Collection.lastSegment_eq_iff (by decide)]
  unfold Collection.kind
  dsimp only
  by_cases hr : Collection.lastSegment c = "roles"
  · rw [if_pos hr, hr]
    simp [Collection.Kind.isFilter, Collection.Kind.scanDimensions]
  · rw [if_neg hr]
    by_cases hp : Collection.lastSegment c = "policies"
    · rw [if_pos hp, hp]
      simp [Collection.Kind.isFilter, Collection.Kind.scanDimensions]
    · rw [if_neg hp]
      simp [Collection.Kind.isFilter, Collection.Kind.scanDimensions, hr, hp]

instance (c : String) (q : Query) : Decidable (Scans c q) := decidable_of_iff _ (isFilter_iff c q)

/-- What calls for a search is any key, other than the id, that the records which the collection is
named for are held against. -/
theorem scans_iff (c : String) (q : Query) :
    Scans c q ↔ ∃ k ∈ (Collection.shape c).dimensions, k ≠ "id" ∧ q.contains k = true := by
  rw [← isFilter_iff, Collection.Kind.isFilter, List.any_eq_true]
  simp only [Collection.Kind.mem_scanDimensions, and_assoc]
  rfl

/-- The request would hold documents of any form against the query. -/
def Request.Unfilterable (r : Request) : Prop := r.strategy = .byQuery ∧ r.shape = .raw

/-- The one call that serves a search, with what the backend does on it. -/
inductive Fetches (b : Backend σ) (ctx : Context) (c : String) (q : Query) (s : σ) :
    Call → Except Failure (List Value) × σ → Prop
  | all : Scans c q → Fetches b ctx c q s (.listAll c) ((b.listAll ctx c).runOn s)
  | page : ¬ Scans c q →
      Fetches b ctx c q s (.list c (Page.ofQuery {} q)) ((b.list ctx c (Page.ofQuery {} q)).runOn s)

/-- The records that the strategy keeps, in order: those that the query asks for, or all. -/
def Strategy.kept (strategy : Strategy) (q : Query) (records : List Record) : List Record :=
  match strategy with
  | .byQuery => records.filter (q.AsksFor ·)
  | .passthrough => records

/-- The records of an answer, given the records that were fetched. -/
def answer (r : Request) (q : Query) (records : List Record) : List Record :=
  if Scans r.collection q then
    ((r.strategy.kept q records).drop (Page.ofQuery {} q).offset).take (Page.ofQuery {} q).limit
  else r.strategy.kept q records

/-- What a search gives, the state that it leaves and the calls that it makes. -/
inductive Served (b : Backend σ) (ctx : Context) (r : Request) (q : Query) (s : σ) :
    Except Failure Listing → σ → List Call → Prop
  | refused : r.Unfilterable → Served b ctx r q s (.error (Request.notFilterable r.collection)) s []
  | failed {call : Call} {f : Failure} {s' : σ} : ¬ r.Unfilterable →
      Fetches b ctx r.collection q s call (.error f, s') →
      Served b ctx r q s (.error f) s' [call]
  | malformed {call : Call} {before after : List Value} {d : Value} {fault : Fault} {s' : σ} :
      ¬ r.Unfilterable →
      Fetches b ctx r.collection q s call (.ok (before ++ d :: after), s') →
      (∀ x ∈ before, ∃ record, Record.ofValue r.shape x = .ok record) →
      Record.ofValue r.shape d = .error fault →
      Served b ctx r q s (.error (.serialization fault)) s' [call]
  | listed {call : Call} {documents : List Value} {records : List Record} {l : Listing} {s' : σ} :
      ¬ r.Unfilterable →
      Fetches b ctx r.collection q s call (.ok documents, s') →
      List.Forall₂ (fun d record => Record.ofValue r.shape d = .ok record) documents records →
      l.shape = r.shape → l.records = answer r q records →
      Served b ctx r q s (.ok l) s' [call]

/-! ## The steps of a search -/

theorem validate_of_unfilterable {r : Request} (h : r.Unfilterable) :
    r.validate = .error (Request.notFilterable r.collection) :=
  if_pos h

theorem validate_of_filterable {r : Request} (h : ¬ r.Unfilterable) : r.validate = .ok () :=
  if_neg h

theorem filterable_of_validate {r : Request} (h : r.validate = .ok ()) : ¬ r.Unfilterable := by
  intro hr
  rw [validate_of_unfilterable hr] at h
  cases h

theorem runOn_noting {α : Type} (call : Call) (a : Action σ α) (s : σ) (calls : List Call) :
    (noting call a).runOn (s, calls) = ((a.runOn s).1, (a.runOn s).2, calls ++ [call]) := rfl

theorem exists_fetches (b : Backend σ) (ctx : Context) (c : String) (q : Query) (s : σ) :
    ∃ call out, Fetches b ctx c q s call out := by
  by_cases h : Scans c q
  · exact ⟨_, _, .all h⟩
  · exact ⟨_, _, .page h⟩

theorem Fetches.runOn {b : Backend σ} {ctx : Context} {c : String} {q : Query} {s : σ} {call : Call}
    {out : Except Failure (List Value) × σ} (h : Fetches b ctx c q s call out) (calls : List Call) :
    (fetch b.recorded ctx c (Plan.make c q)).runOn (s, calls) = (out.1, out.2, calls ++ [call]) := by
  unfold fetch
  cases h with
  | all h =>
    rw [Plan.scan_make, if_pos ((isFilter_iff c q).2 h)]
    exact runOn_noting _ _ _ _
  | page h =>
    rw [Plan.scan_make, if_neg fun hs => h ((isFilter_iff c q).1 hs)]
    exact runOn_noting _ _ _ _

theorem select_eq_error {r : Request} {q : Query} {plan : Plan} {documents : List Value} {fault : Fault}
    (h : documents.mapM (Record.ofValue r.shape) = .error fault) :
    select r q plan documents = .error (.serialization fault) := by
  unfold select Listing.decode
  rw [Listing.ofValues_eq_error.2 h]
  rfl

theorem apply_eq_ok {r : Request} (hr : ¬ r.Unfilterable) {l : Listing} (hl : l.shape = r.shape) (q : Query) :
    ∃ l', r.strategy.apply l q = .ok l' ∧ l'.shape = r.shape ∧
      l'.records = r.strategy.kept q l.records := by
  cases hs : r.strategy with
  | byQuery =>
    obtain ⟨l', he, hs', hl'⟩ := Listing.filter_eq_ok q (hl ▸ fun h => hr ⟨hs, h⟩)
    exact ⟨l', he, hs'.trans hl, hl'⟩
  | passthrough => exact ⟨l, rfl, hl, rfl⟩

theorem select_eq_ok {r : Request} (hr : ¬ r.Unfilterable) {q : Query} {documents : List Value}
    {records : List Record} (h : documents.mapM (Record.ofValue r.shape) = .ok records) :
    ∃ l, select r q (Plan.make r.collection q) documents = .ok l ∧ l.shape = r.shape ∧
      l.records = answer r q records := by
  obtain ⟨l, hl, rfl⟩ := Except.map_eq_ok.1 ((Listing.ofValues_records r.shape documents).trans h)
  obtain ⟨l', he, hs, hl'⟩ := apply_eq_ok hr (Listing.shape_of_ofValues hl) q
  unfold select Listing.decode answer
  rw [hl]
  dsimp only [Except.mapError, bind, Except.bind]
  rw [he]
  dsimp only
  rw [← hl', Plan.scan_make]
  by_cases hc : Scans r.collection q
  · rw [if_pos ((isFilter_iff _ q).2 hc), if_pos hc]
    exact ⟨_, rfl, (Listing.shape_window _ _).trans hs, Listing.records_window _ _⟩
  · rw [if_neg fun h => hc ((isFilter_iff _ q).1 h), if_neg hc]
    exact ⟨_, rfl, hs, rfl⟩

/-! ## The main statement -/

section Served

variable {b : Backend σ} {ctx : Context} {r : Request} {q : Query} {s s' : σ} {calls : List Call}
  {result : Except Failure Listing}

theorem runOn_of_unfilterable (h : r.Unfilterable) :
    (run b.recorded ctx r q).runOn (s, []) = (.error (Request.notFilterable r.collection), s, []) := by
  rw [run_runOn, validate_of_unfilterable h]

theorem runOn_of_fetches {call : Call} {out : Except Failure (List Value) × σ} (h : ¬ r.Unfilterable)
    (hf : Fetches b ctx r.collection q s call out) :
    (run b.recorded ctx r q).runOn (s, []) =
      (out.1.bind (select r q (Plan.make r.collection q)), out.2, [call]) := by
  rw [run_runOn, validate_of_filterable h]
  dsimp only
  rw [hf.runOn]
  rcases out with ⟨_ | _, _⟩ <;> rfl

/-- A search behaves as specified, and in no other way, on every backend and in every state. -/
theorem served_iff :
    Served b ctx r q s result s' calls ↔ (run b.recorded ctx r q).runOn (s, []) = (result, s', calls) := by
  constructor
  · intro h
    cases h with
    | refused hr => exact runOn_of_unfilterable hr
    | failed hr hf => exact runOn_of_fetches hr hf
    | @malformed _ before after d _ _ hr hf hb hd =>
      rw [runOn_of_fetches hr hf]
      have hm := Except.mapM_eq_error.2 ⟨before, d, after, rfl, hb, hd⟩
      exact congrArg (·, s', _) (select_eq_error hm)
    | listed hr hf hd hs hl =>
      rw [runOn_of_fetches hr hf]
      obtain ⟨l, he, hs', hl'⟩ := select_eq_ok hr (q := q) (Except.mapM_eq_ok.2 hd)
      rw [Listing.ext_records (hs.trans hs'.symm) (hl.trans hl'.symm)]
      exact congrArg (·, s', _) he
  · -- a search ends in one of the four ways: one case for each step that can be the last
    intro h
    by_cases hr : r.Unfilterable
    · rw [runOn_of_unfilterable hr] at h
      cases h
      exact .refused hr
    · obtain ⟨call, ⟨fetched, s₁⟩, hf⟩ := exists_fetches b ctx r.collection q s
      rw [runOn_of_fetches hr hf] at h
      cases fetched with
      | error f =>
        cases h
        exact .failed hr hf
      | ok documents =>
        change (select r q _ documents, s₁, [call]) = _ at h
        rcases hm : documents.mapM (Record.ofValue r.shape) with fault | records
        · obtain ⟨before, d, after, rfl, hb, hd⟩ := Except.mapM_eq_error.1 hm
          rw [select_eq_error hm] at h
          cases h
          exact .malformed hr hf hb hd
        · obtain ⟨l, he, hs, hl⟩ := select_eq_ok hr (q := q) hm
          rw [he] at h
          cases h
          exact .listed hr hf (Except.mapM_eq_ok.1 hm) hs hl

end Served

/-! ## On the store -/

section Store

variable {s : Store} {c : String} {r : Request} {q : Query} {ctx : Context} {records : List Record}

theorem documents_of_scans (h : Scans c q) : (Plan.make c q).documents s c = s.values c := by
  unfold Plan.documents
  rw [Plan.scan_make, if_pos ((isFilter_iff c q).2 h)]

theorem documents_of_not_scans (h : ¬ Scans c q) :
    (Plan.make c q).documents s c =
      ((s.values c).drop (Page.ofQuery {} q).offset).take (Page.ofQuery {} q).limit := by
  unfold Plan.documents
  rw [Plan.scan_make, if_neg fun h' => h ((isFilter_iff c q).1 h'), Store.page_eq, Plan.page_make]

theorem result_of_active (hr : ¬ r.Unfilterable) (hc : ctx.isCancelled = false) :
    result r q ctx s =
      select r q (Plan.make r.collection q) ((Plan.make r.collection q).documents s r.collection) := by
  unfold result Context.ensureActive
  rw [validate_of_filterable hr, hc, if_neg Bool.false_ne_true]
  dsimp only [bind, Except.bind]

/-- In a collection of which all documents can be read, a search lists the page of the records that it
keeps, or those that it keeps of the page. -/
theorem run_readable (hr : ¬ r.Unfilterable) (hc : ctx.isCancelled = false)
    (hd : List.Forall₂ (fun d record => Record.ofValue r.shape d = .ok record) (s.values r.collection) records) :
    ∃ l, (run Store.backend ctx r q).runOn s = (.ok l, s) ∧ l.shape = r.shape ∧
      l.records =
        if Scans r.collection q then
          ((r.strategy.kept q records).drop (Page.ofQuery {} q).offset).take (Page.ofQuery {} q).limit
        else r.strategy.kept q ((records.drop (Page.ofQuery {} q).offset).take (Page.ofQuery {} q).limit) := by
  rw [run_store, result_of_active hr hc]
  by_cases hscan : Scans r.collection q
  · -- the whole collection is read, and the answer is cut
    obtain ⟨l, he, hs, hl⟩ := select_eq_ok hr (q := q) (Except.mapM_eq_ok.2 hd)
    rw [documents_of_scans hscan, he]
    rw [answer, if_pos hscan] at hl
    exact ⟨l, rfl, hs, hl.trans (if_pos hscan).symm⟩
  · -- one page is read, and the answer is filtered
    have hpage := List.forall₂_take (Page.ofQuery {} q).limit (List.forall₂_drop (Page.ofQuery {} q).offset hd)
    obtain ⟨l, he, hs, hl⟩ := select_eq_ok hr (q := q) (Except.mapM_eq_ok.2 hpage)
    rw [documents_of_not_scans hscan, he]
    rw [answer, if_neg hscan] at hl
    exact ⟨l, rfl, hs, hl.trans (if_neg hscan).symm⟩

end Store

end AccessRecords.Search
