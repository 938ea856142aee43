/-
What a list depends on in a query: the page that the first values of `limit` and `offset` ask for, and
under each key that the records of the collection are held against the set of the values, not their
order or number. Main statement: queries made from two lists of pairs that agree in this are not told
apart on any backend; they lead to the same calls and to the same listing or failure.
-/
import AccessRecords.Proofs.Query
import AccessRecords.Proofs.Search.Specification

namespace AccessRecords

open Json

/-! ## Queries that agree -/

namespace Query

/-- The queries ask for one page, and the keys that records of the shape are held against are there in
both or in neither, with the same values up to order and repetition. -/
structure Agree (shape : Shape) (q q' : Query) : Prop where
  page : Page.ofQuery {} q = Page.ofQuery {} q'
  contains : ∀ k ∈ shape.dimensions, (q.contains k = true ↔ q'.contains k = true)
  values : ∀ k ∈ shape.dimensions, ∀ v, v ∈ q.values k ↔ v ∈ q'.values k

variable {shape : Shape} {q q' : Query}

theorem Agree.values_eq_nil (h : q.Agree shape q') {k : String} (hk : k ∈ shape.dimensions) :
    q.values k = [] ↔ q'.values k = [] := by
  rw [List.eq_nil_iff_forall_not_mem, List.eq_nil_iff_forall_not_mem]
  exact forall_congr' fun v => not_congr (h.values k hk v)

/-- Queries that agree ask for the same records of the shape. -/
theorem Agree.asksFor (h : q.Agree shape q') {record : Record} (hs : record.shape = shape) :
    q.AsksFor record ↔ q'.AsksFor record := by
  refine forall₂_congr fun d hd => ?_
  have hk : d.1 ∈ shape.dimensions := hs ▸ Record.mem_dimensions hd
  apply or_congr (h.values_eq_nil hk)
  exact exists_congr fun v => and_congr_left' (h.values d.1 hk v)

theorem Agree.scans {c : String} (h : q.Agree (Collection.shape c) q') : Search.Scans c q ↔ Search.Scans c q' := by
  rw [Search.scans_iff, Search.scans_iff]
  exact exists_congr fun k => and_congr_right fun hk => and_congr_right fun _ => h.contains k hk

/-- Of pairs, the first with a key of the page count, and all that give values to be held against
records. -/
theorem agree_ofPairs {pairs pairs' : List (String × String)}
    (hl : pairs.lookup "limit" = pairs'.lookup "limit") (ho : pairs.lookup "offset" = pairs'.lookup "offset")
    (hv : ∀ k ∈ shape.dimensions, ∀ v, (k, v) ∈ pairs ↔ (k, v) ∈ pairs') :
    (ofPairs pairs).Agree shape (ofPairs pairs') where
  page := by
    unfold Page.ofQuery Page.number?
    rw [first?_ofPairs, first?_ofPairs, first?_ofPairs, first?_ofPairs, hl, ho]
  contains k hk := by
    rw [contains_ofPairs, contains_ofPairs]
    exact exists_congr (hv k hk)
  values k hk v := by
    rw [mem_values_ofPairs, mem_values_ofPairs]
    exact hv k hk v

end Query

/-! ## Listings -/

theorem Listing.filter_congr {l : Listing} {q q' : Query} (h : q.Agree l.shape q') : l.filter q = l.filter q' := by
  cases l with
  | roles items =>
    have hm : ∀ r : Role, r.matches q = r.matches q' := by
      intro r
      rw [Bool.eq_iff_iff, r.matches_iff, r.matches_iff]
      exact h.asksFor rfl
    simp only [filter, hm]
  | policies items =>
    have hm : ∀ p : Policy, p.matches q = p.matches q' := by
      intro p
      rw [Bool.eq_iff_iff, p.matches_iff, p.matches_iff]
      exact h.asksFor rfl
    simp only [filter, hm]
  | raw items => rfl

namespace Search

/-! ## The steps of a search -/

variable {q q' : Query} {c : String}

theorem Plan.make_congr (h : q.Agree (Collection.shape c) q') : make c q = make c q' := by
  have hscan : (Collection.kind c).isFilter q = (Collection.kind c).isFilter q' := by
    rw [Bool.eq_iff_iff, isFilter_iff, isFilter_iff]
    exact h.scans
  unfold make
  dsimp only
  rw [hscan, h.page]

theorem select_congr {r : Request} (h : q.Agree r.shape q') (plan : Plan) (documents : List Value) :
    select r q plan documents = select r q' plan documents := by
  unfold select
  cases hd : Listing.decode r.shape documents with
  | error f => rfl
  | ok l =>
    -- the listing has the shape that was asked for, so its records do not tell the queries apart
    have hs : l.shape = r.shape := Listing.shape_of_ofValues (Except.mapError_eq_ok.1 hd)
    have happly : r.strategy.apply l q = r.strategy.apply l q' := by
      unfold Strategy.apply
      rw [Listing.filter_congr (hs ▸ h)]
    dsimp only [bind, Except.bind]
    rw [happly]

/-! ## The main statement -/

/-- The search that the name of a collection calls for is the same for two lists of pairs, on every
backend and in every state, if the first values of `limit` and of `offset` are the same in both and
each key that records of the collection are held against has the same set of values in both. Pairs
with other keys, later values of `limit` and `offset`, and the order and the repetition of values do
not count, and in a collection that holds documents of any form only the page does. -/
theorem run_eq_of_same_values {σ : Type} (b : Backend σ) (ctx : Context) (c : String)
    {pairs pairs' : List (String × String)}
    (hl : pairs.lookup "limit" = pairs'.lookup "limit") (ho : pairs.lookup "offset" = pairs'.lookup "offset")
    (hv : ∀ k ∈ (Collection.shape c).dimensions, ∀ v, (k, v) ∈ pairs ↔ (k, v) ∈ pairs') :
    run b ctx (.ofCollection c) (.ofPairs pairs) = run b ctx (.ofCollection c) (.ofPairs pairs') := by
  have h : (Query.ofPairs pairs).Agree (Collection.shape c) (.ofPairs pairs') := Query.agree_ofPairs hl ho hv
  have hselect := select_congr (r := .ofCollection c) ((Request.shape_ofCollection c).symm ▸ h)
  unfold run
  rw [Request.collection_ofCollection, Plan.make_congr h]
  simp only [hselect]

/-- Two members in one order or the other, one of them twice, a second limit and a key that nothing is
held against: of three roles the first that has one of the members is listed. -/
theorem run_eq_of_same_values_permuted :
    let pairs := [("member", "m"), ("limit", "1"), ("subject", "s"), ("member", "k"), ("limit", "9")]
    let pairs' := [("limit", "1"), ("member", "k"), ("member", "m"), ("member", "k")]
    let s := (∅ : Store).insertRoles "t/roles" [⟨"c", ["m"]⟩, ⟨"a", ["n"]⟩, ⟨"b", ["m", "k"]⟩]
    (pairs.lookup "limit" = pairs'.lookup "limit" ∧ pairs.lookup "offset" = pairs'.lookup "offset") ∧
      (∀ k ∈ (Collection.shape "t/roles").dimensions, ∀ v, (k, v) ∈ pairs ↔ (k, v) ∈ pairs') ∧
      (run Store.backend.recorded {} (.ofCollection "t/roles") (.ofPairs pairs)).runOn (s, []) =
        (.ok (.roles [⟨"b", ["m", "k"]⟩]), s, [.listAll "t/roles"]) := by
  intro pairs pairs' s
  have hl : pairs.lookup "limit" = pairs'.lookup "limit" := by decide
  have ho : pairs.lookup "offset" = pairs'.lookup "offset" := by decide
  have hshape : Collection.shape "t/roles" = .roles := by decide
  have hv : ∀ k ∈ (Collection.shape "t/roles").dimensions, ∀ v, (k, v) ∈ pairs ↔ (k, v) ∈ pairs' := by
    rw [hshape]
    simp [Shape.dimensions, pairs, pairs']
  refine ⟨⟨hl, ho⟩, hv, ?_⟩
  rw [run_eq_of_same_values Store.backend.recorded {} "t/roles" hl ho hv]
  dsimp only [s, pairs']
  rfl

end Search

end AccessRecords
