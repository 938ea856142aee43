/-
The order of listings. In a store whose records are kept under their own ids, a listing of records
ascends by id in the order of the UTF-8 bytes, and so has no id twice.
-/
import AccessRecords.Proofs.Search.Specification
import AccessRecords.Proofs.Store.Contents

namespace AccessRecords.Search

open Json

variable {s : Store} {c : String} {q : Query} {ctx : Context}

/-- A plan calls for documents of the collection in the order of their keys. -/
theorem documents_sublist (plan : Plan) (s : Store) (c : String) :
    ∃ l : List (String × Value), l.Sublist (s.documents c) ∧ plan.documents s c = l.map (·.2) := by
  unfold Plan.documents
  split_ifs
  · exact ⟨s.documents c, List.Sublist.refl _, rfl⟩
  · refine ⟨((s.documents c).drop plan.page.offset).take plan.page.limit, ?_, ?_⟩
    · exact (List.take_sublist _ _).trans (List.drop_sublist _ _)
    · rw [Store.page_eq, List.map_take, List.map_drop]
      rfl

/-- What a plan calls for is in the collection. -/
theorem exists_key_of_mem_documents {plan : Plan} {d : Value} (h : d ∈ plan.documents s c) :
    ∃ k, s.get? c k = some d := by
  obtain ⟨l, hsub, hmap⟩ := documents_sublist plan s c
  rw [hmap] at h
  obtain ⟨⟨k, d'⟩, hm, rfl⟩ := List.mem_map.1 h
  exact ⟨k, Store.mem_documents.1 (hsub.subset hm)⟩

theorem answer_sublist (r : Request) (q : Query) (records : List Record) :
    (answer r q records).Sublist records := by
  have hkept : (r.strategy.kept q records).Sublist records := by
    cases r.strategy with
    | byQuery => exact List.filter_sublist
    | passthrough => exact List.Sublist.refl _
  unfold answer
  split_ifs
  · exact ((List.take_sublist _ _).trans (List.drop_sublist _ _)).trans hkept
  · exact hkept

/-- The records of a listing are some of those that documents of the collection describe. -/
theorem records_of_result {r : Request} {l : Listing} (h : result r q ctx s = .ok l) :
    ∃ (documents : List (String × Value)) (records : List Record),
      documents.Sublist (s.documents r.collection) ∧
      List.Forall₂ (fun d record => Record.ofValue r.shape d.2 = .ok record) documents records ∧
      l.records.Sublist records := by
  obtain ⟨⟨⟩, hv, h⟩ := Except.bind_eq_ok.1 h
  obtain ⟨⟨⟩, -, h⟩ := Except.bind_eq_ok.1 h
  have hr : ¬ r.Unfilterable := filterable_of_validate hv
  obtain ⟨documents, hsub, hdocs⟩ := documents_sublist (Plan.make r.collection q) s r.collection
  rcases hm : ((Plan.make r.collection q).documents s r.collection).mapM (Record.ofValue r.shape) with fault | records
  · cases (select_eq_error hm).symm.trans h
  · obtain ⟨l', he, -, hl'⟩ := select_eq_ok hr (q := q) hm
    cases he.symm.trans h
    rw [hdocs, Except.mapM_eq_ok, List.forall₂_map_left_iff] at hm
    exact ⟨documents, records, hsub, hm, hl' ▸ answer_sublist r q records⟩

/-- Every record of a listing is described by a document of the collection. -/
theorem exists_document_of_result {r : Request} {l : Listing} (h : result r q ctx s = .ok l) {record : Record}
    (hm : record ∈ l.records) :
    ∃ k d, s.get? r.collection k = some d ∧ Record.ofValue r.shape d = .ok record := by
  obtain ⟨documents, records, hdocs, hall, hrecords⟩ := records_of_result h
  have hread := Except.mem_of_mapM_eq_ok (f := fun d : String × Value => Record.ofValue r.shape d.2)
    (Except.mapM_eq_ok.2 hall)
  obtain ⟨⟨k, d⟩, hd, hv⟩ := hread.2 record (hrecords.subset hm)
  exact ⟨k, d, Store.mem_documents.1 (hdocs.subset hd), hv⟩

/-- In a filed store a record goes by the key of the document that describes it. -/
theorem id?_of_mem_documents (h : s.Filed Record.Settled) (hc : Collection.shape c ≠ .raw)
    {d : String × Value} (hd : d ∈ s.documents c) {record : Record}
    (hr : Record.ofValue (Collection.shape c) d.2 = .ok record) : record.id? = some d.1 := by
  obtain ⟨-, record', hs, hid, hv, hsettled⟩ := h c d.1 d.2 (Store.mem_documents.1 hd) hc
  rw [hv, ← hs, Record.ofValue_toValue_iff hsettled] at hr
  rw [hr.2, hid]

theorem ids_of_documents (h : s.Filed Record.Settled) (hc : Collection.shape c ≠ .raw)
    {documents : List (String × Value)} {records : List Record} (hm : ∀ d ∈ documents, d ∈ s.documents c)
    (hd : List.Forall₂ (fun d record => Record.ofValue (Collection.shape c) d.2 = .ok record) documents records) :
    records.map Record.id? = (documents.map (·.1)).map some := by
  induction hd with
  | nil => rfl
  | cons hr _ ih =>
    rw [List.map_cons, List.map_cons, List.map_cons, ih fun d hd => hm d (List.mem_cons_of_mem _ hd),
      id?_of_mem_documents h hc (hm _ List.mem_cons_self) hr]

/-- A listing of records ascends by id. -/
theorem listing_ascending (h : s.Filed Record.Settled) (hc : Collection.shape c ≠ .raw) {l : Listing}
    (hl : ((run Store.backend ctx (.ofCollection c) q).runOn s).1 = .ok l) :
    ∃ ids : List String, l.records.map Record.id? = ids.map some ∧
      ids.Pairwise fun a b => Text.Utf8.encode a < Text.Utf8.encode b := by
  rw [run_store] at hl
  obtain ⟨documents, records, hsub, hd, hrec⟩ := records_of_result hl
  rw [Request.collection_ofCollection] at hsub
  rw [Request.shape_ofCollection] at hd
  have hids := ids_of_documents h hc (fun d hm => hsub.subset hm) hd
  obtain ⟨ids, hids', he⟩ := List.sublist_map_iff.1 (hids ▸ hrec.map Record.id?)
  refine ⟨ids, he, ?_⟩
  have hkeys := ((s.keys_ascending c).sublist (hsub.map (·.1))).sublist hids'
  exact hkeys.imp fun hlt => Text.Utf8.encode_lt_encode_iff.2 hlt

end AccessRecords.Search
