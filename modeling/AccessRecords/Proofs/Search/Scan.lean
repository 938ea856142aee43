/-
Searches as pages. With the documents of the records that a query does not ask for taken away, a page
of what is left is what a search through the whole collection lists: reading, filtering and cutting
records agrees with removing documents and cutting what the store holds. Main statement: the search
and the search for the page alone, on the store without those documents, give one answer.
-/
import AccessRecords.Proofs.Search.Paging

namespace AccessRecords

open Json

/-! ## Queries for a page alone -/

namespace Query

/-- The query without its keys other than those of a page. -/
def pageOnly (q : Query) : Query where
  entries := q.entries.filter fun e => e.1 = "limit" ∨ e.1 = "offset"
  ascending := q.ascending.filter _

variable {q : Query} {k : String}

theorem get?_pageOnly : q.pageOnly.get? k = if k = "limit" ∨ k = "offset" then q.get? k else none := by
  refine Option.ext fun vs => ?_
  have hq : q.get? k = some vs ↔ (k, vs) ∈ q.entries := (Entries.mem_iff_find? q.ascending).symm
  have hp : q.pageOnly.get? k = some vs ↔ (k, vs) ∈ q.pageOnly.entries :=
    (Entries.mem_iff_find? q.pageOnly.ascending).symm
  rw [hp, pageOnly, List.mem_filter, decide_eq_true_eq, ← hq]
  by_cases hk : k = "limit" ∨ k = "offset"
  · rw [if_pos hk]
    exact and_iff_left hk
  · rw [if_neg hk]
    exact iff_of_false (fun h => hk h.2) (Option.some_ne_none _).symm

theorem get?_pageOnly_of_ne (hl : k ≠ "limit") (ho : k ≠ "offset") : q.pageOnly.get? k = none :=
  get?_pageOnly.trans (if_neg fun h => h.elim hl ho)

/-- Without filters every record is asked for. -/
theorem asksFor_pageOnly (r : Record) : q.pageOnly.AsksFor r := by
  intro d hd
  obtain ⟨hl, ho⟩ := ne_of_mem_dimensions hd
  refine .inl ?_
  unfold values
  rw [get?_pageOnly_of_ne hl ho]
  rfl

theorem ofQuery_pageOnly (rules : Page.Rules) : Page.ofQuery rules q.pageOnly = Page.ofQuery rules q := by
  have hl : q.pageOnly.get? "limit" = q.get? "limit" := get?_pageOnly.trans (if_pos (.inl rfl))
  have ho : q.pageOnly.get? "offset" = q.get? "offset" := get?_pageOnly.trans (if_pos (.inr rfl))
  unfold Page.ofQuery Page.number? first?
  rw [hl, ho]

theorem not_scans_pageOnly (c : String) : ¬ Search.Scans c q.pageOnly := by
  have hnone : ∀ k, k ≠ "limit" → k ≠ "offset" → ¬ q.pageOnly.contains k = true := by
    intro k hl ho
    rw [Table.contains, get?_pageOnly_of_ne hl ho]
    exact Bool.false_ne_true
  rintro (⟨-, h⟩ | ⟨-, h | h | h⟩)
  · exact hnone "member" (by decide) (by decide) h
  · exact hnone "action" (by decide) (by decide) h
  · exact hnone "subject" (by decide) (by decide) h
  · exact hnone "resource" (by decide) (by decide) h

/-- Whether a document is that of a record which the query asks for. -/
def wants (q : Query) (shape : Shape) (d : Value) : Bool :=
  match Record.ofValue shape d with
  | .ok record => q.AsksFor record
  | .error _ => false

theorem wants_of_ofValue {shape : Shape} {d : Value} {record : Record} (h : Record.ofValue shape d = .ok record) :
    q.wants shape d = decide (q.AsksFor record) := by
  unfold wants
  rw [h]

end Query

/-! ## Stores without some documents -/

namespace Store

/-- The store after the removal of the documents of a collection that fail a test. -/
def keep (s : Store) (c : String) (p : Value → Bool) : Store :=
  (s.documents c).foldl (fun t e => if p e.2 then t else t.erase c e.1) s

variable {s : Store} {c c' k : String} {d : Value} {p : Value → Bool}

theorem get?_foldl_erase_eq_some (l : List (String × Value)) (t : Store) :
    (l.foldl (fun t e => if p e.2 then t else t.erase c e.1) t).get? c' k = some d ↔
      t.get? c' k = some d ∧ (c' = c → ∀ e ∈ l, e.1 = k → p e.2 = true) := by
  induction l generalizing t with
  | nil => simp
  | cons e l ih =>
    rw [List.foldl_cons, ih]
    simp only [List.forall_mem_cons]
    by_cases hp : p e.2 = true
    · simp [hp]
    · rw [if_neg hp, get?_erase]
      by_cases hk : c' = c ∧ k = e.1
      · simp [hk, hp]
      · rw [if_neg hk]
        have hne : c' = c → e.1 ≠ k := fun hc he => hk ⟨hc, he.symm⟩
        tauto

theorem get?_keep_eq_some : (s.keep c p).get? c' k = some d ↔ s.get? c' k = some d ∧ (c' = c → p d = true) := by
  unfold keep
  rw [get?_foldl_erase_eq_some]
  refine and_congr_right fun hd => forall_congr' ?_
  rintro rfl
  constructor
  · exact fun h => h (k, d) (mem_documents.2 hd) rfl
  · -- of the documents that are looked at, this one alone has the key
    rintro hp ⟨k', d'⟩ he rfl
    have hd' : s.get? c' k' = some d' := mem_documents.1 he
    rw [hd] at hd'
    cases hd'
    exact hp

theorem documents_keep : (s.keep c p).documents c = (s.documents c).filter (p ·.2) := by
  have hasc : Entries.Ascending ((s.documents c).filter (p ·.2)) := (documents_ascending s c).filter _
  refine Entries.ext (documents_ascending _ c) hasc fun k => Option.ext fun d => ?_
  rw [find?_documents, get?_keep_eq_some, ← Entries.mem_iff_find? hasc, List.mem_filter, mem_documents]
  exact and_congr_right fun _ => forall_prop_of_true rfl

theorem values_keep : (s.keep c p).values c = (s.values c).filter p := by
  unfold values
  rw [documents_keep, List.filter_map]
  rfl

end Store

namespace Search

/-! ## One answer in two ways -/

variable {s : Store} {c : String} {q : Query} {ctx : Context} {records : List Record}

/-- Taking documents away takes away their records. -/
theorem forall₂_filter_wants {shape : Shape} {documents : List Value}
    (h : List.Forall₂ (fun d r => Record.ofValue shape d = .ok r) documents records) :
    List.Forall₂ (fun d r => Record.ofValue shape d = .ok r) (documents.filter (q.wants shape))
      (records.filter (q.AsksFor ·)) := by
  induction h with
  | nil => exact .nil
  | @cons d r documents records hd _ ih =>
    have hw := Query.wants_of_ofValue (q := q) hd
    rw [List.filter_cons, List.filter_cons, hw]
    split_ifs
    · exact .cons hd ih
    · exact ih

theorem kind_of_scans (h : Scans c q) : Collection.kind c ≠ .other := by
  intro hk
  have hf := (isFilter_iff c q).2 h
  rw [hk] at hf
  cases hf

theorem listed_of_scans (h : Scans c q) : listed c q records = records.filter (q.AsksFor ·) :=
  if_neg (kind_of_scans h)

theorem listed_pageOnly : listed c q.pageOnly records = records := by
  unfold listed
  split_ifs
  · rfl
  · exact List.filter_eq_self.2 fun r _ => decide_eq_true (Query.asksFor_pageOnly r)

/-- Selecting from all documents by the query is selecting from the page of those that are wanted. -/
theorem select_eq_select_pageOnly (h : Scans c q)
    (hd : List.Forall₂ (fun d r => Record.ofValue (Collection.shape c) d = .ok r) (s.values c) records) :
    ∃ l, select (.ofCollection c) q (Plan.make c q) (s.values c) = .ok l ∧
      select (.ofCollection c) q.pageOnly (Plan.make c q.pageOnly)
        ((s.keep c (q.wants (Collection.shape c))).page c (Page.ofQuery {} q)) = .ok l := by
  have hr := ofCollection_filterable c
  have hpage := List.forall₂_take (Page.ofQuery {} q).limit
    (List.forall₂_drop (Page.ofQuery {} q).offset (forall₂_filter_wants (q := q) hd))
  rw [← Request.shape_ofCollection] at hd hpage
  obtain ⟨l, he, hs, hl⟩ := select_eq_ok hr (q := q) (Except.mapM_eq_ok.2 hd)
  obtain ⟨l', he', hs', hl'⟩ := select_eq_ok hr (q := q.pageOnly) (Except.mapM_eq_ok.2 hpage)
  rw [Request.collection_ofCollection] at he he'
  rw [answer_ofCollection, if_pos h, listed_of_scans h] at hl
  rw [answer_ofCollection, if_neg (Query.not_scans_pageOnly c), listed_pageOnly] at hl'
  refine ⟨l, he, ?_⟩
  rw [Store.page_eq, Store.values_keep, ← Request.shape_ofCollection,
    Listing.ext_records (hs.trans hs'.symm) (hl.trans hl'.symm)]
  exact he'

/-- A search through a whole collection and a search for the same page alone, made after the removal
of the documents of all records that the query does not ask for, give one answer: a listing, unless
the caller has gone away. The first reads the whole collection, the second one page of it. -/
theorem scan_eq_page (h : Scans c q)
    (hd : ∀ d ∈ s.values c, ∃ record, Record.ofValue (Collection.shape c) d = .ok record) :
    let kept := s.keep c (q.wants (Collection.shape c))
    ∃ answer : Except Failure Listing,
      (run Store.backend.recorded ctx (.ofCollection c) q).runOn (s, []) = (answer, s, [.listAll c]) ∧
      (run Store.backend.recorded ctx (.ofCollection c) q.pageOnly).runOn (kept, []) =
        (answer, kept, [.list c (Page.ofQuery {} q)]) ∧
      (ctx.isCancelled = false → ∃ l, answer = .ok l) := by
  intro kept
  choose! record hrecord using hd
  have hd : List.Forall₂ (fun d r => Record.ofValue (Collection.shape c) d = .ok r) (s.values c)
      ((s.values c).map record) := by
    rw [List.forall₂_map_right_iff, List.forall₂_same]
    exact hrecord
  obtain ⟨l, hl, hl'⟩ := select_eq_select_pageOnly h hd
  have hscan : Fetches Store.backend ctx c q s (.listAll c) _ := .all h
  have hpage : Fetches Store.backend ctx c q.pageOnly kept (.list c (Page.ofQuery {} q.pageOnly)) _ :=
    .page (Query.not_scans_pageOnly c)
  rw [← Request.collection_ofCollection c] at hscan hpage
  rw [runOn_of_fetches (ofCollection_filterable c) hscan, runOn_of_fetches (ofCollection_filterable c) hpage,
    Request.collection_ofCollection, Store.backend_listAll, Store.backend_list, Query.ofQuery_pageOnly]
  cases hc : ctx.isCancelled with
  | true => exact ⟨.error ctx.cancelled, rfl, rfl, nofun⟩
  | false => exact ⟨.ok l, congrArg (·, s, _) hl, congrArg (·, kept, _) hl', fun _ => ⟨l, rfl⟩⟩

/-- Of three roles two have the member, and the page starts at the second of these. -/
theorem scan_eq_page_member :
    let s := (∅ : Store).insertRoles "t/roles" [⟨"c", ["m"]⟩, ⟨"a", ["m", "n"]⟩, ⟨"b", ["n"]⟩]
    let kept := (∅ : Store).insertRoles "t/roles" [⟨"c", ["m"]⟩, ⟨"a", ["m", "n"]⟩]
    let page := (∅ : Query).add "offset" "1"
    let q := page.add "member" "m"
    Scans "t/roles" q ∧
      (∀ d ∈ s.values "t/roles", ∃ record, Record.ofValue (Collection.shape "t/roles") d = .ok record) ∧
      (run Store.backend.recorded {} (.ofCollection "t/roles") q).runOn (s, []) =
        (.ok (.roles [⟨"c", ["m"]⟩]), s, [.listAll "t/roles"]) ∧
      (run Store.backend.recorded {} (.ofCollection "t/roles") page).runOn (kept, []) =
        (.ok (.roles [⟨"c", ["m"]⟩]), kept, [.list "t/roles" ⟨100, 1⟩]) := by
  intro s kept page q
  have hs : Scans "t/roles" q := by decide
  have hd : ∀ d ∈ s.values "t/roles", ∃ record, Record.ofValue (Collection.shape "t/roles") d = .ok record := by
    intro d hd
    rcases hd with _ | ⟨_, _ | ⟨_, _ | ⟨_, hd⟩⟩⟩
    · exact ⟨.role ⟨"a", ["m", "n"]⟩, rfl⟩
    · exact ⟨.role ⟨"b", ["n"]⟩, rfl⟩
    · exact ⟨.role ⟨"c", ["m"]⟩, rfl⟩
    · cases hd
  obtain ⟨answer, hscan, hpage, -⟩ := @scan_eq_page s _ _ {} hs hd
  have hq : q.pageOnly = page := by decide +kernel
  have hcut : Page.ofQuery {} q = ⟨100, 1⟩ := by decide +kernel
  have hkept : s.keep "t/roles" (q.wants (Collection.shape "t/roles")) = kept := by
    dsimp only [s, kept, q, page]
    rfl
  have hanswer : answer = .ok (.roles [⟨"c", ["m"]⟩]) := by
    refine (congrArg Prod.fst hscan).symm.trans ?_
    dsimp only [s, q, page]
    rfl
  rw [hq, hcut, hkept, hanswer] at hpage
  exact ⟨hs, hd, hscan.trans (congrArg (·, s, _) hanswer), hpage⟩

end Search

end AccessRecords
