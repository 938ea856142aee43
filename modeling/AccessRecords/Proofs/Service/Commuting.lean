/-
Requests for different records. A get, a delete or an upsert is about one address: its reply and what
it leaves there follow from the document there, and no other address is touched. A collection gets its
table with its first document and keeps it, in whatever order requests come. So requests at different
addresses can be served in either order. Main statement: they commute, and however the requests of
clients that share no address are interleaved, every client gets the replies that it would get alone,
and the same store is left.
-/
import AccessRecords.Proofs.Service.Address

namespace AccessRecords.Service

open Json

/-! ## Requests for one record -/

/-- A request and the endpoint that it is sent to. -/
structure Sent where
  endpoint : Endpoint
  operation : Operation
  ctx : Context
  inc : Incoming

namespace Sent

/-- The reply to a request and the store that it leaves. -/
def run (r : Sent) (s : Store) : Except Failure Reply × Store :=
  outcome r.endpoint r.operation r.ctx r.inc s

/-- The address that a request for one record resolves to; none if its endpoint refuses it. -/
def address? (r : Sent) : Option Address :=
  match r.operation with
  | .get => (r.endpoint.get r.ctx r.inc).toOption.map fun u => ⟨u.collection, u.key⟩
  | .delete => (r.endpoint.delete r.ctx r.inc).toOption.map fun u => ⟨u.collection, u.key⟩
  | .upsert => (r.endpoint.upsert r.ctx r.inc).toOption.map fun u => ⟨u.collection, u.key⟩
  | .list => none

/-- The two requests do not resolve to one address: to different ones, or one of them to none. -/
def Apart (r r' : Sent) : Prop := ∀ a, r.address? = some a → r'.address? ≠ some a

variable {r r' : Sent} {s t : Store} {a : Address} {e : Endpoint} {ctx : Context} {inc : Incoming}

theorem address?_of_get {u : GetRequest} (hu : e.get ctx inc = .ok u) :
    (Sent.mk e .get ctx inc).address? = some ⟨u.collection, u.key⟩ := by
  simp only [address?, hu, Except.toOption, Option.map_some]

theorem address?_of_delete {u : DeleteRequest} (hu : e.delete ctx inc = .ok u) :
    (Sent.mk e .delete ctx inc).address? = some ⟨u.collection, u.key⟩ := by
  simp only [address?, hu, Except.toOption, Option.map_some]

theorem address?_of_upsert {u : UpsertRequest} (hu : e.upsert ctx inc = .ok u) :
    (Sent.mk e .upsert ctx inc).address? = some ⟨u.collection, u.key⟩ := by
  simp only [address?, hu, Except.toOption, Option.map_some]

/-- The request puts a document into the collection, whatever its reply. -/
def StoresIn (r : Sent) (c : String) : Prop :=
  r.operation = .upsert ∧ r.ctx.isCancelled = false ∧ ∃ k, r.address? = some ⟨c, k⟩

theorem Apart.symm (h : Apart r r') : Apart r' r := fun a ha' ha => h a ha ha'

/-- The endpoints of a namespace resolve a request to the address that its path parameters name, and
refuse an upsert whose body describes no record for this address. -/
theorem address?_endpoint {family : Family} {ns : String} {operation : Operation} (ho : operation ≠ .list) :
    (Sent.mk (family.endpoint ns) operation ctx inc).address? = some a ↔
      family.address ns inc = .ok a ∧ (operation = .upsert →
        ∃ record, Endpoint.readBody (Collection.shape a.collection) a.key inc = .ok record) := by
  unfold address?
  cases operation with
  | get =>
    dsimp only
    rw [Family.get_endpoint]
    cases family.address ns inc <;> simp [Except.toOption, bind, Except.bind, pure, Except.pure]
  | delete =>
    dsimp only
    rw [Family.delete_endpoint]
    cases family.address ns inc <;> simp [Except.toOption, bind, Except.bind, pure, Except.pure]
  | upsert =>
    dsimp only
    rw [Family.upsert_endpoint]
    cases family.address ns inc with
    | error f => simp [Except.toOption, bind, Except.bind]
    | ok a' =>
      dsimp only [bind, Except.bind, pure, Except.pure]
      cases hb : Endpoint.readBody (Collection.shape a'.collection) a'.key inc with
      | error f =>
        refine iff_of_false (by simp [Except.toOption]) ?_
        rintro ⟨e, h⟩
        cases e
        obtain ⟨record, hr⟩ := h rfl
        cases hb.symm.trans hr
      | ok record =>
        simp only [Except.toOption, Option.map_some, Option.some.injEq, Except.ok.injEq, forall_const]
        exact ⟨fun h => ⟨h, record, h ▸ hb⟩, fun h => h.1⟩
  | list => exact absurd rfl ho

/-! ## What a request sees and changes -/

/-- Other addresses keep their documents. -/
theorem get?_run_of_ne (h : r.address? ≠ some a) :
    (r.run s).2.get? a.collection a.key = s.get? a.collection a.key := by
  obtain ⟨endpoint, operation, ctx, inc⟩ := r
  unfold run
  rcases store_cases endpoint operation ctx inc s with hs | ⟨u, rfl, hu, hs⟩ | ⟨u, rfl, hu, hs⟩
  · rw [hs]
  · rw [hs, Store.get?_erase]
    refine if_neg fun ha => h ?_
    rw [address?_of_delete hu, ← ha.1, ← ha.2]
  · rw [hs, Store.get?_insert]
    refine if_neg fun ha => h ?_
    rw [address?_of_upsert hu, ← ha.1, ← ha.2]

/-- A collection has a table if it had one before, or if the request puts a document into it. -/
theorem hasTable_run {c : String} : (r.run s).2.HasTable c ↔ r.StoresIn c ∨ s.HasTable c := by
  obtain ⟨endpoint, operation, ctx, inc⟩ := r
  unfold run
  by_cases ho : operation = .upsert
  · subst ho
    unfold StoresIn
    dsimp only
    rw [outcome_upsert]
    cases hu : endpoint.upsert ctx inc with
    | error f => simp [address?, hu, Except.toOption]
    | ok u =>
      rw [address?_of_upsert hu]
      dsimp only
      split_ifs with hc
      · simp [hc]
      · simp [hc, Store.hasTable_insert, eq_comm]
  · -- no other request gives a table to a collection or takes one away
    rw [or_iff_right fun h : StoresIn _ c => ho h.1]
    rcases store_cases endpoint operation ctx inc s with hs | ⟨u, rfl, hu, hs⟩ | ⟨u, rfl, hu, hs⟩
    · rw [hs]
    · rw [hs, Store.hasTable_erase]
    · exact absurd rfl ho

/-- The reply, and what a request leaves at its address, follow from the document there. -/
theorem run_congr (ho : r.operation ≠ .list)
    (h : ∀ a, r.address? = some a → s.get? a.collection a.key = t.get? a.collection a.key) :
    (r.run s).1 = (r.run t).1 ∧ ∀ a, r.address? = some a →
      (r.run s).2.get? a.collection a.key = (r.run t).2.get? a.collection a.key := by
  obtain ⟨endpoint, operation, ctx, inc⟩ := r
  unfold run
  cases operation with
  | get =>
    dsimp only
    rw [outcome_get, outcome_get]
    cases hu : endpoint.get ctx inc with
    | error f => exact ⟨rfl, h⟩
    | ok u =>
      have hd : s.get? u.collection u.key = t.get? u.collection u.key :=
        h _ (address?_of_get hu)
      dsimp only
      rw [hd]
      split_ifs
      · exact ⟨rfl, h⟩
      · cases t.get? u.collection u.key <;> exact ⟨rfl, h⟩
  | delete =>
    dsimp only
    rw [outcome_delete, outcome_delete]
    cases hu : endpoint.delete ctx inc with
    | error f => exact ⟨rfl, h⟩
    | ok u =>
      have hd : s.get? u.collection u.key = t.get? u.collection u.key :=
        h _ (address?_of_delete hu)
      dsimp only
      rw [hd]
      split_ifs
      · exact ⟨rfl, h⟩
      · cases t.get? u.collection u.key with
        | none => exact ⟨rfl, h⟩
        | some d =>
          refine ⟨rfl, fun a ha => ?_⟩
          rw [Store.get?_erase, Store.get?_erase, h a ha]
  | upsert =>
    dsimp only
    rw [outcome_upsert, outcome_upsert]
    cases hu : endpoint.upsert ctx inc with
    | error f => exact ⟨rfl, h⟩
    | ok u =>
      dsimp only
      split_ifs
      · exact ⟨rfl, h⟩
      · refine ⟨rfl, fun a ha => ?_⟩
        rw [Store.get?_insert, Store.get?_insert, h a ha]
  | list => exact absurd rfl ho

/-! ## Two requests -/

/-- Before or after a request that resolves to another address the reply is the same. -/
theorem reply_run (ho : r.operation ≠ .list) (h : Apart r r') : (r.run (r'.run s).2).1 = (r.run s).1 :=
  (run_congr ho fun _ ha => get?_run_of_ne (h _ ha)).1

theorem get?_run_run (ho : r.operation ≠ .list) (h : Apart r r') (ha : r.address? = some a) :
    (r'.run (r.run s).2).2.get? a.collection a.key = (r.run (r'.run s).2).2.get? a.collection a.key := by
  have hcongr := (run_congr (s := r'.run s |>.2) (t := s) ho fun _ ha => get?_run_of_ne (h _ ha)).2 a ha
  exact (get?_run_of_ne (h a ha)).trans hcongr.symm

/-- Requests that do not resolve to one address leave the same store in either order. -/
theorem store_run_run (ho : r.operation ≠ .list) (ho' : r'.operation ≠ .list) (h : Apart r r') :
    (r'.run (r.run s).2).2 = (r.run (r'.run s).2).2 := by
  refine Store.ext_get? (fun c => ?tables) fun c k => ?documents
  case tables => rw [hasTable_run, hasTable_run, hasTable_run, hasTable_run, or_left_comm]
  case documents =>
    by_cases ha : r.address? = some ⟨c, k⟩
    · exact get?_run_run ho h ha
    · by_cases ha' : r'.address? = some ⟨c, k⟩
      · exact (get?_run_run ho' h.symm ha').symm
      · -- neither request is about this address
        rw [get?_run_of_ne (a := ⟨c, k⟩) ha', get?_run_of_ne (a := ⟨c, k⟩) ha,
          get?_run_of_ne (a := ⟨c, k⟩) ha, get?_run_of_ne (a := ⟨c, k⟩) ha']

/-! ## Clients -/

/-- The replies to requests served one after another, and the store that they leave. -/
def runAll : List Sent → Store → List (Except Failure Reply) × Store
  | [], s => ([], s)
  | r :: rest, s =>
    let (reply, s) := r.run s
    let (replies, s) := runAll rest s
    (reply :: replies, s)

section Clients

variable {ι : Type} [DecidableEq ι]

/-- What belongs to one client, in order. -/
def partOf {α : Type} (i : ι) (l : List (ι × α)) : List α := (l.filter (·.1 = i)).map (·.2)

theorem partOf_cons {α : Type} (i j : ι) (x : α) (l : List (ι × α)) :
    partOf i ((j, x) :: l) = if j = i then x :: partOf i l else partOf i l := by
  unfold partOf
  rw [List.filter_cons]
  by_cases h : j = i <;> simp [h]

/-- Serves the requests of several clients one after another. Gives the reply to each with the client
that sent it, and the store that they leave. -/
def runClients : List (ι × Sent) → Store → List (ι × Except Failure Reply) × Store
  | [], s => ([], s)
  | (i, r) :: rest, s =>
    let (reply, s) := r.run s
    let (replies, s) := runClients rest s
    ((i, reply) :: replies, s)

omit [DecidableEq ι] in
theorem runClients_cons (i : ι) (r : Sent) (rest : List (ι × Sent)) (s : Store) :
    runClients ((i, r) :: rest) s =
      ((i, (r.run s).1) :: (runClients rest (r.run s).2).1, (runClients rest (r.run s).2).2) :=
  rfl

/-- The requests of every client are in the list in the order in which the client sends them. -/
def Interleaves (streams : ι → List Sent) (l : List (ι × Sent)) : Prop := ∀ i, partOf i l = streams i

theorem mem_partOf {α : Type} {i : ι} {x : α} {l : List (ι × α)} : x ∈ partOf i l ↔ (i, x) ∈ l := by
  unfold partOf
  simp

theorem Interleaves.mem_iff {streams : ι → List Sent} {l : List (ι × Sent)} (h : Interleaves streams l)
    {i : ι} {r : Sent} : (i, r) ∈ l ↔ r ∈ streams i := by
  rw [← h i, mem_partOf]

/-- The two stores hold the same documents at some addresses. -/
def AgreeOn (A : Set Address) (s t : Store) : Prop :=
  ∀ a ∈ A, s.get? a.collection a.key = t.get? a.collection a.key

theorem AgreeOn.run {A : Set Address} (h : AgreeOn A s t) (ho : r.operation ≠ .list)
    (hr : ∀ a, r.address? = some a → a ∈ A) :
    (r.run s).1 = (r.run t).1 ∧ AgreeOn A (r.run s).2 (r.run t).2 := by
  obtain ⟨hreply, hstore⟩ := run_congr (r := r) ho fun a ha => h a (hr a ha)
  refine ⟨hreply, fun a ha => ?_⟩
  by_cases hra : r.address? = some a
  · exact hstore a hra
  · rw [get?_run_of_ne hra, get?_run_of_ne hra, h a ha]

/-- With the requests of one client at some addresses and those of all others elsewhere, the client
is answered as if it were alone, and finds the same documents at these addresses afterwards. -/
theorem runClients_part {A : Set Address} {i : ι} {l : List (ι × Sent)} (ho : ∀ e ∈ l, e.2.operation ≠ .list)
    (hown : ∀ e ∈ l, e.1 = i → ∀ a, e.2.address? = some a → a ∈ A)
    (hother : ∀ e ∈ l, e.1 ≠ i → ∀ a ∈ A, e.2.address? ≠ some a) (h : AgreeOn A s t) :
    partOf i (runClients l s).1 = (runAll (partOf i l) t).1 ∧
      AgreeOn A (runClients l s).2 (runAll (partOf i l) t).2 := by
  -- the stores keep to agree on the client's addresses, request by request
  induction l generalizing s t with
  | nil => exact ⟨rfl, h⟩
  | cons e l ih =>
    obtain ⟨j, r⟩ := e
    simp only [List.forall_mem_cons] at ho hown hother
    obtain ⟨hor, ho⟩ := ho
    obtain ⟨hownr, hown⟩ := hown
    obtain ⟨hotherr, hother⟩ := hother
    rw [runClients_cons, partOf_cons, partOf_cons]
    by_cases hj : j = i
    · obtain ⟨hreply, hstore⟩ := h.run hor (hownr hj)
      obtain ⟨hreplies, hstores⟩ := ih ho hown hother hstore
      rw [if_pos hj, if_pos hj, hreply, hreplies]
      exact ⟨rfl, hstores⟩
    · -- this request is served on one side only
      rw [if_neg hj, if_neg hj]
      exact ih ho hown hother fun a ha => (get?_run_of_ne (hotherr hj a ha)).trans (h a ha)

omit [DecidableEq ι] in
/-- An address that no request resolves to keeps its document. -/
theorem get?_runClients_of_ne {l : List (ι × Sent)} (h : ∀ e ∈ l, e.2.address? ≠ some a) :
    (runClients l s).2.get? a.collection a.key = s.get? a.collection a.key := by
  induction l generalizing s with
  | nil => rfl
  | cons e l ih =>
    rw [runClients_cons]
    exact (ih fun e' he => h e' (List.mem_cons_of_mem _ he)).trans (get?_run_of_ne (h e List.mem_cons_self))

omit [DecidableEq ι] in
theorem hasTable_runClients {l : List (ι × Sent)} {c : String} :
    (runClients l s).2.HasTable c ↔ (∃ e ∈ l, e.2.StoresIn c) ∨ s.HasTable c := by
  induction l generalizing s with
  | nil => simp [runClients]
  | cons e l ih =>
    rw [runClients_cons, ih, hasTable_run, List.exists_mem_cons_iff, or_left_comm, or_assoc]

section Streams

variable {streams : ι → List Sent} {l l' : List (ι × Sent)}

/-- The addresses that a client's requests resolve to. -/
def addresses (requests : List Sent) : Set Address := {a | ∃ r ∈ requests, r.address? = some a}

theorem Interleaves.client (h : Interleaves streams l) (ho : ∀ i, ∀ r ∈ streams i, r.operation ≠ .list)
    (ha : ∀ i j, i ≠ j → ∀ r ∈ streams i, ∀ r' ∈ streams j, Apart r r') (i : ι) (s : Store) :
    partOf i (runClients l s).1 = (runAll (streams i) s).1 ∧
      AgreeOn (addresses (streams i)) (runClients l s).2 (runAll (streams i) s).2 := by
  have hown : ∀ e ∈ l, e.1 = i → ∀ a, e.2.address? = some a → a ∈ addresses (streams i) := by
    rintro e he rfl a hea
    exact ⟨e.2, h.mem_iff.1 he, hea⟩
  have hother : ∀ e ∈ l, e.1 ≠ i → ∀ a ∈ addresses (streams i), e.2.address? ≠ some a := by
    rintro e he hne a ⟨r, hr, hra⟩
    exact ha i e.1 hne.symm r hr e.2 (h.mem_iff.1 he) a hra
  rw [← h i] at hown hother ⊢
  exact runClients_part (fun e he => ho e.1 e.2 (h.mem_iff.1 he)) hown hother fun _ _ => rfl

/-- All interleavings leave the same store. -/
theorem Interleaves.store_eq (h : Interleaves streams l) (h' : Interleaves streams l')
    (ho : ∀ i, ∀ r ∈ streams i, r.operation ≠ .list)
    (ha : ∀ i j, i ≠ j → ∀ r ∈ streams i, ∀ r' ∈ streams j, Apart r r') (s : Store) :
    (runClients l' s).2 = (runClients l s).2 := by
  refine Store.ext_get? (fun c => ?tables) fun c k => ?documents
  case tables =>
    -- each interleaving serves the same requests, so the same collections get tables
    have hmem : ∀ e, e ∈ l' ↔ e ∈ l := fun e => h'.mem_iff.trans h.mem_iff.symm
    simp only [hasTable_runClients, hmem]
  case documents =>
    by_cases hk : ∃ i, (⟨c, k⟩ : Address) ∈ addresses (streams i)
    · -- the client that the address belongs to finds there what it would find alone
      obtain ⟨i, hi⟩ := hk
      exact ((h'.client ho ha i s).2 _ hi).trans ((h.client ho ha i s).2 _ hi).symm
    · have hne : ∀ {l}, Interleaves streams l → ∀ e ∈ l, e.2.address? ≠ some ⟨c, k⟩ :=
        fun h e he hea => hk ⟨e.1, e.2, h.mem_iff.1 he, hea⟩
      exact (get?_runClients_of_ne (hne h')).trans (get?_runClients_of_ne (hne h)).symm

end Streams

end Clients

/-- For every store and all endpoints, whatever their resolvers do. Two requests for one record each
that do not resolve to one address get the same replies in either order and leave the same store. And
if no request of one client resolves to an address of another client, then however the requests are
interleaved each client gets the replies that it would get alone, and all interleavings leave the
same store. -/
theorem requests_commute (s : Store) :
    (∀ r r' : Sent, r.operation ≠ .list → r'.operation ≠ .list → Apart r r' →
      (r.run (r'.run s).2).1 = (r.run s).1 ∧ (r'.run (r.run s).2).1 = (r'.run s).1 ∧
      (r'.run (r.run s).2).2 = (r.run (r'.run s).2).2) ∧
    ∀ (ι : Type) [DecidableEq ι] (streams : ι → List Sent), (∀ i, ∀ r ∈ streams i, r.operation ≠ .list) →
      (∀ i j, i ≠ j → ∀ r ∈ streams i, ∀ r' ∈ streams j, Apart r r') →
      ∀ l, Interleaves streams l →
        (∀ i, partOf i (runClients l s).1 = (runAll (streams i) s).1) ∧
        ∀ l', Interleaves streams l' →
          (∀ i, partOf i (runClients l' s).1 = partOf i (runClients l s).1) ∧
          (runClients l' s).2 = (runClients l s).2 := by
  refine ⟨?_, ?_⟩
  · intro r r' ho ho' h
    exact ⟨reply_run ho h, reply_run ho' h.symm, store_run_run ho ho' h⟩
  · intro ι _ streams ho ha l hl
    have halone : ∀ {l}, Interleaves streams l → ∀ i, partOf i (runClients l s).1 = (runAll (streams i) s).1 :=
      fun h i => (h.client ho ha i s).1
    refine ⟨halone hl, fun l' hl' => ⟨fun i => ?_, hl.store_eq hl' ho ha s⟩⟩
    rw [halone hl' i, halone hl i]

/-- A role is the last document of its collection and is removed by its id, with blanks around it;
another role is created by the name of that collection among all of the namespace. -/
theorem requests_commute_roles :
    let s := (∅ : Store).insertRoles "t/roles" [⟨"a", []⟩]
    let remove : Sent := ⟨.fixed "t/roles", .delete, {}, { params := .ofList [("id", " a ")] }⟩
    let write : Sent := ⟨.generic "t", .upsert, {},
      { params := .ofList [("name", " roles"), ("key", "b")], body := [0x7B, 0x7D] }⟩
    Apart remove write ∧
      (write.run (remove.run s).2).2 = (remove.run (write.run s).2).2 ∧
      (runClients [(true, remove), (true, remove), (false, write)] s).2 =
        (runClients [(true, remove), (false, write), (true, remove)] s).2 := by
  intro s remove write
  have hremove : remove.address? = some ⟨"t/roles", "a"⟩ := by decide +kernel
  have hwrite : write.address? = some ⟨"t/roles", "b"⟩ := by decide +kernel
  have hapart : Apart remove write := by
    intro a ha
    rw [hremove] at ha
    cases ha
    rw [hwrite]
    decide
  let streams : Bool → List Sent := fun client => if client then [remove, remove] else [write]
  have hkeyed : ∀ i, ∀ r ∈ streams i, r.operation ≠ .list := by
    intro i r hr
    cases i with
    | true =>
      obtain rfl : r = remove := by simpa [streams] using hr
      decide
    | false =>
      obtain rfl : r = write := by simpa [streams] using hr
      decide
  have hapart' : ∀ i j, i ≠ j → ∀ r ∈ streams i, ∀ r' ∈ streams j, Apart r r' := by
    intro i j hij r hr r' hr'
    cases i with
    | true =>
      obtain rfl : j = false := by simpa using hij.symm
      obtain rfl : r = remove := by simpa [streams] using hr
      obtain rfl : r' = write := by simpa [streams] using hr'
      exact hapart
    | false =>
      obtain rfl : j = true := by simpa using hij.symm
      obtain rfl : r = write := by simpa [streams] using hr
      obtain rfl : r' = remove := by simpa [streams] using hr'
      exact hapart.symm
  obtain ⟨hpair, hclients⟩ := requests_commute s
  obtain ⟨-, -, hstore⟩ := hpair remove write (by decide) (by decide) hapart
  obtain ⟨-, hall⟩ := hclients Bool streams hkeyed hapart'
    [(true, remove), (false, write), (true, remove)] (by intro i; cases i <;> rfl)
  obtain ⟨-, hstores⟩ := hall [(true, remove), (true, remove), (false, write)] (by intro i; cases i <;> rfl)
  exact ⟨hapart, hstore, hstores⟩

end Sent

end AccessRecords.Service
