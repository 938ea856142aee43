/-
Calls of the operations of the store, one after another. Each call changes the store in one way or
not at all, so what is under a key afterwards follows from what was there before, and tables are only
ever added. Main statements: the tables of a run are those of the collections that a document was put
into, and a run that leaves no document in a collection holds what it would hold without the calls
about that collection, though not in the same tables.
-/
import AccessRecords.Proofs.Store.Contents
import AccessRecords.Proofs.Store.Operations

namespace AccessRecords

open Json

namespace Store

variable {s t : Store} {c c' k : String}

/-! ## Calls -/

/-- What a call of an operation of the store gives. -/
inductive Answer where
  | done
  | document (d : Value)
  | documents (l : List Value)
  | number (n : Nat)
  | names (l : List String)
  | failure (f : Failure)

/-- The answer of an operation that gives a result or fails, with the state that it leaves. -/
def Answer.of {α σ : Type} (answer : α → Answer) : Except Failure α × σ → Answer × σ
  | (.ok a, s) => (answer a, s)
  | (.error f, s) => (.failure f, s)

/-- A call of one of the operations of the store. -/
inductive Call where
  | insert (collection key : String) (document : Value)
  | insertRoles (collection : String) (roles : List Role)
  | insertPolicies (collection : String) (policies : List Policy)
  | get (ctx : Context) (collection key : String)
  | delete (ctx : Context) (collection key : String)
  | upsert (ctx : Context) (collection key : String) (document : Value)
  | list (ctx : Context) (collection : String) (page : Page)
  | listAll (ctx : Context) (collection : String)
  | length (collection : String)
  | collections

namespace Call

/-- What the store answers, and the store afterwards. -/
def run (s : Store) : Call → Answer × Store
  | .insert c k d => (.done, s.insert c k d)
  | .insertRoles c roles => (.done, s.insertRoles c roles)
  | .insertPolicies c policies => (.done, s.insertPolicies c policies)
  | .get ctx c k => Answer.of .document ((backend.get ctx c k).runOn s)
  | .delete ctx c k => Answer.of (fun _ => .done) ((backend.delete ctx c k).runOn s)
  | .upsert ctx c k d => Answer.of .document ((backend.upsert ctx c k d).runOn s)
  | .list ctx c page => Answer.of .documents ((backend.list ctx c page).runOn s)
  | .listAll ctx c => Answer.of .documents ((backend.listAll ctx c).runOn s)
  | .length c => (.number (s.length c), s)
  | .collections => (.names s.collections, s)

/-- The answers to calls made one after another, and the store afterwards. -/
def runAll : List Call → Store → List Answer × Store
  | [], s => ([], s)
  | call :: rest, s =>
    let (answer, s) := call.run s
    let (answers, s) := runAll rest s
    (answer :: answers, s)

/-! ## What a call changes -/

/-- The store after a call. Reading changes nothing, and neither do a removal of what is not there or
the removals and upserts of a caller that has gone away. -/
def after (s : Store) : Call → Store
  | .insert c k d => s.insert c k d
  | .insertRoles c roles => s.insertRoles c roles
  | .insertPolicies c policies => s.insertPolicies c policies
  | .delete ctx c k => if ctx.isCancelled ∨ s.get? c k = none then s else s.erase c k
  | .upsert ctx c k d => if ctx.isCancelled then s else s.insert c k d
  | _ => s

theorem store_run (call : Call) : (call.run s).2 = call.after s := by
  cases call with
  | insert c k d => rfl
  | insertRoles c roles => rfl
  | insertPolicies c policies => rfl
  | get ctx c k =>
    simp only [run, backend_get]
    split_ifs
    · rfl
    · cases s.get? c k <;> rfl
  | delete ctx c k =>
    simp only [run, backend_delete, after]
    by_cases hx : ctx.isCancelled = true
    · rw [if_pos hx, if_pos (Or.inl hx)]
      rfl
    · rw [if_neg hx]
      cases s.get? c k with
      | none => exact (if_pos (Or.inr rfl)).symm
      | some d => exact (if_neg (by simp [hx])).symm
  | upsert ctx c k d =>
    simp only [run, backend_upsert, after]
    split_ifs <;> rfl
  | list ctx c page =>
    simp only [run, backend_list]
    split_ifs <;> rfl
  | listAll ctx c =>
    simp only [run, backend_listAll]
    split_ifs <;> rfl
  | length c => rfl
  | collections => rfl

/-- The call puts a document into the collection. -/
def StoresIn (c : String) : Call → Prop
  | .insert c' _ _ => c = c'
  | .insertRoles c' roles => c = c' ∧ roles ≠ []
  | .insertPolicies c' policies => c = c' ∧ policies ≠ []
  | .upsert ctx c' _ _ => c = c' ∧ ctx.isCancelled = false
  | _ => False

/-- A call gives a table to the collection that it puts a document into and takes no table away. -/
theorem hasTable_run (call : Call) : (call.run s).2.HasTable c ↔ call.StoresIn c ∨ s.HasTable c := by
  rw [store_run]
  cases call with
  | insert c' k d => exact hasTable_insert
  | insertRoles c' roles => exact hasTable_foldl_insert Role.id Role.toValue roles
  | insertPolicies c' policies => exact hasTable_foldl_insert Policy.id Policy.toValue policies
  | delete ctx c' k =>
    simp only [after, StoresIn]
    split_ifs <;> simp [hasTable_erase]
  | upsert ctx c' k d =>
    simp only [after, StoresIn]
    split_ifs with hx
    · simp [hx]
    · simp [hx, hasTable_insert]
  | _ => exact (or_iff_right id).symm

/-- What a call leaves under a key of a collection that has `before` there. -/
def leaves (c k : String) (before : Option Value) : Call → Option Value
  | .insert c' k' d => if c = c' ∧ k = k' then some d else before
  | .insertRoles c' roles =>
    if c = c' then ((lastWith? Role.id k roles).map Role.toValue).or before else before
  | .insertPolicies c' policies =>
    if c = c' then ((lastWith? Policy.id k policies).map Policy.toValue).or before else before
  | .delete ctx c' k' => if ctx.isCancelled = false ∧ c = c' ∧ k = k' then none else before
  | .upsert ctx c' k' d => if ctx.isCancelled = false ∧ c = c' ∧ k = k' then some d else before
  | _ => before

theorem get?_run (call : Call) : (call.run s).2.get? c k = call.leaves c k (s.get? c k) := by
  rw [store_run]
  cases call with
  | insert c' k' d => exact get?_insert
  | insertRoles c' roles => exact get?_foldl_insert Role.id Role.toValue roles
  | insertPolicies c' policies => exact get?_foldl_insert Policy.id Policy.toValue policies
  | delete ctx c' k' =>
    simp only [after, leaves]
    split_ifs with hx ha ha
    · -- a waiting caller's key that has no document
      obtain ⟨hctx, rfl, rfl⟩ := ha
      exact hx.resolve_left (by simp [hctx])
    · rfl
    · rw [get?_erase, if_pos ha.2]
    · rw [get?_erase, if_neg fun e => ha ⟨by simpa using fun h => hx (Or.inl h), e⟩]
  | upsert ctx c' k' d =>
    simp only [after, leaves]
    split_ifs with hx ha ha
    · simp [hx] at ha
    · rfl
    · rw [get?_insert, if_pos ha.2]
    · rw [get?_insert, if_neg fun e => ha ⟨by simpa using hx, e⟩]
  | _ => rfl

/-- The collection that a call is about. -/
def collection? : Call → Option String
  | .insert c _ _ | .insertRoles c _ | .insertPolicies c _ | .get _ c _ | .delete _ c _
  | .upsert _ c _ _ | .list _ c _ | .listAll _ c | .length c => some c
  | .collections => none

/-- Collections that a call is not about keep their documents. -/
theorem get?_run_of_ne {call : Call} (h : call.collection? ≠ some c) :
    (call.run s).2.get? c k = s.get? c k := by
  have hne : ∀ c', call.collection? = some c' → c ≠ c' := by
    rintro c' hc rfl
    exact h hc
  rw [get?_run]
  cases call with
  | insert c' k' d => exact if_neg fun e => hne c' rfl e.1
  | insertRoles c' roles => exact if_neg (hne c' rfl)
  | insertPolicies c' policies => exact if_neg (hne c' rfl)
  | delete ctx c' k' => exact if_neg fun e => hne c' rfl e.2.1
  | upsert ctx c' k' d => exact if_neg fun e => hne c' rfl e.2.1
  | _ => rfl

/-! ## Runs -/

theorem runAll_cons (call : Call) (rest : List Call) (s : Store) :
    runAll (call :: rest) s =
      ((call.run s).1 :: (runAll rest (call.run s).2).1, (runAll rest (call.run s).2).2) :=
  rfl

/-- After a run a collection has a table if it had one before, or if a call put a document into it. -/
theorem hasTable_runAll (calls : List Call) :
    (runAll calls s).2.HasTable c ↔ (∃ call ∈ calls, call.StoresIn c) ∨ s.HasTable c := by
  induction calls generalizing s with
  | nil => simp [runAll]
  | cons call rest ih => rw [runAll_cons, ih, hasTable_run, List.exists_mem_cons_iff, or_left_comm, or_assoc]

/-- Without the calls about one collection the others hold the same documents. -/
theorem get?_runAll_filter (hc : c' ≠ c) (calls : List Call) (h : s.get? c' k = t.get? c' k) :
    (runAll calls s).2.get? c' k = (runAll (calls.filter (·.collection? ≠ some c)) t).2.get? c' k := by
  induction calls generalizing s t with
  | nil => exact h
  | cons call rest ih =>
    by_cases hcall : call.collection? = some c
    · -- the call is made on one side only, and is not about this collection
      have hne : call.collection? ≠ some c' := by
        rw [hcall]
        exact fun e => hc (Option.some.inj e).symm
      rw [List.filter_cons_of_neg (by simp [hcall]), runAll_cons]
      exact ih ((get?_run_of_ne hne).trans h)
    · rw [List.filter_cons_of_pos (by simpa using hcall), runAll_cons, runAll_cons]
      exact ih (by rw [get?_run, get?_run, h])

/-- Calls that are about other collections leave one as it was. -/
theorem get?_runAll_of_ne {calls : List Call} (h : ∀ call ∈ calls, call.collection? ≠ some c) :
    (runAll calls s).2.get? c k = s.get? c k := by
  induction calls generalizing s with
  | nil => rfl
  | cons call rest ih =>
    rw [runAll_cons]
    exact (ih fun call' hm => h call' (List.mem_cons_of_mem _ hm)).trans
      (get?_run_of_ne (h call List.mem_cons_self))

/-- A run that leaves no document in a collection holds what the run without the calls about that
collection holds. The stores differ if the collection has kept an empty table. -/
theorem get?_runAll_of_emptied {calls : List Call} (h : ∀ k, (runAll calls ∅).2.get? c k = none) (c' k : String) :
    (runAll calls ∅).2.get? c' k = (runAll (calls.filter (·.collection? ≠ some c)) ∅).2.get? c' k := by
  by_cases hc : c' = c
  · subst hc
    rw [h, get?_runAll_of_ne fun call hm => by simpa using (List.mem_filter.1 hm).2]
    rfl
  · exact get?_runAll_filter hc calls rfl

end Call

end Store

end AccessRecords
