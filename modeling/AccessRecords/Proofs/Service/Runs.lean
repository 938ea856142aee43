/-
Runs of a store: seed files loaded and requests served, in any order, from the empty store on. Every
document in a collection of records stays that of a record of its kind under its own id. It is read
back as that record exactly if the conditions of the record hold no mark of an embedded text; no
request writes such conditions, but a seed file can.
-/
import AccessRecords.Proofs.Search.Order
import AccessRecords.Proofs.Service.Filing
import AccessRecords.Proofs.Store.Loading

namespace AccessRecords

open Json

/-! ## Steps -/

/-- A step of a run: a seed file loaded into a namespace, or a request to one. -/
inductive Step where
  | load (ns : String) (file : Seed.File)
  | request (ns : String) (r : Service.Request)

namespace Step

/-- The store that a step leaves. -/
def run : Step → Store → Store
  | .load ns file, s => ((Store.load ns file).runOn s).2
  | .request ns r, s => (r.serve ns s).2

/-- The store that steps leave, one after another, from the empty store on. -/
def runAll (steps : List Step) : Store := steps.foldl (fun s step => step.run s) ∅

theorem runAll_append (steps : List Step) (step : Step) : runAll (steps ++ [step]) = step.run (runAll steps) := by
  unfold runAll
  rw [List.foldl_append, List.foldl_cons, List.foldl_nil]

/-- A file that describes no seed leaves the store as it is. -/
theorem run_load (ns : String) (file : Seed.File) (s : Store) :
    (load ns file).run s =
      match Seed.ofFile file with
      | .ok seed => s.insertSeed ns seed
      | .error _ => s := by
  show ((Store.load ns file).runOn s).2 = _
  rw [Store.load_runOn]
  cases Seed.ofFile file <;> rfl

end Step

/-- Of the policies with one id in the seed, the last, which is the one that is kept, has no mark in
its conditions. -/
def Seed.Readable (seed : Seed) : Prop :=
  ∀ p, Store.Last Policy.id seed.policies p → p.conditions.isPlain = true

/-- Every document of a collection of records is read back as a record of its kind whose document
it is and whose id is its key, which is not empty. -/
def Store.WellFormed (s : Store) : Prop :=
  ∀ c k d, s.get? c k = some d → Collection.shape c ≠ .raw →
    k ≠ "" ∧ ∃ record, Record.ofValue (Collection.shape c) d = .ok record ∧ record.id? = some k ∧
      d = record.toValue

namespace Step

/-! ## What steps keep -/

section Filed

variable {Q : Record → Prop}

theorem filed_run (hq : ∀ c key record, Endpoint.Writable c key record → Q record) {step : Step}
    (hload : ∀ ns file seed, step = load ns file → Seed.ofFile file = .ok seed →
      (∀ r ∈ seed.roles, Q (.role r)) ∧ ∀ p, Store.Last Policy.id seed.policies p → Q (.policy p))
    {s : Store} (h : s.Filed Q) : (step.run s).Filed Q := by
  cases step with
  | load ns file =>
    rw [run_load]
    cases hs : Seed.ofFile file with
    | error f => exact h
    | ok seed =>
      obtain ⟨hr, hp⟩ := Seed.of_ofFile hs
      obtain ⟨hroles, hpolicies⟩ := hload ns file seed rfl hs
      exact h.insertSeed (fun r hm => ⟨hr r hm, hroles r hm⟩)
        fun p hl => ⟨(hp p hl.mem).1, hpolicies p hl⟩
  | request ns r => exact Service.Request.filed_serve hq h

/-- What steps keep holds after any number of them. -/
theorem filed_runAll (hq : ∀ c key record, Endpoint.Writable c key record → Q record) {steps : List Step}
    (hload : ∀ ns file seed, load ns file ∈ steps → Seed.ofFile file = .ok seed →
      (∀ r ∈ seed.roles, Q (.role r)) ∧ ∀ p, Store.Last Policy.id seed.policies p → Q (.policy p)) :
    (runAll steps).Filed Q := by
  induction steps using List.reverseRecOn with
  | nil => exact Store.filed_empty
  | append_singleton steps step ih =>
    rw [runAll_append]
    refine filed_run hq ?_ (ih fun ns file seed hm => hload ns file seed (List.mem_append_left _ hm))
    rintro ns file seed rfl
    exact hload ns file seed (by simp)

end Filed

/-- Whatever is loaded and asked for, the conditions of stored policies were read from a text. -/
theorem filed_settled (steps : List Step) : (runAll steps).Filed Record.Settled :=
  filed_runAll (fun _ _ _ hw => hw.settled) fun _ _ _ _ hs =>
    ⟨fun _ _ => trivial, fun p hl => (Seed.of_ofFile hs).2 p hl.mem |>.2⟩

/-! ## Runs that keep stores well formed -/

theorem wellFormed_of_readable {steps : List Step}
    (h : ∀ ns file seed, load ns file ∈ steps → Seed.ofFile file = .ok seed → seed.Readable) :
    (runAll steps).WellFormed := by
  have hf : (runAll steps).Filed fun record => record.Settled ∧ record.isPlain = true :=
    filed_runAll (fun _ _ _ hw => ⟨hw.settled, hw.plain⟩) fun ns file seed hm hs =>
      ⟨fun _ _ => ⟨trivial, rfl⟩, fun p hl => ⟨((Seed.of_ofFile hs).2 p hl.mem).2, h ns file seed hm hs p hl⟩⟩
  intro c k d hd hc
  obtain ⟨hk, record, hs, hid, rfl, hsettled, hplain⟩ := hf c k d hd hc
  exact ⟨hk, record, hs ▸ (Record.ofValue_toValue_iff hsettled record).2 ⟨hplain, rfl⟩, hid, rfl⟩

/-- Right after a seed is loaded, its policies are read back only if they have no marks. -/
theorem readable_of_wellFormed {ns : String} {file : Seed.File} {seed : Seed} {s : Store}
    (hs : Seed.ofFile file = .ok seed) (h : ((load ns file).run s).WellFormed) : seed.Readable := by
  intro p hl
  rw [run_load, hs] at h
  obtain ⟨-, record, hr, -, -⟩ := h (Collection.policies ns) p.id p.toValue (Store.get?_insertSeed hl)
    (by rw [Collection.shape_policies]; decide)
  rw [Collection.shape_policies] at hr
  have hsettled : (Record.policy p).Settled := ((Seed.of_ofFile hs).2 p hl.mem).2
  exact ((Record.ofValue_toValue_iff hsettled record).1 hr).1

/-- In every run each document of a collection of records is that of a record of its kind under its
own id, read back as that record or, if it is a policy with a mark in its conditions, as none; the
store stays well formed throughout exactly if every seed that is loaded is readable; and every
listing of records ascends by id. -/
theorem run_documents (steps : List Step) :
    ((runAll steps).Filed fun record => ∀ record',
      Record.ofValue record.shape record.toValue = .ok record' ↔ record.isPlain = true ∧ record' = record) ∧
    ((∀ before, before <+: steps → (runAll before).WellFormed) ↔
      ∀ ns file seed, load ns file ∈ steps → Seed.ofFile file = .ok seed → seed.Readable) ∧
    ∀ ctx c q l, Collection.shape c ≠ .raw →
      ((Search.run Store.backend ctx (.ofCollection c) q).runOn (runAll steps)).1 = .ok l →
      ∃ ids : List String, l.records.map Record.id? = ids.map some ∧
        ids.Pairwise fun a b => Text.Utf8.encode a < Text.Utf8.encode b := by
  refine ⟨?_, ⟨?_, ?_⟩, ?_⟩
  · exact (filed_settled steps).mono fun record hs => Record.ofValue_toValue_iff hs
  · intro h ns file seed hm hs
    obtain ⟨before, after, rfl⟩ := List.append_of_mem hm
    have hw := h (before ++ [load ns file]) ⟨after, by rw [List.append_assoc]; rfl⟩
    rw [runAll_append] at hw
    exact readable_of_wellFormed hs hw
  · intro h before hb
    exact wellFormed_of_readable fun ns file seed hm => h ns file seed (hb.subset hm)
  · intro ctx c q l hc hl
    exact Search.listing_ascending (filed_settled steps) hc hl

/-- A seed file with one policy, whose conditions have the mark as their second key in the file,
which is their first in the order of keys. -/
def markedSeed : Seed.File where
  path := "seed.json"
  contents := .ok (Text.Utf8.encode
    ("\x7b\"policies\":[\x7b\"id\":\"p\",\"conditions\":\x7b\"z\":1,\"" ++ Value.embeddingKey ++
      "\":\"[1]\"\x7d\x7d]\x7d"))

/-- The policy is stored, and is not read back. -/
theorem runAll_marked_not_wellFormed : ¬ (runAll [load "t" markedSeed]).WellFormed := by
  intro h
  have hd : ((runAll [load "t" markedSeed]).get? "t/policies" "p").map
      (fun d => (Policy.schema.ofValue d).isOk) = some false := by
    decide +kernel
  obtain ⟨d, hget, hfail⟩ := Option.map_eq_some_iff.1 hd
  obtain ⟨-, record, hr, -⟩ := h "t/policies" "p" d hget (by decide)
  obtain ⟨p, hp, -⟩ := Except.map_eq_ok.1 hr
  rw [hp] at hfail
  cases hfail

end Step

end AccessRecords
