/-
Which policies allow. Whatever is loaded and asked for, a stored policy allows exactly if the document
of the last write to its address names that effect: the body of an upsert, with its embedded texts read
as their values, or the last document with the id of the policy in a seed file, as it stands. Nothing
but a write to that address changes it. The body of an upsert need not name the effect as it stands,
because an embedded text can do so.
-/
import AccessRecords.Proofs.Record.Effects
import AccessRecords.Proofs.Service.History
import AccessRecords.Proofs.Service.Runs

namespace AccessRecords

open Json

/-! ## Writes -/

/-- A write to an address: an upsert with a body, a policy of a seed file with what stands there as its
effect, or a delete. -/
inductive Write where
  | put (body : List UInt8)
  | seeded (given : Option Value)
  | removed

namespace Write

/-- The document of the write names the effect to allow. Embedded texts in a body are read as their
values. -/
def Allows : Write → Prop
  | .put body => ∃ v, Value.parse body = .ok v ∧ Effect.allow.NamedIn v
  | .seeded given => ∃ v, given = some v ∧ Effect.allow.NamedBy v
  | .removed => False

/-- The document of the write names the effect to allow as it stands. -/
def AllowsAsItStands : Write → Prop
  | .put body => ∃ w, Value.literal body = .ok w ∧ Effect.allow.NamedIn w
  | write => write.Allows

/-- An embedded text in the body hides which effect it names. -/
def Disguised : Write → Prop
  | .put body => ∃ w, Value.literal body = .ok w ∧ Effect.Disguised w
  | _ => False

instance (write : Write) : Decidable write.AllowsAsItStands :=
  match write with
  | .put body =>
    match h : Value.literal body with
    | .ok w =>
      if hn : Effect.allow.NamedIn w then isTrue ⟨w, h, hn⟩
      else isFalse fun ⟨w', hw, hn'⟩ => hn (Except.ok.inj (h.symm.trans hw) ▸ hn')
    | .error _ => isFalse fun ⟨w, hw, _⟩ => by
      rw [h] at hw
      cases hw
  | .seeded (some v) =>
    if hn : Effect.allow.NamedBy v then isTrue ⟨v, rfl, hn⟩
    else isFalse fun ⟨_, hv, hn'⟩ => hn (Option.some.inj hv ▸ hn')
  | .seeded none => isFalse fun ⟨_, hv, _⟩ => by cases hv
  | .removed => isFalse id

/-- What there may be at an address after a write: nothing after a delete, and otherwise a policy that
allows exactly if the document of the write names this effect. It does so as it stands unless this is
hidden. -/
def Leaves (write : Write) (d : Option Value) : Prop :=
  match write with
  | .removed => d = none
  | write => ∃ p : Policy, d = some p.toValue ∧ (p.effect = .allow ↔ write.Allows) ∧
      (write.AllowsAsItStands ↔ write.Allows ∧ ¬ write.Disguised)

/-- What is at an address follows from a write to it, or is what was there. -/
def Follows (write? : Option Write) (before after : Option Value) : Prop :=
  match write? with
  | some write => write.Leaves after
  | none => after = before

/-- A body that describes a policy leaves one with the effect that it names. -/
theorem leaves_put {body : List UInt8} {v : Value} {p p' : Policy} (hv : Value.parse body = .ok v)
    (hp : Policy.schema.ofValue v = .ok p) (he : p'.effect = p.effect) :
    (put body).Leaves (some p'.toValue) := by
  have heffect := (Policy.effect_of_ofValue (Value.ascending_of_parse hv) hp).allow_iff
  obtain ⟨w, hw, hstands⟩ := Value.literal_of_parse hv
  have hallows : (put body).Allows ↔ Effect.allow.NamedIn v := Except.exists_ok_and hv
  have hliteral : (put body).AllowsAsItStands ↔ Effect.allow.NamedIn w := Except.exists_ok_and hw
  have hdisguised : (put body).Disguised ↔ Effect.Disguised w := Except.exists_ok_and hw
  refine ⟨p', rfl, ?_, ?_⟩
  · rw [hallows, he]
    exact heffect
  · rw [hallows, hliteral, hdisguised]
    exact Effect.namedIn_iff_of_standsFor hstands

theorem leaves_seeded {given : Option Value} {p : Policy} (h : p.effect.FollowsFrom given) :
    (seeded given).Leaves (some p.toValue) :=
  ⟨p, rfl, h.allow_iff, (and_iff_left id).symm⟩

end Write

/-- Lists of policies that agree have the same last policy with an id. -/
theorem lastWith?_noted {P : Policy → Option Value → Prop} {policies : List Policy}
    {noted : List (Policy × Option Value)} (h : List.Forall₂ (Noted P) policies noted) (k : String) :
    Option.Rel (Noted P) (lastWith? Policy.id k policies) (lastWith? (·.1.id) k noted) := by
  induction h with
  | nil => exact .none
  | @cons p n policies noted hn _ ih =>
    obtain ⟨rfl, hp⟩ := hn
    rw [lastWith?_cons, lastWith?_cons]
    generalize lastWith? Policy.id k policies = x at ih
    generalize lastWith? (·.1.id) k noted = y at ih
    cases ih with
    | some h => exact .some h
    | none =>
      rw [Option.none_or, Option.none_or]
      split_ifs
      · exact .some ⟨rfl, hp⟩
      · exact .none

namespace Step

/-- The write to an address that a step makes, if it makes one: a seed file that is loaded into the
namespace of the collection writes the last of its policies with the key as id, and a request that
succeeds writes as its operation says. -/
def write? (a : Address) : Step → Store → Option Write
  | .load ns file, _ =>
    match Seed.ofFile file with
    | .ok _ =>
      if a.collection = Collection.policies ns then
        (lastWith? (·.1.id) a.key (Seed.noted file)).map fun noted => .seeded noted.2
      else none
    | .error _ => none
  | .request ns r, s =>
    (r.change? ns a s).map fun change => if change.1 = .upsert then .put r.inc.body else .removed

/-- A step that makes no write to an address: a seed file that is loaded into another namespace, that
cannot be loaded, or that has no policy with the key as id, and a request that only asks for something,
is about another address, or fails. -/
def Spares (a : Address) (s : Store) : Step → Prop
  | .load ns file =>
    a.collection ≠ Collection.policies ns ∨
      ∀ seed, Seed.ofFile file = .ok seed → ∀ p ∈ seed.policies, p.id ≠ a.key
  | .request ns r =>
    r.operation = .get ∨ r.operation = .list ∨ r.address ns ≠ .ok a ∨ ∃ f, (r.serve ns s).1 = .error f

/-- The last write to an address in a run of steps from a store on. -/
def lastWrite (a : Address) : List Step → Store → Option Write
  | [], _ => none
  | step :: rest, s => (lastWrite a rest (step.run s)).or (step.write? a s)

/-! ## Steps -/

section Steps

variable {a : Address} {s : Store}

theorem follows_load (ha : Collection.shape a.collection = .policies) (ns : String) (file : Seed.File) :
    Write.Follows ((load ns file).write? a s) (s.get? a.collection a.key)
      (((load ns file).run s).get? a.collection a.key) := by
  have hroles : a.collection ≠ Collection.roles ns := by
    intro h
    rw [h, Collection.shape_roles] at ha
    cases ha
  rw [run_load]
  dsimp only [write?]
  -- what is loaded and what is noted of the file agree policy by policy, so they agree on the last
  cases hs : Seed.ofFile file with
  | error f => rfl
  | ok seed =>
    dsimp only
    rw [Store.get?_insertSeed_eq, if_neg hroles]
    by_cases hc : a.collection = Collection.policies ns
    · rw [if_pos hc, if_pos hc]
      have hlast := lastWith?_noted (Seed.noted_of_ofFile hs) a.key
      generalize lastWith? Policy.id a.key seed.policies = x at hlast
      generalize lastWith? (·.1.id) a.key (Seed.noted file) = y at hlast
      cases hlast with
      | none => rfl
      | some h =>
        obtain ⟨rfl, hp⟩ := h
        exact Write.leaves_seeded hp
    · rw [if_neg hc, if_neg hc]
      rfl

/-- A body that describes a policy under a key describes it but for its id. -/
theorem policy_of_readBody {key : String} {inc : Incoming} {record : Record}
    (h : Endpoint.readBody .policies key inc = .ok record) :
    ∃ v p p', Value.parse inc.body = .ok v ∧ Policy.schema.ofValue v = .ok p ∧
      p'.effect = p.effect ∧ record = .policy p' := by
  obtain ⟨v, record', hv, hr, -, rfl⟩ := Endpoint.readBody_eq_ok.1 h
  obtain ⟨p, hp, rfl⟩ := Except.map_eq_ok.1 hr
  exact ⟨v, p, p.withId key, hv, hp, rfl, rfl⟩

/-- An upsert that changes an address puts there what its body describes. -/
theorem readBody_of_change? {r : Service.Request} {ns : String} {reply : Reply}
    (h : r.change? ns a s = some (.upsert, reply)) :
    ∃ record : Record, Endpoint.readBody (Collection.shape a.collection) a.key r.inc = .ok record ∧
      reply = .json record.toValue := by
  unfold Service.Request.change? at h
  split_ifs at h with hw
  split at h
  · rename_i reply' hr
    obtain ⟨ho, rfl⟩ := Prod.mk.inj (Option.some.inj h)
    obtain ⟨a', record, ha, hb, hs⟩ := Service.Request.upsert_eq_ok ho hr
    obtain rfl : a = a' := Except.ok.inj (hw.2.symm.trans ha)
    rw [hs] at hr
    cases hr
    exact ⟨record, hb, rfl⟩
  · cases h

theorem follows_request (ha : Collection.shape a.collection = .policies) (ns : String) (r : Service.Request) :
    Write.Follows ((request ns r).write? a s) (s.get? a.collection a.key)
      (((request ns r).run s).get? a.collection a.key) := by
  show Write.Follows ((r.change? ns a s).map _) _ ((r.serve ns s).2.get? a.collection a.key)
  rw [r.get?_serve ns a s]
  cases hc : r.change? ns a s with
  | none => rfl
  | some change =>
    obtain ⟨operation, reply⟩ := change
    rcases Service.Request.change?_eq_some hc with ⟨rfl, -⟩ | ⟨rfl, rfl⟩
    · obtain ⟨record, hr, rfl⟩ := readBody_of_change? hc
      rw [ha] at hr
      obtain ⟨v, p, p', hv, hp, he, rfl⟩ := policy_of_readBody hr
      exact Write.leaves_put hv hp he
    · rfl

theorem Spares.write?_eq_none {step : Step} (h : step.Spares a s) : step.write? a s = none := by
  cases step with
  | load ns file =>
    dsimp only [write?]
    cases hs : Seed.ofFile file with
    | error f => rfl
    | ok seed =>
      rcases h with hc | hids
      · exact if_neg hc
      · have hlast : lastWith? Policy.id a.key seed.policies = none := by
          rw [Option.eq_none_iff_forall_ne_some]
          intro p hp
          obtain ⟨hl, hk⟩ := Store.lastWith?_eq_some.1 hp
          exact hids seed hs p hl.mem hk
        have hrel := lastWith?_noted (Seed.noted_of_ofFile hs) a.key
        rw [hlast] at hrel
        generalize lastWith? (·.1.id) a.key (Seed.noted file) = y at hrel
        cases hrel
        exact ite_self _
  | request ns r =>
    have hnone : r.change? ns a s = none := by
      rcases h with ho | ho | ha | ⟨f, hf⟩
      · exact if_neg fun h => by rw [ho] at h; exact absurd h.1 (by decide)
      · exact if_neg fun h => by rw [ho] at h; exact absurd h.1 (by decide)
      · exact if_neg fun h => ha h.2
      · exact Service.Request.change?_of_error hf
    dsimp only [write?]
    rw [hnone]
    rfl

theorem follows_run (ha : Collection.shape a.collection = .policies) (step : Step) (s : Store) :
    Write.Follows (step.write? a s) (s.get? a.collection a.key) ((step.run s).get? a.collection a.key) := by
  cases step with
  | load ns file => exact follows_load ha ns file
  | request ns r => exact follows_request ha ns r

end Steps

/-! ## Runs -/

/-- What is at an address after a run follows from the last write there, or is what was there. -/
theorem follows_foldl {a : Address} (ha : Collection.shape a.collection = .policies) (steps : List Step)
    (s : Store) :
    Write.Follows (lastWrite a steps s) (s.get? a.collection a.key)
      ((steps.foldl (fun s step => step.run s) s).get? a.collection a.key) := by
  induction steps generalizing s with
  | nil => rfl
  | cons step rest ih =>
    have hrest := ih (step.run s)
    rw [List.foldl_cons]
    unfold lastWrite
    cases hw : lastWrite a rest (step.run s) with
    | some write =>
      rw [hw] at hrest
      exact hrest
    | none =>
      -- the rest leaves what this step left, so this step decides
      rw [hw] at hrest
      have hlast : (rest.foldl (fun s step => step.run s) (step.run s)).get? a.collection a.key =
          (step.run s).get? a.collection a.key := hrest
      rw [hlast]
      exact follows_run ha step s

/-- A policy that is stored after any run of steps is there since the last write to its address, and it
allows exactly if the document of that write names this effect; as it stands, the document does so
unless an embedded text hides it. Steps that make no write to the address leave the policy as it is. -/
theorem allow_from_last_write (steps : List Step) {a : Address}
    (ha : Collection.shape a.collection = .policies) :
    (∀ d, (runAll steps).get? a.collection a.key = some d →
      ∃ (write : Write) (p : Policy), lastWrite a steps ∅ = some write ∧ d = p.toValue ∧
        (p.effect = .allow ↔ write.Allows) ∧
        (write.AllowsAsItStands ↔ write.Allows ∧ ¬ write.Disguised)) ∧
    ∀ step : Step, step.Spares a (runAll steps) →
      (runAll (steps ++ [step])).get? a.collection a.key = (runAll steps).get? a.collection a.key := by
  constructor
  · intro d hd
    have hfollows := follows_foldl ha steps ∅
    change Write.Follows (lastWrite a steps ∅) none ((runAll steps).get? a.collection a.key) at hfollows
    rw [hd] at hfollows
    cases hw : lastWrite a steps ∅ with
    | none =>
      rw [hw] at hfollows
      cases hfollows
    | some write =>
      rw [hw] at hfollows
      cases write with
      | removed => cases hfollows
      | put body | seeded given =>
        obtain ⟨p, hp, hrest⟩ := hfollows
        exact ⟨_, p, rfl, Option.some.inj hp, hrest⟩
  · intro step hspares
    have hfollows := follows_run ha step (runAll steps)
    rw [hspares.write?_eq_none] at hfollows
    rw [runAll_append]
    exact hfollows

/-- A seed file with two policies of one id, of which the second has the object form of the effect. -/
def allowingSeed : Seed.File where
  path := "seed.json"
  contents := .ok (Text.Utf8.encode
    "\x7b\"policies\":[\x7b\"id\":\"p\"\x7d,\x7b\"id\":\"p\",\"effect\":\x7b\"allow\":null\x7d\x7d]\x7d")

/-- The request to put a policy under `p`. -/
def putPolicy (body : String) : Service.Request :=
  ⟨.policies, .upsert, {}, { params := .ofList [("id", "p")], body := Text.Utf8.encode body }⟩

/-- The policy that is loaded allows, and an upsert that gives its effect in capitals leaves
it as it is. -/
theorem allow_from_last_write_seeded :
    let a : Address := ⟨"t/policies", "p"⟩
    let steps := [load "t" allowingSeed]
    let refused := request "t" (putPolicy "\x7b\"effect\":\"ALLOW\"\x7d")
    ∃ (write : Write) (p : Policy), lastWrite a steps ∅ = some write ∧ write.AllowsAsItStands ∧
      (runAll steps).get? a.collection a.key = some p.toValue ∧ p.effect = .allow ∧
      (runAll (steps ++ [refused])).get? a.collection a.key = some p.toValue := by
  intro a steps refused
  obtain ⟨hstored, hkept⟩ := allow_from_last_write steps (a := a) (by decide)
  have hsome : ((runAll steps).get? a.collection a.key).isSome = true := by decide +kernel
  obtain ⟨d, hd⟩ := Option.isSome_iff_exists.1 hsome
  obtain ⟨write, p, hw, rfl, heffect, hstands⟩ := hstored d hd
  have hdecided : (lastWrite a steps ∅).map (fun write => decide write.AllowsAsItStands) = some true := by
    decide +kernel
  rw [hw, Option.map_some, Option.some.injEq, decide_eq_true_eq] at hdecided
  have hrefused : (((putPolicy "\x7b\"effect\":\"ALLOW\"\x7d").serve "t" (runAll steps)).1).isOk = false := by
    decide +kernel
  have hspares : refused.Spares a (runAll steps) := by
    refine .inr (.inr (.inr ?_))
    cases h : ((putPolicy "\x7b\"effect\":\"ALLOW\"\x7d").serve "t" (runAll steps)).1 with
    | error f => exact ⟨f, rfl⟩
    | ok reply =>
      rw [h] at hrefused
      cases hrefused
  exact ⟨write, p, hw, hdecided, hd, heffect.2 (hstands.1 hdecided).1, (hkept refused hspares).trans hd⟩

/-- A body whose effect is, as it stands, an object of one member with a text. -/
def markedBody : String :=
  "\x7b\"effect\":\x7b\"" ++ Value.embeddingKey ++ "\":\"\\\"allow\\\"\"\x7d\x7d"

/-- The policy that is stored allows, although the document of its last write does not say so as it
stands. -/
theorem marked_effect_allows :
    let a : Address := ⟨"t/policies", "p"⟩
    let steps := [request "t" (putPolicy markedBody)]
    Collection.shape a.collection = .policies ∧
      (∃ d, (runAll steps).get? a.collection a.key = some d ∧ Effect.allow.NamedIn d) ∧
      ∃ write, lastWrite a steps ∅ = some write ∧ ¬ write.AllowsAsItStands := by
  intro a steps
  have hstored : ((runAll steps).get? a.collection a.key).map (fun d => decide (Effect.allow.NamedIn d)) =
      some true := by
    decide +kernel
  have hlast : (lastWrite a steps ∅).map (fun write => decide write.AllowsAsItStands) = some false := by
    decide +kernel
  obtain ⟨d, hd, hallow⟩ := Option.map_eq_some_iff.1 hstored
  obtain ⟨write, hw, hnot⟩ := Option.map_eq_some_iff.1 hlast
  exact ⟨by decide, ⟨d, hd, of_decide_eq_true hallow⟩, write, hw, of_decide_eq_false hnot⟩

end Step

end AccessRecords
