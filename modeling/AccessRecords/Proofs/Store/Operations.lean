/-
The store behind the backend operations: each of them fails alike for a caller that has gone away,
and otherwise reads or changes the documents as its name says.
-/
import AccessRecords.Proofs.Store.Documents
import AccessRecords.Store

namespace AccessRecords

open Json

/-- Behind the check of a cancelled call nothing runs. -/
theorem Context.runOn_ensureActive {σ α : Type} (ctx : Context) (a : Action σ α) (s : σ) :
    (Action.ofExcept ctx.ensureActive >>= fun _ => a).runOn s =
      if ctx.isCancelled then (.error ctx.cancelled, s) else a.runOn s := by
  rw [Action.runOn_bind, Action.runOn_ofExcept]
  unfold Context.ensureActive
  by_cases h : ctx.isCancelled = true
  · rw [if_pos h, if_pos h]
  · rw [if_neg h, if_neg h]

namespace Store

variable {s : Store} {ctx : Context} {c k : String} {d : Value} {p : Page}

theorem backend_get : (backend.get ctx c k).runOn s =
    if ctx.isCancelled then (.error ctx.cancelled, s)
    else match s.get? c k with
      | some d => (.ok d, s)
      | none => (.error (notFound c k), s) := by
  refine (Context.runOn_ensureActive ctx _ s).trans (congrArg _ ?_)
  show Action.runOn (match s.get? c k with | some d => _ | none => _) s = _
  cases s.get? c k <;> rfl

theorem backend_delete : (backend.delete ctx c k).runOn s =
    if ctx.isCancelled then (.error ctx.cancelled, s)
    else match s.get? c k with
      | some _ => (.ok (), s.erase c k)
      | none => (.error (notFound c k), s) := by
  refine (Context.runOn_ensureActive ctx _ s).trans (congrArg _ ?_)
  show Action.runOn (match s.get? c k with | some d => _ | none => _) s = _
  cases s.get? c k <;> rfl

theorem backend_upsert : (backend.upsert ctx c k d).runOn s =
    if ctx.isCancelled then (.error ctx.cancelled, s) else (.ok d, s.insert c k d) :=
  Context.runOn_ensureActive ctx _ s

theorem backend_list : (backend.list ctx c p).runOn s =
    if ctx.isCancelled then (.error ctx.cancelled, s) else (.ok (s.page c p), s) :=
  Context.runOn_ensureActive ctx _ s

theorem backend_listAll : (backend.listAll ctx c).runOn s =
    if ctx.isCancelled then (.error ctx.cancelled, s) else (.ok (s.values c), s) :=
  Context.runOn_ensureActive ctx _ s

end Store

end AccessRecords
