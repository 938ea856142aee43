/-
Contexts: for whom an operation runs, and whether the caller still waits for it.
-/
import AccessRecords.Failure

namespace AccessRecords

/-- The context of a call. Without a signal a call cannot be cancelled; with one it is cancelled
once the signal is set. -/
structure Context where
  requestId : String := ""
  signal : Option Bool := none
deriving DecidableEq, Repr, Inhabited

namespace Context

/-- Whether the caller has gone away. -/
def isCancelled (ctx : Context) : Bool := ctx.signal.getD false

/-- The failure of a call whose caller has gone away. -/
def cancelled (ctx : Context) : Failure :=
  ⟨.cancelled, "cancelled", "request " ++ ctx.requestId ++ " was cancelled"⟩

/-- Fails if the caller has gone away. -/
def ensureActive (ctx : Context) : Except Failure Unit :=
  if ctx.isCancelled then .error ctx.cancelled else .ok ()

end Context

end AccessRecords
