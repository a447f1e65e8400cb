import PeerLink.Transport.Failure
/-!
# What the outcome of a request says about the connection

## Main definitions

* `Outcome`: the four verdicts.
* `Outcome.ofFailure`, `Outcome.ofStatus`: the verdict on a failure and on a status.
-/

namespace PeerLink.Connection

open Transport

/-- The verdict on the connection after a request. -/
inductive Outcome where
  /-- The server is not reachable. -/
  | disconnect
  /-- The server has answered with a server error. -/
  | serverNotReady
  /-- The request requires success, and the status is 400 or more. -/
  | expectedSuccessViolation
  /-- The result concerns the caller only. -/
  | other
  deriving DecidableEq, Repr

namespace Outcome

/-- Whether the connection goes offline. -/
def goesOffline (o : Outcome) : Bool := o ≠ other

/-- The verdict on a failure. -/
def ofFailure : Failure → Outcome
  | .connectionFailed _ | .io _ | .timeout _ => disconnect
  | .serverError status _ => if 500 ≤ status then serverNotReady else other
  | .cancelled | .invalidUrl _ | .other _ => other

/-- The verdict on a status. -/
def ofStatus (status : Nat) (expectSuccess : Bool) : Outcome :=
  if 500 ≤ status then serverNotReady
  else if expectSuccess && 400 ≤ status then expectedSuccessViolation
  else other

end Outcome

end PeerLink.Connection
