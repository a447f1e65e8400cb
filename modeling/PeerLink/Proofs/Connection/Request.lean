import Mathlib.Tactic.Cases
import PeerLink.Connection.Request
/-!
# The outcome of a request

The status of the response or the kind of the failure determines the result for the caller and
whether the connection is reported lost. The error of the caller is transient iff the loss is
reported.

## Main definitions

* `Failure.Severs`, `Failure.Unserving`: the failures after which the connection is reported lost.
* `Request.Ends`: the result and the report for each outcome.

## Main statements

* `Request.ends_conclude`: `Request.conclude` satisfies `Request.Ends`.
* `Request.Ends.ok_iff`, `Request.Ends.eq_transport`: the outcomes that are passed to the caller.
* `Request.Ends.isTransient_iff`: the error is transient iff the loss is reported.
-/

namespace PeerLink

open Transport Connection

namespace Transport.Failure

/-- The failures to reach the server: no connection, a timeout, or an I/O error. -/
inductive Severs : Failure → Prop
  | connectionFailed (message : String) : Severs (.connectionFailed message)
  | timeout (message : String) : Severs (.timeout message)
  | io (message : String) : Severs (.io message)

/-- The failure is the status `status` of a server error. -/
inductive Unserving : Failure → Nat → Prop
  | serverError {status : Nat} (message : String) (h : 500 ≤ status) :
    Unserving (.serverError status message) status

end Transport.Failure

namespace Connection

variable {r : Request} {answer : Except Failure Response} {result : Except Error Response}
  {lost : Option String}

/-- The outcome of a request that was sent, the result for its caller, and the reason of the loss
that is reported, if any. -/
inductive Request.Ends (r : Request) :
    Except Failure Response → Except Error Response → Option String → Prop
  | taken (response : Response) (hserving : response.status < 500)
      (hsuccess : r.expectSuccess → response.status < 400) :
    Ends r (.ok response) (.ok response) none
  | notReady (response : Response) (h : 500 ≤ response.status) :
    Ends r (.ok response) (.error (.notReady r.method r.path response.status))
      (some (r.mention response.status))
  | unsuccessful (response : Response) (hserving : response.status < 500)
      (hneeded : r.expectSuccess) (h : 400 ≤ response.status) :
    Ends r (.ok response) (.error (.expectedSuccess r.method r.path response.status))
      (some (r.mention response.status))
  | severed (cause : Failure) (h : cause.Severs) :
    Ends r (.error cause) (.error (.disconnected cause.message)) (some cause.message)
  | unserved (cause : Failure) (status : Nat) (h : cause.Unserving status) :
    Ends r (.error cause) (.error (.notReady r.method r.path status)) (some cause.message)
  | failed (cause : Failure) (hreached : ¬cause.Severs)
      (hserving : ∀ status, ¬cause.Unserving status) :
    Ends r (.error cause) (.error (.transport cause)) none

namespace Request

theorem ends_concludeResponse (r : Request) (response : Response) :
    r.Ends (.ok response) (r.concludeResponse response).result
      (r.concludeResponse response).lost := by
  unfold concludeResponse
  by_cases hstatus : 500 ≤ response.status
  · simp only [Outcome.ofStatus, if_pos hstatus]
    exact .notReady response hstatus
  by_cases hneeded : r.expectSuccess ∧ 400 ≤ response.status
  · simp only [Outcome.ofStatus, if_neg hstatus, Bool.and_eq_true, decide_eq_true_eq,
      if_pos hneeded]
    exact .unsuccessful response (Nat.not_le.1 hstatus) hneeded.1 hneeded.2
  · simp only [Outcome.ofStatus, if_neg hstatus, Bool.and_eq_true, decide_eq_true_eq,
      if_neg hneeded]
    exact .taken response (Nat.not_le.1 hstatus) fun he => Nat.not_le.1 fun h => hneeded ⟨he, h⟩

theorem ends_concludeFailure (r : Request) (cause : Failure) :
    r.Ends (.error cause) (r.concludeFailure cause).result (r.concludeFailure cause).lost := by
  cases cause with
  | connectionFailed message => exact .severed _ (.connectionFailed message)
  | timeout message => exact .severed _ (.timeout message)
  | io message => exact .severed _ (.io message)
  | serverError status message =>
    by_cases hstatus : 500 ≤ status
    · simp only [concludeFailure, Outcome.ofFailure, if_pos hstatus]
      exact .unserved _ status (.serverError message hstatus)
    · simp only [concludeFailure, Outcome.ofFailure, if_neg hstatus]
      refine .failed _ nofun fun status' h => ?_
      cases h
      exact hstatus ‹_›
  | cancelled | invalidUrl | other => exact .failed _ nofun nofun

/-- `Request.conclude` satisfies `Request.Ends`. -/
theorem ends_conclude (r : Request) (answer : Except Failure Response) :
    r.Ends answer (r.conclude answer).result (r.conclude answer).lost := by
  cases answer with
  | error cause => exact r.ends_concludeFailure cause
  | ok response => exact r.ends_concludeResponse response

namespace Ends

/-- The caller gets the response unless it is a server error, or success is required and it is
none. -/
theorem ok_iff (h : r.Ends answer result lost) (response : Response) : result = .ok response ↔
    answer = .ok response ∧ response.status < 500 ∧
      (r.expectSuccess → response.status < 400) := by
  cases h with
  | taken response' hserving hsuccess =>
    constructor
    · rintro ⟨⟩
      exact ⟨rfl, hserving, hsuccess⟩
    · rintro ⟨⟨⟩, -⟩
      rfl
  | notReady response' h =>
    refine ⟨nofun, ?_⟩
    rintro ⟨⟨⟩, hserving, -⟩
    omega
  | unsuccessful response' _ hneeded h =>
    refine ⟨nofun, ?_⟩
    rintro ⟨⟨⟩, -, hsuccess⟩
    have := hsuccess hneeded
    omega
  | severed | unserved | failed => exact ⟨nofun, nofun⟩

/-- The error of the caller is transient iff the loss is reported. -/
theorem isTransient_iff (h : r.Ends answer result lost) :
    (∃ e, result = .error e ∧ e.isTransient) ↔ ∃ reason, lost = some reason := by
  cases h with
  | taken | failed => simp [Error.isTransient]
  | notReady | unsuccessful | severed | unserved => simp [Error.isTransient]

/-- The caller gets the failure itself if it is neither a severing nor an unserving one. -/
theorem eq_transport (h : r.Ends answer result lost) {cause : Failure}
    (hanswer : answer = .error cause) (hreached : ¬cause.Severs)
    (hserving : ∀ status, ¬cause.Unserving status) : result = .error (.transport cause) := by
  cases h with
  | taken | notReady | unsuccessful => cases hanswer
  | severed cause' h =>
    cases hanswer
    exact absurd h hreached
  | unserved cause' status h =>
    cases hanswer
    exact absurd h (hserving status)
  | failed =>
    cases hanswer
    rfl

end Ends

end Request

end Connection

end PeerLink
