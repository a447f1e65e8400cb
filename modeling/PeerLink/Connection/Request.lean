import PeerLink.Connection.Error
import PeerLink.Connection.Outcome
import PeerLink.Connection.Status
import PeerLink.Json.Value
import PeerLink.Text.Cut
import PeerLink.Text.Percent
/-!
# Requests to the server

A request is let through, suppressed or refused by what can be seen of the connection when it is
made; what became of it decides what its caller gets and whether the connection is reported lost.

## Main definitions

* `Request`: what a caller asks for.
* `Session.url`: the address of a request.
* `ClientView.admit`: whether a request is sent, and as what.
* `Request.conclude`: what follows from the outcome of a request that was sent.
-/

namespace PeerLink.Connection

open Transport Text

/-! ## Requests -/

/-- The body of a request. -/
inductive RequestBody where
  | text (s : String)
  | json (v : Json)
  deriving Repr

namespace RequestBody

/-- The type that is declared for a body. -/
def contentType : RequestBody → String
  | text _ => "text/plain"
  | json _ => "application/json"

/-- The text of a body. -/
def render : RequestBody → String
  | text s => s
  | json v => v.compact

end RequestBody

/-- A request to the server. -/
structure Request where
  method : Method
  path : String
  query : List (String × String) := []
  body : Option RequestBody := none
  /-- Whether a status of 404 is worth a warning. -/
  logMissing : Bool := true
  /-- Whether a status of 400 or more means that the server is of no use. -/
  expectSuccess : Bool := false
  deriving Repr

namespace Request

/-- Sets the state of an item without a command. -/
def postUpdate (item state : String) : Request where
  method := .put
  path := "/rest/items/" ++ Percent.encode item ++ "/state"
  body := some (.text state)

/-- Sends a command to an item. -/
def sendCommand (item command : String) : Request where
  method := .post
  path := "/rest/items/" ++ Percent.encode item
  body := some (.text command)

/-- A request for a document whose absence is no news. -/
def quietGet (path : String) (expectSuccess : Bool) : Request where
  method := .get
  path := path
  logMissing := false
  expectSuccess := expectSuccess

end Request

/-! ## Sending -/

/-- A server to talk to. -/
structure Session where
  baseUrl : String
  deriving DecidableEq, Repr

namespace Session

/-- A key and its value in an address. -/
def pair (kv : String × String) : String :=
  Percent.encode kv.1 ++ "=" ++ Percent.encode kv.2

/-- The address of a path with a query. -/
def url (s : Session) (path : String) (query : List (String × String)) : String :=
  s.baseUrl ++ path ++
    if query.isEmpty then ""
    else (if path.toList.contains '?' then "&" else "?") ++ join "&" (query.map pair)

/-- A request as it is sent. -/
def outgoing (s : Session) (r : Request) : Outgoing where
  method := r.method
  url := s.url r.path r.query
  headers := match r.body with
    | some body => [("Content-Type", body.contentType)]
    | none => []
  body := if r.method.hasBody then some ((r.body.map RequestBody.render).getD "") else none

end Session

/-- What callers see of the connection. -/
structure ClientView where
  /-- Whether the connection has been shut down. -/
  closed : Bool := false
  session : Option Session := none
  status : Status := {}
  deriving DecidableEq, Repr

/-- What becomes of a request when it is made. -/
inductive Admission where
  /-- It is refused. -/
  | rejected (e : Error)
  /-- It would change something, and nothing may be changed now. -/
  | suppressed
  /-- It is sent, in the session of this epoch. -/
  | sent (epoch : Nat) (out : Outgoing)
  deriving DecidableEq, Repr

/-- Whether a request is sent, and as what. -/
def ClientView.admit (v : ClientView) (r : Request) : Admission :=
  if v.closed then .rejected .shutdown
  else match v.session with
    | none => .rejected .notConfigured
    | some session =>
      if r.method.isMutating && !v.status.acceptsWrites then .suppressed
      else .sent v.status.epoch (session.outgoing r)

/-! ## Conclusions -/

/-- What follows from the outcome of a request. -/
structure Conclusion where
  /-- What the caller gets. -/
  result : Except Error Response
  /-- Why the connection is reported lost, if it is. -/
  lost : Option String := none
  /-- A warning for the log. -/
  warning : Option String := none

namespace Request

/-- The status of a response as it is mentioned in messages. -/
def mention (r : Request) (status : Nat) : String := statusOf r.method r.path status

/-- What follows from a failure. -/
def concludeFailure (r : Request) (cause : Failure) : Conclusion :=
  match Outcome.ofFailure cause with
  | .disconnect => ⟨.error (.disconnected cause.message), some cause.message, none⟩
  | .serverNotReady =>
    let status := match cause with
      | .serverError status _ => status
      | _ => 500
    ⟨.error (.notReady r.method r.path status), some cause.message, none⟩
  | .expectedSuccessViolation | .other => ⟨.error (.transport cause), none, none⟩

/-- What follows from a response. -/
def concludeResponse (r : Request) (response : Response) : Conclusion :=
  let status := response.status
  match Outcome.ofStatus status r.expectSuccess with
  | .serverNotReady => ⟨.error (.notReady r.method r.path status), some (r.mention status), none⟩
  | .expectedSuccessViolation =>
    ⟨.error (.expectedSuccess r.method r.path status), some (r.mention status), none⟩
  | .disconnect | .other =>
    ⟨.ok response, none,
      if 300 ≤ status ∧ (status ≠ 404 ∨ r.logMissing) then
        some ("Status " ++ toString status ++ " for " ++ r.method.name ++ " " ++ r.path)
      else none⟩

/-- What follows from the outcome of a request. -/
def conclude (r : Request) : Except Failure Response → Conclusion
  | .error cause => r.concludeFailure cause
  | .ok response => r.concludeResponse response

end Request

end PeerLink.Connection
