import PeerLink.Text.Cut
import PeerLink.Transport.Exchange
import PeerLink.Transport.Failure
/-!
# A scripted server

A server that answers from a script and records what it is asked. Answers are given for the
beginning of an address: one that was queued is used once and comes first, then the one that stays,
then the default.

## Main definitions

* `Reply`: an answer of the script.
* `Script`: the answers to give, the requests so far, and the number of open streams.
* `Script.answer`: the answer for an address.
* `Script.respond`, `Script.openStream`: a request for a response and one for a stream.
-/

namespace PeerLink.Peer

open Transport Text.Utf8

/-- The chunks of a stream, and whether it stays open after them. -/
structure StreamBody where
  chunks : List Bytes
  held : Bool
  deriving DecidableEq, Repr

/-- An answer of the script. -/
inductive Reply where
  | response (r : Response)
  | failure (cause : Failure)
  | stream (body : StreamBody)
  deriving DecidableEq, Repr

/-- The bytes of an event with some data. -/
def eventChunk (data : String) : Bytes :=
  encode ("event: message\ndata: " ++ data ++ "\n\n")

/-- A stream that stays open after events with these data. -/
def Reply.events (data : List String) : Reply := .stream ⟨data.map eventChunk, true⟩

/-- A scripted server. -/
structure Script where
  /-- The answers that stay, by the beginnings of addresses. -/
  sticky : List (String × Reply) := []
  /-- The answers to use once, in order, by the beginnings of addresses. -/
  queued : List (String × List Reply) := []
  /-- The answer for any other address. -/
  default? : Option Reply := none
  /-- The requests so far. -/
  requests : List Outgoing := []
  /-- The number of streams given out and not dropped. -/
  activeStreams : Nat := 0
  deriving DecidableEq, Repr

namespace Script

/-! ## Writing the script -/

/-- The entries with the one of a key replaced. -/
def setEntry {α : Type} (key : String) (value : α) : List (String × α) → List (String × α)
  | [] => [(key, value)]
  | (k, v) :: rest => if k = key then (key, value) :: rest else (k, v) :: setEntry key value rest

/-- Sets the answer that stays for addresses beginning with `url`. -/
def set (s : Script) (url : String) (reply : Reply) : Script :=
  { s with sticky := setEntry url reply s.sticky }

/-- Queues an answer for addresses beginning with `url`. -/
def push (s : Script) (url : String) (reply : Reply) : Script :=
  { s with queued := setEntry url ((s.queued.lookup url).getD [] ++ [reply]) s.queued }

/-- Sets the answer for any other address. -/
def setDefault (s : Script) (reply : Reply) : Script := { s with default? := some reply }

/-- Forgets all answers but the default. -/
def clear (s : Script) : Script := { s with sticky := [], queued := [] }

/-! ## Answering -/

/-- The longest of the keys that an address begins with. -/
def bestKey (url : String) (keys : List String) : Option String :=
  keys.foldl (fun best key =>
    if Text.beginsWith key url then
      match best with
      | some b => if b.length ≤ key.length then some key else best
      | none => some key
    else best) none

/-- The keys that have an answer queued. -/
def waitingKeys (s : Script) : List String :=
  (s.queued.filter fun (_, replies) => !replies.isEmpty).map Prod.fst

/-- The answer for an address without one queued. -/
def standing (s : Script) (url : String) : Option Reply :=
  match bestKey url (s.sticky.map Prod.fst) with
  | some key => s.sticky.lookup key
  | none => s.default?

/-- The answer for an address; one that was queued is used up. -/
def answer (s : Script) (url : String) : Option Reply × Script :=
  match bestKey url s.waitingKeys with
  | some key =>
    match s.queued.lookup key with
    | some (reply :: rest) => (some reply, { s with queued := setEntry key rest s.queued })
    | _ => (s.standing url, s)
  | none => (s.standing url, s)

/-- The failure where no answer is given. -/
def noAnswer (url : String) : Failure := .other ("No mock response for URL: " ++ url)

/-- Records a request. -/
def record (s : Script) (out : Outgoing) : Script := { s with requests := s.requests ++ [out] }

/-- A request for a response. -/
def respond (s : Script) (out : Outgoing) : Except Failure Response × Script :=
  match (s.record out).answer out.url with
  | (some (.response r), s) => (.ok r, s)
  | (some (.failure cause), s) => (.error cause, s)
  | (some (.stream _), s) => (.error (.other "Stream response on non-stream request"), s)
  | (none, s) => (.error (noAnswer out.url), s)

/-- A request for a stream. -/
def openStream (s : Script) (out : Outgoing) : Except Failure StreamBody × Script :=
  match (s.record out).answer out.url with
  | (some (.stream body), s) => (.ok body, { s with activeStreams := s.activeStreams + 1 })
  | (some (.response r), s) =>
    if r.isSuccess then (.error (.other "Non-stream response on stream request"), s)
    else (.error (.serverError r.status (r.text?.getD "")), s)
  | (some (.failure cause), s) => (.error cause, s)
  | (none, s) => (.error (noAnswer out.url), s)

/-- Drops a stream. -/
def dropStream (s : Script) : Script := { s with activeStreams := s.activeStreams - 1 }

/-- Drops all streams. -/
def dropStreams (s : Script) : Script := { s with activeStreams := 0 }

/-! ## The record -/

/-- The requests so far of the method with a name. -/
def requestsOf (s : Script) (method : String) : List Outgoing :=
  s.requests.filter (·.method.name == method)

/-- Forgets the requests so far. -/
def clearRequests (s : Script) : Script := { s with requests := [] }

end Script

end PeerLink.Peer
