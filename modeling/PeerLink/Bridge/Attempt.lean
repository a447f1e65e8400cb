import PeerLink.Bridge.World
/-!
# Attempts to connect

An attempt waits for its delay, requests the identity of the server and then its root document, and
sends the result to the supervisor.

## Main definitions

* `World.pollAttempt`: polls an attempt.
-/

namespace PeerLink.Bridge.World

open Transport Connection

/-- Takes the answer to the request for the root document. -/
def takeRoot (w : World) (id : Nat) (t : AttemptTask) (uuid : String)
    (reply : Except Connection.Error Response) : World :=
  let found := Probe.takeRoot uuid reply
  let w := match found with
    | .ok (_, true) => w.log (.info Probe.untoldNotice)
    | _ => w
  (w.send (.handshakeDone t.epoch (found.map Prod.fst))).1.endTask id

/-- Takes the answer to the request for the identity. -/
def takeIdentity (w : World) (id : Nat) (t : AttemptTask)
    (reply : Except Connection.Error Response) : World :=
  match Probe.takeIdentity reply with
  | .error e => (w.send (.handshakeDone t.epoch (.error e))).1.endTask id
  | .ok uuid =>
    match w.begin Probe.root with
    | (w, .replied reply) => w.takeRoot id t uuid (required reply)
    | (w, .away call ms) => w.sleep id ms (.attempt { t with phase := .askedRoot uuid call })

/-- Begins an attempt whose delay is over. -/
def makeAttempt (w : World) (id : Nat) (t : AttemptTask) : World :=
  match w.send (.attempting t.epoch) with
  | (w, false) => w.endTask id
  | (w, true) =>
    match w.begin (Probe.identity t.expectSuccess) with
    | (w, .replied reply) => w.takeIdentity id t (required reply)
    | (w, .away call ms) => w.sleep id ms (.attempt { t with phase := .askedIdentity call })

/-- Polls an attempt. -/
def pollAttempt (w : World) (id : Nat) (t : AttemptTask) : World :=
  match t.phase with
  | .planned delay =>
    if delay.millisUp = 0 then w.makeAttempt id t
    else w.sleep id delay.millisUp (.attempt { t with phase := .sleeping })
  | .sleeping => w.makeAttempt id t
  | .askedIdentity call =>
    let (w, result) := w.finishCall call
    w.takeIdentity id t result
  | .askedRoot uuid call =>
    let (w, result) := w.finishCall call
    w.takeRoot id t uuid result

end PeerLink.Bridge.World
