import PeerLink.Bridge.Attempt
import PeerLink.Bridge.Control
/-!
# Polling tasks

## Main definitions

* `World.pollErrand`: polls a request whose caller does not wait for it.
* `World.poll`: polls any task.
-/

namespace PeerLink.Bridge.World

open Connection

/-- Ends a request whose caller does not wait for it. -/
def endErrand (w : World) (id : Nat) (t : Errand) (reply : Reply) : World :=
  { w with trace.finished := w.trace.finished ++ [(t.tag, reply)] }.endTask id

/-- Polls a request whose caller does not wait for it. -/
def pollErrand (w : World) (id : Nat) (t : Errand) : World :=
  match t.call with
  | none =>
    match w.begin t.request with
    | (w, .replied reply) => w.endErrand id t reply
    | (w, .away call ms) => w.sleep id ms (.errand { t with call := some call })
  | some call =>
    let (w, result) := w.finishCall call
    w.endErrand id t (result.map some)

/-- Polls a task. -/
def poll (w : World) (id : Nat) : World :=
  if id = supervisorId then w.pollSupervisor
  else match w.task? id with
    | some (.attempt t) => w.pollAttempt id t
    | some (.reader t) => w.pollReader id t
    | some (.job j) => w.pollJob id j
    | some (.pinger phase) => w.pollPinger id phase
    | some (.errand t) => w.pollErrand id t
    | none => w

end PeerLink.Bridge.World
