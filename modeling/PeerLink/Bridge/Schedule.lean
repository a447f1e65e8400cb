import PeerLink.Bridge.Poll
/-!
# The scheduler

The tasks in `ready` are polled in order. The clock moves only while `ready` is empty, to the first
entry of `timers`.

## Main definitions

* `World.settle`: polls tasks until `ready` is empty.
* `World.passTo`: lets time pass up to a given time.
* `World.drain`: polls tasks and lets time pass until no callback is running.
* `World.allowance`: the number of turns of `World.drain`.
-/

namespace PeerLink.Bridge.World

/-- The number of turns for tasks without a known bound. -/
def patience : Nat := 100000

/-- Polls the first task in `ready`, if there is one. -/
def settleStep (w : World) : Option World :=
  match w.ready with
  | [] => none
  | id :: rest => some ({ w with ready := rest }.poll id)

/-- Polls tasks until `ready` is empty, with at most `fuel` polls. -/
def settleFor : (fuel : Nat) → World → World
  | 0, w => w
  | fuel + 1, w =>
    match w.settleStep with
    | some w => settleFor fuel w
    | none => w

/-- Polls tasks until `ready` is empty, with one poll for each task in `ready` and `patience`
further ones. -/
def settle (w : World) : World := settleFor (patience + w.ready.length) w

/-- The first time in `timers`. -/
def nextDue (w : World) : Option Nat := (w.timers.map Prod.fst).min?

/-- Moves the clock to a time and wakes the tasks whose timers expire. -/
def fire (w : World) (t : Nat) : World :=
  let due := (w.timers.filter (·.1 = t)).map Prod.snd
  due.foldl wake { w with clock := t, timers := w.timers.filter (·.1 ≠ t) }

/-- Lets time pass up to `target`, with at most `fuel` stops. The tasks that are woken at `target`
have not been polled yet. -/
def passFor (target : Nat) : (fuel : Nat) → World → World
  | 0, w => w
  | fuel + 1, w =>
    let w := w.settle
    match w.nextDue with
    | none => { w with clock := target }
    | some t =>
      if target < t then { w with clock := target }
      else if t = target then w.fire t
      else passFor target fuel (w.fire t)

/-- Lets time pass up to `target`. The clock stops at most once in every millisecond. -/
def passTo (w : World) (target : Nat) : World := passFor target (target - w.clock + 1) w

/-- One turn: a poll of the first task in `ready`, or, if there is none, the expiry of the first
timer. -/
def turn (w : World) : Option World :=
  match w.settleStep with
  | some w => some w
  | none => w.nextDue.map w.fire

/-- Whether `ready` is empty and no callback is running. -/
def isIdle (w : World) : Bool := w.ready.isEmpty && w.executor.inFlight == 0

/-- Takes turns until the world is idle, at most `fuel` ones. -/
def drainFor : (fuel : Nat) → World → World
  | 0, w => w
  | fuel + 1, w =>
    if w.isIdle then w
    else match w.turn with
      | some w => drainFor fuel w
      | none => w

/-- The number of turns of `drain`. It covers the callbacks that are running and the listeners that
their failures are submitted to, each entry of `ready` and of `timers`, and `patience` turns of
other tasks. -/
def allowance (w : World) : Nat :=
  2 * patience + 2 + 18 * w.tasks.length * (w.registry.size + 1) + 2 * w.timers.length +
    w.ready.length

/-- Takes turns until no callback is running. -/
def drain (w : World) : World := drainFor w.allowance w

end PeerLink.Bridge.World
