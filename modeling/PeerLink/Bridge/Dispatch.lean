import PeerLink.Bridge.World
/-!
# Events to callbacks

An event is submitted to every listener that accepts it. Synchronous callbacks run on a fixed number
of workers, asynchronous ones run as tasks of their own. The failure of a callback is logged, and it
is published as an event, unless the callback was handling such an event itself.

## Main definitions

* `World.publish`: submits an event to its listeners.
* `World.pollJob`: polls a submitted callback.
-/

namespace PeerLink.Bridge.World

open Connection

/-- Submits an event to a callback. -/
def submit (w : World) (callback : Callback) (e : Event) : World :=
  ({ w with executor.inFlight := w.executor.inFlight + 1 }.spawn
    (.job { callback, event := e })).1

/-- Submits an event on a topic to the listeners that accept it, and gives their number. Once the
executor is closed there are none. -/
def publish (w : World) (topic : String) (e : Event) : World × Nat :=
  if w.executor.closed then (w, 0)
  else
    let listeners := w.registry.accepting topic e
    (listeners.foldl (fun w l => w.submit l.callback e) w, listeners.length)

/-! ## Running a callback -/

/-- The duration of what takes no time by the clock: positive, and less than every span that can be
configured. -/
def instantSpan : Span := ⟨1⟩

/-- Records the call of a callback. The callback that takes the echoes of pings is not recorded. -/
def deliver (w : World) (j : Job) : World :=
  match j.callback.deed with
  | .echo => w
  | _ => { w with trace.delivered := w.trace.delivered ++ [(j.callback.name, j.event)] }

/-- The failure of a callback whose request failed. -/
def requestFailure (name : String) : Except Connection.Error Response → Option CallbackFailure
  | .ok _ => none
  | .error e => some (.ofCauses name e.causes)

/-- The result of a deed. -/
inductive Done where
  | now (failure : Option CallbackFailure)
  | later (call : Call) (ms : Nat)

/-- Performs the deed of a callback. -/
def perform (w : World) (j : Job) : World × Done :=
  let name := j.callback.name
  match j.callback.deed with
  | .succeed => (w, .now none)
  | .fail causes => (w, .now (some (.ofCauses name causes)))
  | .panic payload => (w, .now (some (.ofPanic name payload)))
  | .publish topic e => ((w.publish topic e).1, .now none)
  | .echo => ({ w with ping := w.ping.take w.now j.event }, .now none)
  | .request r =>
    match w.begin r with
    | (w, .replied (.ok _)) => (w, .now none)
    | (w, .replied (.error e)) => (w, .now (some (.ofCauses name e.causes)))
    | (w, .away call ms) => (w, .later call ms)

/-- Releases a worker, to the first job in `executor.waiting` if there is one. -/
def release (w : World) : World :=
  match w.executor.waiting with
  | [] => { w with executor.free := w.executor.free + 1 }
  | id :: rest =>
    let w := { w with executor.waiting := rest }
    match w.task? id with
    | some (.job j) => (w.setTask id (.job { j with phase := .granted })).wake id
    | _ => w

/-- Logs and publishes a failure. -/
def reportFailure (w : World) (j : Job) (f : CallbackFailure) : World :=
  let w := w.logJob (.error ("Error in " ++ f.name ++ ": " ++ f.description))
  let w := f.traceLines.foldl (fun w line => w.logJob (.error line)) w
  if j.event.isError then w else (w.publish Event.errorTopic f.event).1

/-- Ends a job. It counts in `inFlight` until its failure has been published. -/
def endJob (w : World) (id : Nat) (j : Job) (failure : Option CallbackFailure) : World :=
  let w := match failure with
    | some f => w.reportFailure j f
    | none => w
  { w with executor.inFlight := w.executor.inFlight - 1 }.endTask id

/-- Ends the work of a job on its worker. -/
def endWork (w : World) (id : Nat) (j : Job) (failure : Option CallbackFailure) : World :=
  let w :=
    if failure.isNone ∧ j.callback.warnTooLong ∧ w.executor.slowExec.nanos < instantSpan.nanos then
      w.logJob (.warn ("Execution of " ++ j.callback.name ++ " took too long"))
    else w
  (w.release.setTask id (.job { j with phase := .returned failure })).wake id

/-- Runs a job on its worker. -/
def work (w : World) (id : Nat) (j : Job) : World :=
  let w :=
    if w.executor.slowStart.nanos < instantSpan.nanos then
      w.logJob (.warn ("Starting of " ++ j.callback.name ++ " took too long"))
    else w
  match (w.deliver j).perform j with
  | (w, .now failure) => w.endWork id j failure
  | (w, .later call ms) => w.sleep id ms (.job { j with phase := .asking call })

/-- Performs the deed of an asynchronous job. -/
def act (w : World) (id : Nat) (j : Job) : World :=
  match w.perform j with
  | (w, .now failure) => w.endJob id j failure
  | (w, .later call ms) => w.sleep id ms (.job { j with phase := .asking call })

/-- Polls a submitted callback. -/
def pollJob (w : World) (id : Nat) (j : Job) : World :=
  match j.phase with
  | .submitted =>
    if j.callback.isAsync then
      let w := w.deliver j
      if j.callback.delayMs = 0 then w.act id j
      else w.sleep id j.callback.delayMs (.job { j with phase := .sleeping })
    else if w.executor.free = 0 then
      { w with executor.waiting := w.executor.waiting ++ [id] }.setTask id
        (.job { j with phase := .waiting })
    else { w with executor.free := w.executor.free - 1 }.work id j
  | .waiting => w
  | .granted => w.work id j
  | .sleeping => w.act id j
  | .asking call =>
    let (w, result) := w.finishCall call
    let failure := requestFailure j.callback.name result
    if j.callback.isAsync then w.endJob id j failure else w.endWork id j failure
  | .returned failure => w.endJob id j failure

end PeerLink.Bridge.World
