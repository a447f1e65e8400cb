import PeerLink.Bus.Failure
import PeerLink.Bus.Registry
import PeerLink.Connection.Probe
import PeerLink.Connection.Supervisor
import PeerLink.Peer.Script
import PeerLink.Ping
/-!
# The bridge and its server

The bridge is the supervisor with the tasks it has started, the listeners with the callbacks that
are running, the table of items and the plugins. Together with a scripted server and a clock it is a
closed world, in which time passes only when nothing else can happen.

## Main definitions

* `Task`: what runs concurrently, each up to the point where it waits.
* `World`: the state of everything.
* `World.spawn`, `World.wake`, `World.sleep`: the life of tasks.
* `World.send`: tells the supervisor a command.
-/

namespace PeerLink.Bridge

open Transport Connection Peer

/-! ## Tasks -/

/-- A request on its way, with the answer that will arrive. -/
structure Call where
  request : Request
  /-- The epoch in which the request was made. -/
  epoch : Nat
  answer : Except Failure Response

/-- What a caller gets: a response, nothing if the request was suppressed, or an error. -/
abbrev Reply := Except Connection.Error (Option Response)

/-- The phase of an attempt. -/
inductive AttemptPhase where
  | planned (delay : Span)
  | sleeping
  /-- The server has been asked for its identity. -/
  | askedIdentity (call : Call)
  /-- The server has been asked for its root document. -/
  | askedRoot (uuid : String) (call : Call)

/-- An attempt to connect. -/
structure AttemptTask where
  epoch : Nat
  expectSuccess : Bool
  phase : AttemptPhase

/-- The phase of a reader. -/
inductive ReaderPhase where
  | planned
  /-- The stream has been asked for, and will be there or not. -/
  | opening (answer : Except Failure Unit)
  | reading

/-- The reader of events. -/
structure ReaderTask where
  epoch : Nat
  session : Session
  layout : TopicLayout
  decoder : Sse.Decoder
  /-- The number of the stream it reads. -/
  stream : Option Nat := none
  phase : ReaderPhase := .planned

/-- The phase of a job. -/
inductive JobPhase where
  | submitted
  /-- It waits for a worker. -/
  | waiting
  /-- It has got a worker. -/
  | granted
  /-- It waits before its deed. -/
  | sleeping
  /-- It waits for the answer to its request. -/
  | asking (call : Call)
  /-- It has run on its worker, and failed or not. -/
  | returned (failure : Option CallbackFailure)

/-- A submitted callback. -/
structure Job where
  callback : Callback
  event : Event
  phase : JobPhase := .submitted

/-- The phase of the pinging. -/
inductive PingPhase where
  | planned
  | sleeping
  /-- A ping has been sent and not been answered yet. -/
  | posting (call : Call)

/-- A request whose caller does not wait for it. -/
structure Errand where
  tag : String
  request : Request
  call : Option Call := none

/-- The tasks that run concurrently. -/
inductive Task where
  | attempt (t : AttemptTask)
  | reader (t : ReaderTask)
  | job (t : Job)
  | pinger (phase : PingPhase)
  | errand (t : Errand)

/-! ## The parts of the world -/

/-- Something that arrives on a stream. -/
inductive Piece where
  | chunk (bytes : Text.Utf8.Bytes)
  | failure (cause : Failure)
  | ended

/-- A stream that is open at the server, with what has not been read. -/
structure OpenStream where
  id : Nat
  pieces : List Piece

/-- A plugin: one that only answers its hooks, or the one that measures round trips. -/
inductive Plugin where
  | scripted (name : String) (failing : List Hook)
  | ping

/-- The executor of callbacks. -/
structure Executor where
  workers : Nat
  slowStart : Span
  slowExec : Span
  /-- The workers that are free. -/
  free : Nat := workers
  /-- The jobs that wait for a worker, in order. -/
  waiting : List Nat := []
  /-- The number of jobs that have not ended. -/
  inFlight : Nat := 0
  closed : Bool := false

/-- The executor for the given settings. It has at least one worker. -/
def Executor.ofConfig (c : ExecutorConfig) : Executor where
  workers := max c.workerThreads 1
  slowStart := c.slowStart
  slowExec := c.slowExec

/-- The observations since the last step. -/
structure Trace where
  log : List LogLine := []
  executorLog : List LogLine := []
  requests : List Outgoing := []
  sessions : List String := []
  finished : List (String × Reply) := []
  hooks : List String := []
  delivered : List (String × Event) := []

/-- The state of everything. -/
structure World where
  /-- The time in milliseconds. -/
  clock : Nat := 0
  nextTask : Nat := 1
  tasks : List (Nat × Task) := []
  /-- The tasks that can be polled, in order. -/
  ready : List Nat := []
  /-- The times at which tasks are woken, in the order in which they were set. -/
  timers : List (Nat × Nat) := []
  supervisor : Supervisor
  /-- The commands that the supervisor has not taken. -/
  commands : List Command := []
  /-- The attempt to connect that was started last. -/
  attempt : Option Nat := none
  /-- The reader of events that was started last. -/
  reader : Option Nat := none
  plugins : List Plugin := []
  executor : Executor
  registry : Registry := {}
  items : ItemTable := {}
  /-- The decoder of the events of frames. -/
  eventReader : Feed.EventReader := Event.decode
  pingConfig : PingConfig := {}
  pingStart : Span := Ping.startDelay
  ping : Ping := {}
  pinger : Option Nat := none
  script : Script := {}
  /-- The delays of answers, by prefixes of addresses. -/
  delays : List (String × Nat) := []
  /-- Why no session can be opened. -/
  openFailure : Option Failure := none
  streams : List OpenStream := []
  nextStream : Nat := 1
  /-- The body of the last update sent. -/
  lastPut : Option String := none
  trace : Trace := {}

namespace World

/-! ## Observations -/

/-- Writes a line into the log. -/
def log (w : World) (l : LogLine) : World := { w with trace.log := w.trace.log ++ [l] }

/-- Writes a line into the log of the executor. -/
def logJob (w : World) (l : LogLine) : World :=
  { w with trace.executorLog := w.trace.executorLog ++ [l] }

/-- The time as a span. -/
def now (w : World) : Span := .ofMillis w.clock

/-! ## Tasks -/

/-- The number of the supervisor in `ready`. -/
def supervisorId : Nat := 0

/-- The task of a number. -/
def task? (w : World) (id : Nat) : Option Task := w.tasks.lookup id

/-- Adds a task to `ready`, if it is not there already. -/
def wake (w : World) (id : Nat) : World :=
  if w.ready.contains id then w else { w with ready := w.ready ++ [id] }

/-- Starts a task and gives its number. -/
def spawn (w : World) (t : Task) : World × Nat :=
  ({ w with
      nextTask := w.nextTask + 1
      tasks := w.tasks ++ [(w.nextTask, t)]
      ready := w.ready ++ [w.nextTask] },
    w.nextTask)

/-- Changes what a task is. -/
def setTask (w : World) (id : Nat) (t : Task) : World :=
  { w with tasks := w.tasks.map fun e => if e.1 = id then (id, t) else e }

/-- Ends a task. -/
def endTask (w : World) (id : Nat) : World :=
  { w with
    tasks := w.tasks.filter (·.1 ≠ id)
    ready := w.ready.filter (· ≠ id)
    timers := w.timers.filter (·.2 ≠ id) }

/-- Replaces a task by `t` and wakes it after `ms` milliseconds. -/
def sleep (w : World) (id : Nat) (ms : Nat) (t : Task) : World :=
  { w.setTask id t with timers := w.timers ++ [(w.clock + ms, id)] }

/-- Sends a command to the supervisor, and tells whether the supervisor is alive. -/
def send (w : World) (c : Command) : World × Bool :=
  if w.supervisor.alive then
    ({ w with commands := w.commands ++ [c] }.wake supervisorId, true)
  else (w, false)

/-- Whether pings are being sent. -/
def isPinging (w : World) : Bool := w.pinger.any fun id => (w.task? id).isSome

/-! ## Requests -/

/-- The result of making a request. -/
inductive Begun where
  /-- The reply is immediate. -/
  | replied (reply : Reply)
  /-- The answer takes `ms` milliseconds. -/
  | away (call : Call) (ms : Nat)

/-- The delay of the answer from an address. -/
def delayOf (w : World) (url : String) : Nat :=
  match Script.bestKey url (w.delays.map Prod.fst) with
  | some key => (w.delays.lookup key).getD 0
  | none => 0

/-- Records a request that reaches the server. -/
def observe (w : World) (out : Outgoing) : World :=
  { w with
    trace.requests := w.trace.requests ++ [out]
    lastPut := if out.method = .put then out.body else w.lastPut }

/-- Concludes a request whose answer has arrived, and sends the report of a loss. -/
def finishCall (w : World) (call : Call) : World × Except Connection.Error Response :=
  let c := call.request.conclude call.answer
  let w := match c.lost with
    | some reason => (w.send (.setOffline (some call.epoch) reason)).1
    | none => w
  let w := match c.warning with
    | some text => w.log (.warn text)
    | none => w
  (w, c.result)

/-- Makes a request. -/
def begin (w : World) (r : Request) : World × Begun :=
  match w.supervisor.view.admit r with
  | .rejected e => (w, .replied (.error e))
  | .suppressed => (w, .replied (.ok none))
  | .sent epoch out =>
    let (answer, script) := w.script.respond out
    let w := { w with script }.observe out
    let call : Call := ⟨r, epoch, answer⟩
    match w.delayOf out.url with
    | 0 =>
      let (w, result) := w.finishCall call
      (w, .replied (result.map some))
    | ms => (w, .away call ms)

/-- The reply to a request that is never suppressed. -/
def required : Reply → Except Connection.Error Response
  | .ok (some r) => .ok r
  | .ok none => .error .notConfigured
  | .error e => .error e

end World

end PeerLink.Bridge
