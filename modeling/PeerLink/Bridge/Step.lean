import PeerLink.Bridge.Schedule
/-!
# Acting on the world

What is done to the bridge and its server from outside, one step after another. Between two steps
everything goes on that can without the clock moving.

## Main definitions

* `World.start`: a world in which the bridge has just started.
* `Step`: the steps.
* `Answer`: what a step gives back.
* `World.run`: takes a step.
-/

namespace PeerLink.Bridge

open Transport Connection Peer

/-- What is done from outside. -/
inductive Step where
  /-- Sets the answer that stays for addresses beginning with `url`. -/
  | respond (url : String) (reply : Peer.Reply)
  /-- Queues an answer for addresses beginning with `url`. -/
  | push (url : String) (reply : Peer.Reply)
  /-- Sets the answer for any other address. -/
  | setDefault (reply : Peer.Reply)
  /-- Forgets all answers but the default. -/
  | clearReplies
  /-- Lets the answers for addresses beginning with `url` take some time, or none. -/
  | delay (url : String) (ms : Option Nat)
  /-- Lets opening a session fail, or succeed again. -/
  | failOpen (cause : Option Failure)
  /-- Lets something arrive on the stream that is being read. -/
  | feed (piece : Piece)
  /-- Adds a listener. -/
  | listen (pattern : TopicPattern) (filter : EventFilter) (callback : Callback)
  /-- Removes a listener. -/
  | unlisten (id : Nat)
  /-- Removes several listeners. -/
  | unlistenMany (ids : List Nat)
  /-- Removes all listeners. -/
  | unlistenAll
  /-- Publishes an event. -/
  | publish (topic : String) (e : Event)
  /-- Publishes the last value sent as the state of the item of the pings. -/
  | echoPing
  /-- Lets time pass. -/
  | advance (ms : Nat)
  /-- Makes a request and waits for its reply. -/
  | request (r : Request)
  /-- Makes a request without waiting for its reply. -/
  | spawn (tag : String) (r : Request)
  /-- Takes the connection offline. -/
  | setOffline (reason : String)
  /-- Connects to another server, or to none. -/
  | configure (config : ConnectionConfig)
  /-- Looks at the status. -/
  | status
  /-- Stops the bridge. -/
  | shutdown
  /-- Stops running callbacks. -/
  | closeExecutor
  /-- Waits until no callback is running. -/
  | waitIdle

/-- What a step gives back. -/
inductive Answer where
  | none
  | flag (b : Bool)
  | count (n : Nat)
  | listener (id : Nat) (callback : Callback)
  | reply (r : Reply)
  | status (s : Status)
  | waited (ms : Nat)

namespace World

/-! ## Single steps -/

/-- The delays with the one of a beginning set, or removed. -/
def setDelay (url : String) (ms : Option Nat) (delays : List (String × Nat)) :
    List (String × Nat) :=
  match ms with
  | some ms => Script.setEntry url ms delays
  | none => delays.filter (·.1 ≠ url)

/-- The reader that is reading a stream, and the number of that stream. -/
def reading? (w : World) : Option (Nat × Nat) :=
  w.tasks.findSome? fun e =>
    match e.2 with
    | .reader { stream := some stream, phase := .reading, .. } => some (e.1, stream)
    | _ => none

/-- Lets something arrive on the stream that is being read, and tells whether there is one. -/
def feed (w : World) (piece : Piece) : World × Bool :=
  match w.reading? with
  | some (reader, stream) =>
    let streams := w.streams.map fun s =>
      if s.id = stream then { s with pieces := s.pieces ++ [piece] } else s
    ({ w with streams }.wake reader, true)
  | none => (w, false)

/-- Makes a request and lets time pass until its reply is there. -/
def ask (w : World) (r : Request) : World × Reply :=
  match w.begin r with
  | (w, .replied reply) => (w, reply)
  | (w, .away call ms) =>
    let (w, result) := (w.passTo (w.clock + ms)).finishCall call
    (w, result.map some)

/-- The last value sent as a state: none if it stands for no measurement. -/
def lastValue (w : World) : Option String :=
  if w.lastPut = some Ping.noValue then none else w.lastPut

/-- Takes no more events for callbacks and waits until none is running. -/
def closeExecutor (w : World) : World := { w with executor.closed := true }.drain

/-- Stops the connection, and then the callbacks. -/
def shutdown (w : World) : World :=
  (w.send .shutdown).1.settle.closeExecutor.log (.info "Shutdown complete")

/-- Does what a step says. -/
def take (w : World) : Step → World × Answer
  | .respond url reply => ({ w with script := w.script.set url reply }, .none)
  | .push url reply => ({ w with script := w.script.push url reply }, .none)
  | .setDefault reply => ({ w with script := w.script.setDefault reply }, .none)
  | .clearReplies => ({ w with script := w.script.clear }, .none)
  | .delay url ms => ({ w with delays := setDelay url ms w.delays }, .none)
  | .failOpen cause => ({ w with openFailure := cause }, .none)
  | .feed piece => (w.feed piece).map id .flag
  | .listen pattern filter callback =>
    let (registry, id) := w.registry.add pattern filter callback
    ({ w with registry }, .listener id callback)
  | .unlisten id =>
    let (registry, removed) := w.registry.remove id
    ({ w with registry }, .flag removed)
  | .unlistenMany ids =>
    let (registry, n) := w.registry.removeMany ids
    ({ w with registry }, .count n)
  | .unlistenAll => ({ w with registry := w.registry.clear }, .none)
  | .publish topic e => (w.publish topic e).map id .count
  | .echoPing =>
    let e := Event.itemState w.pingConfig.item w.lastValue
    (w.publish e.topic e).map id .count
  | .advance ms => (w.passTo (w.clock + ms), .none)
  | .request r => (w.ask r).map id .reply
  | .spawn tag r => ((World.spawn w (.errand { tag, request := r })).1, .none)
  | .setOffline reason => (w.send (.setOffline none reason)).map id .flag
  | .configure config => (w.send (.configure config)).map id .flag
  | .status => (w, .status w.supervisor.status)
  | .shutdown => (w.shutdown, .none)
  | .closeExecutor => (w.closeExecutor, .none)
  | .waitIdle =>
    let idle := w.drain
    (idle, .waited (idle.clock - w.clock))

/-- Takes a step, and lets everything go on that can afterwards. What is observed is what happens in
this step. -/
def run (w : World) (s : Step) : World × Answer :=
  ({ w with trace := {} }.take s).map settle id

/-! ## The start -/

/-- Sets a plugin up; one that fails is left out. -/
def addPlugin (w : World) (p : Plugin) : World :=
  match w.callHook .setup p with
  | (w, none) => { w with plugins := w.plugins ++ [p] }
  | (w, some cause) =>
    w.log (.error ("Setup of plugin " ++ pluginName p ++ " failed: " ++ cause))

/-- The world before the bridge starts. -/
def before (config : Config) (script : Script) : World where
  supervisor := .initial config.connection config.general.listenOnly
  executor := .ofConfig config.executor
  pingConfig := config.ping
  script := script

/-- A world in which the plugins have been set up and the supervisor knows what to connect to. -/
def launch (config : Config) (script : Script) (plugins : List Plugin) (pingStart : Span) : World :=
  let w := { before config script with pingStart }
  let w := if config.general.listenOnly then
      w.log (.info "Listen only mode: no updates will be sent to the peer")
    else w
  let w := plugins.foldl addPlugin w
  if config.connection.isConfigured then (w.send (.configure config.connection)).1
  else w.log (.info "No peer configured")

/-- A world in which the bridge has just started. -/
def start (config : Config) (script : Script) (plugins : List Plugin) (pingStart : Span) : World :=
  (launch config script plugins pingStart).settle

end World

end PeerLink.Bridge
