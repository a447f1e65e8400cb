import PeerLink.Connection.Backoff
import PeerLink.Connection.Feed
/-!
# The supervisor of the connection

The supervisor owns the state of the connection. It takes commands one at a time, starts and aborts
the attempts to connect and the reader of events. A command of an attempt or of a session carries
its epoch, and a command of an earlier epoch changes nothing.

## Main definitions

* `Command`: the commands.
* `Effect`: the effects of a command on other tasks.
* `Supervisor`: the state of the supervisor.
* `Supervisor.handle`: the supervisor after a command, with the effects.
-/

namespace PeerLink.Connection

open Transport

/-- The hooks of plugins. -/
inductive Hook where
  | setup
  | connect
  | disconnect
  deriving DecidableEq, Repr

/-- The commands of the supervisor. -/
inductive Command where
  /-- Connects to another server, or to none. -/
  | configure (config : ConnectionConfig)
  /-- Reports the loss of the connection. Without an epoch it always applies. -/
  | setOffline (epoch : Option Nat) (reason : String)
  /-- Reports that the delay of an attempt is over. -/
  | attempting (epoch : Nat)
  /-- Reports the result of an attempt. -/
  | handshakeDone (epoch : Nat) (result : Except Error PeerInfo)
  /-- Reports the end of the reader. -/
  | streamEnded (epoch : Nat) (ending : Feed.End)
  /-- Ends the supervisor. -/
  | shutdown

/-- The effects of a command. -/
inductive Effect where
  /-- Writes a line into the log. -/
  | log (l : LogLine)
  /-- Opens a session with the server of a configuration. -/
  | openSession (config : ConnectionConfig)
  /-- Aborts the attempt to connect. -/
  | abortAttempt
  /-- Aborts the reader of events. -/
  | abortReader
  /-- Starts an attempt after a delay. -/
  | startAttempt (epoch : Nat) (delay : Span) (expectSuccess : Bool)
  /-- Starts the reader of events. -/
  | startReader (epoch : Nat) (session : Session) (layout : TopicLayout) (bufferSize : Nat)
  /-- Calls the plugins in order. -/
  | notify (hook : Hook)
  deriving DecidableEq, Repr

/-- The attempt that the supervisor owns. -/
structure Attempt where
  epoch : Nat
  delay : Span
  deriving DecidableEq, Repr

/-- The state of the supervisor. -/
structure Supervisor where
  config : ConnectionConfig
  view : ClientView
  backoff : Backoff
  epoch : Nat := 0
  /-- The attempt that is planned or being made. -/
  attempt : Option Attempt := none
  /-- The epoch of the reader of events. -/
  reader : Option Nat := none
  /-- Whether commands are taken. -/
  alive : Bool := true
  deriving DecidableEq, Repr

namespace Supervisor

/-- The supervisor before the first command. -/
def initial (config : ConnectionConfig) (readOnly : Bool) : Supervisor where
  config := config
  view := { status := { readOnly, backoff := (Backoff.ofConfig config).current } }
  backoff := Backoff.ofConfig config

/-- The published status. -/
def status (s : Supervisor) : Status := s.view.status

/-- Whether the connection is up. -/
def isOnline (s : Supervisor) : Bool := s.status.isOnline

/-! ## Steps that commands share -/

/-- Publishes a state, with the present epoch and delay. -/
def publish (s : Supervisor) (state : State) : Supervisor :=
  { s with view.status := { s.status with state, epoch := s.epoch, backoff := s.backoff.current } }

/-- Publishes a state with another peer, or none. -/
def publishPeer (s : Supervisor) (state : State) (peer : Option PeerInfo) : Supervisor :=
  let s := s.publish state
  { s with view.status := s.status.withPeer peer }

/-- Aborts the attempt, if there is one. -/
def cancelAttempt (s : Supervisor) : Supervisor × List Effect :=
  ({ s with attempt := none }, if s.attempt.isSome then [.abortAttempt] else [])

/-- Aborts the reader, if there is one. -/
def cancelReader (s : Supervisor) : Supervisor × List Effect :=
  ({ s with reader := none }, if s.reader.isSome then [.abortReader] else [])

/-- Aborts the attempt and the reader. -/
def cancelTasks (s : Supervisor) : Supervisor × List Effect :=
  let (s, attempt) := s.cancelAttempt
  let (s, reader) := s.cancelReader
  (s, attempt ++ reader)

/-- Ends the supervisor by a fault of its own, and aborts its tasks. -/
def crash (s : Supervisor) : Supervisor × List Effect :=
  let (s, cancelled) := s.cancelTasks
  ({ s with alive := false }, cancelled)

/-- Plans the next attempt after the present delay, and grows the delay. A delay that overflows ends
the supervisor. -/
def scheduleAttempt (s : Supervisor) : Supervisor × List Effect :=
  let (s, cancelled) := s.cancelAttempt
  match s.backoff.next? with
  | none =>
    let (s, more) := s.crash
    (s, cancelled ++ more)
  | some (delay, backoff) =>
    ({ s with
        backoff
        view.status.backoff := delay
        attempt := some ⟨s.epoch, delay⟩ },
      cancelled ++ [.startAttempt s.epoch delay s.config.expectSuccessOnProbe])

/-- Begins a new epoch without tasks, offline. -/
def goOffline (s : Supervisor) : Supervisor × List Effect :=
  let (s, cancelled) := { s with epoch := s.epoch + 1 }.cancelTasks
  let s := s.publishPeer .offline none
  let (s, planned) := s.scheduleAttempt
  (s, cancelled ++ .notify .disconnect :: planned)

/-- Begins a new epoch without tasks. If the connection was up, the plugins are called. -/
def abandon (s : Supervisor) : Supervisor × List Effect :=
  let told := if s.isOnline then [Effect.notify .disconnect] else []
  let (s, cancelled) := { s with epoch := s.epoch + 1 }.cancelTasks
  (s, cancelled ++ told)

/-- The lines of an unexpected failure: the context with the cause, and then the further causes. -/
def failureLines (context : String) (causes : List String) : List Effect :=
  .log (.error (context ++ ": " ++ causes.headD "")) ::
    ((Text.lines (Text.chain causes)).drop 1).map fun line => .log (.error line)

/-! ## Commands -/

/-- Connects to another server, or to none. `opened` is the result of opening a session. -/
def configure (s : Supervisor) (opened : Except Failure Unit) (config : ConnectionConfig) :
    Supervisor × List Effect :=
  let (s, left) := s.abandon
  if !config.isConfigured then
    let s := { s with view.session := none, config }.publishPeer .unconfigured none
    (s, left ++ [.log (.info "Peer connection unconfigured")])
  else match opened with
    | .error cause =>
      let s := { s with view.session := none }.publishPeer .unconfigured none
      (s, left ++
        [.log (.error ("Could not open session for " ++ config.baseUrl ++ ": " ++ cause.message))])
    | .ok () =>
      let s := { s with
        view.session := some ⟨config.baseUrl⟩, config, backoff := Backoff.ofConfig config }
      let (s, planned) := (s.publishPeer .connecting none).scheduleAttempt
      (s, left ++ .openSession config :: .log (.info ("Connecting to " ++ config.baseUrl)) ::
        planned)

/-- Takes the connection offline, if it is up and the report is of the present session. -/
def setOffline (s : Supervisor) (epoch : Option Nat) (reason : String) :
    Supervisor × List Effect :=
  if s.isOnline ∧ (epoch = none ∨ epoch = some s.epoch) then
    let (s, effects) := s.goOffline
    (s, .log (.warn ("Disconnected: " ++ reason)) :: effects)
  else (s, [])

/-- The delay of the attempt is over. -/
def attempting (s : Supervisor) (epoch : Nat) : Supervisor × List Effect :=
  if epoch = s.epoch then (s.publish .connecting, []) else (s, [])

/-- The line in the log for a server that has answered. -/
def greeting (readOnly : Bool) (info : PeerInfo) : String :=
  (if readOnly then "Connected read only to peer version " else "Connected to peer version ") ++
    info.version.getD "unknown" ++ " (" ++ info.build.getD "" ++ ")"

/-- The server has answered. The reader of its events is started. -/
def connect (s : Supervisor) (info : PeerInfo) : Supervisor × List Effect :=
  match s.view.session with
  | none => (s, [.log (.warn "Handshake finished without a session")])
  | some session =>
    let s := { s with backoff := s.backoff.reset }.publishPeer .online (some info)
    ({ s with reader := some s.epoch },
      [.log (.info (greeting s.status.readOnly info)),
        .startReader s.epoch session info.layout s.config.bufferSize,
        .notify .connect])

/-- The attempt has ended. The connection is up, or another attempt is planned. -/
def handshakeDone (s : Supervisor) (epoch : Nat) (result : Except Error PeerInfo) :
    Supervisor × List Effect :=
  if epoch ≠ s.epoch then (s, [])
  else
    let s := { s with attempt := none }
    match result with
    | .ok info => s.connect info
    | .error e =>
      let lines :=
        if e.isTransient then [Effect.log (.info ("Peer not ready: " ++ e.message))]
        else failureLines ("Connection attempt failed [" ++ e.code ++ "]") e.causes
      let (s, planned) := s.scheduleAttempt
      (s, lines ++ planned)

/-- The reader has ended. The connection goes offline. -/
def streamEnded (s : Supervisor) (epoch : Nat) (ending : Feed.End) :
    Supervisor × List Effect :=
  if epoch = s.epoch ∧ s.isOnline then
    let lines :=
      if ending.isDisconnect then [Effect.log (.warn ("Event stream ended: " ++ ending.message))]
      else failureLines "Event stream ended" ending.causes
    let (s, effects) := { s with reader := none }.goOffline
    (s, lines ++ effects)
  else (s, [])

/-- Ends the supervisor. -/
def stop (s : Supervisor) : Supervisor × List Effect :=
  let (s, left) := { s with view.closed := true }.abandon
  let s := s.publishPeer (if s.config.isConfigured then .offline else .unconfigured) none
  ({ s with alive := false }, .log (.info "Shutting down connection") :: left)

/-- The supervisor after a command, with the effects. `opened` is the result of opening a session,
if the command opens one. -/
def handle (s : Supervisor) (opened : Except Failure Unit) : Command → Supervisor × List Effect
  | .configure config => s.configure opened config
  | .setOffline epoch reason => s.setOffline epoch reason
  | .attempting epoch => s.attempting epoch
  | .handshakeDone epoch result => s.handshakeDone epoch result
  | .streamEnded epoch ending => s.streamEnded epoch ending
  | .shutdown => s.stop

end Supervisor

end PeerLink.Connection
