import PeerLink.Bridge.Plugin
import PeerLink.Bridge.Reader
/-!
# Running the supervisor

## Main definitions

* `World.applyEffect`: applies an effect of the supervisor.
* `World.takeCommand`: lets the supervisor take one command.
* `World.pollSupervisor`: lets the supervisor take all commands in the queue.
-/

namespace PeerLink.Bridge.World

open Transport Connection

/-- Ends a task before its time. A reader drops its stream. -/
def abort (w : World) (id : Nat) : World :=
  match w.task? id with
  | some (.reader t) => (w.dropStream t).endTask id
  | _ => w.endTask id

/-- Applies an effect of the supervisor. -/
def applyEffect (w : World) : Effect → World
  | .log l => w.log l
  | .openSession config => { w with trace.sessions := w.trace.sessions ++ [config.url] }
  | .abortAttempt => w.attempt.elim w w.abort
  | .abortReader => w.reader.elim w w.abort
  | .startAttempt epoch delay expectSuccess =>
    let (w, id) := w.spawn (.attempt ⟨epoch, expectSuccess, .planned delay⟩)
    { w with attempt := some id }
  | .startReader epoch session layout bufferSize =>
    let (w, id) := w.spawn
      (.reader { epoch, session, layout, decoder := { limit := bufferSize } })
    { w with reader := some id }
  | .notify hook => w.notify hook

/-- The result of opening a session. -/
def opened (w : World) : Except Failure Unit :=
  match w.openFailure with
  | some cause => .error cause
  | none => .ok ()

/-- Handles a command and applies the effects. -/
def handleCommand (w : World) (c : Command) : World :=
  let (supervisor, effects) := w.supervisor.handle w.opened c
  effects.foldl applyEffect { w with supervisor }

/-- Lets the supervisor take the first command in the queue. A supervisor that is not alive takes
none, and the queue is dropped. -/
def takeCommand (w : World) : World :=
  if w.supervisor.alive then
    match w.commands with
    | [] => w
    | c :: rest => { w with commands := rest }.handleCommand c
  else { w with commands := [] }

/-- Lets the supervisor take `n` commands. -/
def takeCommands : (n : Nat) → World → World
  | 0, w => w
  | n + 1, w => takeCommands n w.takeCommand

/-- Lets the supervisor take all commands in the queue. -/
def pollSupervisor (w : World) : World := takeCommands w.commands.length w

end PeerLink.Bridge.World
