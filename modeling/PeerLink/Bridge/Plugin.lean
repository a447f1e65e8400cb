import PeerLink.Bridge.World
/-!
# Plugins

A plugin has hooks for its setup, for a connection that comes up and for one that is lost. The ping
plugin starts a task that sends pings while the connection is up.

## Main definitions

* `World.pollPinger`: polls the pinging.
* `World.callHook`: calls a hook of a plugin.
* `World.notify`: calls a hook of all plugins in order.
-/

namespace PeerLink.Bridge.World

open Connection

/-! ## Pings -/

/-- Waits before the next ping, unless the reply to the last one ends the pinging. -/
def afterPing (w : World) (id : Nat) (reply : Reply) : World :=
  let pause (w : World) := w.sleep id (Ping.interval w.pingConfig).millisUp (.pinger .sleeping)
  match reply with
  | .ok _ => pause w
  | .error e =>
    if Ping.endsWith e then w.endTask id
    else pause (w.log (.error
      ("Ping to " ++ w.pingConfig.item ++ " failed: " ++ e.message)))

/-- Sends a ping. -/
def beat (w : World) (id : Nat) : World :=
  let (ping, value) := w.ping.beat w.now
  match { w with ping }.begin (.postUpdate w.pingConfig.item value) with
  | (w, .replied reply) => w.afterPing id reply
  | (w, .away call ms) => w.sleep id ms (.pinger (.posting call))

/-- Polls the pinging. -/
def pollPinger (w : World) (id : Nat) (phase : PingPhase) : World :=
  match phase with
  | .planned =>
    if w.pingStart.millisUp = 0 then w.beat id
    else w.sleep id w.pingStart.millisUp (.pinger .sleeping)
  | .sleeping => w.beat id
  | .posting call =>
    let (w, result) := w.finishCall call
    w.afterPing id (result.map some)

/-- Stops the pinging. -/
def stopPing (w : World) : World :=
  let w := match w.pinger with
    | some id => w.endTask id
    | none => w
  { w with ping := w.ping.stop, pinger := none }

/-- Starts the pinging. -/
def startPing (w : World) : World :=
  let w := w.stopPing.log (.info ("Pinging " ++ w.pingConfig.item ++ " every " ++
    toString w.pingConfig.intervalSecs ++ "s"))
  let (w, id) := w.spawn (.pinger .planned)
  { w with pinger := some id }

/-! ## Hooks -/

/-- The name of a hook. -/
def hookName : Hook → String
  | .setup => "setup"
  | .connect => "connect"
  | .disconnect => "disconnect"

/-- Calls a hook of a plugin, and gives the reason of its failure, if any. -/
def callHook (w : World) (hook : Hook) : Plugin → World × Option String
  | .scripted name failing =>
    ({ w with trace.hooks := w.trace.hooks ++ [name ++ "." ++ hookName hook] },
      if failing.contains hook then some (hookName hook ++ " refused") else none)
  | .ping =>
    if !w.pingConfig.enabled ∧ hook ≠ .disconnect then (w, none)
    else match hook with
      | .setup =>
        let callback : Callback := { name := Ping.callbackName, isAsync := true, deed := .echo }
        let (registry, _) := w.registry.add (.ofString ("items/" ++ w.pingConfig.item))
          (.kinds [.itemState]) callback
        ({ w with registry }, none)
      | .connect => (w.startPing, none)
      | .disconnect => (w.stopPing, none)

/-- The name of a plugin. -/
def pluginName : Plugin → String
  | .scripted name _ => name
  | .ping => "ping"

/-- Calls a hook of all plugins in order. -/
def notify (w : World) (hook : Hook) : World :=
  w.plugins.foldl (fun w p =>
    match w.callHook hook p with
    | (w, none) => w
    | (w, some cause) => w.log (.error
      ("Plugin " ++ pluginName p ++ " failed on " ++ hookName hook ++ ": " ++ cause))) w

end PeerLink.Bridge.World
