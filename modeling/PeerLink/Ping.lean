import PeerLink.Config.Basic
import PeerLink.Connection.Error
import PeerLink.Event.Basic
/-!
# Measuring round trips

While the connection is up, the last measured round trip is written to an item from time to time.
The event that echoes the value back ends the next measurement.

## Main definitions

* `Ping`: the last ping and the last measurement.
* `Ping.beat`: the value of the next ping, which is now on its way.
* `Ping.echo`: a state of the item, which may end a measurement.
-/

namespace PeerLink

open Number

/-- The last ping, if it is on its way, and the last measurement. -/
structure Ping where
  sentAt : Option Span := none
  sentValue : Option String := none
  measured : Option Span := none
  deriving DecidableEq, Repr

namespace Ping

/-- The name of the callback that takes the echo. -/
def callbackName : String := "PingPlugin.ping_received"

/-- How long after connecting the first ping is sent. -/
def startDelay : Span := .ofSeconds 3

/-- The value that stands for no measurement. -/
def noValue : String := "NULL"

/-- The time between two pings. -/
def interval (c : PingConfig) : Span := .ofSeconds (max c.intervalSecs 1)

/-- A measurement as it is written: milliseconds with one decimal. -/
def writeMeasured : Option Span → String
  | none => noValue
  | some d =>
    let tenths := roundHalfEven (d.nanos * 10) Span.milli
    toString (tenths / 10) ++ "." ++ toString (tenths % 10)

/-- Forgets the ping on its way. -/
def stop (p : Ping) : Ping := { p with sentAt := none, sentValue := none }

/-- The value of the next ping, which is now on its way. -/
def beat (p : Ping) (now : Span) : Ping × String :=
  let value := writeMeasured p.measured
  ({ p with sentAt := some now, sentValue := some value }, value)

/-- A state of the item: if it is the value of the ping on its way, it ends a measurement. -/
def echo (p : Ping) (now : Span) (value : Option String) : Ping :=
  if p.sentValue = some (value.getD noValue) then
    match p.sentAt with
    | some sent => ⟨none, none, some ⟨now.nanos - sent.nanos⟩⟩
    | none => { p with sentValue := none }
  else p

/-- What a callback for the echo does with an event. -/
def take (p : Ping) (now : Span) : Event → Ping
  | .itemState _ value => p.echo now value
  | _ => p

/-- Whether an error ends the pings of this session. -/
def endsWith : Connection.Error → Bool
  | .disconnected _ | .shutdown => true
  | _ => false

end Ping

end PeerLink
