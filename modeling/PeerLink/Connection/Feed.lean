import PeerLink.Connection.Outcome
import PeerLink.Connection.Request
import PeerLink.Event.Decode
import PeerLink.ItemTable
import PeerLink.Log
import PeerLink.Sse.Decoder
/-!
# The acts of the reader

Each frame of the event stream is handled on its own. A frame that is not an event is logged and
skipped, and an event is applied to the table of items and then published.

## Main definitions

* `Feed.outgoing`: the request for the stream.
* `Feed.End`: the reasons why the reader stops.
* `Feed.Act`: an act of the reader.
* `Feed.take`, `Feed.acts`: the acts for an item and for a list of items.
-/

namespace PeerLink.Connection.Feed

open Transport

/-- The path of the event stream. -/
def eventsPath : String := "/rest/events"

/-- The request for the event stream. -/
def outgoing (s : Session) (l : TopicLayout) : Outgoing where
  method := .get
  url := s.url eventsPath [("topics", l.subscription)]
  headers := [("Accept", "text/event-stream")]
  body := none

/-- The reasons why the reader stops. -/
inductive End where
  /-- The server has ended the stream. -/
  | closed
  /-- The stream could not be opened, or it has failed. -/
  | failed (cause : Failure)
  deriving DecidableEq, Repr

namespace End

/-- The message of an end. -/
def message : End → String
  | closed => StreamError.closed.message
  | failed cause => "event stream failed: " ++ cause.message

/-- The end and its causes, outermost first. -/
def causes : End → List String
  | closed => [closed.message]
  | failed cause => [(failed cause).message, cause.message]

/-- Whether the stream has been lost with the connection. -/
def isDisconnect : End → Bool
  | closed => true
  | failed cause => Outcome.ofFailure cause = .disconnect

end End

/-- An act of the reader. -/
inductive Act where
  /-- Writes a line into the log. -/
  | log (l : LogLine)
  /-- Applies an event to the table of items and publishes it. -/
  | publish (topic : String) (e : Event)
  /-- Stops reading. -/
  | stop (e : End)
  deriving DecidableEq, Repr

/-- The decoder of the topic and the event of a frame. -/
abbrev EventReader := Json → TopicLayout → Except StreamError (String × Event)

/-- The acts for the data of a frame. -/
def takeData (read : EventReader) (l : TopicLayout) (data : String) : List Act :=
  match Json.parse? data with
  | none => [.log (.warn "Invalid json"), .log (.warn data)]
  | some raw =>
    match read raw l with
    | .ok (topic, e) => [.publish topic e]
    | .error (.unknownEventType _) => []
    | .error e => [.log (.warn ("Could not parse event: " ++ e.message))]

/-- The acts for an item of the stream. -/
def take (read : EventReader) (l : TopicLayout) : Sse.Item → List Act
  | .frame f => if f.isKeepalive || f.data.isEmpty then [] else takeData read l f.data
  | .lineTooLong limit =>
    [.log (.warn ("Skipping frame: " ++ (StreamError.lineTooLong limit).message))]
  | .transport cause => [.stop (.failed cause)]

/-- The acts for a list of items. -/
def acts (read : EventReader) (l : TopicLayout) (items : List Sse.Item) : List Act :=
  items.flatMap (take read l)

end PeerLink.Connection.Feed
