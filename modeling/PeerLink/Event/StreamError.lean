/-!
# Faults of the event stream

## Main definitions

* `StreamError`: what can be wrong with a frame, a line or the stream.
* `StreamError.message`: the wording.
-/

namespace PeerLink

/-- What is wrong with a frame, a line or the stream. -/
inductive StreamError where
  /-- The data of a frame has not the shape of one. -/
  | malformedFrame (cause data : String)
  /-- A frame of a type that is not known. -/
  | unknownEventType (type : String)
  /-- A frame whose payload does not fit its type. -/
  | invalidPayload (type cause : String)
  /-- A line of more bytes than allowed. -/
  | lineTooLong (limit : Nat)
  /-- The server ended the stream. -/
  | closed
  deriving DecidableEq, Repr

namespace StreamError

/-- The wording of a fault. -/
def message : StreamError → String
  | malformedFrame cause _ => "malformed frame: " ++ cause
  | unknownEventType type => "unknown event type '" ++ type ++ "'"
  | invalidPayload type cause => "invalid payload for " ++ type ++ ": " ++ cause
  | lineTooLong limit => "line exceeds buffer size of " ++ toString limit ++ " bytes"
  | closed => "event stream closed by peer"

/-- Whether the stream ends with the fault. -/
def endsStream (e : StreamError) : Bool := e = closed

end StreamError

end PeerLink
