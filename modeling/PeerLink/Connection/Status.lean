import PeerLink.Event.TopicLayout
import PeerLink.Span
/-!
# The status of the connection

## Main definitions

* `State`: where the connection stands.
* `PeerInfo`: what the server told about itself.
* `Status`: what everybody can see of the connection.
-/

namespace PeerLink.Connection

/-- Where the connection stands. -/
inductive State where
  /-- There is no server to connect to. -/
  | unconfigured
  /-- The connection was lost, and another attempt is planned. -/
  | offline
  /-- An attempt is being made, or planned after one that failed. -/
  | connecting
  /-- The server answered, and its events are being read. -/
  | online
  deriving DecidableEq, Repr

/-- The word for a state. -/
def State.name : State → String
  | unconfigured => "unconfigured"
  | offline => "offline"
  | connecting => "connecting"
  | online => "online"

/-- What the server told about itself. -/
structure PeerInfo where
  uuid : String
  version : Option String
  build : Option String
  /-- Whether the server has the old layout of topics. -/
  legacy : Bool
  deriving DecidableEq, Repr

/-- The server's layout of topics. -/
def PeerInfo.layout (p : PeerInfo) : TopicLayout :=
  if p.legacy then .legacy else .current

/-- What everybody can see of the connection. -/
structure Status where
  state : State := .unconfigured
  readOnly : Bool := false
  layout : TopicLayout := .current
  peer : Option PeerInfo := none
  /-- The delay before the next attempt. -/
  backoff : Span := ⟨0⟩
  /-- How often a session has begun or ended. -/
  epoch : Nat := 0
  deriving DecidableEq, Repr

namespace Status

/-- Whether the connection is up. -/
def isOnline (s : Status) : Bool := s.state = .online

/-- Whether something may be changed at the server. -/
def acceptsWrites (s : Status) : Bool := s.isOnline && !s.readOnly

/-- The status with another peer, or none, and the layout that goes with it. -/
def withPeer (s : Status) (peer : Option PeerInfo) : Status :=
  { s with peer, layout := (peer.map PeerInfo.layout).getD .current }

end Status

end PeerLink.Connection
