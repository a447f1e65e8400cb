import PeerLink.Text.Chain
import PeerLink.Transport.Exchange
import PeerLink.Transport.Failure
/-!
# Errors of requests

## Main definitions

* `Connection.Error`: why a request gave no response to its caller.
* `Error.message`, `Error.code`, `Error.chain`: how it is shown.
* `Error.isTransient`: whether it is expected to pass.
-/

namespace PeerLink.Connection

open Transport

/-- Why a request gave no response to its caller. -/
inductive Error where
  /-- There is no server to talk to. -/
  | notConfigured
  /-- The server answered that it cannot serve. -/
  | notReady (method : Method) (path : String) (status : Nat)
  /-- The server is not reachable. -/
  | disconnected (cause : String)
  /-- The request needed success and got a status of 400 or more. -/
  | expectedSuccess (method : Method) (path : String) (status : Nat)
  /-- Any other failure of the transport. -/
  | transport (cause : Failure)
  /-- The connection has been shut down. -/
  | shutdown
  deriving DecidableEq, Repr

/-- The status of a request as it is mentioned in messages. -/
def statusOf (method : Method) (path : String) (status : Nat) : String :=
  "status " ++ toString status ++ " for " ++ method.name ++ " " ++ path

namespace Error

/-- The wording of an error. -/
def message : Error → String
  | notConfigured => "connection to the peer is not configured"
  | notReady method path status => "peer is not ready: " ++ statusOf method path status
  | disconnected cause => "disconnected from peer: " ++ cause
  | expectedSuccess method path status =>
    "expected success but got " ++ statusOf method path status
  | transport cause => "transport error: " ++ cause.message
  | shutdown => "connection supervisor has shut down"

/-- The code of an error in log lines. -/
def code : Error → String
  | notConfigured => "NOT_CONFIGURED"
  | notReady .. => "NOT_READY"
  | disconnected _ => "DISCONNECTED"
  | expectedSuccess .. => "EXPECTED_SUCCESS"
  | transport _ => "TRANSPORT"
  | shutdown => "SHUTDOWN"

/-- Whether the error is expected to pass once the server can be reached again. -/
def isTransient : Error → Bool
  | notReady .. | disconnected _ | expectedSuccess .. => true
  | notConfigured | transport _ | shutdown => false

/-- The error and what caused it, outermost first. -/
def causes : Error → List String
  | transport cause => [(transport cause).message, cause.message]
  | e => [e.message]

end Error

end PeerLink.Connection
