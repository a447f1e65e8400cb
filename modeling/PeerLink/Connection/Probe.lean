import PeerLink.Connection.Request
import PeerLink.Json.Draft
import PeerLink.Text.Blank
/-!
# The probe of the server

Before its events are read, the identity and the root document of the server are requested. A server
without a root document, or with one that does not describe the server, has the legacy layout of
topics.

## Main definitions

* `Probe.identity`, `Probe.root`: the two requests.
* `Probe.takeIdentity`, `Probe.takeRoot`: the results of their replies.
-/

namespace PeerLink.Connection.Probe

open Transport

/-- The path of the identity of the server. -/
def identityPath : String := "/rest/uuid"

/-- The path of the root document. -/
def rootPath : String := "/rest/"

/-- The request for the identity of the server. -/
def identity (expectSuccess : Bool) : Request := .quietGet identityPath expectSuccess

/-- The request for the root document. -/
def root : Request := .quietGet rootPath false

/-- The identity in a response. -/
def takeIdentity (reply : Except Error Response) : Except Error String := do
  let response ← reply
  if 300 ≤ response.status then .error (.notReady .get identityPath response.status)
  else return Text.trim (response.text?.getD "")

/-- The peer for a server that does not describe itself. -/
def untold (uuid : String) : PeerInfo := ⟨uuid, none, none, true⟩

/-- The document of a response, if it is one. -/
def document? (response : Response) : Option Json := response.text?.bind Json.parse?

/-- The peer that a root document describes. -/
def describe (uuid : String) (root : Json) : PeerInfo :=
  match root.lookup "runtimeInfo" with
  | some runtime =>
    ⟨uuid, (runtime.lookup "version").bind Json.text?,
      (runtime.lookup "buildString").bind Json.text?, false⟩
  | none => untold uuid

/-- The error of a root document that is not JSON. -/
def invalidRoot : Error := .transport (.other "invalid root document: invalid JSON")

/-- The peer of a response, and whether its root document does not describe the server. -/
def takeRoot (uuid : String) (reply : Except Error Response) : Except Error (PeerInfo × Bool) := do
  let response ← reply
  if response.status = 404 then return (untold uuid, false)
  else if 300 ≤ response.status then .error (.notReady .get rootPath response.status)
  else match document? response with
    | none => .error invalidRoot
    | some root =>
      let info := describe uuid root
      return (info, info.legacy)

/-- The line in the log for a root document that does not describe the server. -/
def untoldNotice : String := "Peer has no runtime info, using legacy event topics"

end PeerLink.Connection.Probe
