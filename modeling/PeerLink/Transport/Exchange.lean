import PeerLink.Text.Utf8
/-!
# Requests and responses

## Main definitions

* `Method`: the four request methods.
* `Response`: a status and a body of bytes.
* `Outgoing`: a request as the transport sends it.
-/

namespace PeerLink.Transport

open Text.Utf8 (Bytes)

/-- The request methods in use. -/
inductive Method where
  | get
  | post
  | put
  | delete
  deriving DecidableEq, Repr

namespace Method

/-- The method's name on the wire. -/
def name : Method → String
  | get => "GET"
  | post => "POST"
  | put => "PUT"
  | delete => "DELETE"

/-- Whether the method can change something at the server. -/
def isMutating (m : Method) : Bool := m ≠ get

/-- Whether a request of this method carries a body, an empty one included. -/
def hasBody : Method → Bool
  | post | put => true
  | get | delete => false

/-- All methods. -/
def all : List Method := [get, post, put, delete]

end Method

/-- Header names with their values. -/
abbrev Headers := List (String × String)

/-- An answer of the server. -/
structure Response where
  status : Nat
  body : Bytes
  deriving DecidableEq, Repr

namespace Response

/-- Whether the status is one of success, 200 to 299. -/
def isSuccess (r : Response) : Bool := 200 ≤ r.status && r.status < 300

/-- The body as a text, if it is UTF-8. -/
def text? (r : Response) : Option String := Text.Utf8.decode? r.body

end Response

/-- A request as the transport sends it. -/
structure Outgoing where
  method : Method
  url : String
  headers : Headers
  body : Option String
  deriving DecidableEq, Repr

end PeerLink.Transport
