/-!
# Transport failures

What can go wrong between this program and the server before an answer arrives. A status code is no
failure at this level, except where a stream was asked for.

## Main definitions

* `Failure`: the causes.
* `Failure.message`: their wording.
-/

namespace PeerLink.Transport

/-- Why a request got no answer, or a body no further chunk. -/
inductive Failure where
  /-- The connection could not be made, or was reset. -/
  | connectionFailed (message : String)
  /-- No answer in time. -/
  | timeout (message : String)
  /-- An error status where a stream was expected. -/
  | serverError (status : Nat) (message : String)
  /-- The request was given up. -/
  | cancelled
  /-- A body could not be read. -/
  | io (message : String)
  /-- The address is none. -/
  | invalidUrl (message : String)
  /-- Anything else. -/
  | other (message : String)
  deriving DecidableEq, Repr

/-- The wording of a failure. -/
def Failure.message : Failure → String
  | connectionFailed m => "Connection failed: " ++ m
  | timeout m => "Request timeout: " ++ m
  | serverError status m => "Server error (" ++ toString status ++ "): " ++ m
  | cancelled => "Request cancelled"
  | io m => "IO error: " ++ m
  | invalidUrl m => "Invalid URL: " ++ m
  | other m => "HTTP error: " ++ m

end PeerLink.Transport
