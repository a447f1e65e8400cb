import PeerLink.Event.Basic
import PeerLink.Text.Blank
import PeerLink.Text.Chain
/-!
# Failures of callbacks

## Main definitions

* `CallbackFailure`: a failure, as it is reported.
* `CallbackFailure.ofCauses`: the failure of a callback that returned an error.
* `CallbackFailure.ofPanic`: the failure of a callback that panicked.
-/

namespace PeerLink

/-- A failure of a callback. -/
structure CallbackFailure where
  /-- The name of the callback. -/
  name : String
  description : String
  trace : String
  deriving DecidableEq, Repr

namespace CallbackFailure

/-- The failure of a callback that returned an error with these causes, outermost first. Blanks at
the end of the trace are dropped. -/
def ofCauses (name : String) (causes : List String) : CallbackFailure where
  name := name
  description := causes.headD ""
  trace := Text.trimEnd (Text.chain causes)

/-- The failure of a callback that panicked with a text, or with something else. -/
def ofPanic (name : String) (payload : Option String) : CallbackFailure :=
  let description := payload.getD "callback panicked"
  { name, description, trace := "  0: panicked: " ++ description }

/-- The wording of a failure. -/
def message (f : CallbackFailure) : String := "error in " ++ f.name ++ ": " ++ f.description

/-- The trace line by line. -/
def traceLines (f : CallbackFailure) : List String := Text.lines f.trace

/-- The failure as an event. -/
def event (f : CallbackFailure) : Event := .error ⟨f.name, f.description, f.trace⟩

end CallbackFailure

end PeerLink
