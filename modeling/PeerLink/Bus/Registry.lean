import PeerLink.Bus.TopicPattern
import PeerLink.Connection.Request
import PeerLink.Text.Quoted
/-!
# Listeners

## Main definitions

* `Callback`: what is run for an event.
* `Listener`: a callback with the topics and kinds it is run for.
* `Registry`: the listeners, in the order of their numbers.
-/

namespace PeerLink

open Connection

/-- The deed of a callback on an event. -/
inductive Deed where
  /-- Succeeds. -/
  | succeed
  /-- Returns an error with these causes, outermost first. -/
  | fail (causes : List String)
  /-- Panics with a text or with something else. -/
  | panic (payload : Option String)
  /-- Publishes another event. -/
  | publish (topic : String) (event : Event)
  /-- Makes a request, and fails if the request fails. -/
  | request (r : Request)
  /-- Takes the event as the echo of a ping. -/
  | echo
  deriving Repr

/-- A named callback. -/
structure Callback where
  name : String
  /-- Whether it runs as a task of its own, and not on a worker. -/
  isAsync : Bool
  /-- Whether a long run is logged with a warning. -/
  warnTooLong : Bool := true
  /-- The delay before its deed, if it is a task of its own. -/
  delayMs : Nat := 0
  deed : Deed
  deriving Repr

/-- The text of a callback. -/
def Callback.describe (c : Callback) : String :=
  "WrappedCallback \x7b name: " ++ Text.quoted c.name ++ ", async: " ++ toString c.isAsync ++
    ", warn_too_long: " ++ toString c.warnTooLong ++ " \x7d"

/-- A callback with the topics and kinds of event that it is run for. -/
structure Listener where
  id : Nat
  pattern : TopicPattern
  filter : EventFilter
  callback : Callback
  deriving Repr

/-- The text of the number of a listener. -/
def Listener.label (id : Nat) : String := "listener#" ++ toString id

/-- Whether a listener accepts an event on a topic. -/
def Listener.accepts (l : Listener) (topic : String) (e : Event) : Bool :=
  l.pattern.accepts topic && l.filter.accepts e

/-- The listeners, in the order of their numbers, which are unique. -/
structure Registry where
  listeners : List Listener := []
  nextId : Nat := 1
  deriving Repr

namespace Registry

/-- Adds a listener, and gives its number. -/
def add (r : Registry) (pattern : TopicPattern) (filter : EventFilter) (callback : Callback) :
    Registry × Nat :=
  (⟨r.listeners ++ [⟨r.nextId, pattern, filter, callback⟩], r.nextId + 1⟩, r.nextId)

/-- Removes the listeners with these numbers, and gives the number of those removed. -/
def removeMany (r : Registry) (ids : List Nat) : Registry × Nat :=
  let kept := r.listeners.filter fun l => !ids.contains l.id
  ({ r with listeners := kept }, r.listeners.length - kept.length)

/-- Removes a listener, and gives whether it was present. -/
def remove (r : Registry) (id : Nat) : Registry × Bool :=
  let (r, n) := r.removeMany [id]
  (r, n ≠ 0)

/-- Removes all listeners. -/
def clear (r : Registry) : Registry := { r with listeners := [] }

/-- The listeners that accept an event on a topic. -/
def accepting (r : Registry) (topic : String) (e : Event) : List Listener :=
  r.listeners.filter (·.accepts topic e)

/-- The number of listeners. -/
def size (r : Registry) : Nat := r.listeners.length

end Registry

end PeerLink
