/-!
# Layouts of the server's topics

The server names its topics in one of two ways. What an event is about is cut out of its topic at a
fixed place.

## Main definitions

* `TopicLayout`: the places of a layout.
* `TopicLayout.current`, `TopicLayout.legacy`: the two layouts in use.
* `TopicLayout.subscription`: the topics to subscribe to.
-/

namespace PeerLink

/-- How a server names its topics. -/
structure TopicLayout where
  /-- The first segment of every topic. -/
  root : String
  /-- The byte at which an item's name begins. -/
  itemStart : Nat
  /-- The byte at which a thing's name begins. -/
  thingStart : Nat
  /-- The byte at which a channel's name begins. -/
  channelStart : Nat
  deriving DecidableEq, Repr

namespace TopicLayout

/-- The layout of present servers. -/
def current : TopicLayout := ⟨"openhab", 14, 15, 17⟩

/-- The layout of servers that do not tell about themselves in the root document. -/
def legacy : TopicLayout := ⟨"smarthome", 16, 17, 19⟩

instance : Inhabited TopicLayout := ⟨current⟩

/-- Whether this is the layout of old servers. -/
def isLegacy (l : TopicLayout) : Bool := l = legacy

/-- The topics to subscribe to. -/
def subscription (l : TopicLayout) : String :=
  l.root ++ "/items/," ++ l.root ++ "/channels/," ++ l.root ++ "/things/*/status," ++
    l.root ++ "/things/*/statuschanged"

end TopicLayout

end PeerLink
