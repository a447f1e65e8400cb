import PeerLink.Event.NameSet
import PeerLink.Text.Cut
/-!
# Events

What the server reports, and the failures of callbacks, which are reported the same way.

## Main definitions

* `EventKind`: the kinds of event and their names on the wire.
* `Event`: the events.
* `Event.topic`: the topic an event is published under.
* `Event.describe`: an event on one line.
-/

namespace PeerLink

/-- The kinds of event. -/
inductive EventKind where
  | itemState
  | itemStateChanged
  | itemCommand
  | itemAdded
  | itemUpdated
  | itemRemoved
  | groupItemStateChanged
  | channelTriggered
  | thingStatusInfo
  | thingStatusInfoChanged
  | error
  deriving DecidableEq, Repr

namespace EventKind

/-- The name that the kind has on the wire; failures of callbacks never come over it. -/
def wireName : EventKind → String
  | itemState => "ItemStateEvent"
  | itemStateChanged => "ItemStateChangedEvent"
  | itemCommand => "ItemCommandEvent"
  | itemAdded => "ItemAddedEvent"
  | itemUpdated => "ItemUpdatedEvent"
  | itemRemoved => "ItemRemovedEvent"
  | groupItemStateChanged => "GroupItemStateChangedEvent"
  | channelTriggered => "ChannelTriggeredEvent"
  | thingStatusInfo => "ThingStatusInfoEvent"
  | thingStatusInfoChanged => "ThingStatusInfoChangedEvent"
  | error => "HABAppException"

/-- The kinds that come over the wire. -/
def wireKinds : List EventKind :=
  [itemState, itemStateChanged, itemCommand, itemAdded, itemUpdated, itemRemoved,
    groupItemStateChanged, channelTriggered, thingStatusInfo, thingStatusInfoChanged]

/-- The kind that comes over the wire under a name. -/
def ofWireName? (name : String) : Option EventKind :=
  wireKinds.find? (·.wireName == name)

end EventKind

/-- The definition of an item. -/
structure ItemDefinition where
  name : String
  itemType : String
  tags : NameSet
  groups : NameSet
  deriving DecidableEq, Repr

/-- A failure of a callback as an event. -/
structure ErrorEvent where
  /-- The name of the callback. -/
  source : String
  description : String
  trace : String
  deriving DecidableEq, Repr

/-- An event. A value or detail that the server marks as missing is absent. -/
inductive Event where
  | itemState (name : String) (value : Option String)
  | itemCommand (name : String) (value : Option String)
  | itemStateChanged (name : String) (value oldValue : Option String)
  | itemAdded (definition : ItemDefinition)
  | itemUpdated (definition : ItemDefinition)
  | itemRemoved (name : String)
  | groupItemStateChanged (name item : String) (value oldValue : Option String)
  | channelTriggered (name channel event : String)
  | thingStatusInfo (name status : String) (detail : Option String)
  | thingStatusInfoChanged (name status : String) (detail : Option String) (oldStatus : String)
      (oldDetail : Option String)
  | error (e : ErrorEvent)
  deriving DecidableEq, Repr

namespace Event

/-- The kind of an event. -/
def kind : Event → EventKind
  | itemState .. => .itemState
  | itemCommand .. => .itemCommand
  | itemStateChanged .. => .itemStateChanged
  | itemAdded _ => .itemAdded
  | itemUpdated _ => .itemUpdated
  | itemRemoved _ => .itemRemoved
  | groupItemStateChanged .. => .groupItemStateChanged
  | channelTriggered .. => .channelTriggered
  | thingStatusInfo .. => .thingStatusInfo
  | thingStatusInfoChanged .. => .thingStatusInfoChanged
  | error _ => .error

/-- The name of the item, thing, channel or callback that an event is about. -/
def name : Event → String
  | itemState name _ | itemCommand name _ | itemStateChanged name _ _ | itemRemoved name
  | groupItemStateChanged name _ _ _ | channelTriggered name _ _ | thingStatusInfo name _ _
  | thingStatusInfoChanged name _ _ _ _ => name
  | itemAdded d | itemUpdated d => d.name
  | error e => e.source

/-- Whether the event is the failure of a callback. -/
def isError (e : Event) : Bool := e.kind = .error

/-- The topic of the failures of callbacks. -/
def errorTopic : String := "errors"

/-- The topic an event is published under. -/
def topic (e : Event) : String :=
  match e.kind with
  | .error => errorTopic
  | .channelTriggered => "channels/" ++ e.name
  | .thingStatusInfo | .thingStatusInfoChanged => "things/" ++ e.name
  | _ => "items/" ++ e.name

/-- What stands for an absent value. -/
def orNone (value : Option String) : String := value.getD "None"

/-- Names in braces. -/
def braced (names : NameSet) : String := "\x7b" ++ Text.join ", " names.toList ++ "\x7d"

/-- The fields of an event as they are described. -/
def fields : Event → List (String × String)
  | itemState name value | itemCommand name value => [("name", name), ("value", orNone value)]
  | itemStateChanged name value oldValue =>
    [("name", name), ("value", orNone value), ("old_value", orNone oldValue)]
  | itemAdded d | itemUpdated d =>
    [("name", d.name), ("type", d.itemType), ("tags", braced d.tags), ("groups", braced d.groups)]
  | itemRemoved name => [("name", name)]
  | groupItemStateChanged name item value oldValue =>
    [("name", name), ("item", item), ("value", orNone value), ("old_value", orNone oldValue)]
  | channelTriggered name channel event =>
    [("name", name), ("channel", channel), ("event", event)]
  | thingStatusInfo name status detail =>
    [("name", name), ("status", status), ("detail", orNone detail)]
  | thingStatusInfoChanged name status detail oldStatus oldDetail =>
    [("name", name), ("status", status), ("detail", orNone detail), ("old_status", oldStatus),
      ("old_detail", orNone oldDetail)]
  | error e => [("function", e.source), ("exception", e.description)]

/-- An event on one line. -/
def describe (e : Event) : String :=
  "<" ++ e.kind.wireName ++ " " ++
    Text.join ", " (e.fields.map fun (key, value) => key ++ ": " ++ value) ++ ">"

end Event

/-- Which kinds of event a listener takes. -/
inductive EventFilter where
  /-- Every kind. -/
  | any
  /-- The kinds listed. -/
  | kinds (ks : List EventKind)
  deriving DecidableEq, Repr

/-- Whether a filter takes events of a kind. -/
def EventFilter.acceptsKind : EventFilter → EventKind → Bool
  | any, _ => true
  | kinds ks, k => ks.contains k

/-- Whether a filter takes an event. -/
def EventFilter.accepts (f : EventFilter) (e : Event) : Bool := f.acceptsKind e.kind

end PeerLink
