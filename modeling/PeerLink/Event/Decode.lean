import PeerLink.Event.Basic
import PeerLink.Event.Payload
import PeerLink.Event.StreamError
import PeerLink.Event.TopicLayout
/-!
# Events from frames

## Main definitions

* `PayloadFault`: why a payload or a topic does not fit the type of its frame.
* `Event.ofFrame`: the event of a frame.
* `Event.decode`: the topic and the event of a frame given as a JSON value.
-/

namespace PeerLink

open Json

/-- Why a payload or a topic does not fit the type of its frame. -/
inductive PayloadFault where
  /-- The payload has not the expected shape. -/
  | mismatch (m : Mismatch)
  /-- The topic names nothing at the place of the name. -/
  | noName (topic : String)
  /-- The topic of a group's change names no member. -/
  | noMember
  /-- An update without a definition. -/
  | emptyUpdate
  /-- A change of status without two of them. -/
  | missingStatus
  deriving DecidableEq, Repr

/-- The wording of a fault. -/
def PayloadFault.message : PayloadFault → String
  | mismatch m => m.message
  | noName topic => "no name in topic '" ++ topic ++ "'"
  | noMember => "no member item in topic"
  | emptyUpdate => "empty update"
  | missingStatus => "expected [new, old] status"

/-- The value that a text stands for: none if it marks a missing one. -/
def stateValue (s : String) : Option String :=
  if s = "NULL" ∨ s = "UNDEF" ∨ s = "NONE" then none else some s

/-- Reads a payload. -/
def readPayload {α : Type} (read : Reader α) (payload : String) : Except PayloadFault α :=
  (readText read payload).mapError .mismatch

/-- The segments of a topic from a byte on, if a character begins there. -/
def segmentsAt (topic : String) (start : Nat) : List String :=
  match Text.dropBytes? start topic.toList with
  | some rest => (Text.cutAt '/' rest).map String.ofList
  | none => []

/-- The segment of a topic that begins at a byte; it must not be empty. -/
def nameAt (topic : String) (start : Nat) : Except PayloadFault String :=
  match segmentsAt topic start with
  | name :: _ => if name.isEmpty then .error (.noName topic) else .ok name
  | [] => .error (.noName topic)

/-- The segment after the one that begins at a byte; it must not be empty. -/
def memberAt (topic : String) (start : Nat) : Except PayloadFault String :=
  match segmentsAt topic start with
  | _ :: member :: _ => if member.isEmpty then .error .noMember else .ok member
  | _ => .error .noMember

/-- The payload of a status as the value of its detail. -/
def ThingStatusPayload.detail (p : ThingStatusPayload) : Option String :=
  p.statusDetail.bind stateValue

/-- The definition in a payload, under a given name. -/
def ItemPayload.definition (p : ItemPayload) (name : String) : ItemDefinition :=
  ⟨name, p.type, .ofList p.tags, .ofList p.groupNames⟩

namespace Event

/-- The event of a frame of a kind. The payload is read before the name is cut out of the topic. -/
def ofKind (kind : EventKind) (topic payload : String) (l : TopicLayout) :
    Except PayloadFault Event :=
  match kind with
  | .itemState => do
    let p ← readPayload (Reader.recordText StatePayload.shape) payload
    return itemState (← nameAt topic l.itemStart) (stateValue p.value)
  | .itemCommand => do
    let p ← readPayload (Reader.recordText StatePayload.shape) payload
    return itemCommand (← nameAt topic l.itemStart) (stateValue p.value)
  | .itemStateChanged => do
    let p ← readPayload (Reader.recordText StateChangedPayload.shape) payload
    return itemStateChanged (← nameAt topic l.itemStart) (stateValue p.value)
      (stateValue p.oldValue)
  | .itemAdded => do
    let p ← readPayload (Reader.recordText ItemPayload.shape) payload
    return itemAdded (p.definition p.name)
  | .itemUpdated => do
    match ← readPayload (Reader.list (Reader.recordText ItemPayload.shape)) payload with
    | [] => throw .emptyUpdate
    | new :: _ => return itemUpdated (new.definition (← nameAt topic l.itemStart))
  | .itemRemoved => return itemRemoved (← nameAt topic l.itemStart)
  | .groupItemStateChanged => do
    let p ← readPayload (Reader.recordText StateChangedPayload.shape) payload
    let item ← memberAt topic l.itemStart
    return groupItemStateChanged (← nameAt topic l.itemStart) item (stateValue p.value)
      (stateValue p.oldValue)
  | .channelTriggered => do
    let p ← readPayload (Reader.recordText TriggerPayload.shape) payload
    return channelTriggered (← nameAt topic l.channelStart) p.channel p.event
  | .thingStatusInfo => do
    let p ← readPayload (Reader.recordText ThingStatusPayload.shape) payload
    return thingStatusInfo (← nameAt topic l.thingStart) p.status p.detail
  | .thingStatusInfoChanged => do
    match ← readPayload (Reader.list (Reader.recordText ThingStatusPayload.shape)) payload with
    | new :: old :: _ =>
      return thingStatusInfoChanged (← nameAt topic l.thingStart) new.status new.detail
        old.status old.detail
    | _ => throw .missingStatus
  | .error => throw (.noName topic)

/-- The event of a frame. -/
def ofFrame (f : RawFrame) (l : TopicLayout) : Except StreamError Event :=
  match EventKind.ofWireName? f.type with
  | none => .error (.unknownEventType f.type)
  | some kind =>
    (ofKind kind f.topic f.payload l).mapError fun fault =>
      .invalidPayload kind.wireName fault.message

/-- The topic and the event of a frame given as a JSON value. -/
def decode (raw : Json) (l : TopicLayout) : Except StreamError (String × Event) :=
  match Reader.recordValue RawFrame.shape raw.draft with
  | .error m => .error (.malformedFrame m.message raw.compact)
  | .ok frame => (ofFrame frame l).map fun event => (event.topic, event)

end Event

end PeerLink
