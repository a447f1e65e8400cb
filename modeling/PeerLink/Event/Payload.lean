import PeerLink.Json.Shape
/-!
# Payloads of frames

A frame holds a topic, a type and a payload, which is a JSON text of a shape that its type
determines.

## Main definitions

* `RawFrame`: a frame as it comes over the wire.
* `StatePayload`, `StateChangedPayload`, …: the payloads.
* `RawFrame.layout`, …: how each is written.
-/

namespace PeerLink

open Json

/-- A frame as it comes over the wire. -/
structure RawFrame where
  topic : String := ""
  payload : String := ""
  type : String := ""
  deriving DecidableEq, Repr

/-- A state of an item. -/
structure StatePayload where
  value : String := ""
  deriving DecidableEq, Repr

/-- A change of an item's state. -/
structure StateChangedPayload where
  value : String := ""
  oldValue : String := ""
  deriving DecidableEq, Repr

/-- A definition of an item. -/
structure ItemPayload where
  type : String := ""
  name : String := ""
  tags : List String := []
  groupNames : List String := []
  deriving DecidableEq, Repr

/-- An event of a channel. -/
structure TriggerPayload where
  event : String := ""
  channel : String := ""
  deriving DecidableEq, Repr

/-- A status of a thing. -/
structure ThingStatusPayload where
  status : String := ""
  statusDetail : Option String := none
  deriving DecidableEq, Repr

open RecordShape (field)

/-- A frame may leave out its payload. -/
def RawFrame.shape : RecordShape RawFrame where
  name := "RawFrame"
  fields := [
    field "topic" true Reader.text fun v s => { s with topic := v },
    field "payload" false Reader.text fun v s => { s with payload := v },
    field "type" true Reader.text fun v s => { s with type := v }]
  blank := {}

/-- How a state is written. -/
def StatePayload.shape : RecordShape StatePayload where
  name := "StatePayload"
  fields := [field "value" true Reader.text fun v s => { s with value := v }]
  blank := {}

/-- How a change of state is written. -/
def StateChangedPayload.shape : RecordShape StateChangedPayload where
  name := "StateChangedPayload"
  fields := [
    field "value" true Reader.text fun v s => { s with value := v },
    field "oldValue" true Reader.text fun v s => { s with oldValue := v }]
  blank := {}

/-- A definition may leave out its tags and groups. -/
def ItemPayload.shape : RecordShape ItemPayload where
  name := "ItemPayload"
  fields := [
    field "type" true Reader.text fun v s => { s with type := v },
    field "name" true Reader.text fun v s => { s with name := v },
    field "tags" false (Reader.list Reader.text) fun v s => { s with tags := v },
    field "groupNames" false (Reader.list Reader.text) fun v s => { s with groupNames := v }]
  blank := {}

/-- How an event of a channel is written. -/
def TriggerPayload.shape : RecordShape TriggerPayload where
  name := "TriggerPayload"
  fields := [
    field "event" true Reader.text fun v s => { s with event := v },
    field "channel" true Reader.text fun v s => { s with channel := v }]
  blank := {}

/-- A status may leave out its detail, or have null for it. -/
def ThingStatusPayload.shape : RecordShape ThingStatusPayload where
  name := "ThingStatusPayload"
  fields := [
    field "status" true Reader.text fun v s => { s with status := v },
    field "statusDetail" false Reader.text? fun v s => { s with statusDetail := v }]
  blank := {}

end PeerLink
