import PeerLink.Proofs.Event.Payloads
import PeerLink.Proofs.Event.Topics
/-!
# Events on the wire

`Event.IsWire` characterizes the events that can be sent over the wire. Such an event has many
frames, and each of them is decoded to the event. Conversely every event that is decoded is of this
kind.

## Main definitions

* `Event.IsWire`: the events that can be sent over the wire.
* `Event.IsFrame`: the frames of an event.
* `Event.frame`: one frame of an event.

## Main statements

* `Event.decode_of_isFrame`: every frame of an event is decoded to the event.
* `Event.isFrame_frame`: every event that can be sent over the wire has a frame.
* `Event.decode_ok`: every decoded event can be sent over the wire.
-/

namespace PeerLink

open Json

/-! ## Frames of an event -/

/-- The payload has the fields of the definition `d`, without its name. -/
def ItemPayload.Defines (p : ItemPayload) (d : ItemDefinition) : Prop :=
  p.type = d.itemType ∧ (∀ x, x ∈ d.tags ↔ x ∈ p.tags) ∧ ∀ x, x ∈ d.groups ↔ x ∈ p.groupNames

theorem ItemPayload.Defines.definition {p : ItemPayload} {d : ItemDefinition}
    (h : p.Defines d) : p.definition d.name = d := by
  obtain ⟨htype, htags, hgroups⟩ := h
  rw [ItemPayload.definition, htype, NameSet.ofList_eq htags, NameSet.ofList_eq hgroups]

/-- The payload has this status and this detail. -/
def ThingStatusPayload.Reports (p : ThingStatusPayload) (status : String)
    (detail : Option String) : Prop :=
  p.status = status ∧ DetailStands detail p.statusDetail

namespace Event

/-- The events that can be sent over the wire: the names, except that of an added item, are segments
of a topic, and no value is a mark of a missing one. -/
def IsWire : Event → Prop
  | itemState name value | itemCommand name value => IsSegment name ∧ IsProper value
  | itemStateChanged name value oldValue =>
    IsSegment name ∧ IsProper value ∧ IsProper oldValue
  | itemAdded _ => True
  | itemUpdated d => IsSegment d.name
  | itemRemoved name | channelTriggered name _ _ => IsSegment name
  | groupItemStateChanged name item value oldValue =>
    IsSegment name ∧ IsSegment item ∧ IsProper value ∧ IsProper oldValue
  | thingStatusInfo name _ detail => IsSegment name ∧ IsProper detail
  | thingStatusInfoChanged name _ detail _ oldDetail =>
    IsSegment name ∧ IsProper detail ∧ IsProper oldDetail
  | error _ => False

/-- The documents of the payload of an event. An update begins with the new definition, a change of
status with the new and the old one, and further items may follow. -/
def HasDocument (e : Event) (doc : Draft) : Prop :=
  match e with
  | itemState _ value | itemCommand _ value =>
    ∃ p : StatePayload, p.GivenBy doc ∧ Stands value p.value
  | itemStateChanged _ value oldValue | groupItemStateChanged _ _ value oldValue =>
    ∃ p : StateChangedPayload, p.GivenBy doc ∧ Stands value p.value ∧ Stands oldValue p.oldValue
  | itemAdded d => ∃ p : ItemPayload, p.GivenBy doc ∧ p.name = d.name ∧ p.Defines d
  | itemUpdated d =>
    ∃ (p : ItemPayload) (first : Draft) (more : List Draft), doc = .array (first :: more) true ∧
      p.GivenBy first ∧ p.Defines d ∧ ∀ m ∈ more, ∃ q : ItemPayload, q.GivenBy m
  | channelTriggered _ channel event => TriggerPayload.GivenBy ⟨event, channel⟩ doc
  | thingStatusInfo _ status detail =>
    ∃ p : ThingStatusPayload, p.GivenBy doc ∧ p.Reports status detail
  | thingStatusInfoChanged _ status detail oldStatus oldDetail =>
    ∃ (p q : ThingStatusPayload) (new old : Draft) (more : List Draft),
      doc = .array (new :: old :: more) true ∧
      p.GivenBy new ∧ p.Reports status detail ∧ q.GivenBy old ∧ q.Reports oldStatus oldDetail ∧
      ∀ m ∈ more, ∃ r : ThingStatusPayload, r.GivenBy m
  | itemRemoved _ | error _ => False

/-- The payloads of the frames of an event. The payload of a removal is not read. -/
def HasPayload (e : Event) (payload : String) : Prop :=
  e.kind = .itemRemoved ∨ ∃ doc : Draft, doc.Spells payload ∧ e.HasDocument doc

/-- The frames of an event. -/
def IsFrame (l : TopicLayout) (e : Event) (raw : Json) : Prop :=
  ∃ f : RawFrame, f.GivenBy raw ∧ f.type = e.kind.wireName ∧ e.HasTopic l f.topic ∧
    e.HasPayload f.payload

/-! ## From frames to events -/

section Decode

variable {l : TopicLayout} {e : Event} {raw : Json} {topic payload : String} {doc : Draft}

theorem readPayload_of_spells {α : Type} {read : Reader α} {p : α} (h : doc.Spells payload)
    (hp : read doc = .ok p) : readPayload read payload = .ok p := by
  rw [readPayload, h.readText, hp]
  rfl

/-- The topic and the payload of a frame are decoded to the event. -/
theorem ofKind_of_hasPayload (hl : l.Aligned) (he : e.IsWire) (htopic : e.HasTopic l topic)
    (hpayload : e.HasPayload payload) : ofKind e.kind topic payload l = .ok e := by
  have hname {f : Family} (hkind : e.kind ≠ .itemAdded) (hfamily : e.family? = some f)
      (hname : IsSegment e.name) := htopic.nameAt hl hkind hfamily hname
  by_cases hremoved : e.kind = .itemRemoved
  · cases e <;> cases hremoved
    exact bind_eq_ok.2 ⟨_, hname (by simp [kind]) rfl he, rfl⟩
  obtain ⟨doc, hdoc, hdocument⟩ := hpayload.resolve_left hremoved
  have hwhole := hdoc.isWhole
  cases e with
  | itemState name value | itemCommand name value =>
    obtain ⟨p, hp, hvalue⟩ := hdocument
    refine bind_eq_ok.2 ⟨p, readPayload_of_spells hdoc (hp.read hwhole), ?_⟩
    refine bind_eq_ok.2 ⟨_, hname (by simp [kind]) rfl he.1, ?_⟩
    rw [hvalue.stateValue he.2]
    rfl
  | itemStateChanged name value oldValue =>
    obtain ⟨p, hp, hvalue, hold⟩ := hdocument
    refine bind_eq_ok.2 ⟨p, readPayload_of_spells hdoc (hp.read hwhole), ?_⟩
    refine bind_eq_ok.2 ⟨_, hname (by simp [kind]) rfl he.1, ?_⟩
    rw [hvalue.stateValue he.2.1, hold.stateValue he.2.2]
    rfl
  | itemAdded d =>
    obtain ⟨p, hp, hpname, hdefines⟩ := hdocument
    refine bind_eq_ok.2 ⟨p, readPayload_of_spells hdoc (hp.read hwhole), ?_⟩
    rw [hpname, hdefines.definition]
    rfl
  | itemUpdated d =>
    obtain ⟨p, first, more, rfl, hp, hdefines, hmore⟩ := hdocument
    obtain ⟨hfirst, hrest⟩ := List.forall_mem_cons.1 (isWhole_of_mem hwhole)
    obtain ⟨qs, hlist⟩ := list_of_forall₂ (.cons (hp.read hfirst) .nil) fun m hm =>
      (hmore m hm).imp fun q hq => hq.read (hrest m hm)
    refine bind_eq_ok.2 ⟨p :: qs, readPayload_of_spells hdoc hlist, ?_⟩
    refine bind_eq_ok.2 ⟨_, hname (by simp [kind]) rfl he, ?_⟩
    rw [show (itemUpdated d).name = d.name from rfl, hdefines.definition]
    rfl
  | itemRemoved name => exact absurd rfl hremoved
  | groupItemStateChanged name item value oldValue =>
    obtain ⟨p, hp, hvalue, hold⟩ := hdocument
    refine bind_eq_ok.2 ⟨p, readPayload_of_spells hdoc (hp.read hwhole), ?_⟩
    refine bind_eq_ok.2 ⟨item, htopic.memberAt hl he.1 he.2.1, ?_⟩
    refine bind_eq_ok.2 ⟨_, hname (by simp [kind]) rfl he.1, ?_⟩
    rw [hvalue.stateValue he.2.2.1, hold.stateValue he.2.2.2]
    rfl
  | channelTriggered name channel event =>
    refine bind_eq_ok.2 ⟨_, readPayload_of_spells hdoc (hdocument.read hwhole), ?_⟩
    exact bind_eq_ok.2 ⟨_, hname (by simp [kind]) rfl he, rfl⟩
  | thingStatusInfo name status detail =>
    obtain ⟨p, hp, rfl, hdetail⟩ := hdocument
    refine bind_eq_ok.2 ⟨p, readPayload_of_spells hdoc (hp.read hwhole), ?_⟩
    refine bind_eq_ok.2 ⟨_, hname (by simp [kind]) rfl he.1, ?_⟩
    rw [ThingStatusPayload.detail, hdetail.bind he.2]
    rfl
  | thingStatusInfoChanged name status detail oldStatus oldDetail =>
    obtain ⟨p, q, new, old, more, rfl, hp, ⟨rfl, hdetail⟩, hq, ⟨rfl, holdDetail⟩, hmore⟩ :=
      hdocument
    obtain ⟨hnew, hrest⟩ := List.forall_mem_cons.1 (isWhole_of_mem hwhole)
    obtain ⟨hold, hrest⟩ := List.forall_mem_cons.1 hrest
    obtain ⟨rs, hlist⟩ :=
      list_of_forall₂ (.cons (hp.read hnew) (.cons (hq.read hold) .nil)) fun m hm =>
        (hmore m hm).imp fun r hr => hr.read (hrest m hm)
    refine bind_eq_ok.2 ⟨p :: q :: rs, readPayload_of_spells hdoc hlist, ?_⟩
    refine bind_eq_ok.2 ⟨_, hname (by simp [kind]) rfl he.1, ?_⟩
    rw [ThingStatusPayload.detail, ThingStatusPayload.detail, hdetail.bind he.2.1,
      holdDetail.bind he.2.2]
    rfl
  | error => exact he.elim

/-- Every frame of an event is decoded to the event. -/
theorem decode_of_isFrame (hl : l.Aligned) (he : e.IsWire) (h : e.IsFrame l raw) :
    decode raw l = .ok (e.topic, e) := by
  obtain ⟨f, hraw, htype, htopic, hpayload⟩ := h
  have hkind : EventKind.ofWireName? f.type = some e.kind := by
    rw [htype]
    cases e with
    | error => exact he.elim
    | _ => rfl
  rw [decode, hraw.read]
  dsimp only
  rw [ofFrame, hkind]
  dsimp only
  rw [ofKind_of_hasPayload hl he htopic hpayload]
  rfl

/-- Every event decoded for a kind can be sent over the wire. -/
theorem ofKind_ok {kind : EventKind} (h : ofKind kind topic payload l = .ok e) :
    e.kind = kind ∧ e.IsWire := by
  cases kind with
  | itemState | itemCommand =>
    obtain ⟨p, -, h⟩ := bind_eq_ok.1 h
    obtain ⟨name, hname, h⟩ := bind_eq_ok.1 h
    cases h
    exact ⟨rfl, nameAt_ok hname, isProper_stateValue _⟩
  | itemStateChanged =>
    obtain ⟨p, -, h⟩ := bind_eq_ok.1 h
    obtain ⟨name, hname, h⟩ := bind_eq_ok.1 h
    cases h
    exact ⟨rfl, nameAt_ok hname, isProper_stateValue _, isProper_stateValue _⟩
  | itemAdded =>
    obtain ⟨p, -, h⟩ := bind_eq_ok.1 h
    cases h
    exact ⟨rfl, trivial⟩
  | itemUpdated =>
    obtain ⟨ps, -, h⟩ := bind_eq_ok.1 h
    cases ps with
    | nil => cases h
    | cons p ps =>
      obtain ⟨name, hname, h⟩ := bind_eq_ok.1 h
      cases h
      exact ⟨rfl, nameAt_ok hname⟩
  | itemRemoved =>
    obtain ⟨name, hname, h⟩ := bind_eq_ok.1 h
    cases h
    exact ⟨rfl, nameAt_ok hname⟩
  | groupItemStateChanged =>
    obtain ⟨p, -, h⟩ := bind_eq_ok.1 h
    obtain ⟨item, hitem, h⟩ := bind_eq_ok.1 h
    obtain ⟨name, hname, h⟩ := bind_eq_ok.1 h
    cases h
    exact ⟨rfl, nameAt_ok hname, memberAt_ok hitem, isProper_stateValue _, isProper_stateValue _⟩
  | channelTriggered =>
    obtain ⟨p, -, h⟩ := bind_eq_ok.1 h
    obtain ⟨name, hname, h⟩ := bind_eq_ok.1 h
    cases h
    exact ⟨rfl, nameAt_ok hname⟩
  | thingStatusInfo =>
    obtain ⟨p, -, h⟩ := bind_eq_ok.1 h
    obtain ⟨name, hname, h⟩ := bind_eq_ok.1 h
    cases h
    exact ⟨rfl, nameAt_ok hname, isProper_detail p⟩
  | thingStatusInfoChanged =>
    obtain ⟨ps, -, h⟩ := bind_eq_ok.1 h
    match ps, h with
    | new :: old :: _, h =>
      obtain ⟨name, hname, h⟩ := bind_eq_ok.1 h
      cases h
      exact ⟨rfl, nameAt_ok hname, isProper_detail new, isProper_detail old⟩
    | [_], h => cases h
    | [], h => cases h
  | error => cases h

/-- Every decoded event can be sent over the wire, and it has its own topic and its own kind. -/
theorem decode_ok {t : String} (h : decode raw l = .ok (t, e)) :
    e.IsWire ∧ t = e.topic ∧ frameType? raw = some e.kind.wireName := by
  unfold decode at h
  split at h
  · cases h
  · next f hf =>
    obtain ⟨e', he', ht⟩ := map_eq_ok.1 h
    cases ht
    unfold ofFrame at he'
    split at he'
    · cases he'
    · next kind hkind =>
      have hname : kind.wireName = f.type := by simpa using List.find?_some hkind
      cases hof : ofKind kind f.topic f.payload l with
      | error => rw [hof] at he'; cases he'
      | ok e' =>
        rw [hof] at he'
        cases he'
        obtain ⟨rfl, hwire⟩ := ofKind_ok hof
        exact ⟨hwire, rfl, by rw [frameType?_of_read hf, hname]⟩

end Decode

/-! ## From events to frames -/

/-- The text of a value. -/
def valueText (value : Option String) : Json := .text (value.getD "NULL")

/-- The document of a set of names. -/
def textItems (names : NameSet) : Json := .array (names.toList.map Json.text)

/-- The document of a definition. -/
def definitionDocument (d : ItemDefinition) : Json :=
  .object [("type", .text d.itemType), ("name", .text d.name), ("tags", textItems d.tags),
    ("groupNames", textItems d.groups)]

/-- The document of a status. -/
def statusDocument (status : String) (detail : Option String) : Json :=
  .object [("status", .text status), ("statusDetail", detail.elim .null .text)]

/-- The document of the payload of an event. -/
def document : Event → Json
  | itemState _ value | itemCommand _ value => .object [("value", valueText value)]
  | itemStateChanged _ value oldValue | groupItemStateChanged _ _ value oldValue =>
    .object [("value", valueText value), ("oldValue", valueText oldValue)]
  | itemAdded d => definitionDocument d
  | itemUpdated d => .array [definitionDocument d]
  | itemRemoved _ | error _ => .null
  | channelTriggered _ channel event => .object [("event", .text event), ("channel", .text channel)]
  | thingStatusInfo _ status detail => statusDocument status detail
  | thingStatusInfoChanged _ status detail oldStatus oldDetail =>
    .array [statusDocument status detail, statusDocument oldStatus oldDetail]

/-- The segments after the name in the topic of an event. -/
def member : Event → String
  | groupItemStateChanged _ item _ _ => "/" ++ item
  | _ => ""

/-- The topic of the frame of an event. -/
def frameTopic (l : TopicLayout) (e : Event) : String := l.root ++ "/" ++ (e.topic ++ e.member)

/-- A frame of an event. -/
def frame (l : TopicLayout) (e : Event) : Json :=
  .object [("topic", .text (frameTopic l e)), ("type", .text e.kind.wireName),
    ("payload", .text e.document.compact)]

section Frame

theorem stands_getD (value : Option String) : Stands value (value.getD "NULL") := by
  cases value with
  | none => exact List.mem_cons_self
  | some v => rfl

theorem detailStands_self (detail : Option String) : DetailStands detail detail := by
  cases detail with
  | none => exact fun _ h => by cases h
  | some v => rfl

theorem hasNoNumber_document (e : Event) : e.document.HasNoNumber := by
  have htexts (names : List String) : HaveNoNumber (names.map Json.text) := by
    induction names with
    | nil => trivial
    | cons n names ih => exact ⟨trivial, ih⟩
  have hdefinition (d : ItemDefinition) : (definitionDocument d).HasNoNumber :=
    ⟨trivial, trivial, htexts _, htexts _, trivial⟩
  have hstatus (status : String) (detail : Option String) :
      (statusDocument status detail).HasNoNumber := by
    cases detail <;> exact ⟨trivial, trivial, trivial⟩
  cases e with
  | itemAdded d => exact hdefinition d
  | itemUpdated d => exact ⟨hdefinition d, trivial⟩
  | thingStatusInfo => exact hstatus _ _
  | thingStatusInfoChanged => exact ⟨hstatus _ _, hstatus _ _, trivial⟩
  | itemRemoved | error => trivial
  | itemState | itemCommand => exact ⟨trivial, trivial⟩
  | itemStateChanged | groupItemStateChanged | channelTriggered =>
    exact ⟨trivial, trivial, trivial⟩

theorem drafts_texts (names : List String) :
    drafts (names.map Json.text) = names.map textDraft := by
  induction names with
  | nil => rfl
  | cons n names ih => rw [List.map_cons, drafts, ih]; rfl

/-- The payload of a definition. -/
def definitionPayload (d : ItemDefinition) : ItemPayload :=
  ⟨d.itemType, d.name, d.tags.toList, d.groups.toList⟩

theorem givenBy_definitionDocument (d : ItemDefinition) :
    (definitionPayload d).GivenBy (definitionDocument d).draft := by
  refine ⟨_, _, .inl rfl, .inl rfl, ?_⟩
  rw [textDrafts, textDrafts, ← drafts_texts, ← drafts_texts]
  exact Draft.hasFields_keyed (by simp)

theorem defines_definitionPayload (d : ItemDefinition) : (definitionPayload d).Defines d :=
  ⟨rfl, fun _ => Iff.rfl, fun _ => Iff.rfl⟩

theorem givenBy_statusDocument (status : String) (detail : Option String) :
    (⟨status, detail⟩ : ThingStatusPayload).GivenBy (statusDocument status detail).draft := by
  cases detail with
  | none => exact ⟨_, .inl rfl, Draft.hasFields_keyed (by simp)⟩
  | some s => exact ⟨_, rfl, Draft.hasFields_keyed (by simp)⟩

variable {e : Event}

theorem hasDocument_document (he : e.IsWire) (hremoved : e.kind ≠ .itemRemoved) :
    e.HasDocument e.document.draft := by
  cases e with
  | itemState name value | itemCommand name value =>
    exact ⟨⟨value.getD "NULL"⟩, Draft.hasFields_keyed (by simp), stands_getD value⟩
  | itemStateChanged name value oldValue | groupItemStateChanged name item value oldValue =>
    exact ⟨⟨value.getD "NULL", oldValue.getD "NULL"⟩, Draft.hasFields_keyed (by simp),
      stands_getD value, stands_getD oldValue⟩
  | itemAdded d =>
    exact ⟨_, givenBy_definitionDocument d, rfl, defines_definitionPayload d⟩
  | itemUpdated d =>
    exact ⟨_, _, [], rfl, givenBy_definitionDocument d, defines_definitionPayload d,
      List.forall_mem_nil _⟩
  | itemRemoved => exact absurd rfl hremoved
  | channelTriggered name channel event =>
    show TriggerPayload.GivenBy ⟨event, channel⟩ _
    exact Draft.hasFields_keyed (by simp)
  | thingStatusInfo name status detail =>
    exact ⟨_, givenBy_statusDocument status detail, rfl, detailStands_self detail⟩
  | thingStatusInfoChanged name status detail oldStatus oldDetail =>
    exact ⟨_, _, _, _, [], rfl, givenBy_statusDocument status detail,
      ⟨rfl, detailStands_self detail⟩, givenBy_statusDocument oldStatus oldDetail,
      ⟨rfl, detailStands_self oldDetail⟩, List.forall_mem_nil _⟩
  | error => exact he.elim

theorem hasTopic_frameTopic (l : TopicLayout) (he : e.IsWire) : e.HasTopic l (frameTopic l e) := by
  have htopic {f : Family} (hf : e.family? = some f) :
      frameTopic l e = l.root ++ "/" ++ f.root ++ "/" ++ (e.name ++ e.member) := by
    simp only [frameTopic, topic_of_family? hf, String.append_assoc]
  cases e with
  | itemAdded => trivial
  | error => exact he.elim
  | groupItemStateChanged name item value oldValue =>
    refine ⟨"", .inl rfl, ?_⟩
    rw [htopic rfl, String.append_empty]
    rfl
  | _ => exact ⟨_, "", rfl, .inl rfl, htopic rfl⟩

/-- `Event.frame` is a frame of every event that can be sent over the wire. -/
theorem isFrame_frame (l : TopicLayout) (he : e.IsWire) : e.IsFrame l (e.frame l) := by
  refine ⟨⟨frameTopic l e, e.document.compact, e.kind.wireName⟩, .inr ⟨_, .inl rfl, ?_⟩, rfl,
    hasTopic_frameTopic l he, ?_⟩
  · exact Draft.hasFields_keyed (by simp)
  · by_cases hremoved : e.kind = .itemRemoved
    · exact .inl hremoved
    · exact .inr ⟨_, spells_compact _ e.hasNoNumber_document.readsBack,
        hasDocument_document he hremoved⟩

end Frame

/-- Every frame of an event that can be sent over the wire is decoded to the event and its topic.
Every event decoded in any layout is of this kind, never the failure of a callback. Its frame names
its kind, and it has frames in both layouts in use. -/
theorem decode_roundTrip (l : TopicLayout) (raw : Json) (e : Event) :
    (l = .current ∨ l = .legacy → e.IsWire → e.IsFrame l raw →
      decode raw l = .ok (e.topic, e)) ∧
    ∀ t, decode raw l = .ok (t, e) →
      e.IsWire ∧ t = e.topic ∧ frameType? raw = some e.kind.wireName ∧ e.kind ≠ .error ∧
      ∀ l' : TopicLayout, l' = .current ∨ l' = .legacy →
        ∃ raw', e.IsFrame l' raw' ∧ decode raw' l' = .ok (t, e) := by
  refine ⟨fun hl he hraw => decode_of_isFrame (TopicLayout.aligned_of_inUse hl) he hraw, ?_⟩
  intro t h
  obtain ⟨he, rfl, htype⟩ := decode_ok h
  refine ⟨he, rfl, htype, ?_, fun l' hl' => ⟨e.frame l', isFrame_frame l' he, ?_⟩⟩
  · cases e with
    | error => exact he.elim
    | _ => simp [kind]
  · exact decode_of_isFrame (TopicLayout.aligned_of_inUse hl') he (isFrame_frame l' he)

/-- A payload with an escape, a blank and an unknown field. -/
def demoPayload : String := "\x7b\"x\":[], \"value\":\"\\u004fN\"\x7d"

theorem spells_demoPayload :
    (Draft.object [(some "x", .array [] true), (some "value", textDraft "ON")] true).Spells
      demoPayload := by
  have hvalue : TextWritten (some "ON") "\"\\u004fN\"".toList := by
    refine ⟨[.unit 0x4f, .char 'N'], "\\u004fN".toList, ?_, by decide, by decide⟩
    have hunit : Piece.Written (.unit 0x4f) "\\u004f".toList :=
      .unit (i := 0) (j := 0) (k := 4) (l := 15) (by decide) (by decide) (by decide) (by decide)
    exact .cons hunit (.cons (.plain (by decide) (by decide) (by decide)) .nil)
  have hmembers : Draft.MembersWritten
      [(some "x", .array [] true), (some "value", textDraft "ON")]
      "\"x\":[], \"value\":\"\\u004fN\"".toList := by
    have hkey : Padded (TextWritten (some "value")) (' ' :: quote "value") :=
      ⟨[' '], quote "value", [], by simp [IsBlank, isSpace], textWritten_quote _, isBlank_nil, rfl⟩
    exact ⟨quote "x", "[]".toList, " \"value\":\"\\u004fN\"".toList,
      padded_self (textWritten_quote "x"), padded_self ⟨rfl, [], isBlank_nil, rfl⟩,
      ⟨_, _, hkey, padded_self hvalue, by decide⟩, by decide⟩
  exact padded_self ⟨rfl, _, hmembers, by decide⟩

/-- A frame with its fields in another order and an unknown field. -/
def demoFrame : Json :=
  .object [("payload", .text demoPayload), ("source", .null),
    ("topic", .text "smarthome/items/Licht.Bad/state"), ("type", .text "ItemStateEvent")]

theorem isFrame_demoFrame :
    (itemState "Licht.Bad" (some "ON")).IsFrame .legacy demoFrame := by
  refine ⟨⟨"smarthome/items/Licht.Bad/state", demoPayload, "ItemStateEvent"⟩, ?_, rfl, ?_, ?_⟩
  · refine .inr ⟨_, .inl rfl, [("payload", textDraft demoPayload), ("source", .null),
      ("topic", textDraft "smarthome/items/Licht.Bad/state"),
      ("type", textDraft "ItemStateEvent")], rfl, ?_⟩
    have hperm (a b c : String × Draft) : ([a] ++ [b, c]).Perm ([b, c] ++ [a]) :=
      List.perm_append_comm
    exact hperm _ _ _
  · exact ⟨.items, "/state", rfl, .inr ⟨"state", rfl⟩, rfl⟩
  · exact .inr ⟨_, spells_demoPayload, ⟨"ON"⟩,
      ⟨[("x", .array [] true), ("value", textDraft "ON")], rfl, .refl _⟩, rfl⟩

/-- The frame is decoded to the event with this name and this value. -/
theorem decode_roundTrip_demo :
    (itemState "Licht.Bad" (some "ON")).IsFrame .legacy demoFrame ∧
      decode demoFrame .legacy = .ok ("items/Licht.Bad", itemState "Licht.Bad" (some "ON")) ∧
      frameType? demoFrame = some "ItemStateEvent" := by
  have hwire : (itemState "Licht.Bad" (some "ON")).IsWire := ⟨by decide, by decide⟩
  have hdecode := (decode_roundTrip .legacy demoFrame _).1 (.inr rfl) hwire isFrame_demoFrame
  exact ⟨isFrame_demoFrame, hdecode, ((decode_roundTrip .legacy demoFrame _).2 _ hdecode).2.2.1⟩

end Event

end PeerLink
