import Mathlib.Data.List.Sort
import PeerLink.Event.Decode
import PeerLink.Proofs.Json.Compact
import PeerLink.Proofs.Json.Records
/-!
# Payloads read from documents

The fields of a payload may be in any order, with unknown fields among them. A missing value is
written as one of three marks. A missing detail may also be null or left out, and empty tags and
groups may be left out.

## Main definitions

* `StatePayload.GivenBy`, `StateChangedPayload.GivenBy`, …: the documents of a payload.
* `RawFrame.GivenBy`: the values of a frame.
* `Stands`, `DetailStands`: the texts of a value and of a detail.

## Main statements

* `StatePayload.GivenBy.read`, …: each of the documents is read as the payload.
* `RawFrame.GivenBy.read`: each of the values is read as the frame.
* `frameType?_of_read`: the type of a frame that is read.
-/

namespace PeerLink

open Json

/-! ## Missing values -/

/-- The texts that mark a missing value. -/
def missingMarks : List String := ["NULL", "UNDEF", "NONE"]

/-- A value that is not one of the marks. -/
def IsProper (value : Option String) : Prop := ∀ s ∈ value, s ∉ missingMarks

instance (value : Option String) : Decidable (IsProper value) :=
  match value with
  | none => .isTrue fun _ h => by cases h
  | some s => decidable_of_iff (s ∉ missingMarks) (by simp [IsProper])

/-- The texts of a value. -/
def Stands (value : Option String) (s : String) : Prop :=
  match value with
  | none => s ∈ missingMarks
  | some v => s = v

/-- The texts of a detail, which may be left out if it is missing. -/
def DetailStands (detail : Option String) (given : Option String) : Prop :=
  match detail with
  | none => ∀ s ∈ given, s ∈ missingMarks
  | some v => given = some v

theorem stateValue_eq (s : String) :
    stateValue s = if s ∈ missingMarks then none else some s := by
  simp [stateValue, missingMarks]

theorem Stands.stateValue {value : Option String} {s : String} (h : Stands value s)
    (hvalue : IsProper value) : stateValue s = value := by
  rw [stateValue_eq]
  cases value with
  | none => exact if_pos h
  | some v =>
    obtain rfl : s = v := h
    exact if_neg (hvalue s rfl)

theorem DetailStands.bind {detail given : Option String} (h : DetailStands detail given)
    (hdetail : IsProper detail) : given.bind PeerLink.stateValue = detail := by
  cases detail with
  | none => cases given with
    | none => rfl
    | some s => exact Stands.stateValue (h s rfl) hdetail
  | some v =>
    obtain rfl : given = some v := h
    have hstands : Stands (some v) v := rfl
    exact hstands.stateValue hdetail

theorem isProper_stateValue (s : String) : IsProper (stateValue s) := by
  rw [stateValue_eq]
  split
  · exact fun _ h => by cases h
  · next h => rintro _ ⟨⟩; exact h

theorem isProper_detail (p : ThingStatusPayload) : IsProper p.detail := by
  rw [ThingStatusPayload.detail]
  cases p.statusDetail with
  | none => exact fun _ h => by cases h
  | some s => exact isProper_stateValue s

/-! ## Sets of names -/

namespace NameSet

theorem mem_ofList {names : List String} {x : String} : x ∈ ofList names ↔ x ∈ names := by
  have hfold (s : NameSet) : x ∈ names.foldl insert s ↔ x ∈ s ∨ x ∈ names := by
    induction names generalizing s with
    | nil => simp
    | cons n rest ih => rw [List.foldl_cons, ih, mem_insert, List.mem_cons]; tauto
  rw [ofList, hfold]
  exact or_iff_right List.not_mem_nil

theorem ext_mem {s t : NameSet} (h : ∀ x, x ∈ s ↔ x ∈ t) : s = t := by
  obtain ⟨xs, hxs⟩ := s
  obtain ⟨ys, hys⟩ := t
  obtain rfl : xs = ys := hxs.eq_of_mem_iff hys h
  rfl

/-- `ofList` of any list of the names of a set is the set. -/
theorem ofList_eq {s : NameSet} {names : List String} (h : ∀ x, x ∈ s ↔ x ∈ names) :
    ofList names = s :=
  ext_mem fun x => mem_ofList.trans (h x).symm

end NameSet

/-! ## The documents of a payload -/

/-- The document of a text. -/
def textDraft (s : String) : Draft := .text (some s)

/-- The document of a list of texts. -/
def textDrafts (names : List String) : Draft := .array (names.map textDraft) true

/-- The member for a list of names, which may be left out if the list is empty. -/
def NamesGiven (key : String) (names : List String) (members : List (String × Draft)) : Prop :=
  members = [(key, textDrafts names)] ∨ names = [] ∧ members = []

/-- The documents of a state. -/
def StatePayload.GivenBy (p : StatePayload) (d : Draft) : Prop :=
  d.HasFields ["value"] [("value", textDraft p.value)]

/-- The documents of a change of state. -/
def StateChangedPayload.GivenBy (p : StateChangedPayload) (d : Draft) : Prop :=
  d.HasFields ["value", "oldValue"]
    [("value", textDraft p.value), ("oldValue", textDraft p.oldValue)]

/-- The documents of a definition. -/
def ItemPayload.GivenBy (p : ItemPayload) (d : Draft) : Prop :=
  ∃ tags groups, NamesGiven "tags" p.tags tags ∧ NamesGiven "groupNames" p.groupNames groups ∧
    d.HasFields ["type", "name", "tags", "groupNames"]
      (("type", textDraft p.type) :: ("name", textDraft p.name) :: (tags ++ groups))

/-- The documents of an event of a channel. -/
def TriggerPayload.GivenBy (p : TriggerPayload) (d : Draft) : Prop :=
  d.HasFields ["event", "channel"]
    [("event", textDraft p.event), ("channel", textDraft p.channel)]

/-- The documents of a status. -/
def ThingStatusPayload.GivenBy (p : ThingStatusPayload) (d : Draft) : Prop :=
  ∃ detail,
    (match p.statusDetail with
      | some s => detail = [("statusDetail", textDraft s)]
      | none => detail = [("statusDetail", .null)] ∨ detail = []) ∧
    d.HasFields ["status", "statusDetail"] (("status", textDraft p.status) :: detail)

/-- The values of a frame: an array of its fields in order, or an object, in which an empty payload
may be left out. -/
def RawFrame.GivenBy (f : RawFrame) (raw : Json) : Prop :=
  raw = .array [.text f.topic, .text f.payload, .text f.type] ∨
    ∃ payload, (payload = [("payload", textDraft f.payload)] ∨ f.payload = "" ∧ payload = []) ∧
      raw.draft.HasFields ["topic", "payload", "type"]
        (("topic", textDraft f.topic) :: ("type", textDraft f.type) :: payload)

/-! ## Reading the documents -/

section Read

open RecordShape

theorem StatePayload.independent : shape.Independent := by
  simp [Independent, shape]

theorem StateChangedPayload.independent : shape.Independent := by
  simp [Independent, shape, field_commutes]

theorem ItemPayload.independent : shape.Independent := by
  simp [Independent, shape, field_commutes]

theorem TriggerPayload.independent : shape.Independent := by
  simp [Independent, shape, field_commutes]

theorem ThingStatusPayload.independent : shape.Independent := by
  simp [Independent, shape, field_commutes]

theorem RawFrame.independent : shape.Independent := by
  simp [Independent, shape, field_commutes]

theorem text_textDraft (s : String) : Reader.text (textDraft s) = .ok s := rfl

theorem list_textDrafts (names : List String) :
    Reader.list Reader.text (textDrafts names) = .ok names := by
  rw [textDrafts, Reader.list]
  induction names with
  | nil => rfl
  | cons n rest ih =>
    rw [List.map_cons, Reader.items, ih]
    rfl

variable {d : Draft}

theorem StatePayload.GivenBy.read {p : StatePayload} (h : p.GivenBy d) (hd : d.isWhole = true) :
    Reader.recordText shape d = .ok p :=
  Draft.HasFields.record independent h hd rfl

theorem StateChangedPayload.GivenBy.read {p : StateChangedPayload} (h : p.GivenBy d)
    (hd : d.isWhole = true) : Reader.recordText shape d = .ok p :=
  Draft.HasFields.record independent h hd rfl

theorem TriggerPayload.GivenBy.read {p : TriggerPayload} (h : p.GivenBy d)
    (hd : d.isWhole = true) : Reader.recordText shape d = .ok p :=
  Draft.HasFields.record independent h hd rfl

theorem ThingStatusPayload.GivenBy.read {p : ThingStatusPayload} (h : p.GivenBy d)
    (hd : d.isWhole = true) : Reader.recordText shape d = .ok p := by
  obtain ⟨detail, hdetail, h⟩ := h
  obtain ⟨status, _ | s⟩ := p
  · rcases hdetail with rfl | rfl <;> exact Draft.HasFields.record independent h hd rfl
  · obtain rfl := hdetail
    exact Draft.HasFields.record independent h hd rfl

theorem ItemPayload.GivenBy.read {p : ItemPayload} (h : p.GivenBy d) (hd : d.isWhole = true) :
    Reader.recordText shape d = .ok p := by
  obtain ⟨tags, groups, htags, hgroups, h⟩ := h
  obtain ⟨type, name, tagNames, groupNames⟩ := p
  refine Draft.HasFields.record independent h hd ?_
  rcases htags with rfl | ⟨rfl, rfl⟩ <;> rcases hgroups with rfl | ⟨rfl, rfl⟩ <;>
    simp [keyed, takeMembers, missing?, shape, field, text_textDraft, list_textDrafts, Except.map,
      bind, Except.bind]

theorem RawFrame.GivenBy.read {f : RawFrame} {raw : Json} (h : f.GivenBy raw) :
    Reader.recordValue shape raw.draft = .ok f := by
  rcases h with rfl | ⟨payload, hpayload, h⟩
  · rfl
  · obtain ⟨topic, text, type⟩ := f
    rcases hpayload with rfl | ⟨rfl, rfl⟩ <;>
      exact Draft.HasFields.record independent h (isWhole_draft raw) rfl

/-- An array of readable items is read as the list of their values, here `xs` for `ds`. -/
theorem list_of_forall₂ {α : Type} {read : Reader α} {ds more : List Draft} {xs : List α}
    (h : List.Forall₂ (fun d x => read d = .ok x) ds xs) (hmore : ∀ d ∈ more, ∃ x, read d = .ok x) :
    ∃ ys, Reader.list read (.array (ds ++ more) true) = .ok (xs ++ ys) := by
  induction h with
  | nil =>
    induction more with
    | nil => exact ⟨[], rfl⟩
    | cons d more ih =>
      obtain ⟨⟨x, hx⟩, hmore⟩ := List.forall_mem_cons.1 hmore
      obtain ⟨ys, hys⟩ := ih hmore
      exact ⟨x :: ys, bind_eq_ok.2 ⟨x, hx, bind_eq_ok.2 ⟨ys, hys, rfl⟩⟩⟩
  | cons hd _ ih =>
    obtain ⟨ys, hys⟩ := ih
    exact ⟨ys, bind_eq_ok.2 ⟨_, hd, bind_eq_ok.2 ⟨_, hys, rfl⟩⟩⟩

theorem isWhole_of_mem {ds : List Draft} (h : (Draft.array ds true).isWhole = true) :
    ∀ d ∈ ds, d.isWhole = true := by
  have hall : Draft.allWhole ds = true := by simpa [Draft.isWhole] using h
  clear h
  induction ds with
  | nil => exact List.forall_mem_nil _
  | cons d ds ih =>
    obtain ⟨hd, hds⟩ := Bool.and_eq_true_iff.1 hall
    exact List.forall_mem_cons.2 ⟨hd, ih hds⟩

/-! ## The type of a frame -/

/-- The type that a frame names. -/
def frameType? : Json → Option String
  | .array items => items[2]?.bind Json.text?
  | raw => (raw.lookup "type").bind Json.text?

theorem RawFrame.stores_type : shape.Stores "type" Reader.text RawFrame.type where
  required := by simp [shape, field]
  own := by simp [shape, field, map_eq_ok]
  other := by simp [shape, field, map_eq_ok]

theorem lookup_memberDrafts (key : String) (members : List (String × Json)) :
    (memberDrafts members).lookup (some key) = (members.lookup key).map Json.draft := by
  induction members with
  | nil => rfl
  | cons m ms ih =>
    rw [memberDrafts, List.lookup_cons, List.lookup_cons, ih, Option.some_beq_some]
    cases key == m.1 <;> rfl

theorem text?_of_read {v : Json} {s : String} (h : Reader.text v.draft = .ok s) :
    v.text? = some s := by
  cases v <;> cases h
  rfl

/-- The type of a frame that was read is the one that it names. -/
theorem frameType?_of_read {raw : Json} {f : RawFrame}
    (h : Reader.recordValue RawFrame.shape raw.draft = .ok f) : frameType? raw = some f.type := by
  cases raw with
  | object members =>
    obtain ⟨d, hd, hread⟩ := RawFrame.stores_type.lookup List.not_mem_nil h
    rw [lookup_memberDrafts] at hd
    obtain ⟨v, hv, rfl⟩ := Option.map_eq_some_iff.1 hd
    show (members.lookup "type").bind Json.text? = _
    rw [hv]
    exact text?_of_read hread
  | array items =>
    match items, h with
    | [], h => cases h
    | _ :: [], h =>
      obtain ⟨_, -, h⟩ := bind_eq_ok.1 h
      cases h
    | _ :: _ :: [], h =>
      obtain ⟨_, -, h⟩ := bind_eq_ok.1 h
      obtain ⟨_, -, h⟩ := bind_eq_ok.1 h
      cases h
    | _ :: _ :: type :: rest, h =>
      obtain ⟨_, -, h⟩ := bind_eq_ok.1 h
      obtain ⟨_, -, h⟩ := bind_eq_ok.1 h
      obtain ⟨_, htype, h⟩ := bind_eq_ok.1 h
      obtain ⟨s, hs, rfl⟩ := map_eq_ok.1 htype
      cases rest with
      | nil => cases h; exact text?_of_read hs
      | cons => cases h
  | _ => cases h

end Read

end PeerLink
