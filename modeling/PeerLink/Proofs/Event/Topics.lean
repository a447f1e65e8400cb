import PeerLink.Event.Decode
import PeerLink.Proofs.Text.Pieces
/-!
# Topics of events

The topics of items, of things and of channels have different first segments, and the second segment
is the name of the subject. On the wire a topic has the root of the server before these segments,
and may have further segments after them.

## Main definitions

* `Family`: items, things and channels.
* `IsSegment`: a name that is one segment of a topic.
* `Event.HasTopic`: the topics of the frames of an event.

## Main statements

* `Event.topic_of_family?`: the topic of an event.
* `nameAt_append`, `memberAt_append`: the name and the member of a topic.
* `nameAt_ok`, `memberAt_ok`: the name and the member of any topic are segments.
-/

namespace PeerLink

open Text

/-! ## Families -/

/-- The families of topics, without that of the failures of callbacks. -/
inductive Family where
  | items
  | things
  | channels
  deriving DecidableEq, Repr

/-- The first segment of the topics of a family. -/
def Family.root : Family → String
  | items => "items"
  | things => "things"
  | channels => "channels"

/-- The offset of the name in the topics of a family. -/
def TopicLayout.start (l : TopicLayout) : Family → Nat
  | .items => l.itemStart
  | .things => l.thingStart
  | .channels => l.channelStart

namespace Event

/-- The family of an event, which the failure of a callback does not have. -/
def family? : Event → Option Family
  | channelTriggered .. => some .channels
  | thingStatusInfo .. | thingStatusInfoChanged .. => some .things
  | error _ => none
  | _ => some .items

/-- The topic of an event consists of the root of its family and its name. -/
theorem topic_of_family? {e : Event} {f : Family} (h : e.family? = some f) :
    e.topic = f.root ++ "/" ++ e.name := by
  cases e <;> cases h <;> rfl

theorem family?_eq_none_iff {e : Event} : e.family? = none ↔ e.isError = true := by
  cases e <;> simp [family?, isError, kind]

end Event

/-! ## Segments -/

/-- A name that is one segment of a topic. -/
def IsSegment (s : String) : Prop := s ≠ "" ∧ '/' ∉ s.toList

instance (s : String) : Decidable (IsSegment s) := inferInstanceAs (Decidable (_ ∧ _))

/-- `s` is empty, or it begins with a slash. -/
def IsTail (s : String) : Prop := s = "" ∨ ∃ more, s = "/" ++ more

section Cut

variable {topic name item tail : String} {start : Nat}

/-- The segments of a topic after a prefix. -/
theorem segmentsAt_append (first rest : String) :
    segmentsAt (first ++ rest) (byteCount first.toList) = pieces '/' rest := by
  rw [segmentsAt, String.toList_append, dropBytes?_append]
  rfl

theorem pieces_name (hname : IsSegment name) (htail : IsTail tail) :
    ∃ more, pieces '/' (name ++ tail) = name :: more := by
  rcases htail with rfl | ⟨more, rfl⟩
  · exact ⟨[], by rw [String.append_empty, pieces_of_not_mem hname.2]⟩
  · exact ⟨_, pieces_append_cons hname.2 more⟩

/-- The name of a topic. -/
theorem nameAt_append (first : String) (hname : IsSegment name) (htail : IsTail tail)
    (hstart : start = byteCount first.toList) :
    nameAt (first ++ (name ++ tail)) start = .ok name := by
  obtain ⟨more, hmore⟩ := pieces_name hname htail
  rw [nameAt, hstart, segmentsAt_append, hmore]
  exact if_neg (by simpa using hname.1)

/-- The member of a topic. -/
theorem memberAt_append (first : String) (hname : IsSegment name) (hitem : IsSegment item)
    (htail : IsTail tail) (hstart : start = byteCount first.toList) :
    memberAt (first ++ (name ++ ("/" ++ (item ++ tail)))) start = .ok item := by
  obtain ⟨more, hmore⟩ := pieces_name hitem htail
  have hpieces : pieces '/' (name ++ ("/" ++ (item ++ tail))) = name :: item :: more := by
    rw [← hmore]
    exact pieces_append_cons hname.2 _
  rw [memberAt, hstart, segmentsAt_append, hpieces]
  exact if_neg (by simpa using hitem.1)

theorem not_mem_of_mem_segmentsAt {s : String} (h : s ∈ segmentsAt topic start) :
    '/' ∉ s.toList := by
  unfold segmentsAt at h
  split at h
  · obtain ⟨cs, hcs, rfl⟩ := List.mem_map.1 h
    rw [String.toList_ofList]
    exact not_mem_of_mem_cutAt hcs
  · cases h

/-- The name of any topic is a segment. -/
theorem nameAt_ok (h : nameAt topic start = .ok name) : IsSegment name := by
  unfold nameAt at h
  split at h
  · next s more hsegments =>
    split at h
    · cases h
    · next hne =>
      cases h
      exact ⟨by simpa using hne, not_mem_of_mem_segmentsAt (hsegments ▸ List.mem_cons_self)⟩
  · cases h

/-- The member of any topic is a segment. -/
theorem memberAt_ok (h : memberAt topic start = .ok item) : IsSegment item := by
  unfold memberAt at h
  split at h
  · next s item more hsegments =>
    split at h
    · cases h
    · next hne =>
      cases h
      exact ⟨by simpa using hne, not_mem_of_mem_segmentsAt
        (hsegments ▸ List.mem_cons_of_mem _ List.mem_cons_self)⟩
  · cases h

end Cut

/-! ## Topics on the wire -/

/-- The offsets of a layout are those after its root and the root of a family. -/
def TopicLayout.Aligned (l : TopicLayout) : Prop :=
  ∀ f : Family, l.start f = byteCount (l.root ++ "/" ++ f.root ++ "/").toList

theorem TopicLayout.aligned_of_inUse {l : TopicLayout} (h : l = current ∨ l = legacy) :
    l.Aligned := by
  intro f
  rcases h with rfl | rfl <;> cases f <;> decide

/-- The topics of the frames of an event. The topic of an added definition is not read. -/
def Event.HasTopic (l : TopicLayout) (e : Event) (topic : String) : Prop :=
  match e with
  | itemAdded _ => True
  | groupItemStateChanged name item _ _ =>
    ∃ tail, IsTail tail ∧
      topic = l.root ++ "/" ++ Family.items.root ++ "/" ++ (name ++ ("/" ++ (item ++ tail)))
  | e =>
    ∃ f tail, e.family? = some f ∧ IsTail tail ∧
      topic = l.root ++ "/" ++ f.root ++ "/" ++ (e.name ++ tail)

section Wire

variable {l : TopicLayout} {e : Event} {topic : String}

/-- The name of the topic of a frame is the name of the event. -/
theorem Event.HasTopic.nameAt {f : Family} (h : e.HasTopic l topic) (hl : l.Aligned)
    (hkind : e.kind ≠ .itemAdded) (hfamily : e.family? = some f) (hname : IsSegment e.name) :
    nameAt topic (l.start f) = .ok e.name := by
  obtain ⟨tail, htail, rfl⟩ : ∃ tail, IsTail tail ∧
      topic = l.root ++ "/" ++ f.root ++ "/" ++ (e.name ++ tail) := by
    cases e with
    | itemAdded d => exact absurd rfl hkind
    | groupItemStateChanged name item value oldValue =>
      obtain ⟨tail, -, rfl⟩ := h
      cases hfamily
      exact ⟨"/" ++ (item ++ tail), .inr ⟨_, rfl⟩, rfl⟩
    | _ =>
      obtain ⟨f', tail, hf', htail, rfl⟩ := h
      obtain rfl := Option.some.inj (hf'.symm.trans hfamily)
      exact ⟨tail, htail, rfl⟩
  exact nameAt_append _ hname htail (hl f)

/-- The member of the topic of a frame is the member of the change of a group. -/
theorem Event.HasTopic.memberAt {name item : String} {value oldValue : Option String}
    (h : (groupItemStateChanged name item value oldValue).HasTopic l topic) (hl : l.Aligned)
    (hname : IsSegment name) (hitem : IsSegment item) : memberAt topic l.itemStart = .ok item := by
  obtain ⟨tail, htail, rfl⟩ := h
  exact memberAt_append _ hname hitem htail (hl .items)

end Wire

end PeerLink
