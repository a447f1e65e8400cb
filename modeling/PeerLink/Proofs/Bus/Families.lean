import PeerLink.Bus.Registry
import PeerLink.Proofs.Bus.TopicPattern
import PeerLink.Proofs.Event.Wire
/-!
# Listeners of a family

The topics of items, of things, of channels and of failures of callbacks have different roots. So a
listener of a name or of a family receives only events of this name or of this family.

## Main statements

* `Family.topic_inj`: a topic determines its family and its name.
* `accepts_topic_name`, `accepts_topic_family`, `accepts_topic_errors`: the events accepted by the
  pattern of a name, of a family and of the failures of callbacks.
* `Registry.mem_accepting_topic`: the listeners that accept an event under its topic.
-/

namespace PeerLink

open Text TopicPattern

namespace Family

/-- A topic determines its family and its name. -/
theorem topic_inj {f g : Family} {name name' : String} :
    f.root ++ "/" ++ name = g.root ++ "/" ++ name' ↔ f = g ∧ name = name' := by
  constructor
  · intro h
    have hfamily : f = g := by
      -- the roots differ in their first characters
      have hhead := congrArg (·.toList.head?) h
      simp only [String.toList_append] at hhead
      cases f <;> cases g <;> simp [root] at hhead ⊢
    subst hfamily
    exact ⟨rfl, (String.append_right_inj _).1 h⟩
  · rintro ⟨rfl, rfl⟩
    rfl

theorem topic_ne_errorTopic (f : Family) (name : String) :
    f.root ++ "/" ++ name ≠ Event.errorTopic := by
  intro h
  have hhead := congrArg (·.toList.head?) h
  cases f <;> simp [root, Event.errorTopic] at hhead

theorem not_mem_root (f : Family) : '*' ∉ (f.root ++ "/").toList := by
  cases f <;> decide

end Family

namespace Event

theorem topic_of_isError {e : Event} (h : e.isError = true) : e.topic = errorTopic := by
  cases e <;> simp [isError, kind] at h
  rfl

/-- A topic with the root of a family is that of an event of the family. -/
theorem topic_eq_iff (e : Event) (f : Family) (name : String) :
    e.topic = f.root ++ "/" ++ name ↔ e.family? = some f ∧ e.name = name := by
  cases hfamily : e.family? with
  | none =>
    rw [topic_of_isError (family?_eq_none_iff.1 hfamily)]
    simpa using (f.topic_ne_errorTopic name).symm
  | some g =>
    rw [topic_of_family? hfamily, Family.topic_inj, Option.some_inj]

theorem topic_eq_errorTopic_iff (e : Event) : e.topic = errorTopic ↔ e.isError = true := by
  refine ⟨fun h => ?_, topic_of_isError⟩
  rw [← family?_eq_none_iff]
  cases hfamily : e.family? with
  | none => rfl
  | some f => exact absurd (topic_of_family? hfamily ▸ h) (f.topic_ne_errorTopic e.name)

end Event

/-! ## Patterns of topics -/

section Patterns

variable (e : Event) (f : Family)

/-- The pattern of a name accepts exactly the events of the family with this name. -/
theorem accepts_topic_name {name : String} (h : '*' ∉ name.toList) :
    (ofString (f.root ++ "/" ++ name)).accepts e.topic = true ↔
      e.family? = some f ∧ e.name = name := by
  have hmem : '*' ∉ (f.root ++ "/" ++ name).toList := by
    rw [String.toList_append, List.mem_append, not_or]
    exact ⟨f.not_mem_root, h⟩
  rw [ofString_of_not_mem hmem, accepts, decide_eq_true_iff, eq_comm, e.topic_eq_iff]

/-- The pattern of a family accepts exactly its events whose names contain no line feed. -/
theorem accepts_topic_family :
    (ofString (f.root ++ "/*")).accepts e.topic = true ↔
      e.family? = some f ∧ '\n' ∉ e.name.toList := by
  have hmem : '*' ∈ (f.root ++ "/*").toList := by simp
  have hstar : f.root ++ "/*" ≠ "*" := by cases f <;> decide
  have hpieces : pieces '*' (f.root ++ "/*") = [f.root ++ "/", ""] := by cases f <;> decide
  rw [accepts_of_mem hmem hstar, denotes_toList_iff hpieces]
  constructor
  · rintro ⟨runs, hlength, hruns, htopic⟩
    obtain ⟨run, rfl⟩ := List.length_eq_one_iff.1 hlength
    have htopic : e.topic = f.root ++ "/" ++ run := by simpa [String.join] using htopic
    obtain ⟨hfamily, rfl⟩ := (e.topic_eq_iff f run).1 htopic
    exact ⟨hfamily, hruns _ List.mem_cons_self⟩
  · rintro ⟨hfamily, hname⟩
    refine ⟨[e.name], rfl, by simpa using hname, ?_⟩
    rw [Event.topic_of_family? hfamily]
    simp [String.join]

/-- The pattern of the failures of callbacks accepts exactly these. -/
theorem accepts_topic_errors :
    (ofString Event.errorTopic).accepts e.topic = true ↔ e.isError = true := by
  rw [ofString_of_not_mem (by decide), accepts, decide_eq_true_iff, eq_comm,
    e.topic_eq_errorTopic_iff]

end Patterns

/-! ## Listeners -/

namespace Registry

/-- The listeners that accept an event under its topic. A listener of a name accepts the events of
the family with this name, a listener of a family those whose names contain no line feed, and a
listener of failures only failures, none of which is decoded from the wire. -/
theorem mem_accepting_topic (r : Registry) (l : Listener) (hl : l ∈ r.listeners) (e : Event) :
    (∀ (f : Family) (name : String), '*' ∉ name.toList →
      l.pattern = ofString (f.root ++ "/" ++ name) →
      (l ∈ r.accepting e.topic e ↔
        e.family? = some f ∧ e.name = name ∧ l.filter.acceptsKind e.kind = true)) ∧
    (∀ f : Family, l.pattern = ofString (f.root ++ "/*") →
      (l ∈ r.accepting e.topic e ↔
        e.family? = some f ∧ '\n' ∉ e.name.toList ∧ l.filter.acceptsKind e.kind = true)) ∧
    (l.pattern = ofString "errors" →
      (l ∈ r.accepting e.topic e ↔ e.isError = true ∧ l.filter.acceptsKind e.kind = true)) ∧
    ∀ (raw : Json) (layout : TopicLayout) (topic : String),
      Event.decode raw layout = .ok (topic, e) →
        topic ≠ "errors" ∧ (l.pattern = ofString "errors" → l ∉ r.accepting topic e) := by
  have haccepting (topic : String) : l ∈ r.accepting topic e ↔
      l.pattern.accepts topic = true ∧ l.filter.acceptsKind e.kind = true := by
    simp [accepting, Listener.accepts, EventFilter.accepts, hl]
  refine ⟨fun f name hname hpattern => ?_, fun f hpattern => ?_, fun hpattern => ?_, ?_⟩
  · rw [haccepting, hpattern, accepts_topic_name e f hname, and_assoc]
  · rw [haccepting, hpattern, accepts_topic_family e f, and_assoc]
  · rw [haccepting, hpattern]
    exact and_congr_left' (accepts_topic_errors e)
  · intro raw layout topic h
    obtain ⟨hwire, rfl, -⟩ := Event.decode_ok h
    have herror : e.isError ≠ true := by
      cases e with
      | error => exact hwire.elim
      | _ => simp [Event.isError, Event.kind]
    refine ⟨mt e.topic_eq_errorTopic_iff.1 herror, fun hpattern haccepted => herror ?_⟩
    rw [haccepting, hpattern] at haccepted
    exact (accepts_topic_errors e).1 haccepted.1

/-- A listener of states of items. -/
def demoListener (id : Nat) (pattern : String) : Listener where
  id
  pattern := ofString pattern
  filter := .kinds [.itemState]
  callback := { name := "lights", isAsync := false, deed := .succeed }

/-- A listener of a name, one of its family and one of failures. -/
def demoRegistry : Registry where
  listeners :=
    [demoListener 1 "items/Licht.Bad", demoListener 2 "items/*", demoListener 3 "errors"]
  nextId := 4

/-- The state of an item. -/
def demoState : Event := .itemState "Licht.Bad" (some "ON")

/-- The listener of the name and that of the family accept the state. -/
theorem mem_accepting_topic_demo :
    Event.decode (demoState.frame .legacy) .legacy = .ok (demoState.topic, demoState) ∧
      demoListener 1 "items/Licht.Bad" ∈ demoRegistry.accepting demoState.topic demoState ∧
      demoListener 2 "items/*" ∈ demoRegistry.accepting demoState.topic demoState ∧
      demoListener 3 "errors" ∉ demoRegistry.accepting demoState.topic demoState := by
  have hwire : demoState.IsWire := ⟨by decide, by decide⟩
  have hdecode := Event.decode_of_isFrame (TopicLayout.aligned_of_inUse (.inr rfl)) hwire
    (Event.isFrame_frame .legacy hwire)
  have hnamed := (mem_accepting_topic demoRegistry (demoListener 1 "items/Licht.Bad")
    (by simp [demoRegistry]) demoState).1 .items "Licht.Bad" (by decide) rfl
  have hfamily := (mem_accepting_topic demoRegistry (demoListener 2 "items/*")
    (by simp [demoRegistry]) demoState).2.1 .items rfl
  have herrors := (mem_accepting_topic demoRegistry (demoListener 3 "errors")
    (by simp [demoRegistry]) demoState).2.2.2 _ _ _ hdecode
  exact ⟨hdecode, hnamed.2 ⟨rfl, rfl, rfl⟩, hfamily.2 ⟨rfl, by decide, rfl⟩, herrors.2 rfl⟩

end Registry

end PeerLink
