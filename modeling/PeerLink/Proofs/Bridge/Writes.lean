import PeerLink.Proofs.Bridge.Sound
import PeerLink.Proofs.Bridge.Traffic
/-!
# Mutating requests

Callers, plugins, callbacks and the pinging send their requests through the view that the supervisor
publishes. The view admits a mutating request iff it is open and its status accepts writes. Such a
request is sent at the instant of the check, to the session of the view.

## Main definitions

* `World.sends`, `World.sent`: the requests sent at an occurrence and on a course.

## Main statements

* `World.requests_undergo`: the requests of an occurrence are appended to the record, and the view
  has admitted the mutating ones.
* `World.writes_of_course`: on every course of the bridge, a mutating request is sent only while the
  connection is online, writable and not shut down.
-/

namespace PeerLink

open Transport Connection

/-- A mutating request is admitted only while the view is open and accepts writes, and it goes to
the session of the view. -/
theorem Connection.ClientView.of_sent {v : ClientView} {r : Request} {epoch : Nat} {out : Outgoing}
    (h : v.admit r = .sent epoch out) (hm : out.method.isMutating) :
    v.closed = false ∧ v.status.acceptsWrites ∧
      ∃ session, v.session = some session ∧ out = session.outgoing r := by
  unfold ClientView.admit at h
  split at h
  · cases h
  next hc =>
    split at h
    · cases h
    next session hs =>
      split at h
      · cases h
      next hw =>
        obtain ⟨rfl, rfl⟩ := Admission.sent.inj h
        have hr : r.method.isMutating := hm
        rw [hr, Bool.true_and, Bool.not_eq_true', Bool.not_eq_false] at hw
        exact ⟨by simpa using hc, hw, session, hs, rfl⟩

namespace Bridge.World

/-! ## The record of the server -/

/-- The requests sent at an occurrence. -/
def sends (w : World) (o : Occurrence) : List Outgoing :=
  (w.undergo o).script.requests.drop w.script.requests.length

/-- The requests sent on a course, in order. -/
def sent (w : World) : List Occurrence → List Outgoing
  | [] => []
  | o :: os => w.sends o ++ (w.undergo o).sent os

/-- The requests of an occurrence are appended to the record. If one of them is mutating, the
supervisor is unchanged and its view has admitted the request. -/
theorem requests_undergo (w : World) (o : Occurrence) :
    (w.undergo o).script.requests = w.script.requests ++ w.sends o ∧
      ∀ out ∈ w.sends o, out.method.isMutating →
        (w.undergo o).supervisor = w.supervisor ∧
          ∃ r epoch, w.supervisor.view.admit r = .sent epoch out := by
  have hsilent (h : (w.undergo o).script.requests = w.script.requests) : w.sends o = [] := by
    rw [sends, h, List.drop_length]
  cases ho : o.isPublic with
  | true =>
    obtain ⟨_, _, h⟩ := undergo_of_isPublic w ho
    have h := congrArg (·.script.requests) h
    simp [hsilent h, h]
  | false =>
    rcases Classical.em (o = .go supervisorId) with rfl | hgo
    · have h := (takeCommand_spec w).2.2
      rw [← undergo_supervisor] at h
      simp [hsilent h, h]
    · have hout {sent : List Outgoing} (h : Goes sent w (w.undergo o)) : w.sends o = sent := by
        rw [sends, h.requests, List.drop_left]
      cases talks_undergo w ho hgo with
      | calls h =>
        rw [hout h.toGoes]
        exact ⟨h.requests, fun out ho _ => ⟨h.supervisor, h.admitted out ho⟩⟩
      | streams he h =>
        -- the request for a stream is a `get`
        rw [hout h]
        refine ⟨h.requests, fun out ho hm => ?_⟩
        obtain rfl := List.mem_singleton.1 ho
        cases hm

theorem requests_course (w : World) (os : List Occurrence) :
    (w.course os).script.requests = w.script.requests ++ w.sent os := by
  induction os generalizing w with
  | nil => simp [sent]
  | cons o os ih =>
    rw [course_cons, ih, (requests_undergo w o).1, sent, List.append_assoc]

/-- A request of a course is sent at one of its occurrences. -/
theorem mem_sent {w : World} {out : Outgoing} {os : List Occurrence} : out ∈ w.sent os ↔
    ∃ past o rest, os = past ++ o :: rest ∧ out ∈ (w.course past).sends o := by
  induction os generalizing w with
  | nil => simp [sent]
  | cons o os ih =>
    rw [sent, List.mem_append, ih]
    constructor
    · rintro (h | ⟨past, o', rest, rfl, h⟩)
      · exact ⟨[], o, os, rfl, h⟩
      · exact ⟨o :: past, o', rest, rfl, h⟩
    · rintro ⟨_ | ⟨p, past⟩, o', rest, heq, h⟩
      · obtain ⟨rfl, rfl⟩ := List.cons.inj heq
        exact .inl h
      · obtain ⟨rfl, rfl⟩ := List.cons.inj heq
        exact .inr ⟨past, o', rest, rfl, h⟩

/-! ## The bridge -/

section

variable (config : Config) (script : Peer.Script) (plugins : List Plugin) (pingStart : Span)

/-- On every course of the bridge, the record is `World.sent`. At every occurrence that sends a
mutating request, the connection is online and not read only, no shutdown has been taken, and the
request goes to the session of that instant. In listen only mode no mutating request is sent. -/
theorem writes_of_course (os : List Occurrence) :
    let w := launch config script plugins pingStart
    (w.course os).script.requests = script.requests ++ w.sent os ∧
    (∀ past o rest, os = past ++ o :: rest →
      let v := w.course past
      ∀ out ∈ v.sends o, out.method.isMutating →
        v.supervisor.status.state = .online ∧ v.supervisor.status.readOnly = false ∧
        (∀ d ∈ w.taken past, d.command.isShutdown = false) ∧
        (v.undergo o).supervisor = v.supervisor ∧
        ∃ session r, v.supervisor.view.session = some session ∧ out = session.outgoing r) ∧
    (config.general.listenOnly → ∀ out ∈ w.sent os, out.method.isMutating = false) := by
  obtain ⟨_, _, _, hlaunch⟩ := launch_spec config script plugins pingStart
  have hview (past : List Occurrence) := view_of_run sound_launch
    (run_course (tidy_launch config script plugins pingStart) past)
  generalize launch config script plugins pingStart = w at hlaunch hview ⊢
  have hallowed (past : List Occurrence) (o : Occurrence) (out : Outgoing)
      (ho : out ∈ (w.course past).sends o) (hm : out.method.isMutating) :
      (w.course past).supervisor.status.acceptsWrites ∧
        (∀ d ∈ w.taken past, d.command.isShutdown = false) ∧
        ((w.course past).undergo o).supervisor = (w.course past).supervisor ∧
        ∃ session r, (w.course past).supervisor.view.session = some session ∧
          out = session.outgoing r := by
    obtain ⟨hkept, r, epoch, hlet⟩ := (requests_undergo _ o).2 out ho hm
    obtain ⟨hclosed, hwrites, session, hsession, hout⟩ := ClientView.of_sent hlet hm
    rw [(hview past).1, Bool.or_eq_false_iff, List.any_eq_false] at hclosed
    exact ⟨hwrites, fun d hd => by simpa using hclosed.2 d hd, hkept, session, r, hsession, hout⟩
  refine ⟨?_, ?_, ?_⟩
  · rw [requests_course, hlaunch]
    rfl
  · intro past o rest _ v out ho hm
    obtain ⟨hwrites, hrest⟩ := hallowed past o out ho hm
    simp only [Status.acceptsWrites, Status.isOnline, Bool.and_eq_true, decide_eq_true_eq,
      Bool.not_eq_true'] at hwrites
    exact ⟨hwrites.1, hwrites.2, hrest⟩
  · intro hlisten out ho
    obtain ⟨past, o, rest, -, ho⟩ := mem_sent.1 ho
    cases hm : out.method.isMutating with
    | false => rfl
    | true =>
      have hwrites := (hallowed past o out ho hm).1
      rw [Status.acceptsWrites, (hview past).2, hlaunch] at hwrites
      simp [before, Supervisor.initial, Supervisor.status, hlisten] at hwrites

end

/-- The bridge connects, and then a caller posts the state of an item. -/
def demoWrite : List Occurrence :=
  [.go supervisorId, .go 1, .go 1, .go supervisorId, .go supervisorId,
    .step (.request (.postUpdate "lamp" "ON"))]

/-- A state that is posted while the connection is online is sent. -/
theorem writes_of_course_demo :
    (demo.sent demoWrite).filter (·.method.isMutating) =
      [⟨.put, "http://demo/rest/items/lamp/state", [("Content-Type", "text/plain")], some "ON"⟩] ∧
    (demo.course (demoWrite.take 5)).supervisor.status.state = .online := by
  have hsent : (demo.sent demoWrite).filter (·.method.isMutating) =
      [⟨.put, "http://demo/rest/items/lamp/state", [("Content-Type", "text/plain")],
        some "ON"⟩] := by
    decide +kernel
  obtain ⟨-, hwrites, -⟩ := writes_of_course { connection := { url := "http://demo" } } demoScript
    [.scripted "a" [], .scripted "b" [.connect], .scripted "c" [.setup]] ⟨0⟩ demoWrite
  refine ⟨hsent, (hwrites (demoWrite.take 5) (.step (.request (.postUpdate "lamp" "ON"))) [] rfl
    ⟨.put, "http://demo/rest/items/lamp/state", [("Content-Type", "text/plain")], some "ON"⟩ ?_
    rfl).1⟩
  decide +kernel

end Bridge.World

end PeerLink
