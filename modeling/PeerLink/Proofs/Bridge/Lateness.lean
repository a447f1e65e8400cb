import PeerLink.Proofs.Bridge.Losses
import PeerLink.Proofs.Bridge.Pacing
/-!
# Reports of early requests

Requests that read are sent also while the connection is not up. Such a request carries the epoch in
which it was made. Failed attempts are repeated within an epoch, and so is the one that succeeds, so
this is also the epoch of the session that follows. A failure reported then is taken for a failure
of this session, but sessions of later epochs ignore it.

## Main statements

* `World.isOnline_iff_of_run`: the connection is up exactly if an answer was accepted in the epoch.
* `World.late_report_of_course`: the effect of the report of such a request, on every course.
-/

namespace PeerLink

open Transport Connection

deriving instance DecidableEq for Connection.Command

/-- The connection is up after a command exactly if the command is an accepted answer, or if it was
up and the epoch stays. -/
theorem Connection.Supervisor.Turn.isOnline_iff {s s' : Supervisor}
    {opened : Except Failure Unit} {c : Command} {es : List Effect} (h : s.Turn opened c s' es) :
    s'.isOnline ↔ c.accepts s.epoch ∨ s.isOnline ∧ s'.epoch = s.epoch := by
  constructor
  · intro ho
    rcases h.connected_or ho with ⟨rfl, -, -⟩ | ⟨info, session, rfl, -, -, -⟩
    · exact .inr ⟨ho, rfl⟩
    · exact .inl (by simp [Command.accepts])
  · rintro (hc | ⟨ho, he⟩)
    · exact (h.comes_up_iff.2 hc).2
    · have hepoch := h.epoch_eq
      grind

/-- A request that is sent carries the epoch of the view, and it reads if the connection is not
up. -/
theorem Connection.ClientView.epoch_of_sent {v : ClientView} {r : Request} {epoch : Nat}
    {out : Outgoing} (h : v.admit r = .sent epoch out) :
    epoch = v.status.epoch ∧ (v.status.isOnline = false → r.method.isMutating = false) := by
  unfold ClientView.admit at h
  grind [Status.acceptsWrites]

namespace Bridge

/-- An accepted answer leaves the epoch. -/
theorem Handled.Regular.epoch_of_accepted {d : Handled} (h : d.Regular) (hd : d.accepted) :
    d.after.supervisor.epoch = d.before.supervisor.epoch := by
  have hup := h.turn.comes_up_iff.2 hd
  have hepoch := h.turn.epoch_eq
  have hrenews : d.command.renews = false := by
    cases hc : d.command <;> simp_all [Handled.accepted, Command.accepts, Command.renews]
  simpa [hup.1, hrenews] using hepoch

namespace World

variable {w w' : World} {log : List Handled}

/-- On a run that starts while the connection is not up, it is up exactly if an answer was accepted
in the present epoch. -/
theorem isOnline_iff_of_run (h : w.Sound) (g : Run w log w')
    (hdown : w.supervisor.isOnline = false) :
    w'.supervisor.isOnline ↔
      ∃ e ∈ log, e.accepted ∧ e.before.supervisor.epoch = w'.supervisor.epoch := by
  induction g with
  | start => simp [hdown]
  | step g hm ih =>
    rcases (h.run g).regular_or hm with ⟨rfl, heq⟩ | ⟨d, rfl, hd, rfl, rfl⟩
    · rw [heq, ih, List.append_nil]
    · rw [hd.turn.isOnline_iff, ih]
      constructor
      · rintro (hacc | ⟨⟨e, he, hacc, hepoch⟩, hsame⟩)
        · exact ⟨d, by simp, hacc, (hd.epoch_of_accepted hacc).symm⟩
        · exact ⟨e, by simp [he], hacc, hepoch.trans hsame.symm⟩
      · rintro ⟨e, he, hacc, hepoch⟩
        rcases List.mem_append.1 he with he | he
        · -- an epoch that an earlier command has met is not a new one
          have hpast := (epochs_of_run h g).2 e he
          have hkept := (g.regular h e he).epoch_of_accepted hacc
          have hle := hd.epoch_le
          have hsame : d.after.supervisor.epoch = d.before.supervisor.epoch := by omega
          exact .inr ⟨⟨e, he, hacc, hepoch.trans hsame⟩, hsame⟩
        · obtain rfl := List.mem_singleton.1 he
          exact .inl hacc

/-- The run up to a command taken on it. -/
theorem Run.upTo (g : Run w log w') {before after : List Handled} {d : Handled}
    (hlog : log = before ++ d :: after) : Run w before d.before := by
  induction g generalizing after with
  | start => simp at hlog
  | step g hm ih =>
    rcases hm.supervisor_or with ⟨rfl, -⟩ | ⟨e, rfl, rfl, -⟩
    · exact ih (by simpa using hlog)
    · rcases List.eq_nil_or_concat after with rfl | ⟨after, f, rfl⟩
      · obtain ⟨rfl, hd⟩ := List.append_inj' hlog rfl
        obtain rfl := (List.cons.inj hd).1
        exact g
      · rw [List.concat_eq_append, ← List.cons_append, ← List.append_assoc] at hlog
        exact ih (List.append_inj' hlog rfl).1

section

variable (config : Config) (script : Peer.Script) (plugins : List Plugin) (pingStart : Span)

/-- On every course of the bridge, a request that is sent while the connection is not up reads, and
it carries the epoch of that instant. However late its failure is reported, the report takes the
connection down exactly if the connection has come up in this epoch and the epoch has not ended.
Otherwise, in particular in the session of a later epoch, the report changes nothing but the
queue. -/
theorem late_report_of_course (past : List Occurrence) (r : Request) (epoch : Nat) (out : Outgoing)
    (hsent : ClientView.admit ((launch config script plugins pingStart).course past).supervisor.view
      r = .sent epoch out)
    (hdown : ((launch config script plugins pingStart).course past).supervisor.status.state ≠
      .online) :
    let w := (launch config script plugins pingStart).course past
    r.method.isMutating = false ∧ epoch = w.supervisor.epoch ∧
    ∀ more before d after reason, w.taken more = before ++ d :: after →
      d.command = .setOffline (some epoch) reason →
      (d.leaves ↔ d.before.supervisor.epoch = epoch ∧
        ∃ e ∈ before, e.accepted ∧ e.before.supervisor.epoch = epoch) ∧
      (d.leaves = false → d.after = { d.before with commands := d.before.commands.tail }) := by
  intro w
  have htidy := tidy_launch config script plugins pingStart
  have hrun := run_course htidy past
  have hsound : w.Sound := sound_launch.run hrun
  have hoff : w.supervisor.isOnline = false := decide_eq_false hdown
  obtain ⟨hepoch, hmethod⟩ := ClientView.epoch_of_sent hsent
  refine ⟨hmethod hoff, hepoch.trans hsound.steady.published, ?_⟩
  intro more before d after reason hlog hc
  have g := (run_course hsound.tidy more).upTo hlog
  have hd : d.Regular := (run_course hsound.tidy more).regular hsound d (by simp [hlog])
  have hreports : d.command.reportsLoss epoch := by simp [hc, Command.reportsLoss]
  have hup := isOnline_iff_of_run hsound g hoff
  cases hm : d.meets epoch with
  | true =>
    have hmeets := hm
    simp only [Handled.meets, Bool.and_eq_true, decide_eq_true_eq] at hmeets
    have hleaves := (hd.lost hreports hm).1
    rw [hmeets.1, hmeets.2, eq_self_iff_true, true_iff] at hup
    simp [hleaves, hmeets.2, hup]
  | false =>
    have hnot : ¬(d.before.supervisor.isOnline ∧ d.before.supervisor.epoch = epoch) := by
      simpa [Handled.meets] using hm
    have hleaves := (hd.ignored hreports (by simp [hm])).1
    refine ⟨?_, fun _ => ?_⟩
    · rw [hleaves]
      refine iff_of_false (by simp) ?_
      rintro ⟨he, hacc⟩
      exact hnot ⟨hup.2 (he ▸ hacc), he⟩
    · by_cases he : epoch = d.before.supervisor.epoch
      · exact hd.after_of_isLoss (by simp [hc, Command.isLoss])
          (by simpa using fun ho => hnot ⟨ho, he.symm⟩)
      · exact hd.after_of_stale (by simp [hc, Command.epoch?]) he

end

/-- A document is requested while an attempt is being made. -/
def demoEarly : List Occurrence :=
  [.go supervisorId, .step (.respond "http://demo/slow" (.response ⟨503, []⟩)),
    .step (.delay "http://demo/slow" (some 60)), .step (.spawn "early" (.quietGet "/slow" false)),
    .go 2]

/-- The connection comes up, and then the request is answered by 503. -/
def demoLate : List Occurrence :=
  [.go 1, .go 1, .go supervisorId, .go supervisorId, .go 2, .go supervisorId]

/-- The request carries the epoch in which the connection comes up, so its failure takes the
connection down. -/
theorem late_report_of_course_demo : (demo.course demoEarly).supervisor.status.state ≠ .online ∧
    ((demo.course demoEarly).taken demoLate).getLast?.map Handled.leaves = some true := by
  have hdemo : launch { connection := { url := "http://demo" } } demoScript
    [.scripted "a" [], .scripted "b" [.connect], .scripted "c" [.setup]] ⟨0⟩ = demo := rfl
  have hlate := late_report_of_course { connection := { url := "http://demo" } } demoScript
    [.scripted "a" [], .scripted "b" [.connect], .scripted "c" [.setup]] ⟨0⟩ demoEarly
    (.quietGet "/slow" false) 1 ⟨.get, "http://demo/slow", [], none⟩
  rw [hdemo] at hlate
  have hdown : (demo.course demoEarly).supervisor.status.state ≠ .online := by decide +kernel
  obtain ⟨-, -, hlate⟩ := hlate (by decide +kernel) hdown
  let log := (demo.course demoEarly).taken demoLate
  have hcommand : log.getLast?.map (·.command) =
      some (.setOffline (some 1) "status 503 for GET /slow") := by decide +kernel
  have hepoch : log.getLast?.map (·.before.supervisor.epoch) = some 1 := by decide +kernel
  have hbefore : log.dropLast.any fun e => e.accepted && e.before.supervisor.epoch = 1 := by
    decide +kernel
  obtain ⟨d, hd, hc⟩ := Option.map_eq_some_iff.1 hcommand
  obtain ⟨before, hlog⟩ := List.getLast?_eq_some_iff.1 hd
  rw [hlog, List.dropLast_concat] at hbefore
  rw [hd, Option.map_some, Option.some.injEq] at hepoch
  have hleaves := (hlate demoLate before d [] _ hlog hc).1.2 ⟨hepoch, by simpa using hbefore⟩
  exact ⟨hdown, by rw [hd, Option.map_some, hleaves]⟩

/-- The failure of a request takes down a connection that came up after the request was made. -/
theorem leaves_of_early_request :
    ClientView.admit (demo.course demoEarly).supervisor.view (.quietGet "/slow" false) =
      .sent 1 ⟨.get, "http://demo/slow", [], none⟩ ∧
    (demo.course demoEarly).supervisor.status.state = .connecting ∧
    ((demo.course demoEarly).course (demoLate.take 5)).supervisor.status.state = .online ∧
    ((demo.course demoEarly).course (demoLate.take 5)).commands =
      [.setOffline (some 1) "status 503 for GET /slow"] ∧
    ((demo.course demoEarly).course demoLate).supervisor.status.state = .offline := by
  decide +kernel

end World

end Bridge

end PeerLink
