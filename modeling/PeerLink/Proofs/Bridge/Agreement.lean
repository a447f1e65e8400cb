import PeerLink.Proofs.Bridge.Pacing
/-!
# The state and the session

From the first command on, the state is `unconfigured` exactly while there is no session, whatever
the result of opening one. The configuration that the supervisor keeps differs: a configuration
without a server replaces it, and so does one whose session is opened, but a refused one leaves it
in place. The state after the shutdown depends on this configuration only. So a connection that is
shut down after a refusal may be `offline` without a session.

## Main definitions

* `Command.refused`: a command that configures a server with which no session can be opened.
* `Command.kept?`, `Command.session?`: the configuration and the session that a command leaves.
* `Supervisor.Agrees`: the state is `unconfigured` exactly if there is no session.
* `World.Aimed`: configuration, session and state as functions of the commands taken.

## Main statements

* `World.agreement_of_course`: when the state and the session agree on a course of the bridge.
-/

namespace PeerLink

open Transport Connection

/-! ## One command -/

namespace Connection

namespace Command

/-- Whether a command is `configure`. -/
def configures : Command → Bool
  | configure _ => true
  | _ => false

/-- Whether a command configures a server with which no session can be opened. -/
def refused (opened : Except Failure Unit) : Command → Bool
  | configure config => config.isConfigured && !opened.isOk
  | _ => false

/-- The configuration that the supervisor keeps from a command, if any. -/
def kept? (opened : Except Failure Unit) : Command → Option ConnectionConfig
  | configure config => if (configure config).refused opened then none else some config
  | _ => none

/-- The session that a command leaves, if it is `configure`. -/
def session? (opened : Except Failure Unit) : Command → Option (Option Session)
  | configure config => some (((configure config).opens? opened).map fun c => ⟨c.baseUrl⟩)
  | _ => none

theorem exists_of_configures {c : Command} (h : c.configures) : ∃ config, c = configure config := by
  cases c with
  | configure config => exact ⟨config, rfl⟩
  | _ => cases h

theorem kept?_of_not_configures {c : Command} (h : c.configures = false)
    (opened : Except Failure Unit) : c.kept? opened = none ∧ c.session? opened = none := by
  cases c with
  | configure => cases h
  | _ => exact ⟨rfl, rfl⟩

/-- After `configure` that is not refused, there is a session exactly if the configuration has a
server. -/
theorem session?_eq_of_not_refused {opened : Except Failure Unit} {config : ConnectionConfig}
    (h : (configure config).refused opened = false) :
    (configure config).kept? opened = some config ∧
      ((configure config).session? opened = some none ↔ config.isConfigured = false) := by
  simp only [refused] at h
  cases hc : config.isConfigured <;> cases ho : opened.isOk <;>
    simp_all [kept?, refused, session?, opens?]

theorem session?_of_refused {opened : Except Failure Unit} {c : Command}
    (h : c.refused opened) : c.session? opened = some none := by
  cases c with
  | configure config => simp_all [refused, session?, opens?]
  | _ => cases h

end Command

namespace Supervisor

/-- The state is `unconfigured` exactly if there is no session. -/
def Agrees (s : Supervisor) : Prop := s.status.state = .unconfigured ↔ s.view.session = none

variable {s s' : Supervisor} {opened : Except Failure Unit} {c : Command} {es : List Effect}

/-- A command other than `configure` leaves the configuration and the session. -/
theorem Turn.unaimed (h : s.Turn opened c s' es) (hc : c.configures = false) :
    s'.config = s.config ∧ s'.view.session = s.view.session := by
  cases h with
  | detaches | joins | balks => cases hc
  | _ => exact ⟨rfl, rfl⟩

/-- The configuration is kept unless it is refused, the session is `Command.session?`, and the state
agrees with it. -/
theorem configure_spec (s : Supervisor) (opened : Except Failure Unit) (config : ConnectionConfig) :
    let c := Command.configure config
    (s.configure opened config).1.config = (c.kept? opened).getD s.config ∧
      c.session? opened = some (s.configure opened config).1.view.session ∧
      (s.configure opened config).1.Agrees := by
  have hok : (Except.ok () : Except Failure Unit).isOk = true := rfl
  have herror (cause : Failure) : (Except.error cause : Except Failure Unit).isOk = false := rfl
  cases hc : config.isConfigured with
  | false =>
    rw [configure_of_not_isConfigured hc]
    simp [Command.kept?, Command.refused, Command.session?, Command.opens?, hc, detached, Agrees,
      status, fallen]
  | true =>
    cases opened with
    | error cause =>
      rw [configure_of_error hc]
      simp [Command.kept?, Command.refused, Command.session?, Command.opens?, hc, herror, detached,
        Agrees, status, fallen]
    | ok _ =>
      cases hn : (Backoff.ofConfig config).next? with
      | none =>
        rw [configure_of_none hc hn]
        simp [Command.kept?, Command.refused, Command.session?, Command.opens?, hc, hok, jammed,
          pointed, Agrees, status, fallen]
      | some next =>
        rw [configure_of_some hc hn]
        simp [Command.kept?, Command.refused, Command.session?, Command.opens?, hc, hok, retried,
          pointed, Agrees, status, fallen]

theorem state_stopped (s : Supervisor) :
    s.stopped.status.state = if s.stopped.config.isConfigured then .offline else .unconfigured := by
  have hconfig : s.stopped.config = s.config := rfl
  rw [hconfig]
  rfl

/-- A command other than `configure` and `shutdown` preserves `Agrees`, if the result of an attempt
arrives only while there is a session. -/
theorem Turn.agrees (h : s.Turn opened c s' es) (hs : s.Agrees)
    (hseek : c = .attempting s.epoch → s.view.session ≠ none)
    (hc : c.configures = false) (hend : c.isShutdown = false) : s'.Agrees := by
  cases h with
  | stale | unmoved => exact hs
  | tries => exact iff_of_false (by simp [publish, status]) (hseek rfl)
  | connects _ hv => exact iff_of_false (by simp [connected, status]) (by simp [connected, hv])
  | retries | jams => exact hs
  | loses ho | ends ho =>
    have hup : s.status.state = .online := isOnline_iff.1 ho
    have hv : s.view.session ≠ none := fun hv => by simpa [hup] using hs.2 hv
    exact iff_of_false (by simp [lost, status, fallen]) hv
  | detaches | joins | balks => cases hc
  | stops => cases hend

end Supervisor

end Connection

namespace Bridge

namespace Handled

/-- The configuration that the supervisor keeps from `d`, if any. -/
def kept? (d : Handled) : Option ConnectionConfig := d.command.kept? d.before.opened

/-- The session that `d` leaves, if it is `configure`. -/
def session? (d : Handled) : Option (Option Session) := d.command.session? d.before.opened

variable {d : Handled}

namespace Regular

theorem supervisor_eq (h : d.Regular) :
    d.after.supervisor = (d.before.supervisor.handle d.before.opened d.command).1 :=
  h.frame.supervisor

/-- The configuration and the session after a regular command. -/
theorem aimed (h : d.Regular) :
    d.after.supervisor.config = d.kept?.getD d.before.supervisor.config ∧
      d.after.supervisor.view.session = d.session?.getD d.before.supervisor.view.session := by
  cases hc : d.command.configures with
  | false =>
    obtain ⟨hkept, hsession⟩ := Command.kept?_of_not_configures hc d.before.opened
    rw [kept?, session?, hkept, hsession]
    exact h.turn.unaimed hc
  | true =>
    obtain ⟨config, hc⟩ := Command.exists_of_configures hc
    obtain ⟨hkept, hsession, -⟩ :=
      Supervisor.configure_spec d.before.supervisor d.before.opened config
    rw [h.supervisor_eq, kept?, session?, hc, Supervisor.handle, hsession, Option.getD_some]
    exact ⟨hkept, rfl⟩

theorem agrees (h : d.Regular) (hs : d.before.supervisor.Agrees)
    (hend : d.command.isShutdown = false) : d.after.supervisor.Agrees := by
  cases hc : d.command.configures with
  | false =>
    refine h.turn.agrees hs (fun hd => ?_) hc hend
    obtain ⟨rest, hw⟩ := h.waiting
    rw [hd] at hw
    have hn := World.news_of_cons hw (by simp [Command.isNewsOf])
    exact Option.isSome_iff_ne_none.1 (h.sound.phase.of_attempting h.alive hn).1.session
  | true =>
    obtain ⟨config, hc⟩ := Command.exists_of_configures hc
    rw [h.supervisor_eq, hc, Supervisor.handle]
    exact (Supervisor.configure_spec d.before.supervisor d.before.opened config).2.2

/-- After the shutdown the state is `offline` if the configuration that is kept has a server. -/
theorem stopped (h : d.Regular) (hend : d.command.isShutdown) :
    d.after.supervisor.alive = false ∧ d.after.supervisor.status.state =
      if d.after.supervisor.config.isConfigured then .offline else .unconfigured := by
  cases hc : d.command with
  | shutdown =>
    rw [h.supervisor_eq, hc, Supervisor.handle, Supervisor.stop_eq]
    exact ⟨rfl, Supervisor.state_stopped _⟩
  | _ => simp [hc, Command.isShutdown] at hend

end Regular

end Handled

/-! ## Runs -/

namespace World

variable {w w' : World} {log : List Handled}

/-- Configuration, session and state as functions of the commands taken, `log`. -/
structure Aimed (first : ConnectionConfig) (log : List Handled) (w : World) : Prop where
  config : w.supervisor.config = (log.filterMap Handled.kept?).getLast?.getD first
  session : w.supervisor.view.session = (log.filterMap Handled.session?).getLast?.getD none
  agrees : (∀ d ∈ log, d.command.isShutdown = false) → w.supervisor.Agrees
  /-- `shutdown` is the last command taken, and the state after it depends on the configuration. -/
  stopped : (∃ d ∈ log, d.command.isShutdown) →
    w.supervisor.alive = false ∧ w.supervisor.status.state =
      if w.supervisor.config.isConfigured then .offline else .unconfigured

theorem Aimed.step {first : ConnectionConfig} {d : Handled} (h : Aimed first log d.before)
    (hd : d.Regular) : Aimed first (log ++ [d]) d.after := by
  obtain ⟨hconfig, hsession⟩ := hd.aimed
  have hlive : ∀ e ∈ log, e.command.isShutdown = false := by
    intro e he
    by_contra hend
    have hdead := (h.stopped ⟨e, he, by simpa using hend⟩).1
    rw [hd.alive] at hdead
    cases hdead
  refine ⟨?_, ?_, fun hnone => ?_, ?_⟩
  · rw [hconfig, h.config]
    cases hk : d.kept? <;> simp [List.filterMap_append, hk]
  · rw [hsession, h.session]
    cases hk : d.session? <;> simp [List.filterMap_append, hk]
  · exact hd.agrees (h.agrees hlive) (hnone d (by simp))
  · rintro ⟨e, he, hend⟩
    rcases List.mem_append.1 he with he | he
    · simp [hlive e he] at hend
    · exact hd.stopped (List.mem_singleton.1 he ▸ hend)

theorem Aimed.run {first : ConnectionConfig} (h : w.Sound) (hw : Aimed first [] w)
    (g : Run w log w') : Aimed first log w' := by
  induction g with
  | start => exact hw
  | step g hm ih =>
    rcases (h.run g).regular_or hm with ⟨rfl, heq⟩ | ⟨d, rfl, hd, rfl, rfl⟩
    · obtain ⟨hconfig, hsession, hagrees, hstopped⟩ := ih
      rw [List.append_nil]
      exact ⟨heq ▸ hconfig, heq ▸ hsession, heq ▸ hagrees, heq ▸ hstopped⟩
    · exact ih.step hd

/-- If `f` has values on the elements that satisfy `p` only, the last value is that of the last such
element. -/
theorem getLast?_filterMap_of_filter {α β : Type} {p : α → Bool} {f : α → Option β} {l : List α}
    (hf : ∀ a, p a = false → f a = none) {a : α} (ha : (l.filter p).getLast? = some a) {b : β}
    (hb : f a = some b) : (l.filterMap f).getLast? = some b := by
  obtain ⟨before, hbefore⟩ := List.getLast?_eq_some_iff.1 ha
  have hsame : l.filterMap f = (l.filter p).filterMap f := by
    rw [List.filterMap_filter]
    refine List.filterMap_congr fun x _ => ?_
    cases hx : p x <;> simp [hf x, hx]
  rw [hsame, hbefore]
  simp [List.filterMap_append, hb]

section Last

variable {first : ConnectionConfig} {d : Handled}

theorem Aimed.session_of_last (h : Aimed first log w)
    (hd : (log.filter (·.command.configures)).getLast? = some d) :
    d.session? = some w.supervisor.view.session := by
  obtain ⟨asked, hasked⟩ :=
    Command.exists_of_configures (List.mem_filter.1 (List.mem_of_getLast? hd)).2
  have hsome : ∃ session, d.session? = some session := by
    rw [Handled.session?, hasked]
    exact ⟨_, rfl⟩
  obtain ⟨session, hsession⟩ := hsome
  have hlast := getLast?_filterMap_of_filter (f := Handled.session?)
    (fun e he => (Command.kept?_of_not_configures he _).2) hd hsession
  rw [hsession, h.session, hlast]
  rfl

theorem Aimed.config_of_last (h : Aimed first log w)
    (hd : (log.filter (·.command.configures)).getLast? = some d) {c : ConnectionConfig}
    (hc : d.kept? = some c) : w.supervisor.config = c := by
  have hlast := getLast?_filterMap_of_filter (f := Handled.kept?)
    (fun e he => (Command.kept?_of_not_configures he _).1) hd hc
  rw [h.config, hlast]
  rfl

/-- After the shutdown, state and session agree unless the last `configure` was refused while a
configuration with a server was kept. -/
theorem Aimed.agrees_iff_of_stopped (h : Aimed first log w)
    (hd : (log.filter (·.command.configures)).getLast? = some d)
    (hend : ∃ e ∈ log, e.command.isShutdown) : w.supervisor.Agrees ↔
      ¬(d.command.refused d.before.opened ∧ w.supervisor.config.isConfigured) := by
  have hstate := (h.stopped hend).2
  have hsession := h.session_of_last hd
  rw [Handled.session?] at hsession
  have hagrees : w.supervisor.Agrees ↔
      (w.supervisor.config.isConfigured = false ↔ w.supervisor.view.session = none) := by
    rw [Supervisor.Agrees, hstate]
    cases w.supervisor.config.isConfigured <;> simp
  cases hr : d.command.refused d.before.opened with
  | true =>
    rw [Command.session?_of_refused hr, Option.some.injEq] at hsession
    simp [hagrees, ← hsession]
  | false =>
    obtain ⟨asked, hasked⟩ :=
      Command.exists_of_configures (List.mem_filter.1 (List.mem_of_getLast? hd)).2
    rw [hasked] at hr hsession
    obtain ⟨hkept, hnone⟩ := Command.session?_eq_of_not_refused hr
    rw [hsession, Option.some.injEq] at hnone
    rw [hagrees, h.config_of_last hd (by rw [Handled.kept?, hasked]; exact hkept), hnone]
    simp

end Last

/-! ## Courses -/

section

variable (config : Config) (script : Peer.Script) (plugins : List Plugin) (pingStart : Span)

theorem aimed_course (os : List Occurrence) :
    let start := launch config script plugins pingStart
    Aimed config.connection (start.taken os) (start.course os) := by
  refine Aimed.run sound_launch ?_ (run_course (tidy_launch config script plugins pingStart) os)
  obtain ⟨_, _, _, hlaunch⟩ := launch_spec config script plugins pingStart
  rw [hlaunch]
  exact ⟨rfl, rfl, fun _ => Iff.intro (fun _ => rfl) fun _ => rfl, by simp⟩

/-- On every course of the bridge, the supervisor keeps the configuration of the last `configure`
that was not refused, and the session is that of the last `configure`, none if it was refused.
Before `shutdown`, the state is `unconfigured` exactly if there is no session. After it, the state
is `offline` exactly if the configuration that is kept has a server. So once the connection has been
configured, state and session disagree only after `shutdown`, and then exactly if the last
`configure` was refused while a configuration with a server was kept. -/
theorem agreement_of_course (os : List Occurrence) :
    let start := launch config script plugins pingStart
    let log := start.taken os
    let s := (start.course os).supervisor
    s.config = (log.filterMap Handled.kept?).getLast?.getD config.connection ∧
    s.view.session = (log.filterMap Handled.session?).getLast?.getD none ∧
    ((∀ d ∈ log, d.command.isShutdown = false) → s.Agrees) ∧
    ((∃ d ∈ log, d.command.isShutdown) →
      s.status.state = if s.config.isConfigured then .offline else .unconfigured) ∧
    ∀ d, (log.filter (·.command.configures)).getLast? = some d →
      (¬s.Agrees ↔ (∃ e ∈ log, e.command.isShutdown) ∧ d.command.refused d.before.opened ∧
        s.config.isConfigured) := by
  intro start log s
  have h : Aimed config.connection log (start.course os) :=
    aimed_course config script plugins pingStart os
  refine ⟨h.config, h.session, h.agrees, fun hend => (h.stopped hend).2, fun d hd => ?_⟩
  by_cases hend : ∃ e ∈ log, e.command.isShutdown
  · rw [h.agrees_iff_of_stopped hd hend, Decidable.not_not]
    exact (and_iff_right hend).symm
  · have hlive : ∀ e ∈ log, e.command.isShutdown = false := by simpa using hend
    exact iff_of_false (not_not_intro (h.agrees hlive)) fun hbad => hend hbad.1

end

/-- The bridge is configured for a server with which no session can be opened, and shut down. -/
def demoRefusal : List Occurrence :=
  [.go supervisorId, .step (.failOpen (some (.invalidUrl "no host"))),
    .step (.configure { url := "nowhere" }), .go supervisorId, .step .shutdown, .go supervisorId]

/-- The configuration before the refused one is still kept. -/
theorem agreement_of_course_demo : (demo.course demoRefusal).supervisor.config.isConfigured ∧
    ¬(demo.course demoRefusal).supervisor.Agrees := by
  let asked := (demo.taken demoRefusal).filter (·.command.configures)
  obtain ⟨d, hd⟩ : ∃ d, asked.getLast? = some d :=
    Option.isSome_iff_exists.1 (by decide +kernel)
  have hrefused : asked.getLast?.map (fun d => d.command.refused d.before.opened) = some true := by
    decide +kernel
  rw [hd, Option.map_some, Option.some.injEq] at hrefused
  have hkept : (demo.course demoRefusal).supervisor.config.isConfigured := by decide +kernel
  have hend : (demo.taken demoRefusal).any (·.command.isShutdown) := by decide +kernel
  have hdemo : launch { connection := { url := "http://demo" } } demoScript
    [.scripted "a" [], .scripted "b" [.connect], .scripted "c" [.setup]] ⟨0⟩ = demo := rfl
  have hagreement := agreement_of_course { connection := { url := "http://demo" } } demoScript
    [.scripted "a" [], .scripted "b" [.connect], .scripted "c" [.setup]] ⟨0⟩ demoRefusal
  rw [hdemo] at hagreement
  obtain ⟨-, -, -, -, hlast⟩ := hagreement
  exact ⟨hkept, (hlast d hd).2 ⟨List.any_eq_true.1 hend, hrefused, hkept⟩⟩

/-- After a refusal and `shutdown` there is no session, but the state is not `unconfigured`. -/
theorem disagrees_of_refusal :
    (demo.taken demoRefusal).any (·.command.configures) ∧
      (demo.course demoRefusal).supervisor.view.session = none ∧
      (demo.course demoRefusal).supervisor.status.state = .offline := by
  decide +kernel

end World

end Bridge

end PeerLink
