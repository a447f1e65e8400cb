import PeerLink.Proofs.Connection.Restart
import PeerLink.Proofs.Bridge.Snapshot
/-!
# Configuring a running bridge

When `configure` is taken, the delay may have grown, an attempt or a session with another server may
be in progress, and `commands` may contain commands of that session. After it the supervisor behaves
as a new one that is configured in the same way, with its epochs shifted, and commands of earlier
epochs change nothing.

## Main definitions

* `Handled.input`: a command with the result of opening a session.

## Main statements

* `World.handleAll_of_run`: the supervisor on a run is a function of the commands taken.
* `World.restart_of_course`: `configure` on every course of the bridge.
-/

namespace PeerLink.Bridge

open Transport Connection

/-- A command with the result of opening a session, if it opens one. -/
def Handled.input (d : Handled) : Except Failure Unit × Command := (d.before.opened, d.command)

namespace World

variable {w w' : World} {log : List Handled}

/-- The supervisor and its effects on a run are functions of the commands taken. -/
theorem handleAll_of_run (h : w.Sound) (g : Run w log w') :
    w.supervisor.handleAll (log.map Handled.input) =
      (w'.supervisor, log.flatMap Handled.effects) := by
  induction g with
  | start => rfl
  | step g hm ih =>
    rcases (h.run g).regular_or hm with ⟨rfl, heq⟩ | ⟨d, rfl, hd, rfl, rfl⟩
    · simpa [heq] using ih
    · have hone : d.before.supervisor.handleAll [d.input] = (d.after.supervisor, d.effects) := by
        rw [Handled.input, Supervisor.handleAll_cons_of_alive hd.alive, hd.frame.supervisor]
        simp [Supervisor.handleAll, Handled.effects]
      rw [List.map_append, List.map_singleton, Supervisor.handleAll_append, ih, hone]
      simp

/-- After `configure` there are no readers, and no attempts but the one just begun. -/
theorem Sound.configured (h : w.Sound) {o : Occurrence} {d : Handled} (hd : d ∈ w.takes o)
    {c : ConnectionConfig} (hc : d.command = .configure c) :
    (w.undergo o).supervisor = (w.supervisor.handle w.opened (.configure c)).1 ∧
      (w.undergo o).readers = [] ∧
      ∀ e ∈ (w.undergo o).attempts, e.2.epoch = w.supervisor.epoch + 1 := by
  obtain ⟨hreg, hbefore, hafter⟩ := h.regular_of_takes hd
  have hv : (w.undergo o).Sound := h.run (run_undergo h.tidy o)
  have hsupervisor : d.after.supervisor =
    (d.before.supervisor.handle d.before.opened d.command).1 := hreg.frame.supervisor
  rw [hafter, hbefore, hc] at hsupervisor
  obtain ⟨hepoch, hdown⟩ := Supervisor.handle_configure w.supervisor w.opened c
  rw [← hsupervisor] at hepoch hdown
  refine ⟨hsupervisor, hv.readers_eq_nil hdown, ?_⟩
  intro e he
  exact (hv.phase.of_mem_attempts he).2.2.1.trans hepoch

section

variable {config : Config} {script : Peer.Script} {plugins : List Plugin} {pingStart : Span}

/-- The view is not closed while the supervisor is alive. -/
theorem closed_of_alive (g : Run (launch config script plugins pingStart) log w)
    (ha : w.supervisor.alive) : w.supervisor.view.closed = false := by
  obtain ⟨_, _, _, hlaunch⟩ := launch_spec config script plugins pingStart
  have hopen : (launch config script plugins pingStart).supervisor.view.closed = false := by
    rw [hlaunch]
    rfl
  have hharmless := ((sound_launch.alive_iff_of_run g).1 ha).2
  rw [(view_of_run sound_launch g).1, hopen, Bool.false_or, List.any_eq_false]
  intro d hd
  simp [(hharmless d hd).1]

end

section

variable (config : Config) (script : Peer.Script) (plugins : List Plugin) (pingStart : Span)

/-- After any course of the bridge on which the supervisor is alive, let `configure` be taken with a
server with which a session can be opened. The supervisor aborts what there was, and its other
effects are those of a new supervisor, with any configuration, that takes the same command. For all
commands that follow, both have the same effects, which are the attempts with their delays, the
streams and the hooks, and the same state, status, session and timer, up to a shift of all epochs.
Commands of epochs up to the shift, in any place, are left out for the new supervisor. In the bridge
there are no readers after this command, and no attempts but the one just begun, and on every course
the supervisor is a function of the commands taken. -/
theorem restart_of_course (os : List Occurrence) :
    let w := (launch config script plugins pingStart).course os
    w.supervisor.alive → ∀ (other c : ConnectionConfig), c.isConfigured →
    let k := w.supervisor.epoch
    let again := w.supervisor.handle (.ok ()) (.configure c)
    let fresh :=
      (Supervisor.initial other config.general.listenOnly).handle (.ok ()) (.configure c)
    again.2 = w.supervisor.cancelling ++ w.supervisor.telling ++ fresh.2.map (Effect.shift k) ∧
    (∀ inputs, again.1.handleAll inputs =
      Supervisor.shiftBoth k (fresh.1.handleAll (Supervisor.since k inputs))) ∧
    ∀ o, ∀ d ∈ w.takes o, d.command = .configure c → w.opened = .ok () →
      let v := w.undergo o
      v.supervisor = fresh.1.shift k ∧ v.readers = [] ∧
      (∀ e ∈ v.attempts, e.2.epoch = k + 1) ∧
      ∀ more,
        let later := fresh.1.handleAll (Supervisor.since k ((v.taken more).map Handled.input))
        (v.course more).supervisor = later.1.shift k ∧
        (v.taken more).flatMap Handled.effects = later.2.map (Effect.shift k) ∧
        (v.course more).trace.hooks = v.trace.hooks ++ v.records (Effect.hooks later.2) := by
  intro w ha other c hc k again fresh
  have htidy := tidy_launch config script plugins pingStart
  have hrun := run_course htidy os
  have hsound : w.Sound := sound_launch.run hrun
  have hread : w.supervisor.status.readOnly = config.general.listenOnly := by
    obtain ⟨_, _, _, hlaunch⟩ := launch_spec config script plugins pingStart
    rw [(view_of_run sound_launch hrun).2, hlaunch]
    rfl
  obtain ⟨hagain, heffects⟩ : again.1 = fresh.1.shift k ∧
      again.2 = w.supervisor.cancelling ++ w.supervisor.telling ++
        fresh.2.map (Effect.shift k) := by
    have h := Supervisor.configure_eq_shift hc ha (closed_of_alive hrun ha) other
    rwa [hread] at h
  have hbegun : 0 < fresh.1.epoch := by
    rw [(Supervisor.handle_configure _ _ _).1]
    exact Nat.succ_pos _
  have hlike (inputs : List (Except Failure Unit × Command)) : again.1.handleAll inputs =
      Supervisor.shiftBoth k (fresh.1.handleAll (Supervisor.since k inputs)) := by
    rw [hagain, Supervisor.handleAll_shift hbegun]
  refine ⟨heffects, hlike, ?_⟩
  intro o d hd hcommand hopened v
  obtain ⟨hsupervisor, hreaders, hattempts⟩ := hsound.configured hd hcommand
  rw [hopened] at hsupervisor
  refine ⟨hsupervisor.trans hagain, hreaders, hattempts, ?_⟩
  intro more later
  have hv : v.Sound := hsound.run (run_undergo hsound.tidy o)
  have hmore := run_course hv.tidy more
  have hall := handleAll_of_run hv hmore
  rw [hsupervisor, hlike] at hall
  obtain ⟨hlast, hdone⟩ := Prod.mk.inj hall
  refine ⟨hlast.symm, hdone.symm, ?_⟩
  have hhooks : (v.taken more).flatMap Handled.hooks = Effect.hooks later.2 := by
    rw [← Effect.hooks_shift k later.2, hdone]
    exact List.filterMap_flatMap.symm
  rw [(hmore.records_hooks hv.tidy).2, hhooks]

end

/-- The bridge is up and configured for another server. The end of its first stream changes nothing,
and the command of its new attempt is taken as that of a first attempt. -/
theorem restart_of_course_demo :
    let os := [.go supervisorId, .go 1, .go 1, .go supervisorId, .go supervisorId]
    let c : ConnectionConfig := { url := "http://new" }
    (demo.course os).supervisor.isOnline ∧
    ((demo.course os).supervisor.handle (.ok ()) (.configure c)).1.handleAll
        [(.ok (), .streamEnded 1 .closed), (.ok (), .attempting 2)] =
      Supervisor.shiftBoth 1
        (((Supervisor.initial {} false).handle (.ok ()) (.configure c)).1.handleAll
          [(.ok (), .attempting 1)]) := by
  intro os c
  have hepoch : (demo.course os).supervisor.epoch = 1 := by decide +kernel
  have halive : (demo.course os).supervisor.alive := by decide +kernel
  have hsince : Supervisor.since 1 [(.ok (), .streamEnded 1 .closed), (.ok (), .attempting 2)] =
      [(.ok (), .attempting 1)] := rfl
  have hdemo : launch { connection := { url := "http://demo" } } demoScript
    [.scripted "a" [], .scripted "b" [.connect], .scripted "c" [.setup]] ⟨0⟩ = demo := rfl
  have hrestart := restart_of_course { connection := { url := "http://demo" } } demoScript
    [.scripted "a" [], .scripted "b" [.connect], .scripted "c" [.setup]] ⟨0⟩ os
  rw [hdemo] at hrestart
  obtain ⟨-, hlike, -⟩ := hrestart halive {} c (by decide +kernel)
  have h := hlike [(.ok (), .streamEnded 1 .closed), (.ok (), .attempting 2)]
  rw [hepoch, hsince] at h
  exact ⟨by decide +kernel, h⟩

end World

end PeerLink.Bridge
