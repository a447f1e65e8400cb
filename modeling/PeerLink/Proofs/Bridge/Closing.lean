import PeerLink.Proofs.Bridge.Desertion
import PeerLink.Proofs.Bridge.Hooks
import PeerLink.Proofs.Bridge.Writes
/-!
# Shutdown

The supervisor ends when it takes the command to shut down. Pending attempts, requests and callbacks
may still send commands, and new requests and events may come, but no command is taken any more.
`World.shutdown` closes the executor after that, while callbacks are still running, and waits until
they have ended.

## Main definitions

* `World.Over`: the connection is closed, and no step from outside changes that.
* `World.Drained`: no callback is left, and none is accepted.

## Main statements

* `World.Sound.over`: the connection is over once the supervisor has been shut down.
* `World.shutdown_of_proceeds`: `World.shutdown` ends in an idle world.
* `World.closing_of_course`: the connection stays over, and no callback is left after
  `Step.shutdown`.
-/

namespace PeerLink.Bridge

open Transport Connection

namespace World

variable {w w' : World} {log : List Handled}

/-- There are neither attempts nor readers, requests are refused, and no command is taken. -/
structure Over (w : World) : Prop where
  closed : w.supervisor.view.closed
  offline : w.supervisor.isOnline = false
  attempts : w.attempts = []
  readers : w.readers = []
  begins : ∀ r, w.begin r = (w, .replied (.error .shutdown))
  asks : ∀ r, w.take (.request r) = (w, .reply (.error .shutdown))
  tells : ∀ c, w.send c = (w, false)
  configures : ∀ config, w.take (.configure config) = (w, .flag false)
  setsOffline : ∀ reason, w.take (.setOffline reason) = (w, .flag false)
  stops : w.enter .shutdown = w
  /-- Commands that are still in the queue are dropped. -/
  drops : w.takeCommand = { w with commands := [] }

/-- No callback is left, and none is accepted. -/
structure Drained (w : World) : Prop where
  pending : w.pending = []
  inFlight : w.executor.inFlight = 0
  publishes : ∀ topic e, w.publish topic e = (w, 0)

/-! ## The connection -/

/-- The connection is over once the supervisor is dead and the view of requests is closed. -/
theorem Sound.over (h : w.Sound) (ha : w.supervisor.alive = false)
    (hc : w.supervisor.view.closed) : w.Over := by
  have hbegin (r : Request) : w.begin r = (w, .replied (.error .shutdown)) := by
    simp [World.begin, ClientView.admit, hc]
  have hdead : ¬w.supervisor.alive := by simp [ha]
  have hsend (c : Command) : w.send c = (w, false) := send_of_not_alive hdead c
  have hholds := h.holds_of_dead ha
  refine ⟨hc, h.isOnline_of_dead ha, hholds.attempts, hholds.readers, hbegin, fun r => ?_, hsend,
    fun config => ?_, fun reason => ?_, ?_, by simp [World.takeCommand, ha]⟩
  · simp [take, ask, hbegin]
  · simp [take, hsend]
  · simp [take, hsend]
  · simp [enter, hsend]

/-- Nothing is sent when the connection is over: requests are refused, and there is no reader. -/
theorem Over.sends_eq_nil (h : w.Over) (o : Occurrence) : w.sends o = [] := by
  have hsilent (hr : (w.undergo o).script.requests = w.script.requests) : w.sends o = [] := by
    rw [sends, hr, List.drop_length]
  cases ho : o.isPublic with
  | true =>
    obtain ⟨_, _, heq⟩ := undergo_of_isPublic w ho
    exact hsilent (by rw [heq])
  | false =>
    rcases Classical.em (o = .go supervisorId) with rfl | hgo
    · exact hsilent (by rw [undergo_supervisor, h.drops])
    · cases talks_undergo w ho hgo with
      | @calls sent hsent =>
        have hnone : sent = [] := by
          refine List.eq_nil_iff_forall_not_mem.2 fun out hout => ?_
          obtain ⟨r, epoch, hlet⟩ := hsent.admitted out hout
          simp [h.closed, ClientView.admit] at hlet
        exact hsilent (by rw [hsent.requests, hnone, List.append_nil])
      | streams he => simp [h.readers] at he

/-- The supervisor is dead once it has taken the command to shut down. -/
theorem Run.shut (g : Run w log w') (h : w.Sound) {d : Handled} (hd : d ∈ log)
    (hs : d.command.isShutdown) :
    w'.supervisor.alive = false ∧ w'.supervisor.view.closed := by
  constructor
  · by_contra ha
    have hharmless := ((h.alive_iff_of_run g).1 (by simpa using ha)).2
    simp [(hharmless d hd).1] at hs
  · rw [(view_of_run h g).1, Bool.or_eq_true]
    exact .inr (List.any_eq_true.2 ⟨d, hd, hs⟩)

/-- The supervisor dies only of the command to shut down, or of a delay that overflows. -/
theorem Run.exists_fatal (g : Run w log w') (h : w.Sound) (hw : w.supervisor.alive)
    (ha : w'.supervisor.alive = false) : ∃ d ∈ log,
      d.command.isShutdown ∨ d.before.supervisor.Overflows d.before.opened d.command := by
  by_contra hnone
  have halive : w'.supervisor.alive := by
    refine (h.alive_iff_of_run g).2 ⟨hw, fun d hd => ⟨?_, fun ho => hnone ⟨d, hd, .inr ho⟩⟩⟩
    rw [Bool.eq_false_iff]
    exact fun hs => hnone ⟨d, hd, .inl hs⟩
  rw [ha] at halive
  cases halive

/-- The connection stays over on every course. -/
theorem Sound.over_course (h : w.Sound) (ha : w.supervisor.alive = false)
    (hc : w.supervisor.view.closed) (os : List Occurrence) :
    (w.course os).Over ∧ (w.course os).supervisor = w.supervisor ∧ w.taken os = [] := by
  have hrun := run_course h.tidy os
  obtain ⟨htaken, hsame⟩ := hrun.of_not_alive ha
  exact ⟨(h.run hrun).over (hsame ▸ ha) (hsame ▸ hc), hsame, htaken⟩

theorem Sound.sent_eq_nil (h : w.Sound) (ha : w.supervisor.alive = false)
    (hc : w.supervisor.view.closed) (os : List Occurrence) : w.sent os = [] := by
  refine List.eq_nil_iff_forall_not_mem.2 fun out hout => ?_
  obtain ⟨past, o, rest, -, ho⟩ := mem_sent.1 hout
  simp [(h.over_course ha hc past).1.sends_eq_nil o] at ho

/-! ## Callbacks -/

/-- No callback is accepted once the executor is closed. -/
theorem Counted.accepted_eq_nil (h : w.Counted) (hc : w.executor.closed) (os : List Occurrence) :
    w.accepted os = [] := by
  induction os generalizing w with
  | nil => rfl
  | cons o os ih =>
    obtain ⟨hafter, -, -, hnone⟩ := h.balance o
    have hclosed : (w.undergo o).executor.closed := by simp [closed_undergo, hc]
    rw [accepted, hnone hc, ih hafter hclosed, List.append_nil]

/-- If the executor is closed and no callback is left, this holds on every course. -/
theorem Counted.drained_course (h : w.Counted) (hc : w.executor.closed)
    (hi : w.executor.inFlight = 0) (os : List Occurrence) : (w.course os).Drained := by
  obtain ⟨hcounted, hbalance⟩ := h.course os
  have hnone : w.pending = [] := List.eq_nil_of_length_eq_zero (h.inFlight ▸ hi)
  rw [hnone, h.accepted_eq_nil hc os] at hbalance
  have hpending : (w.course os).pending = [] :=
    (List.append_eq_nil_iff.1 hbalance.eq_nil).1
  refine ⟨hpending, by rw [hcounted.inFlight, hpending, List.length_nil], fun topic e => ?_⟩
  exact publish_of_closed (by simp [closed_course, hc]) topic e

/-! ## Stopping the bridge -/

theorem settleFor_of_ready_eq_nil (h : w.ready = []) (fuel : Nat) : settleFor fuel w = w := by
  cases fuel <;> simp [settleFor, settleStep, h]

/-- A second shutdown of an idle world does nothing but log. -/
theorem Over.take_shutdown (h : w.Over) (hc : w.executor.closed) (hi : w.isIdle) :
    w.take .shutdown = (w.log (.info "Shutdown complete"), .none) := by
  have hsettle : w.settle = w := settleFor_of_ready_eq_nil (isIdle_iff.1 hi).1 _
  have hclosed : { w with executor.closed := true } = w := by
    rw [← hc]
  have hdrain : w.drain = w := drainFor_of_isIdle hi _
  simp [take, shutdown, h.tells, hsettle, closeExecutor, hclosed, hdrain]

section

variable (config : Config) (script : Peer.Script) (plugins : List Plugin) (pingStart : Span)

variable {config script plugins pingStart} in
/-- `World.shutdown` closes the executor, and ends in an idle world without a supervisor. -/
theorem shutdown_of_proceeds (h : (launch config script plugins pingStart).Proceeds w) :
    w.shutdown.isIdle ∧ w.shutdown.executor.closed ∧ w.shutdown.supervisor.alive = false := by
  have hattended := attended_launch config script plugins pingStart
  have hsettled := (proceeds_settle hattended (h.step .shutdown)).1
  exact drain_of_dead (hsettled.step .closeExecutor)
    (alive_settle_eq_false (hattended.of_proceeds h).tidy) rfl

variable {config script plugins pingStart} in
/-- While the connection is not up, each plugin has been called at the setup, and as often for its
loss as for its start. -/
theorem told_of_not_isOnline (g : Run (launch config script plugins pingStart) log w)
    (ho : w.supervisor.isOnline = false) :
    let hooks := log.flatMap Handled.hooks
    hooks.count .connect = hooks.count .disconnect ∧ w.plugins = plugins.filter Plugin.setsUp ∧
    w.trace.hooks = plugins.filterMap (recorded .setup) ++
      hooks.flatMap fun hook => (plugins.filter Plugin.setsUp).filterMap (recorded hook) := by
  intro hooks
  obtain ⟨_, _, _, hlaunch⟩ := launch_spec config script plugins pingStart
  have hoff : (launch config script plugins pingStart).supervisor.isOnline = false := by
    rw [hlaunch]
    rfl
  obtain ⟨n, hrounds⟩ := rounds_of_run sound_launch hoff g
  obtain ⟨hplugins, hcalled⟩ := g.records_hooks sound_launch.tidy
  rw [hlaunch] at hplugins hcalled
  refine ⟨?_, hplugins, hcalled⟩
  simp only [hooks, hrounds, count_rounds, ho]
  rfl

/-- Once the supervisor has taken the command to shut down, the connection is over on every course:
the status stays, no command is taken, nothing is sent and no plugin is called. Each plugin has been
called as often for the loss of the connection as for its start. Once the executor is closed and no
callback is left, all accepted callbacks have finished, and no event is submitted on any course. If
`w` is reachable, `Step.shutdown` ends in such a world, which is idle, and the supervisor has been
shut down then, unless it has died of a delay that overflows. A second shutdown does nothing but
log. -/
theorem closing_of_course (os : List Occurrence) :
    let start := launch config script plugins pingStart
    let w := start.course os
    ((∃ d ∈ start.taken os, d.command.isShutdown) → ∀ more,
      let v := w.course more
      let hooks := (start.taken os).flatMap Handled.hooks
      v.Over ∧ v.supervisor = w.supervisor ∧ w.taken more = [] ∧ w.sent more = [] ∧
      hooks.count .connect = hooks.count .disconnect ∧
      v.plugins = plugins.filter Plugin.setsUp ∧
      v.trace.hooks = plugins.filterMap (recorded .setup) ++
        hooks.flatMap fun hook => (plugins.filter Plugin.setsUp).filterMap (recorded hook)) ∧
    (w.executor.closed → w.executor.inFlight = 0 →
      (start.finished os).Perm (start.accepted os) ∧ ∀ more,
        let v := w.course more
        v.Drained ∧ w.accepted more = [] ∧
        (v.Over → v.isIdle → v.take .shutdown = (v.log (.info "Shutdown complete"), .none))) ∧
    (start.Proceeds w →
      let s := (w.take .shutdown).1
      s.isIdle ∧ s.executor.closed ∧ s.executor.inFlight = 0 ∧ (∀ more, (s.course more).Drained) ∧
      ∃ between, s = w.course between ∧
        (start.finished (os ++ between)).Perm (start.accepted (os ++ between)) ∧
        ∃ d ∈ start.taken (os ++ between),
          d.command.isShutdown ∨ d.before.supervisor.Overflows d.before.opened d.command) := by
  intro start w
  have hsound : start.Sound := sound_launch
  have hrun : Run start (start.taken os) w := run_course hsound.tidy os
  have hw : w.Sound := hsound.run hrun
  obtain ⟨hstart, hnone⟩ : start.Counted ∧ start.pending = [] := counted_launch _ _ _ _
  have halive : start.supervisor.alive := by
    obtain ⟨_, _, _, hlaunch⟩ := launch_spec config script plugins pingStart
    rw [show start = _ from hlaunch]
    rfl
  refine ⟨?_, ?_, ?_⟩
  · rintro ⟨d, hd, hs⟩ more
    obtain ⟨hdead, hclosed⟩ := hrun.shut hsound hd hs
    obtain ⟨hover, hsame, htaken⟩ := hw.over_course hdead hclosed more
    have hall : Run start (start.taken os) (w.course more) := by
      have h := hrun.trans (run_course hw.tidy more)
      rwa [htaken, List.append_nil] at h
    exact ⟨hover, hsame, htaken, hw.sent_eq_nil hdead hclosed more,
      told_of_not_isOnline hall hover.offline⟩
  · intro hc hi
    have hw : w.Counted := (hstart.course os).1
    refine ⟨hstart.perm_of_idle hnone hi, fun more => ?_⟩
    exact ⟨hw.drained_course hc hi more, hw.accepted_eq_nil hc more,
      fun hv hidle => hv.take_shutdown (by simp [closed_course, hc]) hidle⟩
  · intro hproceeds s
    obtain ⟨hidle, hclosed, hdead⟩ := shutdown_of_proceeds hproceeds
    have hzero : s.executor.inFlight = 0 := (isIdle_iff.1 hidle).2
    obtain ⟨between, hbetween⟩ := leadsTo_take w .shutdown
    have hend : start.course (os ++ between) = s := by rw [course_append, hbetween]
    have hlater := run_course hsound.tidy (os ++ between)
    have hcounted := (hstart.course (os ++ between)).1
    rw [hend] at hlater hcounted
    exact ⟨hidle, hclosed, hzero, hcounted.drained_course hclosed hzero, between, hbetween.symm,
      hstart.perm_of_idle hnone (hend ▸ hzero), hlater.exists_fatal hsound halive hdead⟩

/-- The bridge is shut down while it is up and a lamp is being lit. The lamp fails after the
executor has been closed. -/
def farewell : List Occurrence :=
  [.go supervisorId, .go 1, .go 1, .go supervisorId, .go supervisorId,
    .step (.listen (.ofString "lamp") .any
      { name := "lamp", isAsync := false, deed := .fail ["no power"] }),
    .step (.publish "lamp" (.itemRemoved "lamp")), .step .shutdown, .go supervisorId,
    .step .closeExecutor, .go 3, .go 3, .order []]

/-- A lamp is being lit, which takes five milliseconds, while the bridge is up. -/
def glowing : World :=
  (((demo.take (.advance 1000)).1.settle.enter (.listen (.ofString "lamp") .any
    { name := "lamp", isAsync := true, delayMs := 5, deed := .fail ["no power"] })).enter
      (.publish "lamp" (.itemRemoved "lamp"))).settle

/-- After `farewell` the connection is over and no callback is left. `Step.shutdown` in `glowing`
waits for the lamp. -/
theorem closing_of_course_demo :
    (demo.course farewell).Over ∧ (demo.course farewell).Drained ∧
    (demo.taken farewell).flatMap Handled.hooks = [.connect, .disconnect] ∧
    (demo.course farewell).trace.hooks =
      ["a.setup", "b.setup", "c.setup", "a.connect", "b.connect", "a.disconnect", "b.disconnect"] ∧
    (demo.course farewell).take .shutdown =
      ((demo.course farewell).log (.info "Shutdown complete"), .none) ∧
    (glowing.supervisor.isOnline ∧ glowing.executor.inFlight = 1 ∧
      (glowing.take .shutdown).1.clock = glowing.clock + 5) ∧
    (glowing.take .shutdown).1.isIdle ∧ (glowing.take .shutdown).1.Drained := by
  have hdemo : launch { connection := { url := "http://demo" } } demoScript
    [.scripted "a" [], .scripted "b" [.connect], .scripted "c" [.setup]] ⟨0⟩ = demo := rfl
  have hclosing := closing_of_course { connection := { url := "http://demo" } } demoScript
    [.scripted "a" [], .scripted "b" [.connect], .scripted "c" [.setup]] ⟨0⟩
  have hattended := attended_launch { connection := { url := "http://demo" } } demoScript
    [.scripted "a" [], .scripted "b" [.connect], .scripted "c" [.setup]] ⟨0⟩
  rw [hdemo] at hclosing hattended
  have hhooks : (demo.taken farewell).flatMap Handled.hooks = [.connect, .disconnect] := by
    decide +kernel
  have hshut : ∃ d ∈ demo.taken farewell, d.command.isShutdown :=
    List.any_eq_true.1 (by decide +kernel)
  obtain ⟨hover, hdrained, -⟩ := hclosing farewell
  obtain ⟨hover, -, -, -, -, -, hcalled⟩ := hover hshut []
  obtain ⟨-, hdrained⟩ := hdrained (by decide +kernel) (by decide +kernel)
  obtain ⟨hdrained, -, hagain⟩ := hdrained []
  rw [course_nil] at hover hcalled hdrained hagain
  have hglowing : demo.Proceeds glowing := by
    have hup := (proceeds_settle hattended (proceeds_take hattended .start (.advance 1000))).1
    exact (proceeds_settle hattended ((hup.step _).step _)).1
  obtain ⟨os, hos⟩ := hglowing.leadsTo
  obtain ⟨-, -, hstopped⟩ := hclosing os
  rw [hos] at hstopped
  obtain ⟨hidle, -, -, hempty, -⟩ := hstopped hglowing
  refine ⟨hover, hdrained, hhooks, ?_, hagain hover (by decide +kernel), by decide +kernel, hidle,
    hempty []⟩
  rw [hcalled, hhooks]
  decide +kernel

end

end World

end PeerLink.Bridge
