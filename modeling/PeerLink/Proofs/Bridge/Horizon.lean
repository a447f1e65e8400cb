import Mathlib.Order.Nat
import PeerLink.Proofs.Bridge.Waiting
/-!
# The end of the last callback

A plain callback takes no time but its delay, if it is asynchronous, and the listeners that its
failure is submitted to begin when it ends. So the time at which the last callback ends,
`World.horizon`, is determined by the jobs, the entries of `timers` and the registry, whatever the
order in which jobs are polled.

## Main definitions

* `World.Plain`: all deeds are plain.
* `World.due`, `World.settled`: the end of a callback, and of those its failure is submitted to.
* `World.horizon`: the end of the last callback.

## Main statements

* `World.TurnsTo.horizon_eq`: a turn leaves `World.horizon` as it is.
* `World.Attended.clock_drainFor`: when `World.drainFor` ends, the clock is at `World.horizon`.
-/

namespace PeerLink

open Connection

/-- The delay of an asynchronous callback, and `0` for a synchronous one. -/
def Invocation.pause (i : Invocation) : Nat := if i.1.isAsync then i.1.delayMs else 0

namespace Bridge

/-- The failure of a plain job. -/
def Job.outcome (j : Job) : Option CallbackFailure :=
  match j.phase with
  | .returned failure => failure
  | _ => j.callback.failure

theorem foldr_max_le {l : List Nat} {a n : Nat} : l.foldr max a ≤ n ↔ a ≤ n ∧ ∀ x ∈ l, x ≤ n := by
  induction l with
  | nil => simp
  | cons x l ih =>
    rw [List.foldr_cons, Nat.max_le, ih, List.forall_mem_cons]
    tauto

namespace World

variable {w w' : World} {id : Nat} {j : Job} {gone come : List (Nat × Job)} {executor : Executor}

/-! ## The end of a callback -/

/-- The time at which the deed of the job `e` is done. -/
def due (w : World) (e : Nat × Job) : Nat :=
  match e.2.phase with
  | .submitted => w.clock + e.2.invocation.pause
  | .sleeping => ((w.timers.filter (·.2 = e.1)).map Prod.fst).foldr max w.clock
  | _ => w.clock

/-- The latest end of the job `e` and of the callbacks that its failure is submitted to. -/
def settled (w : World) (e : Nat × Job) : Nat :=
  ((w.hearing.fallout e.2.event e.2.outcome).map fun i => w.due e + i.pause).foldr max (w.due e)

/-- The time at which the last callback ends. -/
def horizon (w : World) : Nat := (w.jobs.map w.settled).foldr max w.clock

theorem horizon_le {n : Nat} : w.horizon ≤ n ↔ w.clock ≤ n ∧ ∀ e ∈ w.jobs, w.settled e ≤ n := by
  rw [horizon, foldr_max_le, List.forall_mem_map]

theorem settled_le {e : Nat × Job} {n : Nat} : w.settled e ≤ n ↔
    w.due e ≤ n ∧ ∀ i ∈ w.hearing.fallout e.2.event e.2.outcome, w.due e + i.pause ≤ n := by
  rw [settled, foldr_max_le, List.forall_mem_map]

theorem due_le_of_sleeping {e : Nat × Job} {n : Nat} (hs : e.2.phase = .sleeping) :
    w.due e ≤ n ↔ w.clock ≤ n ∧ ∀ time, (time, e.1) ∈ w.timers → time ≤ n := by
  simp only [due, hs, foldr_max_le, List.forall_mem_map, List.mem_filter, decide_eq_true_eq]
  constructor
  · exact fun h => ⟨h.1, fun time ht => h.2 (time, e.1) ⟨ht, rfl⟩⟩
  · rintro ⟨hc, h⟩
    refine ⟨hc, ?_⟩
    rintro ⟨time, n⟩ ⟨ht, rfl⟩
    exact h time ht

theorem settled_congr {e e' : Nat × Job} (hdue : w'.due e' = w.due e)
    (hheard : w'.hearing = w.hearing) (hevent : e'.2.event = e.2.event)
    (houtcome : e'.2.outcome = e.2.outcome) : w'.settled e' = w.settled e := by
  rw [settled, settled, hdue, hheard, hevent, houtcome]

/-- `due` depends on the clock and the own entries of `timers` only. -/
theorem due_congr {e : Nat × Job} (hc : w'.clock = w.clock)
    (ht : ∀ time, (time, e.1) ∈ w'.timers ↔ (time, e.1) ∈ w.timers) : w'.due e = w.due e := by
  by_cases hs : e.2.phase = .sleeping
  · apply eq_of_forall_ge_iff
    intro n
    rw [due_le_of_sleeping hs, due_le_of_sleeping hs, hc]
    simp only [ht]
  · unfold due
    split
    · rw [hc]
    next h => exact absurd h hs
    · exact hc

/-! ## One poll of a job -/

theorem map_invocation_submitted (next : Nat) (is : List Invocation) :
    (submitted next is).map (·.2.invocation) = is := by
  simp [submitted, Job.invocation, Function.comp_def]

/-- The failure of a callback that handles a failure is not submitted. -/
theorem settled_of_mem_submitted {r : Registry} {next : Nat} {e : Event}
    {failure : Option CallbackFailure} {n : Nat × Job}
    (hn : n ∈ submitted next (r.fallout e failure)) :
    w.settled n = w.clock + n.2.invocation.pause := by
  have hdue : w.due n = w.clock + n.2.invocation.pause := by
    simp only [due, phase_of_mem_submitted hn]
  have herror : n.2.event.isError :=
    Registry.isError_of_mem_fallout (invocation_mem_of_mem_submitted hn)
  have hnone : w.hearing.fallout n.2.event n.2.outcome = [] := by
    unfold Registry.fallout
    split
    · exact if_pos herror
    · rfl
  rw [settled, hnone, hdue]
  rfl

/-- A plain job that may end is due now. -/
theorem Poised.due_of_mayEnd (h : w.Poised id j) (hj : j.Plain)
    {failure : Option CallbackFailure} (hp : j.MayEnd failure) :
    w.due (id, j) = w.clock ∧ j.outcome = failure := by
  rcases hp with hp | ⟨hm, hp | ⟨ha, ⟨hp, hd⟩ | ⟨call, hp⟩⟩⟩
  · simp [due, Job.outcome, hp]
  · have hnone : w.timers.filter (·.2 = id) = [] := by
      apply List.filter_eq_nil_iff.2
      rintro ⟨time, m⟩ hmem
      simp only [decide_eq_true_eq]
      rintro rfl
      exact h.unscheduled.timers time hmem
    simp [due, Job.outcome, hp, hnone, hm hj.deed]
  · simp [due, Job.outcome, hp, Invocation.pause, Job.invocation, hd, hm hj.deed]
  · exact absurd hp (hj.phase call)

/-- The added jobs are settled when the removed ones were to be. -/
theorem Poised.settled_come {told : Bool} (h : w.Poised id j) (hj : j.Plain)
    (hwork : Work w id j gone come executor) (hsettles : Settles come told w w')
    (hheard : w'.hearing = w.hearing) {n : Nat} (hn : w.clock ≤ n) :
    (∀ e ∈ come, w'.settled e ≤ n) ↔ ∀ e ∈ gone, w.settled e ≤ n := by
  have hone {k k' : Job} (hdue : w'.due (id, k') = w.due (id, k)) (hevent : k'.event = k.event)
      (houtcome : k'.outcome = k.outcome) :
      (∀ e ∈ [(id, k')], w'.settled e ≤ n) ↔ ∀ e ∈ [(id, k)], w.settled e ≤ n := by
    simp [settled_congr hdue hheard hevent houtcome]
  have hclock := hsettles.clock
  cases hwork with
  | queues hp ha hf =>
    exact hone (by simp [due, hp, ha, hclock, Invocation.pause, Job.invocation]) rfl
      (by simp [Job.outcome, hp])
  | sleeps hp ha hd =>
    refine hone ?_ rfl (by simp [Job.outcome, hp])
    obtain ⟨ms, hms, htimers⟩ := hsettles.mem_timers
    obtain rfl : ms = j.callback.delayMs := hms _ List.mem_cons_self rfl
    apply eq_of_forall_ge_iff
    intro m
    rw [due_le_of_sleeping rfl, hclock]
    simp [due, hp, htimers, h.unscheduled.timers, Invocation.pause, Job.invocation, ha,
      Job.isTimed]
    omega
  | occupies _ _ _ hd | asks _ hd => exact absurd hd hj.not_request
  | runs hp ha hf hm =>
    exact hone (by simp [due, hp, ha, hclock, Invocation.pause, Job.invocation]) rfl
      (by simp [Job.outcome, hp, hm hj.deed])
  | frees hp hw hm =>
    have hp := hj.granted hp
    exact hone (by simp [due, hp, hclock]) rfl (by simp [Job.outcome, hp, hm hj.deed])
  | @yields failure next rest k hp hw hk hm =>
    have hp := hj.granted hp
    have hfirst : w'.settled (id, { j with phase := .returned failure }) = w.settled (id, j) :=
      settled_congr (by simp [due, hp, hclock]) hheard rfl (by simp [Job.outcome, hp, hm hj.deed])
    have hsecond : w'.settled (next, { k with phase := .granted }) = w.settled (next, k) :=
      settled_congr (by simp [due, Job.isWaiting_iff.1 hk, hclock]) hheard rfl
        (by simp [Job.outcome, Job.isWaiting_iff.1 hk])
    simp [hfirst, hsecond]
  | @ends failure hp =>
    have hdue := h.due_of_mayEnd hj hp
    have hcome (e : Nat × Job)
        (he : e ∈ submitted w.nextTask (w.hearing.fallout j.event failure)) :
        w'.settled e ≤ n ↔ w.clock + e.2.invocation.pause ≤ n := by
      rw [settled_of_mem_submitted he, hclock]
    calc (∀ e ∈ submitted w.nextTask (w.hearing.fallout j.event failure), w'.settled e ≤ n)
      _ ↔ ∀ e ∈ submitted w.nextTask (w.hearing.fallout j.event failure),
          w.clock + e.2.invocation.pause ≤ n := forall₂_congr hcome
      _ ↔ ∀ i ∈ w.hearing.fallout j.event failure, w.clock + i.pause ≤ n := by
        rw [← List.forall_mem_map (f := fun e : Nat × Job => e.2.invocation)
          (P := fun i => w.clock + Invocation.pause i ≤ n), map_invocation_submitted]
      _ ↔ ∀ e ∈ [(id, j)], w.settled e ≤ n := by
        simp [settled_le, hdue, hn]

/-- The turn of a plain job, which publishes nothing first. -/
theorem Poised.turn_of_plain (h : w.Poised id j) (hj : j.Plain) : ∃ gone come executor,
    Work w id j gone come executor ∧
    Shifts (w.callsOf j) gone come executor w (w.pollJob id j) ∧
    Settles come false w (w.pollJob id j) := by
  obtain ⟨gone, come, executor, told, hwork, hshift, htold, hsettles⟩ := h.turn
  obtain rfl := htold hj
  rw [primed_of_plain hj] at hwork hshift hsettles
  exact ⟨gone, come, executor, hwork, hshift, hsettles⟩

/-- Polling a plain job leaves `horizon` as it is. -/
theorem Poised.horizon (h : w.Poised id j) (hj : j.Plain) :
    (w.pollJob id j).horizon = w.horizon := by
  obtain ⟨gone, come, executor, hwork, hshift, hsettles⟩ := h.turn_of_plain hj
  obtain ⟨others, hold, hnew⟩ := hshift.jobs
  have hheard := hshift.hearing hwork.closed
  have hothers (e : Nat × Job) (he : e ∈ others) : (w.pollJob id j).settled e = w.settled e := by
    have hmem := hold.mem_iff.2 (List.mem_append_right _ he)
    have hsame := hsettles.of_not_mem (Poised.not_mem_come h.tidy_pollJob hnew he)
      (Nat.ne_of_gt (h.isJob hmem).first)
    exact settled_congr (due_congr hsettles.clock hsame.2) hheard rfl rfl
  apply eq_of_forall_ge_iff
  intro n
  simp only [horizon_le, hsettles.clock, hold.mem_iff, hnew.mem_iff, List.forall_mem_append]
  refine and_congr_right fun hn => and_congr (h.settled_come hj hwork hsettles hheard hn) ?_
  exact forall₂_congr fun e he => by rw [hothers e he]

/-! ## The passing of time -/

/-- All deeds of listeners and jobs are plain. -/
structure Plain (w : World) : Prop where
  listeners : ∀ l ∈ w.registry.listeners, l.callback.deed.isPlain
  jobs : ∀ e ∈ w.jobs, e.2.Plain

theorem Plain.mute (h : w.Plain) : w.Mute :=
  .inr ⟨fun l hl => Deed.isQuiet_of_isPlain (h.listeners l hl),
    fun e he => Deed.isQuiet_of_isPlain (h.jobs e he).deed⟩

/-- When `ready` is empty all plain jobs sleep. -/
theorem Attended.asleep (h : w.Attended) (hp : w.Plain) (hr : w.ready = []) :
    ∀ e ∈ w.jobs, e.2.phase = .sleeping ∧ ∃ time, (time, e.1) ∈ w.timers := by
  have hactive {e : Nat × Job} (he : e ∈ w.jobs) : ¬e.2.isActive := fun ha => by
    simpa [hr] using (h.placed e he).active ha
  have hidle : w.jobs.countP (·.2.isWorking) = 0 := by
    apply List.countP_eq_zero.2
    intro e he hworks
    have hgranted := (hp.jobs e he).granted hworks
    exact hactive he (by simp [Job.isActive, hgranted])
  have hqueue : w.executor.waiting = [] := by
    by_contra hne
    have hworkers := h.manned.workers
    have hworking := h.manned.working
    have hfree := h.manned.eager hne
    omega
  intro e he
  have hwaits : ¬e.2.isWaiting := by
    intro hwaits
    have hmem : e.1 ∈ waiters w.jobs := List.mem_map_of_mem (List.mem_filter.2 ⟨he, hwaits⟩)
    rw [← h.manned.waiting.mem_iff, hqueue] at hmem
    cases hmem
  have hs : e.2.phase = .sleeping := by
    have hgoes := hactive he
    have hasks := (hp.jobs e he).phase
    cases hphase : e.2.phase <;> simp_all [Job.isWaiting, Job.isActive]
  exact ⟨hs, (h.placed e he).sleeping (by simp [Job.isTimed, hs]) (by simp [hr])⟩

/-- Moving the clock to the first entry of `timers` leaves `horizon` as it is. -/
theorem Attended.horizon_fire (h : w.Attended) (hp : w.Plain) (hr : w.ready = [])
    (hjobs : w.jobs ≠ []) {time : Nat} (hdue : ∀ e ∈ w.timers, time ≤ e.1) :
    (w.fire time).horizon = w.horizon := by
  have hasleep := h.asleep hp hr
  obtain ⟨ready, heq⟩ := fire_eq w time
  rw [heq]
  have hsettled (e : Nat × Job) (he : e ∈ w.jobs) : settled { w with
      clock := time, timers := w.timers.filter (·.1 ≠ time), ready } e = w.settled e := by
    obtain ⟨hs, first, hfirst⟩ := hasleep e he
    refine settled_congr (eq_of_forall_ge_iff fun n => ?_) rfl rfl rfl
    rw [due_le_of_sleeping hs, due_le_of_sleeping hs]
    have hle := hdue _ hfirst
    have hnow := h.orderly.later _ hfirst
    constructor
    · rintro ⟨htime, hrest⟩
      have hall (other : Nat) (ho : (other, e.1) ∈ w.timers) : other ≤ n := by
        by_cases hne : other = time
        · exact hne ▸ htime
        · exact hrest other (List.mem_filter.2 ⟨ho, by simpa using hne⟩)
      exact ⟨Nat.le_trans hnow (hall first hfirst), hall⟩
    · rintro ⟨-, hall⟩
      exact ⟨Nat.le_trans hle (hall first hfirst),
        fun other ho => hall other (List.mem_of_mem_filter ho)⟩
  obtain ⟨e, he⟩ := List.exists_mem_of_ne_nil _ hjobs
  obtain ⟨hs, first, hfirst⟩ := hasleep e he
  have hbetween {n : Nat} (hn : w.settled e ≤ n) : w.clock ≤ n ∧ time ≤ n := by
    obtain ⟨hnow, htimes⟩ := (due_le_of_sleeping hs).1 (settled_le.1 hn).1
    exact ⟨hnow, Nat.le_trans (hdue _ hfirst) (htimes first hfirst)⟩
  apply eq_of_forall_ge_iff
  intro n
  rw [horizon_le, horizon_le]
  constructor
  · rintro ⟨-, hall⟩
    have hall : ∀ e ∈ w.jobs, w.settled e ≤ n := fun e he => hsettled e he ▸ hall e he
    exact ⟨(hbetween (hall e he)).1, hall⟩
  · rintro ⟨-, hall⟩
    exact ⟨(hbetween (hall e he)).2, fun e he => (hsettled e he).symm ▸ hall e he⟩

/-- A task that submits nothing leaves `horizon` as it is. -/
theorem horizon_of_joins (hg : w.Joins [] w') (hjobs : ∀ e ∈ w.jobs, w.IsJob e.1) :
    w'.horizon = w.horizon := by
  have hsettled (e : Nat × Job) (he : e ∈ w.jobs) : w'.settled e = w.settled e :=
    settled_congr (due_congr hg.clock (hg.timers _ (hjobs e he))) hg.hearing rfl rfl
  rw [horizon, horizon, hg.jobs, List.append_nil, hg.clock, List.map_congr_left hsettled]

/-! ## Waiting -/

namespace TurnsTo

variable {v : World}

theorem plain (h : w.TurnsTo v) (hp : w.Plain)
    (ha : w.aside → v.executor.inFlight = w.executor.inFlight) : v.Plain := by
  cases h with
  | @job id rest j hr hpoised =>
    obtain ⟨gone, come, executor, hwork, hshift, -⟩ :=
      hpoised.turn_of_plain (hp.jobs _ hpoised.mem)
    obtain ⟨others, hold, hnew⟩ := hshift.jobs
    constructor
    · rw [hshift.registry]
      exact hp.listeners
    intro e he
    rcases List.mem_append.1 (hnew.mem_iff.1 he) with he | he
    · have hjobs (e : Nat × Job) (he : e ∈ w.jobs) : e.2.Plain ∧ supervisorId < e.1 :=
        ⟨hp.jobs e he, (hpoised.isJob he).first⟩
      have hcome := Work.plain (w := { w with ready := rest }) hp.listeners hjobs
        hpoised.orderly.first hwork hshift
      exact (hcome e he).1
    · exact hp.jobs e (hold.mem_iff.2 (List.mem_append_right _ he))
  | @aside id rest hr hid hgains =>
    have hjoins := joins_nil_of_gains hgains (ha (aside_eq_true hr hid))
    constructor
    · rw [hjoins.registry]
      exact hp.listeners
    · rw [hjoins.jobs, List.append_nil]
      exact hp.jobs
  | @time time =>
    obtain ⟨_, heq⟩ := fire_eq w time
    rw [heq]
    exact ⟨hp.listeners, hp.jobs⟩

/-- A turn leaves `horizon` as it is, if other tasks submit nothing. -/
theorem horizon_eq (h : w.TurnsTo v) (hw : w.Attended) (hp : w.Plain)
    (ha : w.aside → v.executor.inFlight = w.executor.inFlight) : v.horizon = w.horizon := by
  cases h with
  | job hr hpoised => exact hpoised.horizon (hp.jobs _ hpoised.mem)
  | @aside id rest hr hid hgains =>
    have hjoins := joins_nil_of_gains hgains (ha (aside_eq_true hr hid))
    refine (horizon_of_joins hjoins fun e he => ?_).trans rfl
    exact ⟨(hw.isJob he).first, (hw.isJob he).given, (hw.isJob he).mem⟩
  | time hr hjobs hdue => exact hw.horizon_fire hp hr hjobs (nextDue_le hdue)

end TurnsTo

namespace Attended

theorem clock_eq_horizon (h : w.Attended) (hi : w.executor.inFlight = 0) :
    w.clock = w.horizon := by
  simp [World.horizon, h.jobs_eq_nil_iff.2 hi]

/-- When `World.drainFor` ends with no callback running, the clock is at `horizon`. -/
theorem clock_drainFor (h : w.Attended) (hp : w.Plain) {n : Nat} (hn : w.isAlone n)
    (hi : (World.drainFor n w).executor.inFlight = 0) : (World.drainFor n w).clock = w.horizon := by
  have hstep {u v : World} (hu : u.Attended) (hsame : u.Plain ∧ u.horizon = w.horizon)
      (ha : u.aside → v.executor.inFlight = u.executor.inFlight) (hturns : u.TurnsTo v) :
      v.Plain ∧ v.horizon = w.horizon :=
    ⟨hturns.plain hsame.1 ha, (hturns.horizon_eq hu hsame.1 ha).trans hsame.2⟩
  have hlast := h.drainFor_induction hstep ⟨hp, rfl⟩ hn
  rw [(h.drainFor n).clock_eq_horizon hi, hlast.2]

end Attended

end World

end Bridge

end PeerLink
