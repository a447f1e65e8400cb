import Mathlib.Algebra.Group.Action.Defs
import Mathlib.Algebra.Order.BigOperators.Group.List
import Mathlib.Tactic.Ring
import PeerLink.Proofs.Bridge.Attendance
/-!
# Waiting until no callback is running

`World.drainFor` takes turns until the world is idle. A turn polls the first task in `ready` or, if
`ready` is empty, moves the clock to the first entry of `timers`. While a callback is running there
is another turn. If callbacks publish nothing by themselves, `World.toil` decreases with every turn
of a callback and of the clock, so the number of turns is bounded by `World.toil` and the number of
turns of other tasks.

## Main definitions

* `World.Mute`: callbacks publish nothing by themselves.
* `World.TurnsTo`: the world after one turn.
* `World.toil`: a bound on the turns of callbacks and of the clock.
* `World.asides`: the number of turns of other tasks among the next `n`.
* `World.isAlone`: other tasks submit nothing in the next `n` turns.

## Main statements

* `World.Attended.turn`: as long as a callback is running there is another turn.
* `World.Attended.isIdle_drainFor`, `World.Attended.isIdle_drain`: waiting ends.
-/

namespace PeerLink.Bridge

open Connection

/-- The number of polls after which `j` has ended. -/
def Job.turns (j : Job) : Nat :=
  match j.phase with
  | .submitted => 5
  | .waiting => 4
  | .granted | .sleeping => 3
  | .asking _ => 2
  | .returned _ => 1

theorem Job.turns_pos (j : Job) : 0 < j.turns := by
  unfold turns
  split <;> exact Nat.succ_pos _

theorem Job.turns_le (j : Job) : j.turns ≤ 5 := by
  unfold turns
  split <;> omega

theorem Job.one_lt_turns {j : Job} (h : j.isWorking) : 1 < j.turns := by
  cases hs : j.phase <;> simp_all [isWorking, turns]

namespace World

variable {w w' : World} {id : Nat} {j : Job} {gone come : List (Nat × Job)} {executor : Executor}

/-! ## Callbacks that publish nothing -/

/-- Callbacks publish nothing by themselves, because no deed publishes an event or because the
executor is closed. -/
def Mute (w : World) : Prop :=
  w.executor.closed ∨ (∀ l ∈ w.registry.listeners, l.callback.deed.isQuiet) ∧
    ∀ e ∈ w.jobs, e.2.callback.deed.isQuiet

theorem Mute.primed_eq (h : w.Mute) (hj : (id, j) ∈ w.jobs) : w.primed j = w :=
  h.elim (primed_of_closed · j) fun hq => primed_of_isQuiet (hq.2 _ hj)

theorem exists_listener_of_mem_submitted {next : Nat} {e : Event}
    {failure : Option CallbackFailure} {n : Nat × Job}
    (h : n ∈ submitted next (w.hearing.fallout e failure)) :
    ∃ l ∈ w.registry.listeners, n.2.callback = l.callback := by
  have hmem := invocation_mem_of_mem_submitted h
  unfold Registry.fallout at hmem
  split at hmem
  · split at hmem
    · cases hmem
    · obtain ⟨l, hl, heq⟩ := List.mem_map.1 hmem
      exact ⟨l, mem_hearing (List.mem_of_mem_filter hl), (Prod.mk.inj heq).1.symm⟩
  · cases hmem

/-- The callback of an added job is that of a removed job or of a listener. -/
theorem Work.callback {P : Callback → Prop} (h : Work w id j gone come executor)
    (hgone : ∀ e ∈ gone, P e.2.callback) (hl : ∀ l ∈ w.registry.listeners, P l.callback) :
    ∀ e ∈ come, P e.2.callback := by
  intro e he
  cases h with
  | queues | sleeps | occupies | asks | runs | frees =>
    obtain rfl := List.mem_singleton.1 he
    exact hgone (id, j) List.mem_cons_self
  | @yields failure next rest k hp hw hk =>
    rcases List.mem_pair.1 he with rfl | rfl
    · exact hgone (id, j) List.mem_cons_self
    · exact hgone (next, k) (by simp)
  | ends =>
    obtain ⟨l, hmem, heq⟩ := exists_listener_of_mem_submitted he
    exact heq ▸ hl l hmem

/-! ## The measure of jobs -/

/-- The number of polls after which the job `e` and the jobs that its failure is submitted to have
ended, and one for each of the latter. -/
def burden (w : World) (e : Nat × Job) : Nat :=
  e.2.turns + if e.2.event.isError then 0 else 6 * w.hearing.size

/-- A bound on the turns of `World.drainFor` other than those of tasks that are no jobs. The clock
moves at most once between two polls. -/
def toil (w : World) : Nat := 2 * (w.jobs.map w.burden).sum + if w.ready = [] then 1 else 0

theorem burden_congr (hheard : w'.hearing = w.hearing) : w'.burden = w.burden := by
  funext e
  rw [burden, burden, hheard]

theorem length_fallout_le (r : Registry) (e : Event) (failure : Option CallbackFailure) :
    (r.fallout e failure).length ≤ if e.isError then 0 else r.size := by
  unfold Registry.fallout
  split
  · split
    · simp
    · simpa [Registry.audience, Registry.accepting, Registry.size] using List.length_filter_le _ _
  · simp

theorem sum_burden_fallout (w : World) (next : Nat) (e : Event)
    (failure : Option CallbackFailure) :
    ((submitted next (w.hearing.fallout e failure)).map w.burden).sum =
      5 * (w.hearing.fallout e failure).length := by
  have hfive (n : Nat × Job) (hn : n ∈ submitted next (w.hearing.fallout e failure)) :
      w.burden n = 5 := by
    have herror : n.2.event.isError :=
      Registry.isError_of_mem_fallout (invocation_mem_of_mem_submitted hn)
    simp [burden, Job.turns, phase_of_mem_submitted hn, herror]
  rw [List.map_congr_left hfive]
  simp [length_submitted, Nat.mul_comm]

/-- Each case of `Work` decreases the burden, also if each added job that is active and each entry
of `timers` costs a third of a poll. -/
theorem Work.burden_lt (h : Work w id j gone come executor) :
    3 * (come.map w.burden).sum + come.countP (·.2.isActive) + 2 * come.countP (·.2.isTimed) <
      3 * (gone.map w.burden).sum := by
  cases h with
  | queues hp | sleeps hp | occupies hp | runs hp =>
    simp only [burden, Job.turns, hp, List.map_cons, List.map_nil, List.sum_cons, List.sum_nil,
      List.countP_singleton, Job.isActive, Job.isTimed, if_true, Bool.false_eq_true, if_false]
    omega
  | asks hp =>
    rcases hp with ⟨hp, -⟩ | ⟨-, hp | ⟨hp, -⟩⟩ <;>
    · simp [burden, Job.turns, hp, Job.isActive, Job.isTimed]
      omega
  | frees hp =>
    have hturns := Job.one_lt_turns hp
    simp [burden, Job.turns, Job.isActive, Job.isTimed] at hturns ⊢
    omega
  | yields hp hw hk =>
    have hturns := Job.one_lt_turns hp
    simp [burden, Job.turns, Job.isWaiting_iff.1 hk, Job.isActive, Job.isTimed] at hturns ⊢
    omega
  | @ends failure hp =>
    have hturns := j.turns_pos
    have hlength := length_fallout_le w.hearing j.event failure
    have htimed : (submitted w.nextTask (w.hearing.fallout j.event failure)).countP
        (·.2.isTimed) = 0 := by
      apply List.countP_eq_zero.2
      intro e he
      simp [Job.isTimed, phase_of_mem_submitted he]
    have hactive := List.countP_le_length (p := fun e : Nat × Job => e.2.isActive)
      (l := submitted w.nextTask (w.hearing.fallout j.event failure))
    rw [length_submitted] at hactive
    rw [sum_burden_fallout, htimed]
    simp only [burden, List.map_cons, List.map_nil, List.sum_cons, List.sum_nil]
    generalize (w.hearing.fallout j.event failure).length = n at hlength hactive ⊢
    split at hlength <;> rename_i he <;> simp only [he, if_true, Bool.false_eq_true, if_false] <;>
      omega

/-! ## One turn -/

/-- The world after one turn of `World.drainFor`: a job is polled, another task is polled, or the
clock moves while a callback is running. -/
inductive TurnsTo (w : World) : World → Prop where
  | job {id : Nat} {rest : List Nat} {j : Job} (hr : w.ready = id :: rest)
      (h : Poised { w with ready := rest } id j) :
      TurnsTo w (pollJob { w with ready := rest } id j)
  | aside {id : Nat} {rest : List Nat} (hr : w.ready = id :: rest)
      (hid : id ∉ w.jobs.map Prod.fst)
      (h : Gains { w with ready := rest } (World.poll { w with ready := rest } id)) :
      TurnsTo w (World.poll { w with ready := rest } id)
  | time {time : Nat} (hr : w.ready = []) (hjobs : w.jobs ≠ []) (hdue : w.nextDue = some time) :
      TurnsTo w (w.fire time)

/-- While a callback is running and `ready` is empty, `timers` has an entry: a job that waits for a
worker waits for a job that is timed. -/
theorem Attended.exists_timer (h : w.Attended) (hr : w.ready = []) (hjobs : w.jobs ≠ []) :
    w.timers ≠ [] := by
  intro hnone
  have hwaits (e : Nat × Job) (he : e ∈ w.jobs) : e.2.isWaiting := by
    have hplaced := h.placed e he
    have hactive : ¬e.2.isActive := fun ha => by simpa [hr] using hplaced.active ha
    have htimed : ¬e.2.isTimed := fun ht => by simpa [hr, hnone] using hplaced.sleeping ht
    cases hp : e.2.phase <;> simp_all [Job.isActive, Job.isTimed, Job.isWaiting]
  have hidle : w.jobs.countP (·.2.isWorking) = 0 := by
    apply List.countP_eq_zero.2
    intro e he
    simp [Job.isWorking, Job.isWaiting_iff.1 (hwaits e he)]
  have hqueue : w.executor.waiting ≠ [] := by
    obtain ⟨e, he⟩ := List.exists_mem_of_ne_nil _ hjobs
    have hmem : e.1 ∈ waiters w.jobs := List.mem_map_of_mem (List.mem_filter.2 ⟨he, hwaits e he⟩)
    exact List.ne_nil_of_mem (h.manned.waiting.mem_iff.2 hmem)
  have hworkers := h.manned.workers
  have hworking := h.manned.working
  have hfree := h.manned.eager hqueue
  omega

theorem Attended.jobs_eq_nil_iff (h : w.Attended) : w.jobs = [] ↔ w.executor.inFlight = 0 := by
  rw [h.manned.inFlight, List.length_eq_zero_iff]

/-- As long as the world is not idle there is another turn. -/
theorem Attended.turn (h : w.Attended) (hidle : w.isIdle = false) :
    ∃ v, w.turn = some v ∧ v.Attended ∧ w.TurnsTo v := by
  cases hr : w.ready with
  | nil =>
    have hjobs : w.jobs ≠ [] := by
      intro hnone
      simp [isIdle, hr, h.jobs_eq_nil_iff.1 hnone] at hidle
    obtain ⟨time, hdue⟩ : ∃ time, w.nextDue = some time := by
      apply Option.ne_none_iff_exists'.1
      intro hnone
      exact h.exists_timer hr hjobs (List.map_eq_nil_iff.1 (List.min?_eq_none_iff.1 hnone))
    have hturn : w.turn = some (w.fire time) := by simp [World.turn, settleStep, hr, hdue]
    exact ⟨_, hturn, h.fire (nextDue_le hdue), .time hr hjobs hdue⟩
  | cons id rest =>
    have hid : id ∈ w.ready := by simp [hr]
    have hrest : w.ready.erase id = rest := by simp [hr]
    have hturn : w.turn = some (World.poll { w with ready := rest } id) := by
      simp only [World.turn, settleStep, hr]
    have hattended := h.poll hid
    rw [hrest] at hattended
    refine ⟨_, hturn, hattended, ?_⟩
    by_cases hjob : id ∈ w.jobs.map Prod.fst
    · obtain ⟨⟨n, j⟩, hj, hn⟩ := List.mem_map.1 hjob
      obtain rfl : n = id := hn
      have hpoised := h.poised hj hid
      rw [hrest] at hpoised
      rw [hpoised.poll_eq]
      exact .job hr hpoised
    · have hgains := h.gains_turn hjob
      rw [hrest] at hgains
      exact .aside hr hjob hgains

/-! ## Turns of other tasks -/

/-- Whether the next turn polls a task that is no job. -/
def aside (w : World) : Bool :=
  match w.ready with
  | [] => false
  | id :: _ => decide (id ∉ w.jobs.map Prod.fst)

/-- How many of the next `n` turns of `World.drainFor` poll tasks that are no jobs. -/
def asides : (n : Nat) → World → Nat
  | 0, _ => 0
  | n + 1, w =>
    if w.isIdle then 0
    else match w.turn with
      | some v => w.aside.toNat + asides n v
      | none => 0

/-- Whether tasks that are no jobs submit nothing in the next `n` turns of `World.drainFor`. -/
def isAlone : (n : Nat) → World → Bool
  | 0, _ => true
  | n + 1, w =>
    w.isIdle || match w.turn with
      | some v => (!w.aside || v.executor.inFlight == w.executor.inFlight) && isAlone n v
      | none => true

theorem isAlone_succ (hidle : w.isIdle = false) (ht : w.turn = some w') {n : Nat} :
    w.isAlone (n + 1) ↔
      (w.aside → w'.executor.inFlight = w.executor.inFlight) ∧ w'.isAlone n := by
  simp only [isAlone, hidle, ht, Bool.false_or, Bool.and_eq_true, Bool.or_eq_true,
    Bool.not_eq_true', beq_iff_eq]
  cases w.aside <;> simp

theorem joins_nil_of_gains {u v : World} (h : u.Gains v)
    (hflight : v.executor.inFlight = u.executor.inFlight) : Joins [] u v := by
  obtain ⟨more, h⟩ := h
  obtain rfl : more = [] := by
    rw [h.executor] at hflight
    exact List.eq_nil_of_length_eq_zero (by simpa using hflight)
  exact h

theorem Joins.hearing {more : List (Nat × Job)} (h : Joins more w w') :
    w'.hearing = w.hearing := by
  simp only [World.hearing, h.executor, h.registry]

theorem Shifts.hearing {calls : List Invocation} (h : Shifts calls gone come executor w w')
    (hc : executor.closed = w.executor.closed) : w'.hearing = w.hearing := by
  rw [World.hearing, World.hearing, h.registry, h.executor, hc]

theorem Gains.mute (h : w.Gains w') (hm : w.Mute) : w'.Mute := by
  obtain ⟨more, h⟩ := h
  rcases hm with hc | ⟨hl, hj⟩
  · exact .inl (by rw [h.executor]; exact hc)
  · refine .inr ⟨h.registry ▸ hl, fun e he => ?_⟩
    rcases List.mem_append.1 (h.jobs ▸ he) with he | he
    · exact hj e he
    · obtain ⟨l, hmem, heq⟩ := (h.newcomer e he).listens
      exact heq ▸ hl l hmem

/-- The turn of a job in a mute world, which publishes nothing first. -/
theorem Poised.turn_of_mute (h : w.Poised id j) (hm : w.Mute) : ∃ gone come executor told,
    Work w id j gone come executor ∧
    Shifts (w.callsOf j) gone come executor w (w.pollJob id j) ∧
    (j.Plain → told = false) ∧ Settles come told w (w.pollJob id j) := by
  simpa only [hm.primed_eq h.mem] using h.turn

theorem toil_fire (hr : w.ready = []) {time : Nat} (ht : (time, id) ∈ w.timers) :
    (w.fire time).toil < w.toil := by
  have hready : (w.fire time).ready ≠ [] :=
    List.ne_nil_of_mem ((mem_ready_fire w time id).2 (.inr ht))
  have hburden : ((w.fire time).jobs.map (w.fire time).burden).sum =
      (w.jobs.map w.burden).sum := by
    obtain ⟨ready, heq⟩ := fire_eq w time
    rw [heq]
    rfl
  rw [toil, toil, hburden, if_neg hready, if_pos hr]
  omega

/-- The burdens of all jobs before and after the jobs `gone` are replaced by `come`. -/
theorem Shifts.sum_burden {calls : List Invocation} (h : Shifts calls gone come executor w w')
    (hc : executor.closed = w.executor.closed) : ∃ rest : Nat,
      (w.jobs.map w.burden).sum = (gone.map w.burden).sum + rest ∧
      (w'.jobs.map w'.burden).sum = (come.map w.burden).sum + rest := by
  obtain ⟨others, hold, hnew⟩ := h.jobs
  refine ⟨(others.map w.burden).sum, ?_, ?_⟩
  · rw [(hold.map w.burden).sum_nat, List.map_append, List.sum_append_nat]
  · rw [burden_congr (h.hearing hc), (hnew.map w.burden).sum_nat, List.map_append,
      List.sum_append_nat]

namespace TurnsTo

variable {v : World}

theorem aside_eq_true {rest : List Nat} (hr : w.ready = id :: rest)
    (hid : id ∉ w.jobs.map Prod.fst) : w.aside = true := by
  simpa [World.aside, hr] using hid

theorem mute (h : w.TurnsTo v) (hm : w.Mute) : v.Mute := by
  cases h with
  | @job id rest j hr hpoised =>
    obtain ⟨gone, come, executor, told, hwork, hshift, -⟩ := hpoised.turn_of_mute hm
    rcases hm with hc | ⟨hl, hj⟩
    · refine .inl ?_
      rw [hshift.executor, hwork.closed]
      exact hc
    · obtain ⟨others, hold, hnew⟩ := hshift.jobs
      have hall (e : Nat × Job) (he : e ∈ gone ++ others) : e.2.callback.deed.isQuiet :=
        hj e (hold.mem_iff.2 he)
      have hcome := hwork.callback (P := (·.deed.isQuiet))
        (fun e he => hall e (List.mem_append_left _ he)) hl
      refine .inr ⟨?_, fun e he => ?_⟩
      · rw [hshift.registry]
        exact hl
      rcases List.mem_append.1 (hnew.mem_iff.1 he) with he | he
      · exact hcome e he
      · exact hall e (List.mem_append_right _ he)
  | aside hr hid hgains => exact hgains.mute hm
  | @time time =>
    obtain ⟨_, heq⟩ := fire_eq w time
    rw [heq]
    exact hm

/-- `toil` decreases unless another task is polled. -/
theorem toil_lt (h : w.TurnsTo v) (hm : w.Mute)
    (ha : w.aside → v.executor.inFlight = w.executor.inFlight) :
    v.toil < w.toil + 2 * w.aside.toNat := by
  cases h with
  | @job id rest j hr hpoised =>
    obtain ⟨gone, come, executor, told, hwork, hshift, -⟩ := hpoised.turn_of_mute hm
    obtain ⟨others, hold, hnew⟩ := hshift.sum_burden hwork.closed
    have hless := hwork.burden_lt
    have hold : (w.jobs.map w.burden).sum = (gone.map w.burden).sum + others := hold
    have hless : 3 * (come.map w.burden).sum + come.countP (·.2.isActive) +
        2 * come.countP (·.2.isTimed) < 3 * (gone.map w.burden).sum := hless
    have hnew : ((pollJob { w with ready := rest } id j).jobs.map
        (burden (pollJob { w with ready := rest } id j))).sum =
          (come.map w.burden).sum + others := hnew
    rw [toil, toil, hold, hnew]
    split <;> omega
  | @aside id rest hr hid hgains =>
    have haside := aside_eq_true hr hid
    have hjoins := joins_nil_of_gains hgains (ha haside)
    have hjobs := hjoins.jobs
    have hburden := burden_congr hjoins.hearing
    rw [List.append_nil] at hjobs
    rw [toil, toil, hjobs, hburden, haside, Bool.toNat_true]
    change 2 * (w.jobs.map w.burden).sum + _ < _
    split <;> omega
  | @time time hr hjobs hdue =>
    obtain ⟨⟨_, n⟩, hn, rfl⟩ := List.mem_map.1 (List.min?_eq_some_iff.1 hdue).1
    exact Nat.lt_of_lt_of_le (toil_fire hr hn) (Nat.le_add_right _ _)

/-- The clock moves only while a callback is running. -/
theorem clock_eq (h : w.TurnsTo v) (hw : w.Attended) (hflight : w.executor.inFlight = 0) :
    v.clock = w.clock := by
  have hnone := hw.jobs_eq_nil_iff.2 hflight
  cases h with
  | job hr hpoised =>
    have hmem : _ ∈ w.jobs := hpoised.mem
    rw [hnone] at hmem
    cases hmem
  | aside hr hid hgains =>
    obtain ⟨_, hjoins⟩ := hgains
    exact hjoins.clock
  | time hr hjobs => exact absurd hnone hjobs

theorem inFlight_of_closed (h : w.TurnsTo v) (hc : w.executor.closed) (ha : w.aside) :
    v.executor.inFlight = w.executor.inFlight := by
  cases h with
  | job hr hpoised =>
    have hmem : _ ∈ w.jobs.map Prod.fst := List.mem_map_of_mem (f := Prod.fst) hpoised.mem
    simp [World.aside, hr, hmem] at ha
  | aside hr hid hgains =>
    obtain ⟨_, hjoins⟩ := hgains
    rw [hjoins.executor, hjoins.closed hc, List.length_nil, Nat.add_zero]
  | time hr => simp [World.aside, hr] at ha

end TurnsTo

/-! ## Waiting -/

theorem drainFor_add (m n : Nat) (w : World) :
    drainFor (m + n) w = drainFor n (drainFor m w) := by
  induction m generalizing w with
  | zero => rw [Nat.zero_add, drainFor]
  | succ m ih =>
    rw [Nat.succ_add, drainFor, drainFor]
    cases hidle : w.isIdle with
    | true => cases n <;> simp [drainFor, hidle]
    | false =>
      cases hturn : w.turn with
      | none => cases n <;> simp [drainFor, hidle, hturn]
      | some v => simpa using ih v

theorem drainFor_succ (hidle : w.isIdle = false) (ht : w.turn = some w') (n : Nat) :
    drainFor (n + 1) w = drainFor n w' := by
  simp [drainFor, hidle, ht]

theorem drainFor_of_isIdle (hidle : w.isIdle) (n : Nat) : drainFor n w = w := by
  cases n <;> simp [drainFor, hidle]

theorem sum_burden_le (w : World) :
    (w.jobs.map w.burden).sum ≤ w.jobs.length * (6 * (w.registry.size + 1)) := by
  have hsize : w.hearing.size ≤ w.registry.size := by
    unfold hearing
    split
    · simp [Registry.clear, Registry.size]
    · exact Nat.le_refl _
  have hburden (e : Nat × Job) : w.burden e ≤ 6 * (w.registry.size + 1) := by
    have hturns := e.2.turns_le
    unfold burden
    split <;> omega
  have hle := List.sum_le_card_nsmul (w.jobs.map w.burden) (6 * (w.registry.size + 1))
    (List.forall_mem_map.2 fun e _ => hburden e)
  rwa [List.length_map, smul_eq_mul] at hle

/-- The fuel of `World.drain` for the tasks that there are. -/
theorem allowance_tasks (w : World) : 18 * w.tasks.length * (w.registry.size + 1) =
    3 * (w.tasks.length * (6 * (w.registry.size + 1))) := by ring

/-- The fuel of `World.drain` exceeds `toil` and `patience` turns of other tasks. -/
theorem toil_lt_allowance (w : World) : w.toil + 2 * patience < w.allowance := by
  have hlength : w.jobs.length ≤ w.tasks.length := List.length_filterMap_le _ _
  have hsum := w.sum_burden_le.trans (Nat.mul_le_mul_right _ hlength)
  have htasks := w.allowance_tasks
  unfold toil allowance
  split <;> omega

namespace Attended

theorem drainFor (h : w.Attended) (n : Nat) : (World.drainFor n w).Attended :=
  h.of_proceeds (proceeds_drainFor n .start)

/-- Once no callback is running, the clock does not move. -/
theorem clock_drainFor_one (h : w.Attended) (hi : w.executor.inFlight = 0) :
    (World.drainFor 1 w).clock = w.clock := by
  unfold World.drainFor
  cases hidle : w.isIdle with
  | true => rfl
  | false =>
    obtain ⟨v, hturn, -, hturns⟩ := h.turn hidle
    simp only [Bool.false_eq_true, if_false, hturn]
    exact hturns.clock_eq h hi

/-- What is preserved by every turn is preserved by `World.drainFor`. -/
theorem drainFor_induction {P : World → Prop} (hP : ∀ {u v : World}, u.Attended → P u →
      (u.aside → v.executor.inFlight = u.executor.inFlight) → u.TurnsTo v → P v)
    (h : w.Attended) (hw : P w) {n : Nat} (hn : w.isAlone n) : P (World.drainFor n w) := by
  induction n generalizing w with
  | zero => exact hw
  | succ n ih =>
    cases hidle : w.isIdle with
    | true => exact (drainFor_of_isIdle hidle (n + 1)).symm ▸ hw
    | false =>
      obtain ⟨v, hturn, hv, hturns⟩ := h.turn hidle
      obtain ⟨hsame, halone⟩ := (isAlone_succ hidle hturn).1 hn
      rw [drainFor_succ hidle hturn]
      exact ih hv (hP h hw hsame hturns) halone

/-- Nothing is submitted to an executor that is closed. -/
theorem isAlone_of_closed (h : w.Attended) (hc : w.executor.closed) (n : Nat) : w.isAlone n := by
  induction n generalizing w with
  | zero => rfl
  | succ n ih =>
    cases hidle : w.isIdle with
    | true => simp [isAlone, hidle]
    | false =>
      obtain ⟨v, hturn, hv, hturns⟩ := h.turn hidle
      have hclosed : v.executor.closed := by
        obtain ⟨os, rfl⟩ := leadsTo_turn hturn
        rw [closed_course, hc, Bool.true_or]
      exact (isAlone_succ hidle hturn).2 ⟨hturns.inFlight_of_closed hc, ih hv hclosed⟩

/-- Waiting ends if the fuel exceeds `toil` and the turns of other tasks. -/
theorem isIdle_drainFor (h : w.Attended) (hm : w.Mute) {n : Nat} (hn : w.isAlone n)
    (hlt : w.toil + 2 * w.asides n < n) : (World.drainFor n w).isIdle := by
  induction n generalizing w with
  | zero => exact absurd hlt (Nat.not_lt_zero _)
  | succ n ih =>
    cases hidle : w.isIdle with
    | true => exact (drainFor_of_isIdle hidle (n + 1)).symm ▸ hidle
    | false =>
      obtain ⟨v, hturn, hv, hturns⟩ := h.turn hidle
      obtain ⟨hsame, halone⟩ := (isAlone_succ hidle hturn).1 hn
      have htoil := hturns.toil_lt hm hsame
      rw [drainFor_succ hidle hturn]
      simp only [asides, hidle, hturn, Bool.false_eq_true, if_false] at hlt
      exact ih hv (hturns.mute hm) halone (by omega)

/-- `World.drain` has fuel enough if other tasks have at most `patience` turns. -/
theorem isIdle_drain (h : w.Attended) (hm : w.Mute) (hn : w.isAlone w.allowance)
    (hle : w.asides w.allowance ≤ patience) : w.drain.isIdle := by
  refine h.isIdle_drainFor hm hn ?_
  have hlt := w.toil_lt_allowance
  omega

end Attended

end World

end PeerLink.Bridge
