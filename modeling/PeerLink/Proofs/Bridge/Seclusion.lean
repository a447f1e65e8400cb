import PeerLink.Proofs.Bridge.Horizon
/-!
# Worlds in which only callbacks run

If `ready` holds jobs only, and no other task has an entry of `timers` up to `World.horizon`, then
no other task is polled before the last callback has ended. So `World.drain` ends there, with the
clock at `World.horizon`.

## Main definitions

* `World.Secluded`: no task but jobs is polled before the last callback ends.

## Main statements

* `World.TurnsTo.secluded`: `World.Secluded` is preserved by turns.
* `World.Attended.alone_of_secluded`: `World.isAlone` holds and `World.asides` is `0`.
* `World.Attended.drain_of_secluded`: where and when `World.drain` ends.
-/

namespace PeerLink.Bridge.World

open Connection

variable {w v : World} {id : Nat} {j : Job} {gone come : List (Nat × Job)} {executor : Executor}

/-- Tasks that are no jobs are not in `ready`, and have entries of `timers` after `horizon` only. -/
structure Secluded (w : World) : Prop where
  ready : ∀ id ∈ w.ready, id ∈ w.jobs.map Prod.fst
  timers : ∀ e ∈ w.timers, e.2 ∈ w.jobs.map Prod.fst ∨ w.horizon < e.1

/-! ## Turns -/

/-- `Work` keeps the numbers of the removed jobs but `id`. -/
theorem Work.mem_come (h : Work w id j gone come executor) {e : Nat × Job} (he : e ∈ gone)
    (hne : e.1 ≠ id) : e.1 ∈ come.map Prod.fst := by
  cases h with
  | queues | sleeps | occupies | asks | runs | frees | ends =>
    exact absurd (by rw [List.mem_singleton.1 he]) hne
  | yields =>
    rcases List.mem_pair.1 he with rfl | rfl
    · exact absurd rfl hne
    · simp

theorem Shifts.mem_jobs_of_ne {calls : List Invocation} (hwork : Work w id j gone come executor)
    (h : Shifts calls gone come executor w v) {n : Nat} (hn : n ∈ w.jobs.map Prod.fst)
    (hne : n ≠ id) : n ∈ v.jobs.map Prod.fst := by
  obtain ⟨others, hold, hnew⟩ := h.jobs
  rw [(hnew.map Prod.fst).mem_iff, List.map_append, List.mem_append]
  obtain ⟨e, he, rfl⟩ := List.mem_map.1 hn
  rcases List.mem_append.1 (hold.mem_iff.1 he) with he | he
  · exact .inl (hwork.mem_come he hne)
  · exact .inr (List.mem_map_of_mem he)

theorem Shifts.mem_jobs_of_come {calls : List Invocation}
    (h : Shifts calls gone come executor w v) {e : Nat × Job} (he : e ∈ come) :
    e.1 ∈ v.jobs.map Prod.fst := by
  obtain ⟨others, -, hnew⟩ := h.jobs
  exact List.mem_map_of_mem (hnew.mem_iff.2 (List.mem_append_left _ he))

/-- Polling a plain job wakes jobs only. -/
theorem Poised.secluded (h : w.Poised id j) (hj : j.Plain)
    (hready : ∀ n ∈ w.ready, n ∈ w.jobs.map Prod.fst)
    (htimers : ∀ e ∈ w.timers, e.2 ∈ w.jobs.map Prod.fst ∨ w.horizon < e.1) :
    (w.pollJob id j).Secluded := by
  have hhorizon := h.horizon hj
  obtain ⟨gone, come, executor, hwork, hshift, hsettles⟩ := h.turn_of_plain hj
  constructor
  · intro n hn
    rcases (hsettles.ready n).1 hn with hn | ⟨k, hk, -⟩ | ⟨hfalse, -⟩
    · exact hshift.mem_jobs_of_ne hwork (hready n hn) fun heq => h.unscheduled.ready (heq ▸ hn)
    · exact hshift.mem_jobs_of_come hk
    · cases hfalse
  · rintro ⟨time, n⟩ hn
    obtain ⟨_, -, hmem⟩ := hsettles.mem_timers
    rw [hhorizon]
    rcases (hmem n time).1 hn with hn | ⟨k, hk, -⟩
    · exact (htimers _ hn).imp_left fun hn' => hshift.mem_jobs_of_ne hwork hn' fun heq =>
        h.unscheduled.timers time (heq ▸ hn)
    · exact .inl (hshift.mem_jobs_of_come hk)

/-- The first entry of `timers` belongs to a job: a sleeping job is due up to `horizon`. -/
theorem Secluded.fire (hs : w.Secluded) (h : w.Attended) (hp : w.Plain) (hr : w.ready = [])
    (hjobs : w.jobs ≠ []) {time : Nat} (hdue : w.nextDue = some time) :
    (w.fire time).Secluded := by
  have hle := nextDue_le hdue
  have hhorizon := h.horizon_fire hp hr hjobs hle
  have htime : time ≤ w.horizon := by
    obtain ⟨e, he⟩ := List.exists_mem_of_ne_nil _ hjobs
    obtain ⟨hsleeps, first, hfirst⟩ := h.asleep hp hr e he
    have hsettled := (horizon_le.1 (Nat.le_refl w.horizon)).2 e he
    have hbefore := (due_le_of_sleeping hsleeps).1 (settled_le.1 hsettled).1
    exact (hle _ hfirst).trans (hbefore.2 first hfirst)
  have hready := mem_ready_fire w time
  obtain ⟨ready, heq⟩ := fire_eq w time
  rw [heq] at hready hhorizon ⊢
  constructor
  · intro n hn
    rcases (hready n).1 hn with hn | hn
    · simp [hr] at hn
    · exact (hs.timers _ hn).resolve_right (Nat.not_lt.2 htime)
  · intro e he
    rw [hhorizon]
    exact hs.timers e (List.mem_of_mem_filter he)

namespace TurnsTo

/-- A secluded world stays secluded. -/
theorem secluded (h : w.TurnsTo v) (hw : w.Attended) (hp : w.Plain) (hs : w.Secluded) :
    v.Secluded := by
  cases h with
  | @job id rest j hr hpoised =>
    refine hpoised.secluded (hp.jobs _ hpoised.mem) (fun n hn => ?_) hs.timers
    exact hs.ready n (hr ▸ List.mem_cons_of_mem _ hn)
  | @aside id rest hr hid => exact absurd (hs.ready id (hr ▸ List.mem_cons_self)) hid
  | time hr hjobs hdue => exact hs.fire hw hp hr hjobs hdue

end TurnsTo

theorem Secluded.aside_eq_false (hs : w.Secluded) : w.aside = false := by
  unfold aside
  split
  · rfl
  next id _ hr => simpa using List.mem_map.1 (hs.ready id (hr ▸ List.mem_cons_self))

namespace Attended

/-- In a secluded world no other task has a turn. -/
theorem alone_of_secluded (h : w.Attended) (hp : w.Plain) (hs : w.Secluded) (n : Nat) :
    w.isAlone n ∧ w.asides n = 0 := by
  induction n generalizing w with
  | zero => exact ⟨rfl, rfl⟩
  | succ n ih =>
    cases hidle : w.isIdle with
    | true => simp [isAlone, asides, hidle]
    | false =>
      obtain ⟨v, hturn, hv, hturns⟩ := h.turn hidle
      have haside := hs.aside_eq_false
      have hplain := hturns.plain hp (by simp [haside])
      obtain ⟨halone, hnone⟩ := ih hv hplain (hturns.secluded h hp hs)
      exact ⟨(isAlone_succ hidle hturn).2 ⟨by simp [haside], halone⟩,
        by simp [asides, hidle, hturn, haside, hnone]⟩

/-- Waiting ends at `horizon` if other tasks submit nothing and have at most `patience` turns. -/
theorem drain_of_plain (h : w.Attended) (hp : w.Plain) (hn : w.isAlone w.allowance)
    (hle : w.asides w.allowance ≤ patience) : w.drain.isIdle ∧ w.drain.clock = w.horizon := by
  have hidle := h.isIdle_drain hp.mute hn hle
  exact ⟨hidle, h.clock_drainFor hp hn (isIdle_iff.1 hidle).2⟩

/-- Waiting ends at `horizon` in a secluded world. -/
theorem drain_of_secluded (h : w.Attended) (hp : w.Plain) (hs : w.Secluded) :
    w.drain.isIdle ∧ w.drain.clock = w.horizon := by
  obtain ⟨halone, hnone⟩ := h.alone_of_secluded hp hs w.allowance
  exact h.drain_of_plain hp halone (hnone ▸ Nat.zero_le _)

end Attended

/-! ## Closing the executor -/

/-- Once the executor is closed, no failure is submitted. -/
theorem horizon_closed_le (w : World) :
    horizon { w with executor.closed := true } ≤ w.horizon := by
  obtain ⟨hclock, hjobs⟩ := horizon_le.1 (Nat.le_refl w.horizon)
  refine horizon_le.2 ⟨hclock, fun e he => ?_⟩
  have hnone (topic : String) (event : Event) :
      (hearing { w with executor.closed := true }).accepting topic event = [] :=
    accepting_hearing_of_closed rfl topic event
  refine settled_le.2 ⟨(settled_le.1 (hjobs e he)).1, fun i hi => ?_⟩
  unfold Registry.fallout at hi
  split at hi
  · simp [Registry.audience, hnone] at hi
  · cases hi

theorem Secluded.close (hs : w.Secluded) : Secluded { w with executor.closed := true } :=
  ⟨hs.ready, fun e he => (hs.timers e he).imp_right fun hlt =>
    Nat.lt_of_le_of_lt (horizon_closed_le w) hlt⟩

theorem Attended.closeExecutor_of_secluded (h : w.Attended) (hp : w.Plain) (hs : w.Secluded) :
    w.closeExecutor.isIdle ∧
      w.closeExecutor.clock = horizon { w with executor.closed := true } :=
  (h.step .closeExecutor).drain_of_secluded ⟨hp.listeners, hp.jobs⟩ hs.close

end PeerLink.Bridge.World
