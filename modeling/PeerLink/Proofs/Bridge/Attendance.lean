import PeerLink.Proofs.Bridge.Cascade
/-!
# The schedule of jobs

The phase of a job says whether it stands in `ready`, has an entry in `timers` or stands in
`executor.waiting`. `World.Attended` is this invariant. It holds as long as only tasks in `ready`
are polled and the clock passes no entry of `timers`, which is `World.Proceeds`.

## Main definitions

* `World.Placed`: the schedule of one job agrees with its phase.
* `World.Attended`: all jobs are placed.
* `World.Poised`: one job has been taken off `ready`, all others are placed.
* `World.Proceeds`: the worlds reached by polling tasks in `ready`, in any order, by the passing of
  time and by steps from outside.

## Main statements

* `World.Poised.attended`: polling a poised job leaves all jobs placed.
* `World.Attended.of_proceeds`: `World.Attended` is preserved along `World.Proceeds`.
* `World.proceeds_take`: `World.take` stays within `World.Proceeds`.
-/

namespace PeerLink.Bridge

open Connection

namespace World

variable {w w' : World} {id : Nat} {j : Job} {gone come : List (Nat × Job)} {executor : Executor}

/-! ## Placed jobs -/

/-- The jobs added by `Work` are regular if the removed ones are. -/
theorem Work.regular (h : Work w id j gone come executor) (hgone : ∀ e ∈ gone, e.2.Regular) :
    ∀ e ∈ come, e.2.Regular := by
  intro e he
  cases h with
  | queues hp ha =>
    obtain rfl := List.mem_singleton.1 he
    exact ⟨fun _ _ => ha, by simp, by simp⟩
  | sleeps hp ha =>
    obtain rfl := List.mem_singleton.1 he
    exact ⟨by simp, fun _ _ => ha, by simp⟩
  | occupies _ _ _ hd | asks _ hd =>
    obtain rfl := List.mem_singleton.1 he
    exact ⟨by simp, by simp, fun _ _ => hd⟩
  | runs | frees =>
    obtain rfl := List.mem_singleton.1 he
    exact ⟨by simp, by simp, by simp⟩
  | @yields failure next rest k hp hw hk =>
    rcases List.mem_pair.1 he with rfl | rfl
    · exact ⟨by simp, by simp, by simp⟩
    · have hnext : k.Regular := hgone (next, k) (by simp)
      exact ⟨fun hd _ => hnext.worker hd (.inl (Job.isWaiting_iff.1 hk)), by simp, by simp⟩
  | ends => exact Job.regular_of_submitted (phase_of_mem_submitted he)

/-- The schedule of the job `e` agrees with its phase: an active job is in `ready`, a waiting one is
not, and a timed one has exactly one entry in `timers` until its time has come. -/
structure Placed (w : World) (e : Nat × Job) : Prop where
  active : e.2.isActive → e.1 ∈ w.ready
  waiting : e.2.isWaiting → e.1 ∉ w.ready
  sleeping : e.2.isTimed → e.1 ∉ w.ready → ∃ time, (time, e.1) ∈ w.timers
  timed : ∀ time, (time, e.1) ∈ w.timers → e.2.isTimed ∧ e.1 ∉ w.ready ∧
    ∀ other, (other, e.1) ∈ w.timers → other = time

/-- The invariants of tasks and workers that do not depend on the schedule. -/
structure Fit (w : World) : Prop where
  tidy : w.Tidy
  pinned : w.Pinned
  manned : w.Manned
  regular : ∀ e ∈ w.jobs, e.2.Regular

/-- All jobs are placed. -/
structure Attended (w : World) : Prop extends Fit w where
  orderly : w.Orderly
  placed : ∀ e ∈ w.jobs, w.Placed e

/-- The job `j` with the number `id` has been taken off `ready` to be polled, and all other jobs are
placed. -/
structure Poised (w : World) (id : Nat) (j : Job) : Prop extends Fit w where
  orderly : w.Orderly
  mem : (id, j) ∈ w.jobs
  goes : j.isWaiting = false
  unscheduled : w.Unscheduled id
  placed : ∀ e ∈ w.jobs, e.1 ≠ id → w.Placed e

theorem Placed.congr {e : Nat × Job} (h : w.Placed e) (hr : e.1 ∈ w'.ready ↔ e.1 ∈ w.ready)
    (ht : ∀ time, (time, e.1) ∈ w'.timers ↔ (time, e.1) ∈ w.timers) : w'.Placed e where
  active ha := hr.2 (h.active ha)
  waiting hw hm := h.waiting hw (hr.1 hm)
  sleeping hs hm := by
    obtain ⟨time, htime⟩ := h.sleeping hs fun hm' => hm (hr.2 hm')
    exact ⟨time, (ht time).2 htime⟩
  timed time htime := by
    obtain ⟨hs, hm, hone⟩ := h.timed time ((ht time).1 htime)
    exact ⟨hs, fun hm' => hm (hr.1 hm'), fun other ho => hone other ((ht other).1 ho)⟩

theorem Newcomer.placed {e : Nat × Job} (h : w.Newcomer w' e) (ho : w.Orderly) : w'.Placed e := by
  obtain ⟨hready, htimers⟩ := h.goes ho
  refine ⟨fun _ => hready, fun hw => ?_, fun hs => ?_, fun time ht => absurd ht (htimers time)⟩
  · simp [Job.isWaiting, h.phase] at hw
  · simp [Job.isTimed, h.phase] at hs

theorem Orderly.erase (h : w.Orderly) (id : Nat) :
    Orderly { w with ready := w.ready.erase id } :=
  ⟨h.first, h.nodup.erase id, fun n hn => h.ready n (List.mem_of_mem_erase hn), h.timers, h.later⟩

namespace Fit

theorem isJob (h : w.Fit) {e : Nat × Job} (he : e ∈ w.jobs) : w.IsJob e.1 := by
  have hmem := List.mem_map_of_mem (f := Prod.fst) he
  refine ⟨Nat.pos_of_ne_zero ?_, h.pinned.given _ hmem, hmem⟩
  intro hzero
  exact h.pinned.supervisor.2 (show 0 ∈ w.jobs.map Prod.fst from hzero ▸ hmem)

theorem counted (h : w.Fit) : w.Counted :=
  ⟨h.tidy, h.pinned, by rw [h.manned.inFlight, pending, List.length_map]⟩

/-- `Fit` does not depend on `clock`, `ready`, `timers`, `registry` and `executor.closed`. -/
theorem reframe (h : w.Fit) (clock : Nat) (ready : List Nat) (timers : List (Nat × Nat))
    (registry : Registry) (closed : Bool) :
    Fit { w with clock, ready, timers, registry, executor.closed := closed } where
  tidy := ⟨h.tidy.nodup, h.tidy.fresh, h.tidy.pinger⟩
  pinned := ⟨h.pinned.given, h.pinned.supervisor, h.pinned.attempt, h.pinned.reader,
    h.pinned.pinger⟩
  manned := ⟨h.manned.workers, h.manned.inFlight, h.manned.waiting, h.manned.working,
    h.manned.eager⟩
  regular := h.regular

theorem reschedule (h : w.Fit) (clock : Nat) (ready : List Nat) (timers : List (Nat × Nat)) :
    Fit { w with clock, ready, timers } :=
  h.reframe clock ready timers w.registry w.executor.closed

theorem gains (h : w.Fit) (g : w.Gains w') (ht : w'.Tidy) : w'.Fit := by
  obtain ⟨more, g⟩ := g
  obtain ⟨hnone, hnobody⟩ := waiters_of_submitted fun e he => (g.newcomer e he).phase
  have hwaiters : waiters w'.jobs = waiters w.jobs := by
    simpa [g.jobs, waiters] using hnone
  have hworking : w'.jobs.countP (·.2.isWorking) = w.jobs.countP (·.2.isWorking) := by
    rw [g.jobs, List.countP_append, hnobody, Nat.add_zero]
  have hmanned : w'.Manned := by
    have hm := h.manned
    refine ⟨?_, ?_, ?_, ?_, ?_⟩ <;> rw [g.executor]
    · exact hm.workers
    · rw [g.jobs, List.length_append, ← hm.inFlight]
    · rw [hwaiters]
      exact hm.waiting
    · rw [hworking]
      exact hm.working
    · exact hm.eager
  refine ⟨ht, g.pinned h.pinned, hmanned, fun e he => ?_⟩
  rcases List.mem_append.1 (g.jobs ▸ he) with he | he
  · exact h.regular e he
  · exact Job.regular_of_submitted (g.newcomer e he).phase

end Fit

namespace Attended

/-- Submitting jobs leaves all jobs placed. -/
theorem gains (h : w.Attended) (g : w.Gains w') (ht : w'.Tidy) : w'.Attended := by
  refine ⟨h.toFit.gains g ht, ?_, ?_⟩ <;> obtain ⟨more, g⟩ := g
  · exact g.orderly h.orderly
  · intro e he
    rcases List.mem_append.1 (g.jobs ▸ he) with he | he
    · exact (h.placed e he).congr (g.ready _ (h.isJob he)) (g.timers _ (h.isJob he))
    · exact (g.newcomer e he).placed h.orderly

/-- A task that is no job is taken off `ready`. -/
theorem erase (h : w.Attended) (hid : id ∉ w.jobs.map Prod.fst) :
    Attended { w with ready := w.ready.erase id } where
  toFit := h.reschedule _ _ _
  orderly := h.orderly.erase id
  placed e he := by
    have hne : e.1 ≠ id := fun heq => hid (heq ▸ List.mem_map_of_mem he)
    exact (h.placed e he).congr (List.mem_erase_of_ne hne) fun _ => .rfl

/-- A job is taken off `ready`. -/
theorem poised (h : w.Attended) (hj : (id, j) ∈ w.jobs) (hid : id ∈ w.ready) :
    Poised { w with ready := w.ready.erase id } id j where
  toFit := h.reschedule _ _ _
  orderly := h.orderly.erase id
  mem := hj
  goes := by
    by_contra hwaits
    exact (h.placed _ hj).waiting (by simpa using hwaits) hid
  unscheduled := ⟨Nat.ne_of_gt (h.isJob hj).first,
    fun hm => (h.orderly.nodup.mem_erase_iff.1 hm).1 rfl,
    fun time ht => ((h.placed _ hj).timed time ht).2.1 hid⟩
  placed e he hne := (h.placed e he).congr (List.mem_erase_of_ne hne) fun _ => .rfl

end Attended

/-! ## One poll of a job -/

theorem Work.mem_gone (h : Work w id j gone come executor) : (id, j) ∈ gone := by
  cases h <;> exact List.mem_cons_self

/-- A job added by `Work` has the number `id`, the number of a waiting job or a new one. -/
theorem Work.number (h : Work w id j gone come executor) : ∀ e ∈ come,
    e.1 = id ∨ w.nextTask ≤ e.1 ∨ ∃ k, (e.1, k) ∈ gone ∧ k.isWaiting := by
  intro e he
  cases h with
  | queues | sleeps | occupies | asks | runs | frees =>
    exact .inl (by rw [List.mem_singleton.1 he])
  | @yields failure next rest k hp hw hk =>
    rcases List.mem_pair.1 he with rfl | rfl
    · exact .inl rfl
    · exact .inr (.inr ⟨k, by simp, hk⟩)
  | ends => exact .inr (.inl (le_of_mem_submitted he))

namespace Poised

theorem poll_eq (h : w.Poised id j) : w.poll id = w.pollJob id j :=
  h.tidy.poll_eq h.mem (Nat.ne_of_gt (h.isJob h.mem).first)

theorem tidy_pollJob (h : w.Poised id j) : (w.pollJob id j).Tidy := by
  rw [← h.poll_eq]
  exact (run_poll h.tidy (Nat.ne_of_gt (h.isJob h.mem).first)).tidy h.tidy

theorem pinned_pollJob (h : w.Poised id j) : (w.pollJob id j).Pinned := by
  have hundergo : w.undergo (.go id) = w.pollJob id j :=
    (if_neg (Nat.ne_of_gt (h.isJob h.mem).first)).trans h.poll_eq
  exact hundergo ▸ (h.counted.balance (.go id)).1.pinned

theorem gains (h : w.Poised id j) (g : w.Gains w') (ht : w'.Tidy) : w'.Poised id j := by
  refine ⟨h.toFit.gains g ht, ?_, ?_, h.goes, ?_, ?_⟩ <;> obtain ⟨more, g⟩ := g
  · exact g.orderly h.orderly
  · rw [g.jobs]
    exact List.mem_append_left _ h.mem
  · have hjob := h.isJob h.mem
    exact ⟨h.unscheduled.task, fun hr => h.unscheduled.ready ((g.ready _ hjob).1 hr),
      fun time ht => h.unscheduled.timers time ((g.timers _ hjob time).1 ht)⟩
  · intro e he hne
    rcases List.mem_append.1 (g.jobs ▸ he) with he | he
    · exact (h.placed e he hne).congr (g.ready _ (h.isJob he)) (g.timers _ (h.isJob he))
    · exact (g.newcomer e he).placed h.orderly

theorem gains_primed (h : w.Poised id j) : w.Gains (w.primed j) ∧ (w.primed j).Tidy := by
  unfold World.primed published
  split
  · split
    next topic e _ => exact ⟨gains_publish w topic e, (beside_publish w topic e).tidy h.tidy⟩
    · exact ⟨.refl w, h.tidy⟩
  · exact ⟨.refl w, h.tidy⟩

/-- The event that the deed of `j` publishes leaves `j` poised. -/
theorem primed (h : w.Poised id j) : (w.primed j).Poised id j :=
  h.gains h.gains_primed.1 h.gains_primed.2

/-- The jobs, the executor and the schedule after one poll of a poised job. -/
theorem turn (h : w.Poised id j) : ∃ gone come executor told,
    Work (w.primed j) id j gone come executor ∧
    Shifts (w.callsOf j) gone come executor (w.primed j) (w.pollJob id j) ∧
    (j.Plain → told = false) ∧ Settles come told (w.primed j) (w.pollJob id j) := by
  have hu := h.primed
  obtain ⟨gone, come, executor, told, hwork, hshift, htold, hsettles⟩ :=
    advances_pollJob hu.tidy hu.manned hu.mem (h.regular _ h.mem) h.goes
  exact ⟨gone, come, executor, told, hwork, hshift, htold, hsettles hu.unscheduled⟩

section

variable {calls : List Invocation} {told : Bool}

/-- The number of an added job is not scheduled before. -/
theorem number (h : w.Poised id j) (hwork : Work w id j gone come executor)
    (hgone : ∀ e ∈ gone, e ∈ w.jobs) {e : Nat × Job} (he : e ∈ come) : w.Unscheduled e.1 := by
  rcases hwork.number e he with heq | hle | ⟨k, hk, hwaits⟩
  · exact heq ▸ h.unscheduled
  · have hfirst := h.orderly.first
    exact ⟨by omega, fun hm => Nat.not_lt.2 hle (h.orderly.ready _ hm),
      fun time ht => Nat.not_lt.2 hle (h.orderly.timers _ ht)⟩
  · have hne : e.1 ≠ id := by
      intro heq
      obtain rfl : k = j :=
        Task.job.inj (h.tidy.eq_of_mem (mem_jobs.1 (hgone _ hk)) (heq ▸ mem_jobs.1 h.mem))
      rw [h.goes] at hwaits
      cases hwaits
    have hplaced := h.placed _ (hgone _ hk) hne
    refine ⟨Nat.ne_of_gt (h.isJob (hgone _ hk)).first, hplaced.waiting hwaits, fun time ht => ?_⟩
    have htimed : k.isTimed := (hplaced.timed time ht).1
    simp [Job.isTimed, Job.isWaiting_iff.1 hwaits] at htimed

theorem placed_come (h : w.Poised id j) (hwork : Work w id j gone come executor)
    (hgone : ∀ e ∈ gone, e ∈ w.jobs) (hcome : (come.map Prod.fst).Nodup)
    (hsettles : Settles come told w w') {e : Nat × Job} (he : e ∈ come) : w'.Placed e := by
  have hnew := h.number hwork hgone he
  obtain ⟨ms, -, htimers⟩ := hsettles.mem_timers
  have hone {k : Job} (hk : (e.1, k) ∈ come) : k = e.2 :=
    congrArg Prod.snd (List.inj_on_of_nodup_map hcome hk he rfl)
  have hready : e.1 ∈ w'.ready ↔ e.2.isActive := by
    rw [hsettles.ready]
    constructor
    · rintro (hm | ⟨k, hk, hactive⟩ | ⟨-, hfirst⟩)
      · exact absurd hm hnew.ready
      · exact hone hk ▸ hactive
      · exact absurd hfirst hnew.task
    · exact fun ha => .inr (.inl ⟨e.2, he, ha⟩)
  have htimers (time : Nat) : (time, e.1) ∈ w'.timers ↔ e.2.isTimed ∧ time = w.clock + ms := by
    rw [htimers]
    constructor
    · rintro (hm | ⟨k, hk, htimed⟩)
      · exact absurd hm (hnew.timers time)
      · exact hone hk ▸ htimed
    · exact fun htimed => .inr ⟨e.2, he, htimed⟩
  constructor
  · exact hready.2
  · intro hwaits hm
    have hactive := hready.1 hm
    simp [Job.isActive, Job.isWaiting_iff.1 hwaits] at hactive
  · exact fun htimed _ => ⟨_, (htimers _).2 ⟨htimed, rfl⟩⟩
  · intro time ht
    obtain ⟨htimed, rfl⟩ := (htimers time).1 ht
    refine ⟨htimed, fun hm => ?_, fun other ho => ((htimers other).1 ho).2⟩
    have hactive := hready.1 hm
    cases hp : e.2.phase <;> simp_all [Job.isActive, Job.isTimed]

/-- No added job has the number of a job that stays. -/
theorem not_mem_come (ht : w'.Tidy) {others : List (Nat × Job)}
    (hnew : w'.jobs.Perm (come ++ others)) {e : Nat × Job} (he : e ∈ others) (k : Job) :
    (e.1, k) ∉ come := by
  have hkeys : ((come ++ others).map Prod.fst).Nodup :=
    (hnew.map Prod.fst).nodup_iff.1 ht.nodup_jobs
  rw [List.map_append, List.nodup_append] at hkeys
  exact fun hk => hkeys.2.2 e.1 (List.mem_map.2 ⟨_, hk, rfl⟩) e.1 (List.mem_map_of_mem he) rfl

/-- All jobs are placed after a case of `Work` from a poised job. -/
theorem attended_of_work (h : w.Poised id j) (ht : w'.Tidy) (hpinned : w'.Pinned)
    (hwork : Work w id j gone come executor) (hshift : Shifts calls gone come executor w w')
    (hsettles : Settles come told w w') : w'.Attended := by
  obtain ⟨others, hold, hnew⟩ := hshift.jobs
  have hgone (e : Nat × Job) (he : e ∈ gone) : e ∈ w.jobs :=
    hold.mem_iff.2 (List.mem_append_left _ he)
  have hcome : (come.map Prod.fst).Nodup := by
    have hkeys := (hnew.map Prod.fst).nodup_iff.1 ht.nodup_jobs
    rw [List.map_append] at hkeys
    exact hkeys.of_append_left
  have hjobs {P : Nat × Job → Prop} (hcome : ∀ e ∈ come, P e) (hothers : ∀ e ∈ others, P e) :
      ∀ e ∈ w'.jobs, P e := by
    intro e he
    rcases List.mem_append.1 (hnew.mem_iff.1 he) with he | he
    · exact hcome e he
    · exact hothers e he
  refine ⟨⟨ht, hpinned, hwork.manned h.manned hshift, hjobs ?_ ?_⟩, hsettles.orderly h.orderly,
    hjobs ?_ ?_⟩
  · exact hwork.regular fun e he => h.regular e (hgone e he)
  · exact fun e he => h.regular e (hold.mem_iff.2 (List.mem_append_right _ he))
  · exact fun e he => h.placed_come hwork hgone hcome hsettles he
  · intro e he
    have hmem := hold.mem_iff.2 (List.mem_append_right _ he)
    have hne : e.1 ≠ id := by
      intro heq
      have hkeys := (hold.map Prod.fst).nodup_iff.1 h.tidy.nodup_jobs
      rw [List.map_append, List.nodup_append] at hkeys
      exact hkeys.2.2 id (List.mem_map_of_mem hwork.mem_gone) e.1 (List.mem_map_of_mem he) heq.symm
    obtain ⟨hready, htimers⟩ := hsettles.of_not_mem (not_mem_come ht hnew he)
      (Nat.ne_of_gt (h.isJob hmem).first)
    exact (h.placed e hmem hne).congr hready htimers

end

/-- All jobs are placed after a poll of a poised job. -/
theorem attended (h : w.Poised id j) : (w.pollJob id j).Attended := by
  obtain ⟨_, _, _, _, hwork, hshift, -, hsettles⟩ := h.turn
  exact h.primed.attended_of_work h.tidy_pollJob h.pinned_pollJob hwork hshift hsettles

theorem clock_pollJob (h : w.Poised id j) : (w.pollJob id j).clock = w.clock := by
  obtain ⟨_, _, _, _, -, -, -, hsettles⟩ := h.turn
  obtain ⟨_, hjoins⟩ := h.gains_primed.1
  exact hsettles.clock.trans hjoins.clock

end Poised

/-! ## The passing of time -/

theorem mem_foldl_wake (ids : List Nat) (w : World) (n : Nat) :
    n ∈ (ids.foldl wake w).ready ↔ n ∈ w.ready ∨ n ∈ ids := by
  induction ids generalizing w with
  | nil => simp
  | cons id ids ih => rw [List.foldl_cons, ih, mem_wake, List.mem_cons, or_assoc]

theorem orderly_foldl_wake {ids : List Nat} (h : w.Orderly) (hids : ∀ id ∈ ids, id < w.nextTask) :
    (ids.foldl wake w).Orderly := by
  induction ids generalizing w with
  | nil => exact h
  | cons id ids ih =>
    obtain ⟨_, heq⟩ := wake_eq w id
    refine ih (h.wake (hids id List.mem_cons_self)) fun n hn => ?_
    rw [heq]
    exact hids n (List.mem_cons_of_mem _ hn)

theorem mem_ready_fire (w : World) (time n : Nat) :
    n ∈ (w.fire time).ready ↔ n ∈ w.ready ∨ (time, n) ∈ w.timers := by
  unfold fire
  dsimp only
  rw [mem_foldl_wake]
  simp

theorem orderly_fire (h : w.Orderly) {time : Nat} (hdue : ∀ e ∈ w.timers, time ≤ e.1) :
    (w.fire time).Orderly := by
  have hrest : Orderly { w with clock := time, timers := w.timers.filter (·.1 ≠ time) } :=
    ⟨h.first, h.nodup, h.ready, fun e he => h.timers e (List.mem_of_mem_filter he),
      fun e he => hdue e (List.mem_of_mem_filter he)⟩
  refine orderly_foldl_wake hrest fun n hn => ?_
  obtain ⟨e, he, rfl⟩ := List.mem_map.1 hn
  exact h.timers e (List.mem_of_mem_filter he)

namespace Attended

/-- The clock moves to a time before which there is no entry of `timers`. -/
theorem passes (h : w.Attended) {time : Nat} (hdue : ∀ e ∈ w.timers, time ≤ e.1) :
    Attended { w with clock := time } where
  toFit := h.reschedule _ _ _
  orderly := ⟨h.orderly.first, h.orderly.nodup, h.orderly.ready, h.orderly.timers, hdue⟩
  placed e he := (h.placed e he).congr .rfl fun _ => .rfl

theorem fire (h : w.Attended) {time : Nat} (hdue : ∀ e ∈ w.timers, time ≤ e.1) :
    (w.fire time).Attended := by
  have hready := mem_ready_fire w time
  have horderly := orderly_fire h.orderly hdue
  obtain ⟨ready, heq⟩ := fire_eq w time
  rw [heq] at hready horderly ⊢
  refine ⟨h.reschedule _ _ _, horderly, fun e he => ?_⟩
  have hplaced := h.placed e he
  constructor
  · exact fun ha => (hready e.1).2 (.inl (hplaced.active ha))
  · intro hwaits hm
    rcases (hready e.1).1 hm with hm | ht
    · exact hplaced.waiting hwaits hm
    · have htimed := (hplaced.timed time ht).1
      simp [Job.isTimed, Job.isWaiting_iff.1 hwaits] at htimed
  · intro hs hm
    obtain ⟨other, ho⟩ := hplaced.sleeping hs fun hm' => hm ((hready e.1).2 (.inl hm'))
    refine ⟨other, List.mem_filter.2 ⟨ho, ?_⟩⟩
    have hne : other ≠ time := fun heq => hm ((hready e.1).2 (.inr (heq ▸ ho)))
    simpa using hne
  · intro other ho
    obtain ⟨ho, hne⟩ := List.mem_filter.1 ho
    obtain ⟨hs, hm, hone⟩ := hplaced.timed other ho
    refine ⟨hs, fun hm' => ?_, fun third ht => hone third (List.mem_of_mem_filter ht)⟩
    rcases (hready e.1).1 hm' with hm' | ht
    · exact hm hm'
    · simp [hone time ht] at hne

end Attended

/-! ## Reachable worlds -/

/-- The worlds reached from `w₀` by polling tasks in `ready`, in any order, by moving the clock past
no entry of `timers`, by answers to requests from outside and by steps. -/
inductive Proceeds (w₀ : World) : World → Prop where
  | start : Proceeds w₀ w₀
  | turn {w : World} {id : Nat} (h : Proceeds w₀ w) (hid : id ∈ w.ready) :
      Proceeds w₀ ({ w with ready := w.ready.erase id }.poll id)
  | passes {w : World} {time : Nat} (h : Proceeds w₀ w) (hnow : w.clock ≤ time)
      (hdue : ∀ e ∈ w.timers, time ≤ e.1) : Proceeds w₀ { w with clock := time }
  | fires {w : World} {time : Nat} (h : Proceeds w₀ w) (hdue : w.nextDue = some time) :
      Proceeds w₀ (w.fire time)
  | answer {w : World} (h : Proceeds w₀ w) (call : Call) : Proceeds w₀ (w.finishCall call).1
  | notes {w : World} (h : Proceeds w₀ w) (l : LogLine) : Proceeds w₀ (w.log l)
  | step {w : World} (h : Proceeds w₀ w) (s : Step) : Proceeds w₀ (w.enter s)

theorem Proceeds.steps {w₀ : World} (h : Proceeds w₀ w) (steps : List Step) :
    Proceeds w₀ (w.course (steps.map .step)) := by
  induction steps generalizing w with
  | nil => exact h
  | cons s steps ih => exact ih (h.step s)

/-- Reachable worlds lie on courses. -/
theorem Proceeds.leadsTo {w₀ : World} (h : w₀.Proceeds w) : w₀.LeadsTo w := by
  induction h with
  | start => exact .refl w₀
  | @turn w id _ _ ih =>
    exact (ih.trans (.of_undergo w (.order (w.ready.erase id)))).trans (leadsTo_poll _ id)
  | @passes w time _ _ _ ih => exact ih.trans (.of_undergo w (.clock time))
  | @fires w time _ _ ih => exact ih.trans (.of_undergo w (.fire time))
  | @answer w _ call ih => exact ih.trans (.of_undergo w (.answer call))
  | @notes w _ l ih => exact ih.trans (.of_undergo w (.note l))
  | @step w _ s ih => exact ih.trans (.of_undergo w (.step s))

theorem nextDue_le {time : Nat} (h : w.nextDue = some time) : ∀ e ∈ w.timers, time ≤ e.1 := by
  intro e he
  exact (List.min?_eq_some_iff.1 h).2 _ (List.mem_map_of_mem he)

namespace Attended

/-- Polling a task that is no job submits jobs at most. -/
theorem gains_turn (h : w.Attended) (hid : id ∉ w.jobs.map Prod.fst) :
    Gains { w with ready := w.ready.erase id } ({ w with ready := w.ready.erase id }.poll id) := by
  have hu := h.erase hid
  by_cases hfirst : id = supervisorId
  · subst hfirst
    exact gains_takeCommands hu.pinned w.commands.length
  · exact gains_poll hu.tidy hfirst hid

theorem poll (h : w.Attended) (hid : id ∈ w.ready) :
    ({ w with ready := w.ready.erase id }.poll id).Attended := by
  by_cases hjob : id ∈ w.jobs.map Prod.fst
  · obtain ⟨⟨n, j⟩, hj, hn⟩ := List.mem_map.1 hjob
    obtain rfl : n = id := hn
    have hpoised := h.poised hj hid
    rw [hpoised.poll_eq]
    exact hpoised.attended
  · have hu := h.erase hjob
    refine hu.gains (h.gains_turn hjob) ?_
    obtain ⟨os, hrun⟩ := (leadsTo_poll _ id).reaches hu.tidy
    exact hrun.tidy hu.tidy

theorem step (h : w.Attended) (s : Step) : (w.enter s).Attended := by
  cases hp : s.isPublic with
  | false => exact h.gains (gains_enter h.tidy hp) ((beside_enter w s).tidy h.tidy)
  | true =>
    obtain ⟨registry, closed, heq⟩ := undergo_of_isPublic (o := .step s) w hp
    rw [show w.enter s = w.undergo (.step s) from rfl, heq]
    exact ⟨h.toFit.reframe _ _ _ registry closed, h.orderly.of_same rfl rfl rfl rfl,
      fun e he => (h.placed e he).congr .rfl fun _ => .rfl⟩

theorem of_proceeds (h : w.Attended) (g : w.Proceeds w') : w'.Attended := by
  induction g with
  | start => exact h
  | turn _ hid ih => exact ih.poll hid
  | passes _ _ hdue ih => exact ih.passes hdue
  | fires _ hdue ih => exact ih.fire (nextDue_le hdue)
  | answer _ call ih =>
    exact ih.gains (gains_finishCall _ call) ((beside_finishCall _ call).tidy ih.tidy)
  | notes _ l ih => exact ih.gains (gains_log _ l) ((beside_log _ l).tidy ih.tidy)
  | step _ s ih => exact ih.step s

end Attended

/-- A bridge that is launched has no jobs. -/
theorem attended_launch (config : Config) (script : Peer.Script) (plugins : List Plugin)
    (pingStart : Span) : (launch config script plugins pingStart).Attended := by
  have hready := ready_launch config script plugins pingStart
  obtain ⟨log, registry, h⟩ := launch_eq config script plugins pingStart
  rw [h] at hready ⊢
  refine ⟨⟨hready.tidy, ?_, hready.manned, fun e he => (hready.plain e he).regular⟩, ?_, ?_⟩
  · refine ⟨?_, ⟨?_, ?_⟩, ?_, ?_, ?_⟩ <;> simp [jobs, pick, before, supervisorId]
  · refine ⟨?_, ?_, ?_, ?_, ?_⟩ <;>
      cases config.connection.isConfigured <;> simp [before, supervisorId]
  · simp [jobs, pick, before]

/-! ## The scheduler -/

section

variable {w₀ : World}

theorem Attended.clock_poll (h : w.Attended) (hid : id ∈ w.ready) :
    ({ w with ready := w.ready.erase id }.poll id).clock = w.clock := by
  by_cases hjob : id ∈ w.jobs.map Prod.fst
  · obtain ⟨⟨n, j⟩, hj, hn⟩ := List.mem_map.1 hjob
    obtain rfl : n = id := hn
    have hpoised := h.poised hj hid
    rw [hpoised.poll_eq, hpoised.clock_pollJob]
  · obtain ⟨_, hjoins⟩ := h.gains_turn hjob
    exact hjoins.clock

theorem settleStep_eq (h : w.settleStep = some w') :
    ∃ id ∈ w.ready, w' = { w with ready := w.ready.erase id }.poll id := by
  unfold settleStep at h
  split at h
  · cases h
  next id rest hr =>
    obtain rfl := Option.some.inj h
    exact ⟨id, by simp [hr], by simp [hr]⟩

theorem proceeds_settleFor (h₀ : w₀.Attended) (fuel : Nat) (h : w₀.Proceeds w) :
    w₀.Proceeds (settleFor fuel w) ∧ (settleFor fuel w).clock = w.clock := by
  have hstep {u v : World} (hu : w₀.Proceeds u ∧ u.clock = w.clock) (hv : u.settleStep = some v) :
      w₀.Proceeds v ∧ v.clock = w.clock := by
    obtain ⟨id, hid, rfl⟩ := settleStep_eq hv
    exact ⟨hu.1.turn hid, ((h₀.of_proceeds hu.1).clock_poll hid).trans hu.2⟩
  exact settleFor_induction hstep ⟨h, rfl⟩ fuel

theorem proceeds_settle (h₀ : w₀.Attended) (h : w₀.Proceeds w) :
    w₀.Proceeds w.settle ∧ w.settle.clock = w.clock :=
  proceeds_settleFor h₀ _ h

theorem proceeds_passFor (h₀ : w₀.Attended) {target : Nat} (fuel : Nat) (h : w₀.Proceeds w)
    (ht : w.clock ≤ target) : w₀.Proceeds (passFor target fuel w) := by
  induction fuel generalizing w with
  | zero => exact h
  | succ fuel ih =>
    obtain ⟨hsettled, hclock⟩ := proceeds_settle h₀ h
    have hnow : w.settle.clock ≤ target := hclock.symm ▸ ht
    unfold passFor
    dsimp only
    split
    next hnone =>
      have htimers := List.map_eq_nil_iff.1 (List.min?_eq_none_iff.1 hnone)
      exact .passes hsettled hnow (by rw [htimers]; exact List.forall_mem_nil _)
    next t hdue =>
      have hle := nextDue_le hdue
      split
      next hlt =>
        exact .passes hsettled hnow fun e he => Nat.le_of_lt (Nat.lt_of_lt_of_le hlt (hle e he))
      next hlt =>
        split
        · exact hsettled.fires hdue
        · refine ih (hsettled.fires hdue) ?_
          obtain ⟨_, heq⟩ := fire_eq w.settle t
          rw [heq]
          exact Nat.le_of_not_lt hlt

theorem proceeds_turn (h : w₀.Proceeds w) (ht : w.turn = some w') : w₀.Proceeds w' := by
  rcases turn_cases ht with hs | ⟨time, hdue, rfl⟩
  · obtain ⟨id, hid, rfl⟩ := settleStep_eq hs
    exact h.turn hid
  · exact h.fires hdue

theorem proceeds_drainFor (fuel : Nat) (h : w₀.Proceeds w) : w₀.Proceeds (drainFor fuel w) :=
  drainFor_induction proceeds_turn h fuel

theorem proceeds_passTo (h₀ : w₀.Attended) (h : w₀.Proceeds w) (ms : Nat) :
    w₀.Proceeds (w.passTo (w.clock + ms)) :=
  proceeds_passFor h₀ _ h (Nat.le_add_right _ _)

theorem proceeds_ask (h₀ : w₀.Attended) (h : w₀.Proceeds w) (r : Request) :
    w₀.Proceeds (w.ask r).1 := by
  have hbegin : w₀.Proceeds (w.begin r).1 := h.step (.request r)
  unfold ask
  split
  next heq =>
    rw [heq] at hbegin
    exact hbegin
  next heq =>
    rw [heq] at hbegin
    exact .answer (proceeds_passTo h₀ hbegin _) _

theorem proceeds_closeExecutor (h : w₀.Proceeds w) : w₀.Proceeds w.closeExecutor :=
  proceeds_drainFor _ (h.step .closeExecutor)

/-- `World.take` polls tasks in `ready` only, and moves the clock past no entry of `timers`. -/
theorem proceeds_take (h₀ : w₀.Attended) (h : w₀.Proceeds w) (s : Step) :
    w₀.Proceeds (w.take s).1 := by
  have hprompt (heq : w.enter s = (w.take s).1) : w₀.Proceeds (w.take s).1 := heq ▸ h.step s
  cases s with
  | advance ms => exact proceeds_passTo h₀ h ms
  | request r => exact proceeds_ask h₀ h r
  | shutdown =>
    exact .notes (proceeds_closeExecutor (proceeds_settle h₀ (h.step .shutdown)).1) _
  | closeExecutor => exact proceeds_closeExecutor h
  | waitIdle => exact proceeds_drainFor _ h
  | _ => exact hprompt rfl

end

end World

end PeerLink.Bridge
