import PeerLink.Proofs.Bridge.Jobs
/-!
# Workers

`World.pollJob` lets a job go on. The event that its deed publishes, if it is performed now, is
submitted first: this gives `World.primed`, and from there `World.Work` lists the cases. A job is
replaced by the same job in its next phase, passes its worker to the first job in
`executor.waiting`, or ends and is replaced by the jobs that its failure is submitted to.

## Main definitions

* `Callback.MayFail`: how a callback may fail.
* `Job.Regular`: the phase of a job is one that its callback can reach.
* `World.performs`, `World.primed`: whether polling a job performs its deed, and the world after the
  event that is published then.
* `World.Manned`: `executor.free` and `executor.waiting` agree with the phases of the jobs.
* `World.Work`: the cases of `World.pollJob` as jobs removed and jobs added.

## Main statements

* `World.Work.manned`: `World.Manned` is preserved by each case.
-/

namespace PeerLink

/-- Whether performing `d` depends on nothing but the callback and publishes nothing. -/
def Deed.isPlain : Deed → Bool
  | succeed | fail _ | panic _ | echo => true
  | publish _ _ | request _ => false

/-- Whether performing `d` publishes nothing. -/
def Deed.isQuiet : Deed → Bool
  | publish _ _ => false
  | _ => true

theorem Deed.isQuiet_of_isPlain {d : Deed} (h : d.isPlain) : d.isQuiet := by
  cases d <;> first | rfl | cases h

/-- The failure of a callback with a plain deed. -/
def Callback.failure (c : Callback) : Option CallbackFailure :=
  match c.deed with
  | .fail causes => some (.ofCauses c.name causes)
  | .panic payload => some (.ofPanic c.name payload)
  | _ => none

/-- `failure` is a possible result of `c`: it is `c.failure` if the deed of `c` is plain, and
anything otherwise. -/
def Callback.MayFail (c : Callback) (failure : Option CallbackFailure) : Prop :=
  c.deed.isPlain → failure = c.failure

namespace Bridge

open Connection

/-- Whether the phase of `j` is `waiting`: it stands in `executor.waiting`. -/
def Job.isWaiting (j : Job) : Bool :=
  match j.phase with
  | .waiting => true
  | _ => false

theorem Job.isWaiting_iff {j : Job} : j.isWaiting ↔ j.phase = .waiting := by
  cases h : j.phase <;> simp [isWaiting, h]

/-- Whether `j` occupies a worker between two polls. -/
def Job.isWorking (j : Job) : Bool :=
  match j.phase with
  | .granted => true
  | .asking _ => !j.callback.isAsync
  | _ => false

theorem Job.isWaiting_of_isWorking {j : Job} (h : j.isWorking) : j.isWaiting = false := by
  cases hp : j.phase <;> simp_all [isWorking, isWaiting]

/-- The phase of `j` is one that its callback can reach, if its deed is not plain: only a
synchronous callback waits for a worker, only an asynchronous one sleeps, and only a request is
answered. -/
structure Job.Regular (j : Job) : Prop where
  worker : j.callback.deed.isPlain = false → j.phase = .waiting ∨ j.phase = .granted →
    j.callback.isAsync = false
  own : j.callback.deed.isPlain = false → j.phase = .sleeping → j.callback.isAsync
  asks : ∀ call, j.phase = .asking call → j.callback.deed.isPlain = false

theorem Job.Regular.mayFail {j : Job} (h : j.Regular) {call : Call} (hp : j.phase = .asking call)
    (failure : Option CallbackFailure) : j.callback.MayFail failure := by
  intro hplain
  rw [h.asks call hp] at hplain
  cases hplain

theorem Job.regular_of_submitted {j : Job} (hp : j.phase = .submitted) : j.Regular := by
  constructor <;> simp [hp]

/-- The deed of `j` is plain, and `j` is not waiting for an answer. -/
structure Job.Plain (j : Job) : Prop where
  deed : j.callback.deed.isPlain
  phase : ∀ call, j.phase ≠ .asking call

namespace Job.Plain

variable {j : Job}

theorem not_request (h : j.Plain) : j.callback.deed.isPlain ≠ false := by simp [h.deed]

theorem regular (h : j.Plain) : j.Regular :=
  ⟨fun hd => absurd hd h.not_request, fun hd => absurd hd h.not_request,
    fun call hp => absurd hp (h.phase call)⟩

theorem granted (h : j.Plain) (hp : j.isWorking) : j.phase = .granted := by
  have hphase := h.phase
  cases hs : j.phase <;> simp_all [isWorking]

end Job.Plain

/-- Polling `j` may end it with `failure`: its worker has returned `failure`, or it is a task of its
own that is performed or answered now. -/
def Job.MayEnd (j : Job) (failure : Option CallbackFailure) : Prop :=
  j.phase = .returned failure ∨ j.callback.MayFail failure ∧ (j.phase = .sleeping ∨
    j.callback.isAsync ∧ (j.phase = .submitted ∧ j.callback.delayMs = 0 ∨
      ∃ call, j.phase = .asking call))

namespace World

variable {w : World} {id : Nat} {j : Job} {gone come : List (Nat × Job)} {executor : Executor}

/-- The numbers of the jobs in `l` whose phase is `waiting`. -/
def waiters (l : List (Nat × Job)) : List Nat := (l.filter (·.2.isWaiting)).map Prod.fst

/-- The fields of the executor agree with the phases of the jobs, and no worker is free while a job
waits. -/
structure Manned (w : World) : Prop where
  workers : 0 < w.executor.workers
  inFlight : w.executor.inFlight = w.jobs.length
  waiting : w.executor.waiting.Perm (waiters w.jobs)
  working : w.executor.free + w.jobs.countP (·.2.isWorking) = w.executor.workers
  eager : w.executor.waiting ≠ [] → w.executor.free = 0

theorem Manned.waiting_job (hm : w.Manned) {next : Nat} (h : next ∈ w.executor.waiting) :
    ∃ k, (next, k) ∈ w.jobs ∧ k.isWaiting := by
  obtain ⟨⟨_, k⟩, hk, rfl⟩ := List.mem_map.1 (hm.waiting.mem_iff.1 h)
  exact ⟨k, List.mem_filter.1 hk⟩

/-! ## Polling a job -/

/-- Whether `w.pollJob id j` performs the deed of `j`. -/
def performs (w : World) (j : Job) : Bool :=
  match j.phase with
  | .submitted => if j.callback.isAsync then j.callback.delayMs = 0 else w.executor.free ≠ 0
  | .granted | .sleeping => true
  | .waiting | .asking _ | .returned _ => false

/-- `w` after the event that the deed of `j` publishes, if it publishes one. -/
def published (w : World) (j : Job) : World :=
  match j.callback.deed with
  | .publish topic e => (w.publish topic e).1
  | _ => w

/-- `w` after the event that `w.pollJob id j` publishes by performing the deed of `j`, if any. -/
def primed (w : World) (j : Job) : World := if w.performs j then w.published j else w

theorem primed_of_performs (h : w.performs j) : w.primed j = w.published j := if_pos h

theorem primed_of_not_performs (h : w.performs j = false) : w.primed j = w := by
  simp [primed, h]

theorem published_of_isQuiet (h : j.callback.deed.isQuiet) : w.published j = w := by
  unfold published
  split
  next hd => simp [hd, Deed.isQuiet] at h
  · rfl

theorem published_of_closed (h : w.executor.closed) (j : Job) : w.published j = w := by
  unfold published
  split
  · rw [publish_of_closed h]
  · rfl

theorem primed_of_isQuiet (h : j.callback.deed.isQuiet) : w.primed j = w := by
  rw [primed, published_of_isQuiet h, ite_self]

theorem primed_of_closed (h : w.executor.closed) (j : Job) : w.primed j = w := by
  rw [primed, published_of_closed h, ite_self]

theorem primed_of_plain (h : j.Plain) : w.primed j = w :=
  primed_of_isQuiet (Deed.isQuiet_of_isPlain h.deed)

/-- The invocations recorded by `w.pollJob id j`: an asynchronous callback is delivered at its first
poll, a synchronous one when it gets a worker. -/
def callsOf (w : World) (j : Job) : List Invocation :=
  match j.phase with
  | .submitted => if j.callback.isAsync || w.executor.free ≠ 0 then [(j.callback, j.event)] else []
  | .granted => [(j.callback, j.event)]
  | _ => []

/-- `Work w id j gone come executor`: from `w = v.primed j`, the rest of `v.pollJob id j` replaces
the jobs `gone` by `come` and leaves `executor`. -/
inductive Work (w : World) (id : Nat) (j : Job) :
    List (Nat × Job) → List (Nat × Job) → Executor → Prop where
  /-- No worker is free, and the job joins `executor.waiting`. -/
  | queues (hp : j.phase = .submitted) (ha : j.callback.isAsync = false)
      (hf : w.executor.free = 0) :
      Work w id j [(id, j)] [(id, { j with phase := .waiting })]
        { w.executor with waiting := w.executor.waiting ++ [id] }
  | sleeps (hp : j.phase = .submitted) (ha : j.callback.isAsync)
      (hd : j.callback.delayMs ≠ 0) :
      Work w id j [(id, j)] [(id, { j with phase := .sleeping })] w.executor
  /-- The job takes a free worker and waits for the answer to its request. -/
  | occupies {call : Call} (hp : j.phase = .submitted) (ha : j.callback.isAsync = false)
      (hf : w.executor.free ≠ 0) (hd : j.callback.deed.isPlain = false) :
      Work w id j [(id, j)] [(id, { j with phase := .asking call })]
        { w.executor with free := w.executor.free - 1 }
  /-- The job waits for the answer to its request, on the worker it has or as a task of its own. -/
  | asks {call : Call} (hp : j.phase = .granted ∧ j.callback.isAsync = false ∨
        j.callback.isAsync ∧ (j.phase = .sleeping ∨
          j.phase = .submitted ∧ j.callback.delayMs = 0))
      (hd : j.callback.deed.isPlain = false) :
      Work w id j [(id, j)] [(id, { j with phase := .asking call })] w.executor
  /-- The job takes a free worker, is performed and releases the worker. -/
  | runs {failure : Option CallbackFailure} (hp : j.phase = .submitted)
      (ha : j.callback.isAsync = false) (hf : w.executor.free ≠ 0)
      (hm : j.callback.MayFail failure) :
      Work w id j [(id, j)] [(id, { j with phase := .returned failure })] w.executor
  /-- The job is performed or answered and releases its worker while `executor.waiting` is empty. -/
  | frees {failure : Option CallbackFailure} (hp : j.isWorking) (hw : w.executor.waiting = [])
      (hm : j.callback.MayFail failure) :
      Work w id j [(id, j)] [(id, { j with phase := .returned failure })]
        { w.executor with free := w.executor.free + 1 }
  /-- The job is performed or answered, and the first job in `executor.waiting` gets its worker. -/
  | yields {failure : Option CallbackFailure} {next : Nat} {rest : List Nat} {k : Job}
      (hp : j.isWorking) (hw : w.executor.waiting = next :: rest) (hk : k.isWaiting)
      (hm : j.callback.MayFail failure) :
      Work w id j [(id, j), (next, k)]
        [(id, { j with phase := .returned failure }), (next, { k with phase := .granted })]
        { w.executor with waiting := rest }
  /-- The job ends, and its failure is submitted. -/
  | ends {failure : Option CallbackFailure} (hp : j.MayEnd failure) :
      Work w id j [(id, j)] (submitted w.nextTask (w.hearing.fallout j.event failure))
        (w.executor.taking (w.hearing.fallout j.event failure)).ending

/-! ## Preservation of `Manned` -/

theorem Manned.of_idle {c : ExecutorConfig} (hjobs : w.jobs = [])
    (hx : w.executor = .ofConfig c) : w.Manned := by
  have hworkers : 0 < max c.workerThreads 1 := Nat.lt_of_lt_of_le Nat.one_pos (Nat.le_max_right _ _)
  constructor <;> simp [hjobs, hx, Executor.ofConfig, waiters, hworkers]

/-- `Manned` is preserved where `gone` and `come` balance against the change of the executor. -/
theorem Shifts.manned {calls : List Invocation} {w' : World} (hm : w.Manned)
    (h : Shifts calls gone come executor w w') (hworkers : executor.workers = w.executor.workers)
    (hflight : gone.length ≤ w.jobs.length →
      executor.inFlight + gone.length = w.executor.inFlight + come.length)
    (hwaiting : ∀ l, w.executor.waiting.Perm (waiters gone ++ l) →
      executor.waiting.Perm (waiters come ++ l))
    (hworking : executor.free + come.countP (·.2.isWorking) =
      w.executor.free + gone.countP (·.2.isWorking))
    (heager : executor.waiting ≠ [] → executor.free = 0) : w'.Manned := by
  obtain ⟨others, hold, hnew⟩ := h.jobs
  have hwaiters {a b : List (Nat × Job)} (hp : a.Perm b) : (waiters a).Perm (waiters b) :=
    (hp.filter _).map _
  have hsplit (a : List (Nat × Job)) : waiters (a ++ others) = waiters a ++ waiters others := by
    simp [waiters]
  constructor
  · rw [h.executor, hworkers]
    exact hm.workers
  · have hlen := hold.length_eq
    have hlen' := hnew.length_eq
    have hfl := hm.inFlight
    rw [List.length_append] at hlen hlen'
    have hbalance := hflight (by omega)
    rw [h.executor]
    omega
  · rw [h.executor]
    refine (hwaiting _ ?_).trans ((hsplit come).symm ▸ hwaiters hnew.symm)
    exact hm.waiting.trans (hsplit gone ▸ hwaiters hold)
  · have hcount := hold.countP_eq (·.2.isWorking)
    have hcount' := hnew.countP_eq (·.2.isWorking)
    have hw := hm.working
    rw [List.countP_append] at hcount hcount'
    rw [h.executor, hworkers]
    omega
  · rw [h.executor]
    exact heager

theorem waiters_of_submitted {l : List (Nat × Job)} (h : ∀ e ∈ l, e.2.phase = .submitted) :
    waiters l = [] ∧ l.countP (·.2.isWorking) = 0 := by
  constructor
  · apply List.map_eq_nil_iff.2
    apply List.filter_eq_nil_iff.2
    intro e he
    simp [Job.isWaiting, h e he]
  · apply List.countP_eq_zero.2
    intro e he
    simp [Job.isWorking, h e he]

theorem waiters_submitted (next : Nat) (is : List Invocation) :
    waiters (submitted next is) = [] ∧ (submitted next is).countP (·.2.isWorking) = 0 :=
  waiters_of_submitted fun _ => phase_of_mem_submitted

theorem Work.closed (h : Work w id j gone come executor) :
    executor.closed = w.executor.closed := by
  cases h <;> rfl

/-- Each case of `Work` preserves `Manned`. -/
theorem Work.manned {calls : List Invocation} {w' : World} (hm : w.Manned)
    (h : Work w id j gone come executor) (g : Shifts calls gone come executor w w') :
    w'.Manned := by
  cases h with
  | queues hp ha hf =>
    refine g.manned hm rfl (by simp) (fun l hl => ?_) (by simp [Job.isWorking, hp]) (by simp [hf])
    have hl : w.executor.waiting.Perm l := by simpa [waiters, Job.isWaiting, hp] using hl
    simpa [waiters, Job.isWaiting] using (List.perm_append_singleton _ _).trans (hl.cons id)
  | sleeps hp =>
    exact g.manned hm rfl (by simp) (by simp [waiters, Job.isWaiting, hp])
      (by simp [Job.isWorking, hp]) hm.eager
  | occupies hp ha hf =>
    have hfree : w.executor.waiting = [] := by
      by_contra hne
      exact hf (hm.eager hne)
    refine g.manned hm rfl (by simp) (by simp [waiters, Job.isWaiting, hp]) ?_ (by simp [hfree])
    simp [Job.isWorking, hp, ha]
    omega
  | @asks call hp =>
    have hnew : Job.isWaiting { j with phase := .asking call } = false ∧
        Job.isWorking { j with phase := .asking call } = !j.callback.isAsync := ⟨rfl, rfl⟩
    have hidle : j.isWaiting = false ∧ j.isWorking = !j.callback.isAsync := by
      rcases hp with ⟨hp, ha⟩ | ⟨ha, hp | ⟨hp, -⟩⟩ <;> simp [Job.isWaiting, Job.isWorking, hp, ha]
    exact g.manned hm rfl (by simp) (by simp [waiters, hidle.1, hnew.1])
      (by simp [hidle.2, hnew.2]) hm.eager
  | runs hp =>
    exact g.manned hm rfl (by simp) (by simp [waiters, Job.isWaiting, hp])
      (by simp [Job.isWorking, hp]) hm.eager
  | @frees failure hp hw =>
    have hnew : Job.isWaiting { j with phase := .returned failure } = false ∧
        Job.isWorking { j with phase := .returned failure } = false := ⟨rfl, rfl⟩
    have hwaits := Job.isWaiting_of_isWorking hp
    exact g.manned hm rfl (by simp) (by simp [waiters, hwaits, hnew.1])
      (by simp [hp, hnew.2]) (by simp [hw])
  | @yields failure next rest k hp hw hk =>
    have hbusy : w.executor.free = 0 := hm.eager (by simp [hw])
    have hwaits := Job.isWaiting_of_isWorking hp
    have hidle : k.isWorking = false := by simp [Job.isWorking, Job.isWaiting_iff.1 hk]
    have hnew : Job.isWaiting { j with phase := .returned failure } = false ∧
        Job.isWorking { j with phase := .returned failure } = false := ⟨rfl, rfl⟩
    have hgranted : Job.isWaiting { k with phase := .granted } = false ∧
        Job.isWorking { k with phase := .granted } = true := ⟨rfl, rfl⟩
    refine g.manned hm rfl (by simp) (fun l hl => ?_)
      (by simp [hp, hidle, hnew.2, hgranted.2]) fun _ => hbusy
    have hl : (next :: rest).Perm (next :: l) := by
      simpa [hw, waiters, hwaits, hk] using hl
    simpa [waiters, hnew.1, hgranted.1] using hl.cons_inv
  | @ends failure hp =>
    have hidle : j.isWaiting = false ∧ j.isWorking = false := by
      rcases hp with hp | ⟨-, hp | ⟨ha, ⟨hp, -⟩ | ⟨call, hp⟩⟩⟩ <;>
        simp [Job.isWaiting, Job.isWorking, *]
    obtain ⟨hnone, hnobody⟩ := waiters_submitted w.nextTask (w.hearing.fallout j.event failure)
    refine g.manned hm rfl ?_ ?_ ?_ hm.eager
    · intro hlen
      have hfl := hm.inFlight
      rw [List.length_singleton] at hlen
      simp only [Executor.ending, Executor.taking, length_submitted, List.length_singleton]
      omega
    · intro l hl
      rw [hnone]
      simpa [waiters, hidle.1, Executor.ending, Executor.taking] using hl
    · rw [hnobody]
      simp [hidle.2, Executor.ending, Executor.taking]

end World

end Bridge

end PeerLink
