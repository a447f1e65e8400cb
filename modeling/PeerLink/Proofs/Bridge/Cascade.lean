import Mathlib.Data.List.Perm.Basic
import PeerLink.Proofs.Bridge.Advance
/-!
# The cascade of an event

Publishing an event submits a job for each listener that accepts it. A callback that fails has its
failure submitted to the listeners of errors, unless the event it was called with is a failure
itself. `Registry.cascade` lists these invocations, `Job.owed` those that a job has still to make,
and the sum of the calls made and the calls owed is invariant in any order of polls.

## Main definitions

* `Registry.cascade`: the invocations that follow from an event.
* `Job.owed`: the invocations that a job has still to make.
* `World.called`: the invocations made on a course.
* `World.Ready`: the executor is open, and all deeds are plain.
* `World.Undisturbed`: a course on which nothing but polls of jobs and `Step.publish` concerns jobs.
* `World.isRoutine`: a decidable condition for `World.Undisturbed`.

## Main statements

* `World.Ready.undisturbed`: polls of jobs in any order and the passing of time are undisturbed.
* `World.accounts_course`: calls made and calls owed add up.
* `World.cascade_of_course`: the calls made after an event is published, and a bound on the turns.
* `World.ready_launch`: a launched bridge is ready.
-/

namespace PeerLink

open Connection Bridge
open scoped List

namespace Registry

/-- The invocations that follow from publishing `e` on `topic`: those of its audience, and for each
of them that fails those of the audience of its failure. -/
def cascade (r : Registry) (topic : String) (e : Event) : List Invocation :=
  r.audience topic e ++ (r.audience topic e).flatMap fun i => r.fallout i.2 i.1.failure

/-- The invocations that follow from the event that an occurrence publishes from outside, if any. -/
def promises (r : Registry) : Occurrence → List Invocation
  | .step (.publish topic e) => r.cascade topic e
  | _ => []

theorem promises_of_not_publish {r : Registry} {o : Occurrence}
    (h : ¬∃ topic e, o = .step (.publish topic e)) : r.promises o = [] := by
  unfold promises
  split
  next topic e => exact absurd ⟨topic, e, rfl⟩ h
  · rfl

theorem isError_of_mem_fallout {r : Registry} {e : Event} {failure : Option CallbackFailure}
    {i : Invocation} (h : i ∈ r.fallout e failure) : i.2.isError := by
  unfold fallout at h
  split at h
  · split at h
    · simp at h
    · obtain ⟨l, -, rfl⟩ := List.mem_map.1 h
      rfl
  · simp at h

/-- The failure of a callback that handles a failure is not submitted. -/
theorem fallout_fallout (r : Registry) (e : Event) (failure : Option CallbackFailure) :
    (r.fallout e failure).flatMap (fun i => r.fallout i.2 i.1.failure) = [] := by
  apply List.flatMap_eq_nil_iff.2
  intro i hi
  have herror := isError_of_mem_fallout hi
  unfold fallout
  split
  · exact if_pos herror
  · rfl

end Registry

namespace Bridge

/-- Whether an occurrence moves the clock or reorders `ready`. -/
def Occurrence.isPassing : Occurrence → Bool
  | fire _ | clock _ | order _ => true
  | _ => false

/-! ## What is owed -/

/-- The invocations that `j` and the jobs that its failure is submitted to have still to make. -/
def Job.owed (r : Registry) (j : Job) : List Invocation :=
  match j.phase with
  | .submitted | .waiting | .granted =>
    (j.callback, j.event) :: r.fallout j.event j.callback.failure
  | .sleeping => r.fallout j.event j.callback.failure
  | .asking _ => []
  | .returned failure => r.fallout j.event failure

/-- A bound on the turns of `j` and of the jobs that its failure is submitted to. -/
def Job.effort (r : Registry) (j : Job) : Nat :=
  match j.phase with
  | .submitted => 3 * (j.owed r).length
  | .waiting | .granted => 3 * (j.owed r).length - 1
  | _ => 3 * (j.owed r).length + 1

/-- The invocations owed by the jobs `l`. -/
def owedBy (r : Registry) (l : List (Nat × Job)) : List Invocation := l.flatMap (·.2.owed r)

/-- A bound on the turns of the jobs `l` and of those that their failures are submitted to. -/
def effortOf (r : Registry) : List (Nat × Job) → Nat
  | [] => 0
  | e :: l => e.2.effort r + effortOf r l

variable {r : Registry} {a b : List (Nat × Job)}

theorem effortOf_append : effortOf r (a ++ b) = effortOf r a + effortOf r b := by
  induction a with
  | nil => simp [effortOf]
  | cons e a ih => simp only [List.cons_append, effortOf, ih, Nat.add_assoc]

theorem effortOf_perm (h : a.Perm b) : effortOf r a = effortOf r b := by
  induction h with
  | nil => rfl
  | cons e _ ih => simp only [effortOf, ih]
  | swap e e' l => simp only [effortOf, Nat.add_left_comm]
  | trans _ _ ih ih' => exact ih.trans ih'

/-- The jobs submitted for `is` have their callbacks and events. -/
theorem flatMap_submitted {α : Type} (next : Nat) (is : List Invocation) (f : Job → List α) :
    (World.submitted next is).flatMap (fun e => f e.2) =
      is.flatMap fun i => f { callback := i.1, event := i.2 } := by
  induction is generalizing next with
  | nil => rfl
  | cons i is ih => simpa [World.submitted] using ih (next + 1)

theorem owedBy_submitted (next : Nat) (is : List Invocation) :
    (owedBy r (World.submitted next is)).Perm
      (is ++ is.flatMap fun i => r.fallout i.2 i.1.failure) := by
  have h := List.map_append_flatMap_perm is id fun i => r.fallout i.2 i.1.failure
  rw [List.map_id] at h
  rw [owedBy, flatMap_submitted]
  exact h.symm

theorem effortOf_submitted (next : Nat) (is : List Invocation) :
    effortOf r (World.submitted next is) = 3 * (owedBy r (World.submitted next is)).length := by
  induction is generalizing next with
  | nil => rfl
  | cons i is ih =>
    have h := ih (next + 1)
    simp only [effortOf, owedBy, World.submitted, List.zipIdx_cons, List.map_cons,
      List.flatMap_cons, List.length_append] at h ⊢
    rw [h, Nat.mul_add]
    rfl

/-- The jobs that a failure is submitted to owe their own invocations only. -/
theorem owedBy_fallout (next : Nat) (e : Event) (failure : Option CallbackFailure) :
    (owedBy r (World.submitted next (r.fallout e failure))).Perm (r.fallout e failure) := by
  simpa [r.fallout_fallout] using owedBy_submitted (r := r) next (r.fallout e failure)

namespace World

variable {w : World} {id : Nat} {j : Job} {gone come : List (Nat × Job)} {executor : Executor}

/-- The invocations owed by all jobs. -/
def owing (w : World) : List Invocation := owedBy w.registry w.jobs

/-- A bound on the turns of all jobs. -/
def effort (w : World) : Nat := effortOf w.registry w.jobs

/-- A plain job that ends owes the invocations of its failure, and its own if it has not been
called. -/
theorem owed_of_ends (hj : j.Plain) {failure : Option CallbackFailure} (hp : j.MayEnd failure) :
    w.callsOf j ++ w.hearing.fallout j.event failure = j.owed w.hearing := by
  rcases hp with hp | ⟨hm, hp | ⟨ha, ⟨hp, -⟩ | ⟨call, hp⟩⟩⟩
  · simp [callsOf, hp, Job.owed]
  · simp [callsOf, hp, Job.owed, hm hj.deed]
  · simp [callsOf, hp, Job.owed, hm hj.deed, ha]
  · exact absurd hp (hj.phase call)

/-- Each case of `Work` makes a part of the invocations owed, and leaves the rest to `come`. -/
theorem Work.owed (hj : j.Plain) (h : Work w id j gone come executor) :
    (w.callsOf j ++ owedBy w.hearing come).Perm (owedBy w.hearing gone) := by
  cases h with
  | queues hp ha hf => simp [callsOf, hp, ha, hf, owedBy, Job.owed]
  | sleeps hp ha => simp [callsOf, hp, ha, owedBy, Job.owed]
  | occupies _ _ _ hd | asks _ hd => exact absurd hd hj.not_request
  | runs hp ha hf hm => simp [callsOf, hp, hf, owedBy, Job.owed, hm hj.deed]
  | frees hp hw hm => simp [callsOf, hj.granted hp, owedBy, Job.owed, hm hj.deed]
  | yields hp hw hk hm =>
    simp [callsOf, hj.granted hp, owedBy, Job.owed, Job.isWaiting_iff.1 hk, hm hj.deed]
  | @ends failure hp =>
    have hcome := owedBy_fallout (r := w.hearing) w.nextTask j.event failure
    have howed : w.callsOf j ++ w.hearing.fallout j.event failure =
        owedBy w.hearing [(id, j)] := by
      simp [owed_of_ends hj hp, owedBy]
    exact howed ▸ hcome.append_left _

/-- Each case of `Work` decreases the effort. -/
theorem Work.effort (hj : j.Plain) (h : Work w id j gone come executor) :
    effortOf w.hearing come + 1 ≤ effortOf w.hearing gone := by
  cases h with
  | queues hp | sleeps hp =>
    simp only [effortOf, Job.effort, Job.owed, hp, List.length_cons]
    omega
  | occupies _ _ _ hd | asks _ hd => exact absurd hd hj.not_request
  | runs hp ha hf hm =>
    simp only [effortOf, Job.effort, Job.owed, hp, List.length_cons, hm hj.deed]
    omega
  | frees hp hw hm =>
    simp only [effortOf, Job.effort, Job.owed, hj.granted hp, List.length_cons, hm hj.deed]
    omega
  | yields hp hw hk hm =>
    simp only [effortOf, Job.effort, Job.owed, hj.granted hp, Job.isWaiting_iff.1 hk,
      List.length_cons, hm hj.deed]
    omega
  | @ends failure hp =>
    rw [effortOf_submitted, (owedBy_fallout _ _ _).length_eq]
    rcases hp with hp | ⟨hm, hp | ⟨ha, ⟨hp, -⟩ | ⟨call, hp⟩⟩⟩
    · simp only [effortOf, Job.effort, Job.owed, hp]
      omega
    · simp only [effortOf, Job.effort, Job.owed, hp, hm hj.deed]
      omega
    · simp only [effortOf, Job.effort, Job.owed, hp, hm hj.deed, List.length_cons]
      omega
    · exact absurd hp (hj.phase call)

/-! ## Being ready -/

/-- The executor is open and manned, and the deeds of all listeners and jobs are plain. -/
structure Ready (w : World) : Prop where
  tidy : w.Tidy
  manned : w.Manned
  opened : w.executor.closed = false
  listeners : ∀ l ∈ w.registry.listeners, l.callback.deed.isPlain
  plain : ∀ e ∈ w.jobs, e.2.Plain
  /-- No job has the number of the supervisor. -/
  first : supervisorId < w.nextTask
  numbered : ∀ e ∈ w.jobs, supervisorId < e.1

/-! ## Accounts -/

/-- From `w` to `w'` jobs have had `turns` turns, the invocations `calls` have been made, and the
invocations `promised` have become due. -/
structure Accounts (turns : Nat) (calls promised : List Invocation) (w w' : World) : Prop where
  ready : w'.Ready
  registry : w'.registry = w.registry
  owing : (calls ++ w'.owing).Perm (w.owing ++ promised)
  delivered : w'.trace.delivered = w.trace.delivered ++ calls.filterMap Invocation.record?
  effort : turns + w'.effort ≤ w.effort + 3 * promised.length

theorem Accounts.trans {m n : Nat} {a b p q : List Invocation} {u v : World}
    (h : Accounts m a p u v) (g : Accounts n b q v w) : Accounts (m + n) (a ++ b) (p ++ q) u w where
  ready := g.ready
  registry := g.registry.trans h.registry
  owing := by
    have hb := g.owing.append_left a
    have ha := h.owing.append_right q
    simp only [← List.append_assoc] at hb ha ⊢
    exact hb.trans ha
  delivered := by rw [g.delivered, h.delivered, List.filterMap_append, List.append_assoc]
  effort := by
    have hm := h.effort
    have hn := g.effort
    rw [List.length_append]
    omega

/-- The accounts of a change of jobs, from those of the jobs removed and added. -/
theorem Shifts.accounts {calls promised : List Invocation} {turns : Nat} {w' : World}
    (hw : w.Ready) (h : Shifts calls gone come executor w w') (ht : w'.Tidy) (hm : w'.Manned)
    (hopen : executor.closed = w.executor.closed)
    (hplain : ∀ e ∈ come, e.2.Plain ∧ supervisorId < e.1)
    (howed : (calls ++ owedBy w.registry come).Perm (owedBy w.registry gone ++ promised))
    (heffort : turns + effortOf w.registry come ≤
      effortOf w.registry gone + 3 * promised.length) : Accounts turns calls promised w w' := by
  obtain ⟨others, hold, hnew⟩ := h.jobs
  have hjobs {P : Nat × Job → Prop} (hP : ∀ e ∈ w.jobs, P e) (hcome : ∀ e ∈ come, P e) :
      ∀ e ∈ w'.jobs, P e := by
    intro e he
    rcases List.mem_append.1 (hnew.mem_iff.1 he) with he | he
    · exact hcome e he
    · exact hP e (hold.mem_iff.2 (List.mem_append_right _ he))
  constructor
  · refine ⟨ht, hm, ?_, ?_, ?_, ?_, ?_⟩
    · rw [h.executor, hopen]
      exact hw.opened
    · rw [h.registry]
      exact hw.listeners
    · exact hjobs hw.plain fun e he => (hplain e he).1
    · exact Nat.lt_of_lt_of_le hw.first h.nextTask
    · exact hjobs hw.numbered fun e he => (hplain e he).2
  · exact h.registry
  · have hbefore : w.owing.Perm (owedBy w.registry gone ++ owedBy w.registry others) := by
      simpa [owing, owedBy] using hold.flatMap_right (·.2.owed w.registry)
    have hafter : w'.owing.Perm (owedBy w.registry come ++ owedBy w.registry others) := by
      simpa [owing, owedBy, h.registry] using hnew.flatMap_right (·.2.owed w.registry)
    calc calls ++ w'.owing
      _ ~ calls ++ (owedBy w.registry come ++ owedBy w.registry others) := hafter.append_left _
      _ ~ owedBy w.registry gone ++ promised ++ owedBy w.registry others := by
        rw [← List.append_assoc]
        exact howed.append_right _
      _ ~ owedBy w.registry gone ++ owedBy w.registry others ++ promised := by
        rw [List.append_assoc, List.append_assoc]
        exact List.perm_append_comm.append_left _
      _ ~ w.owing ++ promised := hbefore.symm.append_right _
  · exact h.delivered
  · unfold World.effort
    rw [h.registry, effortOf_perm hold, effortOf_perm hnew, effortOf_append, effortOf_append]
    omega

theorem plain_submitted {is : List Invocation} (h : ∀ i ∈ is, i.1.deed.isPlain)
    (hw : supervisorId < w.nextTask) :
    ∀ e ∈ submitted w.nextTask is, e.2.Plain ∧ supervisorId < e.1 := by
  intro e he
  refine ⟨?_, Nat.lt_of_lt_of_le hw (le_of_mem_submitted he)⟩
  obtain ⟨⟨i, id⟩, hi, rfl⟩ := List.mem_map.1 he
  exact ⟨h i (List.fst_mem_of_mem_zipIdx hi), by simp⟩

theorem plain_audience {r : Registry} (h : ∀ l ∈ r.listeners, l.callback.deed.isPlain)
    (topic : String) (e : Event) : ∀ i ∈ r.audience topic e, i.1.deed.isPlain := by
  intro i hi
  obtain ⟨l, hl, rfl⟩ := List.mem_map.1 hi
  exact h l (List.mem_of_mem_filter hl)

theorem plain_fallout {r : Registry} (h : ∀ l ∈ r.listeners, l.callback.deed.isPlain) (e : Event)
    (failure : Option CallbackFailure) : ∀ i ∈ r.fallout e failure, i.1.deed.isPlain := by
  unfold Registry.fallout
  split
  · split
    · simp
    · exact plain_audience h _ _
  · simp

theorem plain_hearing (h : ∀ l ∈ w.registry.listeners, l.callback.deed.isPlain) :
    ∀ l ∈ w.hearing.listeners, l.callback.deed.isPlain :=
  fun l hl => h l (mem_hearing hl)

/-- Publishing an event makes its cascade due. -/
theorem accounts_publish (hw : w.Ready) (topic : String) (e : Event) :
    Accounts 0 [] (w.registry.cascade topic e) w (w.publish topic e).1 := by
  have hshift := shifts_publish w topic e
  rw [hearing_of_open hw.opened] at hshift
  have howed := owedBy_submitted (r := w.registry) w.nextTask (w.registry.audience topic e)
  have heffort := effortOf_submitted (r := w.registry) w.nextTask (w.registry.audience topic e)
  obtain ⟨hnone, hnobody⟩ := waiters_submitted w.nextTask (w.registry.audience topic e)
  refine hshift.accounts hw ((beside_publish w topic e).tidy hw.tidy) ?_ rfl
    (plain_submitted (plain_audience hw.listeners topic e) hw.first) ?_ ?_
  · refine hshift.manned hw.manned rfl ?_ ?_ ?_ hw.manned.eager
    · simp [Executor.taking, length_submitted]
    · intro l hl
      rw [hnone]
      exact hl
    · rw [hnobody]
      rfl
  · simpa [owedBy, Registry.cascade] using howed
  · rw [heffort, howed.length_eq]
    simp [effortOf, Registry.cascade]

/-! ## Turns -/

/-- The job that has a turn at an occurrence. A waiting job has none. -/
def turning? (w : World) : Occurrence → Option (Nat × Job)
  | .go id =>
    if id = supervisorId then none else w.jobs.find? fun e => e.1 = id && !e.2.isWaiting
  | _ => none

/-- The invocations made at an occurrence. -/
def calls (w : World) (o : Occurrence) : List Invocation :=
  match w.turning? o with
  | some (_, j) => w.callsOf j
  | none => []

theorem of_turning? {o : Occurrence} (h : w.turning? o = some (id, j)) :
    o = .go id ∧ id ≠ supervisorId ∧ (id, j) ∈ w.jobs ∧ j.isWaiting = false := by
  unfold turning? at h
  split at h
  next n =>
    split at h
    · cases h
    next hn =>
      have hfound := List.find?_some h
      simp only [Bool.and_eq_true, decide_eq_true_eq, Bool.not_eq_true'] at hfound
      obtain ⟨rfl, hwaits⟩ := hfound
      exact ⟨rfl, hn, List.mem_of_find?_eq_some h, hwaits⟩
  · cases h

/-- The jobs added by `Work` are plain if all jobs and listeners are. -/
theorem Work.plain {w' : World} {calls : List Invocation}
    (hlisteners : ∀ l ∈ w.registry.listeners, l.callback.deed.isPlain)
    (hjobs : ∀ e ∈ w.jobs, e.2.Plain ∧ supervisorId < e.1) (hfirst : supervisorId < w.nextTask)
    (h : Work w id j gone come executor) (g : Shifts calls gone come executor w w') :
    ∀ e ∈ come, e.2.Plain ∧ supervisorId < e.1 := by
  obtain ⟨others, hold, -⟩ := g.jobs
  have hgone (e : Nat × Job) (he : e ∈ gone) : e.2.Plain ∧ supervisorId < e.1 :=
    hjobs e (hold.mem_iff.2 (List.mem_append_left _ he))
  cases h with
  | queues | sleeps | runs | frees =>
    obtain ⟨⟨hd, -⟩, hid⟩ := hgone (id, j) List.mem_cons_self
    intro e he
    obtain rfl := List.mem_singleton.1 he
    exact ⟨⟨hd, by simp⟩, hid⟩
  | occupies _ _ _ hd | asks _ hd =>
    exact absurd hd (hgone (id, j) List.mem_cons_self).1.not_request
  | @yields failure next rest k hp hn hk =>
    obtain ⟨⟨hd, -⟩, hid⟩ := hgone (id, j) List.mem_cons_self
    obtain ⟨⟨hd', -⟩, hid'⟩ := hgone (next, k) (by simp)
    intro e he
    rcases List.mem_pair.1 he with rfl | rfl
    · exact ⟨⟨hd, by simp⟩, hid⟩
    · exact ⟨⟨hd', by simp⟩, hid'⟩
  | ends => exact plain_submitted (plain_fallout (plain_hearing hlisteners) _ _) hfirst

theorem Ready.advances (hw : w.Ready) (hj : (id, j) ∈ w.jobs) (hwaits : j.isWaiting = false) :
    Advances (w.callsOf j) w id j (w.pollJob id j) := by
  have hplain : j.Plain := hw.plain _ hj
  have hadvances (u : World) (hu : w.primed j = u) (ht : u.Tidy) (hm : u.Manned)
      (hj : (id, j) ∈ u.jobs) : Advances (w.callsOf j) u id j (w.pollJob id j) := by
    subst hu
    exact advances_pollJob ht hm hj hplain.regular hwaits
  exact hadvances w (primed_of_plain hplain) hw.tidy hw.manned hj

/-- A turn of a job makes a part of the invocations owed. -/
theorem accounts_turn (hw : w.Ready) {o : Occurrence} (h : w.turning? o = some (id, j)) :
    Accounts 1 (w.callsOf j) [] w (w.undergo o) := by
  have ht := (run_undergo hw.tidy o).tidy hw.tidy
  obtain ⟨rfl, hid, hj, hwaits⟩ := of_turning? h
  have hpoll : w.undergo (.go id) = w.pollJob id j := by
    rw [undergo, if_neg hid, hw.tidy.poll_eq hj hid]
  have hplain := hw.plain _ hj
  obtain ⟨gone, come, executor, -, hwork, hshift, -⟩ := hw.advances hj hwaits
  have howed := hwork.owed hplain
  have heffort := hwork.effort hplain
  rw [hearing_of_open hw.opened] at howed heffort
  rw [hpoll] at ht ⊢
  refine hshift.accounts hw ht (hwork.manned hw.manned hshift) ?_ ?_ ?_ ?_
  · cases hwork <;> rfl
  · exact hwork.plain hw.listeners (fun e he => ⟨hw.plain e he, hw.numbered e he⟩) hw.first hshift
  · simpa using howed
  · simp only [List.length_nil]
    omega

/-! ## Courses -/

/-- At `o` a job has a turn, an event is published from outside, or neither jobs nor executor nor
registry change. -/
def Calm (w : World) (o : Occurrence) : Prop :=
  (w.turning? o).isSome ∨ (∃ topic e, o = .step (.publish topic e)) ∨
    Shifts [] [] [] w.executor w (w.undergo o)

/-- All occurrences of a course are calm. -/
def Undisturbed (w : World) : List Occurrence → Prop
  | [] => True
  | o :: os => w.Calm o ∧ (w.undergo o).Undisturbed os

/-- The invocations made on a course, in order. -/
def called (w : World) : List Occurrence → List Invocation
  | [] => []
  | o :: os => w.calls o ++ (w.undergo o).called os

/-- The number of turns of jobs on a course. -/
def turns (w : World) : List Occurrence → Nat
  | [] => 0
  | o :: os => (w.turning? o).isSome.toNat + (w.undergo o).turns os

theorem shifts_fire (w : World) (time : Nat) :
    Shifts [] [] [] w.executor w (w.fire time) := by
  have hwakes (ids : List Nat) {v : World} (h : Shifts [] [] [] w.executor w v) :
      Shifts [] [] [] w.executor w (ids.foldl World.wake v) := by
    induction ids generalizing v with
    | nil => exact h
    | cons id ids ih => exact ih (h.wake id)
  exact hwakes _ (.of_eq rfl rfl (by simp) rfl rfl)

/-- A job that does not wait for a worker has a turn when it is polled. -/
theorem turning?_isSome (hj : (id, j) ∈ w.jobs) (hid : id ≠ supervisorId)
    (hwaits : j.isWaiting = false) : (w.turning? (.go id)).isSome := by
  simp only [turning?, if_neg hid, List.find?_isSome]
  exact ⟨(id, j), hj, by simp [hwaits]⟩

/-- Polling a job is calm, at any time. -/
theorem calm_of_mem_jobs (ht : w.Tidy) (hj : (id, j) ∈ w.jobs) (hid : id ≠ supervisorId) :
    w.Calm (.go id) := by
  cases hwaits : j.isWaiting with
  | false => exact .inl (turning?_isSome hj hid hwaits)
  | true =>
    have hpoll : w.undergo (.go id) = w := by
      rw [undergo, if_neg hid, ht.poll_eq hj hid, pollJob, Job.isWaiting_iff.1 hwaits]
    rw [Calm, hpoll]
    exact .inr (.inr (.of_eq rfl rfl (by simp) rfl rfl))

/-- Moving the clock and reordering `ready` change neither jobs nor executor nor registry. -/
theorem calm_of_isPassing (w : World) {o : Occurrence} (ho : o.isPassing) : w.Calm o := by
  refine .inr (.inr ?_)
  cases o with
  | fire time => exact shifts_fire w time
  | clock | order => exact .of_eq rfl rfl (by simp [undergo]) rfl rfl
  | _ => cases ho

/-- The accounts of a calm occurrence. -/
theorem accounts_undergo (hw : w.Ready) {o : Occurrence} (ho : w.Calm o) :
    Accounts (w.turning? o).isSome.toNat (w.calls o) (w.registry.promises o) w (w.undergo o) := by
  unfold calls
  cases hturn : w.turning? o with
  | some e =>
    obtain ⟨rfl, -⟩ := of_turning? hturn
    exact accounts_turn hw hturn
  | none =>
    by_cases hpublish : ∃ topic e, o = .step (.publish topic e)
    · obtain ⟨topic, e, rfl⟩ := hpublish
      exact accounts_publish hw topic e
    · have hshift : Shifts [] [] [] w.executor w (w.undergo o) := by
        rcases ho with hsome | hpub | hshift
        · simp [hturn] at hsome
        · exact absurd hpub hpublish
        · exact hshift
      rw [Registry.promises_of_not_publish hpublish]
      refine hshift.accounts hw ((run_undergo hw.tidy o).tidy hw.tidy) ?_ rfl (by simp) ?_ ?_
      · exact hshift.manned hw.manned rfl (by simp) (fun _ h => h) rfl hw.manned.eager
      · simp [owedBy]
      · simp

theorem accounts_course (hw : w.Ready) {os : List Occurrence} (hos : w.Undisturbed os) :
    Accounts (w.turns os) (w.called os) (os.flatMap w.registry.promises) w (w.course os) := by
  induction os generalizing w with
  | nil => exact ⟨hw, rfl, by simp [called], by simp [called], by simp [turns]⟩
  | cons o os ih =>
    have hfirst := accounts_undergo hw hos.1
    have hrest := ih hfirst.ready hos.2
    rw [hfirst.registry] at hrest
    exact hfirst.trans hrest

/-- Whether an occurrence polls a job. -/
def pollsJob (w : World) : Occurrence → Bool
  | .go id => decide (id ∈ w.jobs.map Prod.fst)
  | _ => false

/-- Whether each occurrence of a course polls a job, moves the clock or reorders `ready`. -/
def isRoutine (w : World) : List Occurrence → Bool
  | [] => true
  | o :: os => (o.isPassing || w.pollsJob o) && (w.undergo o).isRoutine os

theorem Ready.calm_of_pollsJob (hw : w.Ready) {o : Occurrence} (h : w.pollsJob o) : w.Calm o := by
  cases o with
  | go id =>
    obtain ⟨⟨n, j⟩, hj, hn⟩ := List.mem_map.1 (of_decide_eq_true h)
    obtain rfl : n = id := hn
    exact calm_of_mem_jobs hw.tidy hj (Nat.ne_of_gt (hw.numbered _ hj))
  | _ => cases h

/-- A routine course is undisturbed. -/
theorem Ready.undisturbed (hw : w.Ready) {os : List Occurrence} (h : w.isRoutine os) :
    w.Undisturbed os := by
  induction os generalizing w with
  | nil => trivial
  | cons o os ih =>
    simp only [isRoutine, Bool.and_eq_true, Bool.or_eq_true] at h
    have hcalm : w.Calm o := h.1.elim (calm_of_isPassing w) hw.calm_of_pollsJob
    exact ⟨hcalm, ih (accounts_undergo hw hcalm).ready h.2⟩

/-- While there are jobs, a job has a turn when it is polled. -/
theorem Ready.progress (hw : w.Ready) (h : w.jobs ≠ []) :
    ∃ id, (w.turning? (.go id)).isSome := by
  by_contra hstuck
  have hwaits (e : Nat × Job) (he : e ∈ w.jobs) : e.2.isWaiting = true := by
    by_contra hgoes
    refine hstuck ⟨e.1, turning?_isSome he ?_ (by simpa using hgoes)⟩
    exact Nat.ne_of_gt (hw.numbered e he)
  have hidle : w.jobs.countP (·.2.isWorking) = 0 := by
    apply List.countP_eq_zero.2
    intro e he
    simp [Job.isWorking, Job.isWaiting_iff.1 (hwaits e he)]
  have hqueue : w.executor.waiting ≠ [] := by
    obtain ⟨e, he⟩ := List.exists_mem_of_ne_nil _ h
    have hmem : e.1 ∈ waiters w.jobs := List.mem_map_of_mem (List.mem_filter.2 ⟨he, hwaits e he⟩)
    exact List.ne_nil_of_mem (hw.manned.waiting.mem_iff.2 hmem)
  have hfree := hw.manned.eager hqueue
  have hworking := hw.manned.working
  have hworkers := hw.manned.workers
  omega

theorem effort_le (w : World) : w.effort ≤ 3 * w.owing.length + w.jobs.length := by
  have hjob (r : Registry) (j : Job) : j.effort r ≤ 3 * (j.owed r).length + 1 := by
    unfold Job.effort
    split <;> omega
  unfold effort owing owedBy
  induction w.jobs with
  | nil => simp [effortOf]
  | cons e l ih =>
    have h := hjob w.registry e.2
    simp only [effortOf, List.flatMap_cons, List.length_append, List.length_cons]
    omega

/-- On an undisturbed course from the publication of `e` on `topic`, in any order of polls: the
invocations made and those still owed are a permutation of `due`, which consists of those owed
before, the cascade of the event, and the cascades of the events published on the course. Once no
callback is running, all of `due` have been made. They are recorded in the order in which they are
made. The number of turns is bounded, and while a callback is running one of the jobs has a turn
when it is polled. -/
theorem cascade_of_course (hw : w.Ready) (topic : String) (e : Event) {os : List Occurrence}
    (hos : (w.publish topic e).1.Undisturbed os) :
    let v := (w.publish topic e).1
    let last := v.course os
    let due := w.owing ++ w.registry.cascade topic e ++ os.flatMap w.registry.promises
    (v.called os ++ last.owing).Perm due ∧
    (last.executor.inFlight = 0 → (v.called os).Perm due) ∧
    last.trace.delivered = w.trace.delivered ++ (v.called os).filterMap Invocation.record? ∧
    v.turns os ≤ 3 * due.length + w.jobs.length ∧
    (last.executor.inFlight ≠ 0 → ∃ id, (last.turning? (.go id)).isSome) := by
  have hpublish := accounts_publish hw topic e
  have hcourse := accounts_course hpublish.ready hos
  rw [hpublish.registry] at hcourse
  have h := hpublish.trans hcourse
  have howing : ((w.publish topic e).1.called os ++ ((w.publish topic e).1.course os).owing).Perm
      (w.owing ++ w.registry.cascade topic e ++ os.flatMap w.registry.promises) := by
    simpa using h.owing
  have hflight := h.ready.manned.inFlight
  refine ⟨howing, ?_, by simpa using h.delivered, ?_, ?_⟩
  · intro hnone
    have hjobs : ((w.publish topic e).1.course os).jobs = [] :=
      List.eq_nil_of_length_eq_zero (hflight ▸ hnone)
    simpa [owing, owedBy, hjobs] using howing
  · have heffort := h.effort
    have hle := effort_le w
    simp only [List.length_append] at heffort ⊢
    omega
  · intro hsome
    apply h.ready.progress
    intro hjobs
    exact hsome (by rw [hflight, hjobs, List.length_nil])

/-! ## The bridge is ready -/

theorem listeners_addPlugin (h : ∀ l ∈ w.registry.listeners, l.callback.deed.isPlain) (p : Plugin) :
    ∀ l ∈ (w.addPlugin p).registry.listeners, l.callback.deed.isPlain := by
  cases p with
  | scripted name failing =>
    unfold addPlugin callHook
    cases hf : failing.contains .setup <;> simp only [hf, if_true, Bool.false_eq_true, if_false]
    · exact h
    · exact h
  | ping =>
    unfold addPlugin callHook
    cases he : w.pingConfig.enabled with
    | false => simpa [he] using h
    | true =>
      intro l hl
      simp [Registry.add] at hl
      rcases hl with hl | rfl
      · exact h l hl
      · rfl

section

variable (config : Config) (script : Peer.Script) (plugins : List Plugin) (pingStart : Span)

/-- The only listener added at the launch is that of the pings, whose deed is plain. -/
theorem listeners_launch : ∀ l ∈ (launch config script plugins pingStart).registry.listeners,
    l.callback.deed.isPlain := by
  have hplugins (w : World) (h : ∀ l ∈ w.registry.listeners, l.callback.deed.isPlain) :
      ∀ l ∈ (plugins.foldl addPlugin w).registry.listeners, l.callback.deed.isPlain := by
    induction plugins generalizing w with
    | nil => exact h
    | cons p plugins ih => exact ih _ (listeners_addPlugin h p)
  have hbegin (v : World) (h : v.registry = {}) :
      ∀ l ∈ (plugins.foldl addPlugin v).registry.listeners, l.callback.deed.isPlain :=
    hplugins v (by simp [h])
  unfold launch
  dsimp only
  split
  · rw [(sends_send _ _).registry]
    split
    · exact hbegin _ rfl
    · exact hbegin _ rfl
  · rw [(sends_log _ _).registry]
    split
    · exact hbegin _ rfl
    · exact hbegin _ rfl

/-- A launched bridge is ready. -/
theorem ready_launch : (launch config script plugins pingStart).Ready := by
  obtain ⟨htasks, hnext, hexecutor⟩ : (launch config script plugins pingStart).tasks = [] ∧
      (launch config script plugins pingStart).nextTask = 1 ∧
      (launch config script plugins pingStart).executor = .ofConfig config.executor := by
    obtain ⟨_, _, _, h⟩ := launch_spec config script plugins pingStart
    rw [h]
    exact ⟨rfl, rfl, rfl⟩
  have hjobs : (launch config script plugins pingStart).jobs = [] := by
    rw [jobs, htasks]
    rfl
  exact {
    tidy := tidy_launch config script plugins pingStart
    manned := .of_idle hjobs hexecutor
    opened := by rw [hexecutor]; rfl
    listeners := listeners_launch config script plugins pingStart
    plain := by simp [hjobs]
    first := by simp [hnext, supervisorId]
    numbered := by simp [hjobs] }

end

/-- A property of all listeners is preserved if each added listener has it. -/
theorem forall_listeners_undergo {P : Listener → Prop} (h : ∀ l ∈ w.registry.listeners, P l)
    {o : Occurrence} (hadd : ∀ l, o.adds? w.registry.nextId = some l → P l) :
    ∀ l ∈ (w.undergo o).registry.listeners, P l := by
  intro l hl
  rw [registry_undergo] at hl
  rcases List.mem_append.1 hl with hl | hl
  · exact h l (List.mem_of_mem_filter hl)
  · exact hadd l (Option.mem_toList.1 hl)

/-- Adding listeners with plain deeds and removing listeners preserves `Ready`. -/
theorem Ready.undergo (hw : w.Ready) {o : Occurrence} (ho : o.isPublic) (hc : o.closes = false)
    (hadd : ∀ l, o.adds? w.registry.nextId = some l → l.callback.deed.isPlain) :
    (w.undergo o).Ready := by
  have hlisteners := forall_listeners_undergo hw.listeners hadd
  have hclosed := closed_undergo w o
  obtain ⟨registry, closed, heq⟩ := undergo_of_isPublic w ho
  rw [heq] at hlisteners hclosed ⊢
  exact ⟨⟨hw.tidy.nodup, hw.tidy.fresh, hw.tidy.pinger⟩,
    ⟨hw.manned.workers, hw.manned.inFlight, hw.manned.waiting, hw.manned.working, hw.manned.eager⟩,
    by simpa [hc, hw.opened] using hclosed, hlisteners, hw.plain, hw.first, hw.numbered⟩

/-- A switch, a journal that takes five milliseconds, and an alarm. All of them fail, and the
journal and the alarm listen to failures. -/
def demoListeners : List Occurrence :=
  let listen (topic name : String) (delayMs : Nat) (deed : Deed) :=
    Occurrence.step (.listen (.ofString topic) .any
      { name, isAsync := decide (delayMs ≠ 0), delayMs, deed })
  [listen "lamp" "switch" 0 (.fail ["no power"]), listen "*" "journal" 5 (.panic none),
    listen "errors" "alarm" 0 (.fail ["no bell"])]

/-- Polls of the jobs in another order than that of their submission, while time passes. -/
def demoOrder : List Occurrence :=
  [2, 1, 1, 4, 4, 3].map .go ++ .fire 5 :: .order [3, 2] :: [2, 6, 6, 3, 5].map .go ++
    [.fire 10, .go 5]

/-- Both failures are submitted to both listeners of failures, whose own failures are not
submitted. -/
theorem cascade_of_course_demo :
    let w := demo.course demoListeners
    let v := (w.publish "lamp" (.itemRemoved "lamp")).1
    w.Ready ∧ v.Undisturbed demoOrder ∧
      (v.called demoOrder).Perm (w.registry.cascade "lamp" (.itemRemoved "lamp")) ∧
      (w.registry.cascade "lamp" (.itemRemoved "lamp")).map (fun i => (i.1.name, i.2.name)) =
        [("switch", "lamp"), ("journal", "lamp"), ("journal", "switch"), ("alarm", "switch"),
          ("journal", "journal"), ("alarm", "journal")] := by
  have hready : (demo.course demoListeners).Ready := by
    have hlisten {w : World} (hw : w.Ready) (pattern : TopicPattern) (filter : EventFilter)
        {c : Callback} (hc : c.deed.isPlain) :
        (w.undergo (.step (.listen pattern filter c))).Ready :=
      hw.undergo rfl rfl fun l hl => by cases hl; exact hc
    exact hlisten (hlisten (hlisten (ready_launch _ _ _ _) _ _ rfl) _ _ rfl) _ _ rfl
  have hpublished := (accounts_publish hready "lamp" (.itemRemoved "lamp")).ready
  have hos : Undisturbed _ demoOrder := hpublished.undisturbed (by decide +kernel)
  obtain ⟨-, hall, -⟩ := cascade_of_course hready "lamp" (.itemRemoved "lamp") hos
  have hidle : (demo.course demoListeners).jobs = [] :=
    List.isEmpty_iff.1 (by decide +kernel)
  have hcalled := hall (by decide +kernel)
  refine ⟨hready, hos, ?_, by decide +kernel⟩
  simpa [owing, owedBy, hidle, demoOrder, Registry.promises] using hcalled

end World

end Bridge

end PeerLink
