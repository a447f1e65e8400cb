import PeerLink.Proofs.Bridge.Gains
/-!
# Callbacks that have not finished

A callback is accepted when its job is submitted, and it finishes when its job ends. The failure of
a callback is submitted before its job ends. So `executor.inFlight` is the number of pending
callbacks at every occurrence, and the callbacks accepted on a course are those that are pending or
have finished.

## Main definitions

* `World.pending`: the callbacks that have been accepted and have not finished.
* `Job.Concludes`: the deed of a job is done, with a failure or without.
* `World.report`: submits the failure of a job.
* `World.accepts`, `World.finishes`: the callbacks accepted and finished at an occurrence, and
  `World.accepted`, `World.finished` those on a course.
* `World.Counted`: `executor.inFlight` is the number of pending callbacks.

## Main statements

* `World.passes_undergo`: an occurrence accepts callbacks and finishes at most one.
* `World.Counted.balance`: the pending callbacks before and after an occurrence.
* `World.Counted.course`: the accepted callbacks are those that are pending or have finished.
-/

namespace PeerLink.Bridge

open Connection
open scoped List

/-- The invocation that `j` was submitted for. -/
def Job.invocation (j : Job) : Invocation := (j.callback, j.event)

/-- The deed of `j` is done in `v`, with the failure `failure`. A job that ran on a worker was given
its failure in an earlier turn. -/
inductive Job.Concludes (w : World) (j : Job) :
    World → Option CallbackFailure → Prop where
  | returned {failure : Option CallbackFailure} (hp : j.phase = .returned failure) :
      Concludes w j w failure
  | woken {v : World} {failure : Option CallbackFailure} (hp : j.phase = .sleeping)
      (h : w.perform j = (v, .now failure)) : Concludes w j v failure
  | atOnce {v : World} {failure : Option CallbackFailure} (hp : j.phase = .submitted)
      (ha : j.callback.isAsync) (hd : j.callback.delayMs = 0)
      (h : (w.deliver j).perform j = (v, .now failure)) : Concludes w j v failure
  | answered {call : Call} (hp : j.phase = .asking call) (ha : j.callback.isAsync) :
      Concludes w j (w.finishCall call).1
        (World.requestFailure j.callback.name (w.finishCall call).2)

namespace World

/-- The callbacks that have been accepted and have not finished, with their numbers. -/
def pending (w : World) : List (Nat × Invocation) := w.jobs.map fun e => (e.1, e.2.invocation)

/-- The invocations `is` with numbers from `next`. -/
def numbered (next : Nat) (is : List Invocation) : List (Nat × Invocation) :=
  (is.zipIdx next).map Prod.swap

/-- From `w` to `w'` the callbacks `more` are accepted, and none finishes. -/
structure Enters (more : List (Nat × Invocation)) (w w' : World) : Prop where
  pending : w'.pending = w.pending ++ more
  inFlight : w'.executor.inFlight = w.executor.inFlight + more.length
  closed : w.executor.closed → w'.executor.closed ∧ more = []
  nextTask : w.nextTask ≤ w'.nextTask
  number : ∀ e ∈ more, w.nextTask ≤ e.1
  pinned : w.Pinned → w'.Pinned

/-- From `w` to `w'` some callbacks are accepted, and none finishes. -/
def Takes (w w' : World) : Prop := ∃ more, Enters more w w'

section

variable {u v w w' : World} {a b : List (Nat × Invocation)} {id : Nat} {i : Invocation} {j : Job}

theorem map_fst_pending (w : World) : w.pending.map Prod.fst = w.jobs.map Prod.fst := by
  simp [pending]

theorem mem_pending : (id, i) ∈ w.pending ↔ ∃ j, (id, j) ∈ w.jobs ∧ j.invocation = i := by
  simp [pending]

theorem pending_submitted (next : Nat) (is : List Invocation) :
    (submitted next is).map (fun e => (e.1, e.2.invocation)) = numbered next is := by
  simp [submitted, numbered, Job.invocation, Function.comp_def]

theorem invocation_mem_of_mem_submitted {next : Nat} {is : List Invocation} {e : Nat × Job}
    (h : e ∈ submitted next is) : e.2.invocation ∈ is := by
  obtain ⟨_, hi, rfl⟩ := List.mem_map.1 h
  exact List.fst_mem_of_mem_zipIdx hi

namespace Enters

theorem trans (h : Enters a u v) (g : Enters b v w) : Enters (a ++ b) u w where
  pending := by rw [g.pending, h.pending, List.append_assoc]
  inFlight := by
    rw [g.inFlight, h.inFlight, List.length_append]
    omega
  closed hc := by
    obtain ⟨hv, rfl⟩ := h.closed hc
    obtain ⟨hw, rfl⟩ := g.closed hv
    exact ⟨hw, rfl⟩
  nextTask := Nat.le_trans h.nextTask g.nextTask
  number e he := by
    rcases List.mem_append.1 he with he | he
    · exact h.number e he
    · exact Nat.le_trans h.nextTask (g.number e he)
  pinned hp := g.pinned (h.pinned hp)

/-- If `pending` and `executor.inFlight` stay, no callback is accepted. -/
theorem of_same (hj : v.pending = u.pending) (hx : v.executor.inFlight = u.executor.inFlight)
    (hc : u.executor.closed → v.executor.closed) (hn : v.nextTask = u.nextTask)
    (ha : v.attempt = u.attempt) (hr : v.reader = u.reader) (hp : v.pinger = u.pinger) :
    Enters [] u v := by
  have hkeys : v.jobs.map Prod.fst = u.jobs.map Prod.fst := by
    rw [← map_fst_pending, hj, map_fst_pending]
  refine ⟨by simp [hj], by simp [hx], fun h => ⟨hc h, rfl⟩, Nat.le_of_eq hn.symm, by simp, ?_⟩
  intro h
  have hkept {id : Nat} (hid : u.Jobless id) : v.Jobless id := by
    rw [Jobless, hn, hkeys]
    exact hid
  exact ⟨by rw [hkeys, hn]; exact h.given, hkept h.supervisor,
    fun id hid => hkept (h.attempt id (ha ▸ hid)), fun id hid => hkept (h.reader id (hr ▸ hid)),
    fun id hid => hkept (h.pinger id (hp ▸ hid))⟩

theorem mem (h : Enters a u v) {e : Nat × Invocation} (he : e ∈ u.pending) : e ∈ v.pending := by
  rw [h.pending]
  exact List.mem_append_left _ he

end Enters

theorem Joins.enters {more : List (Nat × Job)} (h : Joins more w w') :
    Enters (more.map fun e => (e.1, e.2.invocation)) w w' where
  pending := by rw [pending, h.jobs, List.map_append, pending]
  inFlight := by rw [h.executor, List.length_map]
  closed hc := ⟨by rw [h.executor]; exact hc, by rw [h.closed hc, List.map_nil]⟩
  nextTask := h.nextTask
  number e he := by
    obtain ⟨n, hn, rfl⟩ := List.mem_map.1 he
    exact (h.newcomer n hn).number.1
  pinned := h.pinned

theorem Gains.takes (h : w.Gains w') : w.Takes w' := by
  obtain ⟨_, h⟩ := h
  exact ⟨_, h.enters⟩

theorem Takes.trans (h : u.Takes v) (g : v.Takes w) : u.Takes w := by
  obtain ⟨_, h⟩ := h
  obtain ⟨_, g⟩ := g
  exact ⟨_, h.trans g⟩

theorem Takes.mem (h : u.Takes v) {e : Nat × Invocation} (he : e ∈ u.pending) : e ∈ v.pending := by
  obtain ⟨_, h⟩ := h
  exact h.mem he

end

/-! ## Polling a job -/

section

variable {w : World} {id : Nat} {j : Job}

/-- The phase of a job does not concern `pending`. -/
theorem pending_setJob (ht : w.Tidy) (h : (id, j.invocation) ∈ w.pending) (phase : JobPhase) :
    (w.setTask id (.job { j with phase })).pending = w.pending := by
  obtain ⟨k, hk, hsame⟩ := mem_pending.1 h
  rw [pending, ht.jobs_setJob hk, List.map_map, pending]
  apply List.map_congr_left
  intro e he
  by_cases hid : e.1 = id
  · have heq : e = (id, k) := List.inj_on_of_nodup_map ht.nodup_jobs he hk hid
    have hinvocation : Job.invocation { j with phase } = k.invocation := hsame.symm
    simp [heq, hinvocation]
  · simp [hid]

theorem takes_setJob (ht : w.Tidy) (h : (id, j.invocation) ∈ w.pending) (phase : JobPhase) :
    w.Takes (w.setTask id (.job { j with phase })) :=
  ⟨[], .of_same (pending_setJob ht h phase) rfl (fun hc => hc) rfl rfl rfl rfl⟩

theorem takes_sleep (ht : w.Tidy) (h : (id, j.invocation) ∈ w.pending) (ms : Nat)
    (phase : JobPhase) : w.Takes (w.sleep id ms (.job { j with phase })) :=
  ⟨[], .of_same (pending_setJob ht h phase) rfl (fun hc => hc) rfl rfl rfl rfl⟩

/-- `World.wake` accepts no callback. -/
theorem takes_wake (w : World) (id : Nat) : w.Takes (w.wake id) := by
  obtain ⟨_, h⟩ := wake_eq w id
  rw [h]
  exact ⟨[], .of_same rfl rfl (fun hc => hc) rfl rfl rfl rfl⟩

theorem takes_release (ht : w.Tidy) : w.Takes w.release := by
  have hwaiting (free : Nat) (waiting : List Nat) :
      w.Takes { w with executor.free := free, executor.waiting := waiting } :=
    ⟨[], .of_same rfl rfl (fun hc => hc) rfl rfl rfl rfl⟩
  unfold release
  split
  · exact hwaiting _ _
  next id rest _ =>
    dsimp only
    split
    next j hj =>
      have hpending : (id, j.invocation) ∈ w.pending :=
        mem_pending.2 ⟨j, mem_jobs.2 (mem_of_task? hj), rfl⟩
      have hset := takes_setJob (w := { w with executor.waiting := rest })
        ⟨ht.nodup, ht.fresh, ht.pinger⟩ hpending .granted
      exact ((hwaiting w.executor.free rest).trans hset).trans (takes_wake _ _)
    · exact hwaiting w.executor.free rest

theorem takes_endWork (ht : w.Tidy) (h : (id, j.invocation) ∈ w.pending)
    (failure : Option CallbackFailure) : w.Takes (w.endWork id j failure) := by
  have hend {v : World} (g : w.Takes v) (hv : v.Tidy) : w.Takes
      ((v.release.setTask id (.job { j with phase := .returned failure })).wake id) := by
    have hreleased := g.trans (takes_release hv)
    exact (hreleased.trans (takes_setJob ((beside_release hv).tidy hv) (hreleased.mem h) _)).trans
      (takes_wake _ _)
  unfold endWork
  dsimp only
  split
  · exact hend (gains_logJob w _).takes ((beside_logJob w _).tidy ht)
  · exact hend (Gains.refl w).takes ht

/-- A job whose deed is performed on a worker releases the worker or waits for an answer, and stays
pending. -/
theorem takes_deed {u : World} (g : w.Takes u) (hu : u.Tidy)
    (h : (id, j.invocation) ∈ w.pending) : w.Takes (match (u.deliver j).perform j with
      | (w, .now failure) => w.endWork id j failure
      | (w, .later call ms) => w.sleep id ms (.job { j with phase := .asking call })) := by
  have hcalled := g.trans ((gains_deliver u j).trans (gains_perform _ j)).takes
  have htidy := (beside_perform _ j).tidy ((beside_deliver u j).tidy hu)
  split
  next heq =>
    rw [heq] at hcalled htidy
    exact hcalled.trans (takes_endWork htidy (hcalled.mem h) _)
  next heq =>
    rw [heq] at hcalled htidy
    exact hcalled.trans (takes_sleep htidy (hcalled.mem h) _ _)

/-- A job that has got a worker stays pending. -/
theorem takes_work (ht : w.Tidy) (h : (id, j.invocation) ∈ w.pending) :
    w.Takes (w.work id j) := by
  unfold work
  rcases Decidable.em (w.executor.slowStart.nanos < instantSpan.nanos) with hslow | hslow
  · simp only [if_pos hslow]
    exact takes_deed (gains_logJob w _).takes ((beside_logJob w _).tidy ht) h
  · simp only [if_neg hslow]
    exact takes_deed (Gains.refl w).takes ht h

theorem gains_of_concludes {v : World} {failure : Option CallbackFailure}
    (h : j.Concludes w v failure) : w.Gains v := by
  cases h with
  | returned => exact .refl w
  | woken hp h => exact gains_of_perform h
  | atOnce hp ha hd h => exact (gains_deliver w j).trans (gains_of_perform h)
  | answered => exact gains_finishCall w _

theorem beside_of_concludes {v : World} {failure : Option CallbackFailure}
    (h : j.Concludes w v failure) : Beside [] w v := by
  cases h with
  | returned => exact .refl w
  | woken hp h => simpa only [h] using beside_perform w j
  | atOnce hp ha hd h =>
    have hperform := beside_perform (w.deliver j) j
    rw [h] at hperform
    exact (beside_deliver w j).andThen hperform
  | answered => exact beside_finishCall w _

theorem act_cases (w : World) (id : Nat) (j : Job) :
    (∃ v failure, w.perform j = (v, .now failure) ∧ w.act id j = v.endJob id j failure) ∨
      ∃ v call ms, w.perform j = (v, .later call ms) ∧
        w.act id j = v.sleep id ms (.job { j with phase := .asking call }) := by
  unfold act
  split
  next heq => exact .inl ⟨_, _, heq, rfl⟩
  next heq => exact .inr ⟨_, _, _, heq, rfl⟩

/-- A job that is polled stays pending, or its deed is done and it ends. -/
theorem pollJob_cases (ht : w.Tidy) (h : (id, j) ∈ w.jobs) : w.Takes (w.pollJob id j) ∨
    ∃ v failure, j.Concludes w v failure ∧ w.pollJob id j = v.endJob id j failure := by
  have hmem : (id, j.invocation) ∈ w.pending := mem_pending.2 ⟨j, h, rfl⟩
  have hfree (free : Nat) (waiting : List Nat) :
      w.Takes { w with executor.free := free, executor.waiting := waiting } :=
    ⟨[], .of_same rfl rfl (fun hc => hc) rfl rfl rfl rfl⟩
  have hlater {u v : World} {call : Call} (hu : w.Takes u) (hut : u.Tidy) (ms : Nat)
      (heq : u.perform j = (v, .later call ms)) :
      w.Takes (v.sleep id ms (.job { j with phase := .asking call })) := by
    have hcalled := hu.trans (gains_of_perform heq).takes
    have htidy := (beside_perform u j).tidy hut
    rw [heq] at htidy
    exact hcalled.trans (takes_sleep htidy (hcalled.mem hmem) ms _)
  unfold pollJob
  cases hp : j.phase with
  | submitted =>
    have hcalled := (gains_deliver w j).takes
    have htidy := (beside_deliver w j).tidy ht
    by_cases ha : j.callback.isAsync
    · simp only [if_pos ha]
      by_cases hd : j.callback.delayMs = 0
      · simp only [if_pos hd]
        rcases act_cases (w.deliver j) id j with ⟨v, failure, heq, hact⟩ | ⟨v, call, ms, heq, hact⟩
        · exact .inr ⟨v, failure, .atOnce hp ha hd heq, hact⟩
        · exact .inl (hact ▸ hlater hcalled htidy ms heq)
      · simp only [if_neg hd]
        exact .inl (hcalled.trans (takes_sleep htidy (hcalled.mem hmem) _ _))
    · simp only [if_neg ha]
      split
      · exact .inl ((hfree w.executor.free _).trans (takes_setJob (w := { w with
          executor.waiting := w.executor.waiting ++ [id] }) ⟨ht.nodup, ht.fresh, ht.pinger⟩ hmem _))
      · exact .inl ((hfree _ w.executor.waiting).trans (takes_work (w := { w with
          executor.free := w.executor.free - 1 }) ⟨ht.nodup, ht.fresh, ht.pinger⟩ hmem))
  | waiting => exact .inl (Gains.refl w).takes
  | granted => exact .inl (takes_work ht hmem)
  | sleeping =>
    rcases act_cases w id j with ⟨v, failure, heq, hact⟩ | ⟨v, call, ms, heq, hact⟩
    · exact .inr ⟨v, failure, .woken hp heq, hact⟩
    · exact .inl (by dsimp only; rw [hact]; exact hlater (Gains.refl w).takes ht ms heq)
  | asking call =>
    dsimp only
    split
    next ha => exact .inr ⟨_, _, .answered hp ha, rfl⟩
    · have hfinish := (gains_finishCall w call).takes
      exact .inl (hfinish.trans
        (takes_endWork ((beside_finishCall w call).tidy ht) (hfinish.mem hmem) _))
  | returned failure => exact .inr ⟨w, failure, .returned hp, rfl⟩

/-! ## A job that ends -/

/-- Submits the failure of `j`, if there is one. -/
def report (w : World) (j : Job) : Option CallbackFailure → World
  | some f => w.reportFailure j f
  | none => w

/-- Removes the job `id` and decreases `executor.inFlight`. -/
def discharge (w : World) (id : Nat) : World :=
  { w with executor.inFlight := w.executor.inFlight - 1 }.endTask id

/-- `World.endJob` is `World.report`, then `World.discharge`. -/
theorem endJob_eq (w : World) (id : Nat) (j : Job) (failure : Option CallbackFailure) :
    w.endJob id j failure = (w.report j failure).discharge id := by
  cases failure <;> rfl

theorem pending_discharge (w : World) (id : Nat) :
    (w.discharge id).pending = w.pending.filter (·.1 ≠ id) := by
  rw [pending, discharge, jobs_endTask, pending, List.filter_map]
  rfl

theorem Pinned.discharge (h : w.Pinned) (id : Nat) : (w.discharge id).Pinned := by
  have hless : Pinned { w with executor.inFlight := w.executor.inFlight - 1 } :=
    ⟨h.given, h.supervisor, h.attempt, h.reader, h.pinger⟩
  exact hless.endTask id

theorem gains_report (w : World) (j : Job) (failure : Option CallbackFailure) :
    w.Gains (w.report j failure) := by
  cases failure with
  | none => exact .refl w
  | some f => exact gains_reportFailure w j f

theorem beside_report (w : World) (j : Job) (failure : Option CallbackFailure) :
    Beside [] w (w.report j failure) := by
  cases failure with
  | none => exact .refl w
  | some f => exact beside_reportFailure w j f

/-- Reporting a failure accepts the callbacks of `Registry.fallout`. -/
theorem pending_report (w : World) (j : Job) (failure : Option CallbackFailure) :
    (w.report j failure).pending.Perm
      (w.pending ++ numbered w.nextTask (w.hearing.fallout j.event failure)) := by
  cases failure with
  | none =>
    have hnone : w.hearing.fallout j.event none = [] := rfl
    simp [report, numbered, hnone]
  | some f =>
    obtain ⟨others, hold, hnew⟩ := (shifts_reportFailure w j f).jobs
    have hold := hold.map fun e => (e.1, e.2.invocation)
    have hnew := hnew.map fun e => (e.1, e.2.invocation)
    rw [List.map_append, pending_submitted] at hnew
    exact (hnew.trans List.perm_append_comm).trans (hold.symm.append_right _)

end

/-! ## Occurrences -/

section

variable {w : World} {o : Occurrence} {id : Nat} {i : Invocation}

/-- `executor.inFlight` is the number of pending callbacks. -/
structure Counted (w : World) : Prop where
  tidy : w.Tidy
  pinned : w.Pinned
  inFlight : w.executor.inFlight = w.pending.length

/-- At `o` callbacks are accepted, and at most one finishes. -/
inductive Passes (w : World) (o : Occurrence) : Prop where
  | takes (h : w.Takes (w.undergo o))
  | ends {id : Nat} {j : Job} {v : World} {failure : Option CallbackFailure} (ho : o = .go id)
      (hj : (id, j) ∈ w.jobs) (hc : j.Concludes w v failure)
      (heq : w.undergo o = v.endJob id j failure)

/-- The callbacks accepted at an occurrence. -/
def accepts (w : World) (o : Occurrence) : List (Nat × Invocation) :=
  (w.undergo o).pending.filter (w.nextTask ≤ ·.1)

/-- The callbacks finished at an occurrence. -/
def finishes (w : World) (o : Occurrence) : List (Nat × Invocation) :=
  w.pending.filter (·.1 ∉ (w.undergo o).pending.map Prod.fst)

/-- The callbacks accepted on a course, in order. -/
def accepted (w : World) : List Occurrence → List (Nat × Invocation)
  | [] => []
  | o :: os => w.accepts o ++ (w.undergo o).accepted os

/-- The callbacks finished on a course, in order. -/
def finished (w : World) : List Occurrence → List (Nat × Invocation)
  | [] => []
  | o :: os => w.finishes o ++ (w.undergo o).finished os

theorem fire_eq (w : World) (time : Nat) : ∃ ready, w.fire time = { w with
    clock := time, timers := w.timers.filter (·.1 ≠ time), ready } := by
  have hwakes (ids : List Nat) (v : World) : ∃ ready, ids.foldl wake v = { v with ready } := by
    induction ids generalizing v with
    | nil => exact ⟨_, rfl⟩
    | cons id ids ih =>
      obtain ⟨_, hid⟩ := wake_eq v id
      obtain ⟨ready, hrest⟩ := ih (v.wake id)
      exact ⟨ready, by rw [List.foldl_cons, hrest, hid]⟩
  exact hwakes _ _

theorem takes_enter (ht : w.Tidy) (s : Step) : w.Takes (w.enter s) := by
  cases hs : s.isPublic with
  | false => exact (gains_enter ht hs).takes
  | true =>
    have hclosed := closed_undergo w (.step s)
    obtain ⟨registry, closed, heq⟩ := undergo_of_isPublic (o := .step s) w hs
    rw [show w.undergo (.step s) = w.enter s from rfl] at hclosed heq
    have hkeeps (hc : w.executor.closed) : (w.enter s).executor.closed := by simp [hclosed, hc]
    rw [heq] at hkeeps ⊢
    exact ⟨[], .of_same rfl rfl hkeeps rfl rfl rfl rfl⟩

theorem passes_undergo (h : w.Counted) (o : Occurrence) : w.Passes o := by
  have hsame {v : World} (ht : v.tasks = w.tasks) (hx : v.executor = w.executor)
      (hn : v.nextTask = w.nextTask) (ha : v.attempt = w.attempt) (hr : v.reader = w.reader)
      (hp : v.pinger = w.pinger) : w.Takes v :=
    ⟨[], .of_same (by rw [pending, jobs, ht]; rfl) (by rw [hx]) (fun hc => hx ▸ hc) hn ha hr hp⟩
  cases o with
  | go id =>
    by_cases hid : id = supervisorId
    · subst hid
      exact .takes (undergo_supervisor w ▸ (gains_takeCommand h.pinned).takes)
    · have hpoll : w.undergo (.go id) = w.poll id := if_neg hid
      by_cases hjob : id ∈ w.jobs.map Prod.fst
      · obtain ⟨⟨n, j⟩, hj, hn⟩ := List.mem_map.1 hjob
        obtain rfl : n = id := hn
        have hturn := h.tidy.poll_eq hj hid
        rcases pollJob_cases h.tidy hj with hstays | ⟨v, failure, hc, hend⟩
        · exact .takes (by rwa [hpoll, hturn])
        · exact .ends rfl hj hc (by rw [hpoll, hturn, hend])
      · exact .takes (hpoll ▸ (gains_poll h.tidy hid hjob).takes)
  | answer call => exact .takes (gains_finishCall w call).takes
  | fire time =>
    obtain ⟨_, hfire⟩ := fire_eq w time
    exact .takes (hsame (v := w.fire time) (by rw [hfire]) (by rw [hfire]) (by rw [hfire])
      (by rw [hfire]) (by rw [hfire]) (by rw [hfire]))
  | step s => exact .takes (takes_enter h.tidy s)
  | clock | order | note => exact .takes (hsame rfl rfl rfl rfl rfl rfl)

theorem Counted.lt_of_mem (h : w.Counted) {e : Nat × Invocation} (he : e ∈ w.pending) :
    e.1 < w.nextTask :=
  h.pinned.given _ (map_fst_pending w ▸ List.mem_map_of_mem he)

theorem Counted.nodup (h : w.Counted) : (w.pending.map Prod.fst).Nodup := by
  rw [map_fst_pending]
  exact h.tidy.nodup_jobs

theorem Counted.enters (h : w.Counted) {v : World} {more : List (Nat × Invocation)}
    (g : Enters more w v) (ht : v.Tidy) : v.Counted := by
  refine ⟨ht, g.pinned h.pinned, ?_⟩
  rw [g.inFlight, g.pending, List.length_append, h.inFlight]

/-- `accepts` are the callbacks that `Enters` adds, since their numbers are new. -/
theorem Counted.accepts_of_enters (h : w.Counted) {v : World} {more : List (Nat × Invocation)}
    (g : Enters more w v) : v.pending.filter (w.nextTask ≤ ·.1) = more := by
  have hold : w.pending.filter (w.nextTask ≤ ·.1) = [] := by
    apply List.filter_eq_nil_iff.2
    intro e he
    simpa using h.lt_of_mem he
  have hnew : more.filter (w.nextTask ≤ ·.1) = more := by
    apply List.filter_eq_self.2
    intro e he
    simpa using g.number e he
  rw [g.pending, List.filter_append, hold, hnew, List.nil_append]

/-- An occurrence that only adds pending callbacks accepts these and finishes none. -/
theorem Counted.of_enters (h : w.Counted) {more : List (Nat × Invocation)}
    (g : Enters more w (w.undergo o)) : w.accepts o = more ∧ w.finishes o = [] := by
  refine ⟨h.accepts_of_enters g, List.filter_eq_nil_iff.2 fun e he => ?_⟩
  simpa only [decide_not, Bool.not_eq_true', decide_eq_false_iff_not, not_not] using
    List.mem_map_of_mem (g.mem he)

/-- An occurrence that ends the job `id` finishes its callback only. -/
theorem Counted.of_ends (h : w.Counted) {u : World} {more : List (Nat × Invocation)}
    (g : Enters more w u) (hi : (id, i) ∈ w.pending)
    (heq : (w.undergo o).pending = u.pending.filter (·.1 ≠ id)) :
    w.accepts o = more ∧ w.finishes o = [(id, i)] := by
  have hlt := h.lt_of_mem hi
  constructor
  · rw [accepts, heq, List.filter_comm, h.accepts_of_enters g]
    apply List.filter_eq_self.2
    intro e he
    have hle := g.number e he
    simp only [decide_not, Bool.not_eq_true', decide_eq_false_iff_not]
    omega
  · have hgone (e : Nat × Invocation) (he : e ∈ w.pending) :
        e.1 ∉ (w.undergo o).pending.map Prod.fst ↔ e.1 = id := by
      rw [heq]
      constructor
      · intro hn
        by_contra hne
        exact hn (List.mem_map_of_mem (List.mem_filter.2 ⟨g.mem he, by simpa using hne⟩))
      · rintro rfl hm
        obtain ⟨e', he', hsame⟩ := List.mem_map.1 hm
        simp [hsame] at he'
    have hfilter : w.finishes o = w.pending.filter (·.1 = id) := by
      apply List.filter_congr
      intro e he
      exact decide_eq_decide.2 (hgone e he)
    rw [hfilter]
    exact filter_eq_singleton h.nodup hi

/-- In `v.report j failure` the job is still pending, and `executor.inFlight` counts it beside the
callbacks that its failure is submitted to. -/
theorem Counted.report (h : w.Counted) {j : Job} {v : World} {failure : Option CallbackFailure}
    (hj : (id, j) ∈ w.jobs) (hc : j.Concludes w v failure) :
    (v.report j failure).Counted ∧ (id, j.invocation) ∈ (v.report j failure).pending := by
  obtain ⟨more, g⟩ := ((gains_of_concludes hc).trans (gains_report v j failure)).takes
  have htidy := (beside_report v j failure).tidy ((beside_of_concludes hc).tidy h.tidy)
  have hmem : (id, j.invocation) ∈ w.pending := mem_pending.2 ⟨j, hj, rfl⟩
  exact ⟨h.enters g htidy, g.mem hmem⟩

/-- The callbacks pending before an occurrence and accepted at it are those pending after it and
finished at it. -/
theorem Counted.balance (h : w.Counted) (o : Occurrence) : (w.undergo o).Counted ∧
    ((w.undergo o).pending ++ w.finishes o).Perm (w.pending ++ w.accepts o) ∧
    w.nextTask ≤ (w.undergo o).nextTask ∧ (w.executor.closed → w.accepts o = []) := by
  have htidy := (run_undergo h.tidy o).tidy h.tidy
  cases passes_undergo h o with
  | takes g =>
    obtain ⟨more, g⟩ := g
    obtain ⟨haccepts, hfinishes⟩ := h.of_enters g
    rw [haccepts, hfinishes, List.append_nil, g.pending]
    exact ⟨h.enters g htidy, .refl _, g.nextTask, fun hc => (g.closed hc).2⟩
  | @ends id j v failure ho hj hc heq =>
    obtain ⟨more, g⟩ := ((gains_of_concludes hc).trans (gains_report v j failure)).takes
    obtain ⟨hcounted, hmem⟩ := h.report hj hc
    rw [endJob_eq] at heq
    have hpending : (w.undergo o).pending = (v.report j failure).pending.filter (·.1 ≠ id) := by
      rw [heq, pending_discharge]
    obtain ⟨haccepts, hfinishes⟩ := h.of_ends g (mem_pending.2 ⟨j, hj, rfl⟩) hpending
    have hperm := perm_cons_filter hcounted.nodup hmem
    rw [haccepts, hfinishes, hpending]
    refine ⟨⟨htidy, ?_, ?_⟩, ?_, ?_, fun hclosed => (g.closed hclosed).2⟩
    · rw [heq]
      exact hcounted.pinned.discharge id
    · have hlength := hperm.length_eq
      have hflight := hcounted.inFlight
      rw [hpending, heq]
      simp only [discharge, endTask, List.length_cons] at hlength ⊢
      omega
    · rw [← g.pending]
      exact List.perm_append_comm.trans hperm.symm
    · rw [heq]
      exact g.nextTask

/-- A callback finishes at a poll of its job, when its deed is done. -/
theorem Counted.of_mem_finishes (h : w.Counted) (he : (id, i) ∈ w.finishes o) :
    o = .go id ∧ ∃ j v failure, (id, j) ∈ w.jobs ∧ j.invocation = i ∧ j.Concludes w v failure ∧
      w.undergo o = v.endJob id j failure := by
  cases passes_undergo h o with
  | takes g =>
    obtain ⟨more, g⟩ := g
    simp [(h.of_enters g).2] at he
  | @ends n j v failure ho hj hc heq =>
    obtain ⟨more, g⟩ := ((gains_of_concludes hc).trans (gains_report v j failure)).takes
    have hpending : (w.undergo o).pending = (v.report j failure).pending.filter (·.1 ≠ n) := by
      rw [heq, endJob_eq, pending_discharge]
    rw [(h.of_ends g (mem_pending.2 ⟨j, hj, rfl⟩) hpending).2] at he
    obtain ⟨rfl, rfl⟩ := Prod.mk.inj (List.mem_singleton.1 he)
    exact ⟨ho, j, v, failure, hj, rfl, hc, heq⟩

/-! ## Courses -/

/-- The callbacks accepted on a course are those that are pending or have finished. -/
theorem Counted.course (h : w.Counted) (os : List Occurrence) : (w.course os).Counted ∧
    ((w.course os).pending ++ w.finished os).Perm (w.pending ++ w.accepted os) := by
  induction os generalizing w with
  | nil => exact ⟨h, .refl _⟩
  | cons o os ih =>
    obtain ⟨hcounted, hfirst, -⟩ := h.balance o
    obtain ⟨hlast, hrest⟩ := ih hcounted
    refine ⟨hlast, ?_⟩
    calc ((w.undergo o).course os).pending ++ (w.finishes o ++ (w.undergo o).finished os)
      _ ~ w.finishes o ++ (((w.undergo o).course os).pending ++ (w.undergo o).finished os) := by
        rw [← List.append_assoc, ← List.append_assoc]
        exact List.perm_append_comm.append_right _
      _ ~ w.finishes o ++ ((w.undergo o).pending ++ (w.undergo o).accepted os) :=
        hrest.append_left _
      _ ~ ((w.undergo o).pending ++ w.finishes o) ++ (w.undergo o).accepted os := by
        rw [← List.append_assoc]
        exact List.perm_append_comm.append_right _
      _ ~ w.pending ++ (w.accepts o ++ (w.undergo o).accepted os) := by
        rw [← List.append_assoc]
        exact hfirst.append_right _

/-- The accepted callbacks have distinct numbers. -/
theorem Counted.nodup_accepted (h : w.Counted) (os : List Occurrence) :
    ((w.accepted os).map Prod.fst).Nodup ∧ ∀ e ∈ w.accepted os, w.nextTask ≤ e.1 := by
  induction os generalizing w with
  | nil => exact ⟨List.nodup_nil, List.forall_mem_nil _⟩
  | cons o os ih =>
    obtain ⟨hcounted, -, hnext, -⟩ := h.balance o
    obtain ⟨hnodup, hle⟩ := ih hcounted
    have hfirst : ((w.accepts o).map Prod.fst).Nodup := nodup_filter hcounted.nodup _
    rw [accepted, List.map_append]
    refine ⟨hfirst.append hnodup ?_, ?_⟩
    · intro n hn hn'
      obtain ⟨e, he, rfl⟩ := List.mem_map.1 hn
      obtain ⟨e', he', hsame⟩ := List.mem_map.1 hn'
      have hlt := hcounted.lt_of_mem (List.mem_of_mem_filter he)
      have hge := hle e' he'
      omega
    · intro e he
      rcases List.mem_append.1 he with he | he
      · simpa using (List.mem_filter.1 he).2
      · exact Nat.le_trans hnext (hle e he)

end

end World

end PeerLink.Bridge
