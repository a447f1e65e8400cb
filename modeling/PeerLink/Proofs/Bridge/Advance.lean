import PeerLink.Proofs.Bridge.Accounts
import PeerLink.Proofs.Bridge.Workers
/-!
# One poll of a job

`World.pollJob` consists of operations that leave tasks and workers alone, such as requests and
records of calls, and of one change of the job. The former are collected in `World.Keeps`, and the
latter is a case of `World.Work` from the world `World.primed`. `World.Settles` says what this does
to `ready` and `timers`.

## Main definitions

* `World.Keeps`: callbacks are called; tasks, timers, executor and registry stay.
* `World.Settles`: `ready` and `timers` after jobs have been added.
* `World.Advances`: the jobs, the executor and the schedule after one poll of a job.

## Main statements

* `World.advances_pollJob`: `World.pollJob` advances from `World.primed`.
-/

namespace PeerLink.Bridge

open Connection

/-- Whether `j` stands in `ready` between two polls. -/
def Job.isActive (j : Job) : Bool :=
  match j.phase with
  | .submitted | .granted | .returned _ => true
  | _ => false

/-- Whether `j` has an entry in `timers` between two polls. -/
def Job.isTimed (j : Job) : Bool :=
  match j.phase with
  | .sleeping | .asking _ => true
  | _ => false

/-- The errand of a task, if it is one. -/
def Task.errand? : Task → Option Errand
  | errand t => some t
  | _ => none

namespace World

variable {w w' : World} {id : Nat} {j : Job} {gone come : List (Nat × Job)} {executor : Executor}

/-- The requests whose callers do not wait, with their numbers. -/
def errands (w : World) : List (Nat × Errand) := pick Task.errand? w.tasks

theorem mem_errands {t : Errand} : (id, t) ∈ w.errands ↔ (id, .errand t) ∈ w.tasks := by
  simp only [errands, mem_pick]
  constructor
  · rintro ⟨u, hm, hu⟩
    cases u <;> simp_all [Task.errand?]
  · intro h
    exact ⟨_, h, rfl⟩

theorem Tidy.not_errand (ht : w.Tidy) (h : (id, j) ∈ w.jobs) : id ∉ w.errands.map Prod.fst := by
  intro hid
  obtain ⟨⟨_, t⟩, he, rfl⟩ := List.mem_map.1 hid
  cases ht.eq_of_mem (mem_errands.1 he) (mem_jobs.1 h)

/-! ## Operations that leave tasks alone -/

/-- From `w` to `v` the callbacks `calls` are called, and nothing else changes that a job depends
on. If `told`, the supervisor has been woken. -/
structure Keeps (calls : List Invocation) (told : Bool) (w v : World) : Prop where
  tasks : v.tasks = w.tasks
  nextTask : v.nextTask = w.nextTask
  clock : v.clock = w.clock
  timers : v.timers = w.timers
  executor : v.executor = w.executor
  registry : v.registry = w.registry
  pinger : v.pinger = w.pinger
  delivered : v.trace.delivered = w.trace.delivered ++ calls.filterMap Invocation.record?
  ready : ∀ n, n ∈ v.ready ↔ n ∈ w.ready ∨ told ∧ n = supervisorId
  nodup : w.ready.Nodup → v.ready.Nodup

namespace Keeps

variable {a b : List Invocation} {told told' : Bool} {u v : World}

theorem of_eq (ht : v.tasks = u.tasks) (hn : v.nextTask = u.nextTask) (hc : v.clock = u.clock)
    (hs : v.timers = u.timers) (hx : v.executor = u.executor) (hr : v.registry = u.registry)
    (hp : v.pinger = u.pinger)
    (hd : v.trace.delivered = u.trace.delivered ++ a.filterMap Invocation.record?)
    (hready : v.ready = u.ready) : Keeps a false u v :=
  ⟨ht, hn, hc, hs, hx, hr, hp, hd, fun _ => by simp [hready], fun h => hready ▸ h⟩

theorem refl (u : World) : Keeps [] false u u :=
  of_eq rfl rfl rfl rfl rfl rfl rfl (List.append_nil _).symm rfl

theorem trans (h : Keeps a told u v) (g : Keeps b told' v w) :
    Keeps (a ++ b) (told || told') u w where
  tasks := g.tasks.trans h.tasks
  nextTask := g.nextTask.trans h.nextTask
  clock := g.clock.trans h.clock
  timers := g.timers.trans h.timers
  executor := g.executor.trans h.executor
  registry := g.registry.trans h.registry
  pinger := g.pinger.trans h.pinger
  delivered := by rw [g.delivered, h.delivered, List.filterMap_append, List.append_assoc]
  ready n := by
    rw [g.ready, h.ready, Bool.or_eq_true]
    tauto
  nodup hu := g.nodup (h.nodup hu)

theorem jobs (h : Keeps a told u v) : v.jobs = u.jobs := by rw [World.jobs, h.tasks, World.jobs]

theorem hearing (h : Keeps a told u v) : v.hearing = u.hearing := by
  rw [World.hearing, h.executor, h.registry, World.hearing]

theorem errands (h : Keeps a told u v) : v.errands = u.errands := by
  rw [World.errands, h.tasks, World.errands]

theorem tidy (h : Keeps a told u v) (hu : u.Tidy) : v.Tidy where
  nodup := h.tasks ▸ hu.nodup
  fresh := h.nextTask ▸ h.tasks ▸ hu.fresh
  pinger id hid := by
    obtain ⟨hlt, hspare⟩ := hu.pinger id (h.pinger ▸ hid)
    rw [h.nextTask, Spare, attempts, readers, h.tasks]
    exact ⟨hlt, hspare⟩

theorem shifts (h : Keeps a told u v) : Shifts a [] [] u.executor u v :=
  .of_eq h.registry h.executor h.delivered h.nextTask h.tasks

theorem andThen (h : Keeps a told u v) (g : Shifts b gone come executor v w) :
    Shifts (a ++ b) gone come executor u w :=
  h.shifts.after g

end Keeps

theorem keeps_wake_supervisor (w : World) : Keeps [] true w (w.wake supervisorId) := by
  have hready (n : Nat) : n ∈ (w.wake supervisorId).ready ↔
      n ∈ w.ready ∨ true ∧ n = supervisorId := by simp [mem_wake]
  unfold wake at hready ⊢
  split at hready
  next h =>
    rw [if_pos h]
    exact ⟨rfl, rfl, rfl, rfl, rfl, rfl, rfl, by simp, hready, fun hnodup => hnodup⟩
  next h =>
    have hnot : supervisorId ∉ w.ready := by simpa using h
    rw [if_neg h]
    refine ⟨rfl, rfl, rfl, rfl, rfl, rfl, rfl, by simp, hready, fun hnodup => ?_⟩
    exact hnodup.append (List.nodup_singleton _) (by simpa using hnot)

theorem keeps_send (w : World) (c : Command) : ∃ told, Keeps [] told w (w.send c).1 := by
  unfold send
  split
  · have hqueued : Keeps [] false w { w with commands := w.commands ++ [c] } :=
      .of_eq rfl rfl rfl rfl rfl rfl rfl (by simp) rfl
    exact ⟨_, hqueued.trans (keeps_wake_supervisor _)⟩
  · exact ⟨_, .refl w⟩

theorem keeps_log (w : World) (l : LogLine) : Keeps [] false w (w.log l) :=
  .of_eq rfl rfl rfl rfl rfl rfl rfl (by simp [log]) rfl

theorem keeps_logJob (w : World) (l : LogLine) : Keeps [] false w (w.logJob l) :=
  .of_eq rfl rfl rfl rfl rfl rfl rfl (by simp [logJob]) rfl

theorem keeps_finishCall (w : World) (call : Call) :
    ∃ told, Keeps [] told w (w.finishCall call).1 := by
  have hlost (reason : String) := keeps_send w (.setOffline (some call.epoch) reason)
  unfold finishCall
  rcases call.request.conclude call.answer with ⟨_, _ | reason, _ | text⟩
  · exact ⟨_, .refl w⟩
  · exact ⟨_, keeps_log w _⟩
  · exact hlost reason
  · obtain ⟨told, hsent⟩ := hlost reason
    exact ⟨_, hsent.trans (keeps_log _ _)⟩

theorem keeps_begin (w : World) (r : Request) : ∃ told, Keeps [] told w (w.begin r).1 := by
  unfold begin
  split
  · exact ⟨_, .refl w⟩
  · exact ⟨_, .refl w⟩
  · dsimp only
    have h (out : Transport.Outgoing) :
        Keeps [] false w ({ w with script := (w.script.respond out).2 }.observe out) :=
      .of_eq rfl rfl rfl rfl rfl rfl rfl (by simp [observe]) rfl
    split
    · obtain ⟨told, hfinish⟩ := keeps_finishCall _ _
      exact ⟨_, (h _).trans hfinish⟩
    · exact ⟨_, h _⟩

theorem keeps_deliver (w : World) (j : Job) :
    Keeps [(j.callback, j.event)] false w (w.deliver j) := by
  rw [deliver_eq]
  exact .of_eq rfl rfl rfl rfl rfl rfl rfl rfl rfl

theorem published_deliver (w : World) (j : Job) :
    (w.deliver j).published j = (w.published j).deliver j := by
  unfold published
  split
  · rw [publish_eq, publish_eq, deliver_eq, deliver_eq]
    rfl
  · rfl

theorem published_logJob (w : World) (j : Job) (l : LogLine) :
    (w.logJob l).published j = (w.published j).logJob l := by
  unfold published
  split
  · rw [publish_eq, publish_eq]
    rfl
  · rfl

theorem published_occupy (w : World) (j : Job) :
    published { w with executor.free := w.executor.free - 1 } j =
      { w.published j with executor.free := (w.published j).executor.free - 1 } := by
  unfold published
  split
  · rw [publish_eq, publish_eq]
    rfl
  · rfl

/-- After its event is published, a deed is done, or it waits for the answer to a request. Only a
request wakes the supervisor. -/
theorem keeps_perform (w : World) (j : Job) : ∃ v told, Keeps [] told (w.published j) v ∧
    (j.callback.deed.isPlain → told = false) ∧
    ((∃ failure, j.callback.MayFail failure ∧ w.perform j = (v, .now failure)) ∨
      j.callback.deed.isPlain = false ∧ ∃ call ms, w.perform j = (v, .later call ms)) := by
  cases h : j.callback.deed with
  | publish topic e =>
    refine ⟨w.published j, false, .refl _, fun _ => rfl, .inl ⟨none, ?_, ?_⟩⟩
    · simp [Callback.MayFail, h, Deed.isPlain]
    · simp [perform, published, h]
  | request r =>
    obtain ⟨told, hkeeps⟩ := keeps_begin w r
    have hmay (failure : Option CallbackFailure) : j.callback.MayFail failure := by
      intro hplain
      simp [h, Deed.isPlain] at hplain
    have htold : (Deed.request r).isPlain → told = false := by simp [Deed.isPlain]
    unfold perform published
    simp only [h]
    split
    all_goals rename_i heq; rw [heq] at hkeeps
    · exact ⟨_, _, hkeeps, htold, .inl ⟨_, hmay _, rfl⟩⟩
    · exact ⟨_, _, hkeeps, htold, .inl ⟨_, hmay _, rfl⟩⟩
    · exact ⟨_, _, hkeeps, htold, .inr ⟨rfl, _, _, rfl⟩⟩
  | echo =>
    refine ⟨{ w with ping := w.ping.take w.now j.event }, false, ?_, fun _ => rfl,
      .inl ⟨none, ?_, ?_⟩⟩
    · rw [published_of_isQuiet (by simp [h, Deed.isQuiet])]
      exact .of_eq rfl rfl rfl rfl rfl rfl rfl (by simp) rfl
    · simp [Callback.MayFail, Callback.failure, h]
    · simp [perform, h]
  | succeed | fail | panic =>
    refine ⟨w, false, ?_, fun _ => rfl, .inl ⟨j.callback.failure, fun _ => rfl, ?_⟩⟩
    · rw [published_of_isQuiet (by simp [h, Deed.isQuiet])]
      exact .refl w
    · simp [perform, Callback.failure, h]

/-- If `executor.waiting` is empty, the worker that a job releases is free. -/
theorem shifts_frees (ht : w.Tidy) (h : (id, j) ∈ w.jobs) (hw : w.executor.waiting = []) (k : Job) :
    Shifts [] [(id, j)] [(id, k)] { w.executor with free := w.executor.free + 1 } w
      (w.release.setTask id (.job k)) := by
  have hset := shifts_setTask ht h k
  simp only [release, hw]
  exact ⟨rfl, by rw [← hw]; rfl, hset.delivered, hset.nextTask, hset.jobs⟩

/-- The worker that a job releases is granted to the head of `executor.waiting`. -/
theorem shifts_yields (ht : w.Tidy) (h : (id, j) ∈ w.jobs) {next : Nat} {rest : List Nat}
    (hw : w.executor.waiting = next :: rest) {m : Job} (hm : (next, m) ∈ w.jobs)
    (hne : id ≠ next) (k : Job) :
    Shifts [] [(id, j), (next, m)] [(id, k), (next, { m with phase := .granted })]
      { w.executor with waiting := rest } w (w.release.setTask id (.job k)) := by
  have htask : task? { w with executor.waiting := rest } next = some (.job m) :=
    ht.task?_of_mem (mem_jobs.1 hm)
  have hsetNext := ht.jobs_setJob hm { m with phase := .granted }
  have htidy : (w.setTask next (.job { m with phase := .granted })).Tidy :=
    (beside_setTask (ht.spare (mem_jobs.1 hm) rfl rfl) rfl rfl).tidy ht
  have hstill : (id, j) ∈ (w.setTask next (.job { m with phase := .granted })).jobs := by
    rw [hsetNext]
    exact List.mem_map.2 ⟨(id, j), h, if_neg hne⟩
  have hset := htidy.jobs_setJob hstill k
  rw [hsetNext] at hset
  obtain ⟨ready, hwake⟩ := wake_eq
    (setTask { w with executor.waiting := rest } next (.job { m with phase := .granted })) next
  simp only [release, hw, htask, hwake]
  refine ⟨rfl, rfl, by simp [setTask], Nat.le_refl _, ?_⟩
  obtain ⟨others, hold, hnew⟩ :=
    perm_set_set ht.nodup_jobs h hm hne k { m with phase := .granted }
  exact ⟨others, hold, hset ▸ hnew⟩

/-! ## The schedule -/

/-- From `w` to `w'` the jobs `come` have been added: the active ones are added to `ready` and the
timed ones to `timers`. If `told`, the supervisor has been woken. -/
structure Settles (come : List (Nat × Job)) (told : Bool) (w w' : World) : Prop where
  clock : w'.clock = w.clock
  orderly : w.Orderly → w'.Orderly
  ready : ∀ n, n ∈ w'.ready ↔
    n ∈ w.ready ∨ (∃ k, (n, k) ∈ come ∧ k.isActive) ∨ told ∧ n = supervisorId
  timers : ∃ ms, (∀ e ∈ come, e.2.phase = .sleeping → ms = e.2.callback.delayMs) ∧
    w'.timers = w.timers ++ (come.filter (·.2.isTimed)).map fun e => (w.clock + ms, e.1)
  errands : w'.errands = w.errands

/-- The number `id` stands neither in `ready` nor in `timers`. -/
structure Unscheduled (w : World) (id : Nat) : Prop where
  task : id ≠ supervisorId
  ready : id ∉ w.ready
  timers : ∀ time, (time, id) ∉ w.timers

theorem Orderly.of_same (h : w.Orderly) (hn : w'.nextTask = w.nextTask) (hr : w'.ready = w.ready)
    (ht : w'.timers = w.timers) (hc : w'.clock = w.clock) : w'.Orderly :=
  ⟨hn ▸ h.first, hr ▸ h.nodup, hn ▸ hr ▸ h.ready, hn ▸ ht ▸ h.timers, hc ▸ ht ▸ h.later⟩

namespace Settles

variable {told : Bool} {v : World}

theorem of_same (h : Settles come told w w') (hc : w.clock = v.clock)
    (hn : w.nextTask = v.nextTask) (hr : w.ready = v.ready) (ht : w.timers = v.timers)
    (he : w.tasks = v.tasks) : Settles come told v w' where
  clock := h.clock.trans hc
  orderly ho := h.orderly (ho.of_same hn hr ht hc)
  ready := hr ▸ h.ready
  timers := hc ▸ ht ▸ h.timers
  errands := by rw [h.errands, World.errands, he, World.errands]

/-- `timers` stays if none of the jobs `come` is timed. -/
theorem of_untimed (hc : w'.clock = w.clock) (ho : w.Orderly → w'.Orderly)
    (hr : ∀ n, n ∈ w'.ready ↔
      n ∈ w.ready ∨ (∃ k, (n, k) ∈ come ∧ k.isActive) ∨ told ∧ n = supervisorId)
    (ht : w'.timers = w.timers) (he : w'.errands = w.errands)
    (hnone : ∀ e ∈ come, e.2.isTimed = false) : Settles come told w w' := by
  refine ⟨hc, ho, hr, ⟨0, fun e he hs => ?_, ?_⟩, he⟩
  · have htimed := hnone e he
    simp [Job.isTimed, hs] at htimed
  · have hfilter : come.filter (·.2.isTimed) = [] := by
      apply List.filter_eq_nil_iff.2
      intro e he
      simp [hnone e he]
    rw [ht, hfilter, List.map_nil, List.append_nil]

theorem mem_timers (h : Settles come told w w') :
    ∃ ms, (∀ e ∈ come, e.2.phase = .sleeping → ms = e.2.callback.delayMs) ∧
      ∀ n time, (time, n) ∈ w'.timers ↔ (time, n) ∈ w.timers ∨
        ∃ k, (n, k) ∈ come ∧ k.isTimed ∧ time = w.clock + ms := by
  obtain ⟨ms, hms, htimers⟩ := h.timers
  refine ⟨ms, hms, fun n time => ?_⟩
  rw [htimers, List.mem_append, List.mem_map]
  refine or_congr_right ⟨?_, ?_⟩
  · rintro ⟨⟨_, k⟩, hk, heq⟩
    obtain ⟨rfl, rfl⟩ := Prod.mk.inj heq
    obtain ⟨hk, htimed⟩ := List.mem_filter.1 hk
    exact ⟨k, hk, htimed, rfl⟩
  · rintro ⟨k, hk, htimed, rfl⟩
    exact ⟨(n, k), List.mem_filter.2 ⟨hk, htimed⟩, rfl⟩

/-- The schedule of a number that is not among `come` stays. -/
theorem of_not_mem (h : Settles come told w w') {n : Nat} (hn : ∀ k, (n, k) ∉ come)
    (hid : n ≠ supervisorId) : (n ∈ w'.ready ↔ n ∈ w.ready) ∧
      ∀ time, (time, n) ∈ w'.timers ↔ (time, n) ∈ w.timers := by
  obtain ⟨ms, -, htimers⟩ := h.mem_timers
  refine ⟨?_, fun time => ?_⟩
  · rw [h.ready n]
    simp [hn, hid]
  · rw [htimers]
    simp [hn]

end Settles

theorem Keeps.orderly {calls : List Invocation} {told : Bool} (h : Keeps calls told w w')
    (ho : w.Orderly) : w'.Orderly where
  first := h.nextTask ▸ ho.first
  nodup := h.nodup ho.nodup
  ready n hn := by
    rw [h.nextTask]
    rcases (h.ready n).1 hn with hn | ⟨-, rfl⟩
    · exact ho.ready n hn
    · exact ho.first
  timers := h.nextTask ▸ h.timers ▸ ho.timers
  later := h.clock ▸ h.timers ▸ ho.later

theorem Keeps.settles {calls : List Invocation} {told told' : Bool} {v : World}
    (h : Keeps calls told w v) (g : Settles come told' v w') :
    Settles come (told || told') w w' where
  clock := g.clock.trans h.clock
  orderly ho := g.orderly (h.orderly ho)
  ready n := by
    rw [g.ready n, h.ready n]
    grind
  timers := h.clock ▸ h.timers ▸ g.timers
  errands := g.errands.trans h.errands

theorem errands_setJob (hid : id ∉ w.errands.map Prod.fst) (k : Job) :
    (w.setTask id (.job k)).errands = w.errands :=
  pick_set_of_none rfl hid

theorem settles_sleep (ht : w.Tidy) (h : (id, j) ∈ w.jobs) {k : Job} {ms : Nat} (hk : k.isTimed)
    (hms : k.phase = .sleeping → ms = k.callback.delayMs) :
    Settles [(id, k)] false w (w.sleep id ms (.job k)) := by
  have hid : id < w.nextTask := ht.lt_of_mem_jobs h
  have hactive : k.isActive = false := by
    cases hp : k.phase <;> simp_all [Job.isActive, Job.isTimed]
  refine ⟨rfl, fun ho => ⟨ho.first, ho.nodup, ho.ready, ?_, ?_⟩, ?_, ⟨ms, ?_, ?_⟩,
    errands_setJob (ht.not_errand h) k⟩
  · intro e he
    rcases List.mem_append.1 he with he | he
    · exact ho.timers e he
    · exact List.mem_singleton.1 he ▸ hid
  · intro e he
    rcases List.mem_append.1 he with he | he
    · exact ho.later e he
    · exact List.mem_singleton.1 he ▸ Nat.le_add_right _ _
  · simp [sleep, setTask, hactive]
  · simpa using hms
  · simp [sleep, setTask, hk]

/-- The job `id` releases its worker while no job waits for one. -/
theorem settles_frees (ht : w.Tidy) (h : (id, j) ∈ w.jobs) (hw : w.executor.waiting = []) {k : Job}
    (hk : k.isActive) : Settles [(id, k)] false w ((w.release.setTask id (.job k)).wake id) := by
  obtain ⟨ready, hwake⟩ := wake_eq (w.release.setTask id (.job k)) id
  have hrelease : w.release = { w with executor.free := w.executor.free + 1 } := by
    simp only [release, hw]
  refine .of_untimed (by rw [hwake, hrelease]; rfl) (fun ho => ?_) (fun n => ?_)
    (by rw [hwake, hrelease]; rfl) ?_ ?_
  · apply Orderly.wake
    · rw [hrelease]
      exact ho.of_same rfl rfl rfl rfl
    · rw [hrelease]
      exact ht.lt_of_mem_jobs h
  · rw [mem_wake, hrelease]
    simp [setTask, hk]
  · rw [hwake, hrelease]
    exact errands_setJob (ht.not_errand h) k
  · intro e he
    obtain rfl := List.mem_singleton.1 he
    cases hp : k.phase <;> simp_all [Job.isActive, Job.isTimed]

/-- The job `id` passes its worker to `next`, the first job in `executor.waiting`. -/
theorem settles_yields (ht : w.Tidy) (h : (id, j) ∈ w.jobs) {next : Nat} {rest : List Nat} {m : Job}
    (hw : w.executor.waiting = next :: rest) (hm : (next, m) ∈ w.jobs) {k : Job}
    (hk : k.isActive) : Settles [(id, k), (next, { m with phase := .granted })] false w
      ((w.release.setTask id (.job k)).wake id) := by
  have htask : task? { w with executor.waiting := rest } next = some (.job m) :=
    ht.task?_of_mem (mem_jobs.1 hm)
  have hrelease : w.release = (setTask { w with executor.waiting := rest } next
      (.job { m with phase := .granted })).wake next := by
    simp only [release, hw, htask]
  obtain ⟨ready, hwake⟩ := wake_eq (w.release.setTask id (.job k)) id
  obtain ⟨ready', hgranted⟩ := wake_eq
    (setTask { w with executor.waiting := rest } next (.job { m with phase := .granted })) next
  have hmem (n : Nat) : n ∈ w.release.ready ↔ n ∈ w.ready ∨ n = next := by
    rw [hrelease, mem_wake]
    rfl
  refine .of_untimed (by rw [hwake, hrelease, hgranted]; rfl) (fun ho => ?_) (fun n => ?_)
    (by rw [hwake, hrelease, hgranted]; rfl) ?_ ?_
  · have hset : Orderly (setTask { w with executor.waiting := rest } next
        (.job { m with phase := .granted })) := ho.of_same rfl rfl rfl rfl
    have hreleased : w.release.Orderly := hrelease ▸ hset.wake (ht.lt_of_mem_jobs hm)
    have hgiven : (w.release.setTask id (.job k)).Orderly := hreleased.of_same rfl rfl rfl rfl
    apply hgiven.wake
    rw [hrelease, hgranted]
    exact ht.lt_of_mem_jobs h
  · have hcome : (∃ k', (n, k') ∈ [(id, k), (next, { m with phase := .granted })] ∧ k'.isActive) ↔
        n = next ∨ n = id := by
      simp only [List.mem_pair, Prod.mk.injEq]
      constructor
      · rintro ⟨k', ⟨h, -⟩ | ⟨h, -⟩, -⟩
        · exact .inr h
        · exact .inl h
      · rintro (rfl | rfl)
        · exact ⟨_, .inr ⟨rfl, rfl⟩, rfl⟩
        · exact ⟨k, .inl ⟨rfl, rfl⟩, hk⟩
    rw [hcome, mem_wake, show (w.release.setTask id (.job k)).ready = w.release.ready from rfl,
      hmem]
    simp [or_assoc]
  · have hset := errands_setJob (ht.not_errand hm) { m with phase := .granted }
    rw [hwake, hrelease, hgranted, ← hset]
    exact errands_setJob (w := w.setTask next _) (hset ▸ ht.not_errand h) k
  · intro e he
    rcases List.mem_pair.1 he with rfl | rfl
    · cases hp : k.phase <;> simp_all [Job.isActive, Job.isTimed]
    · rfl

theorem map_fst_submitted (next : Nat) (is : List Invocation) :
    (submitted next is).map Prod.fst = List.range' next is.length := by
  rw [← List.zipIdx_map_snd]
  simp [submitted, Function.comp_def]

theorem errands_handedOut (w : World) (ls : List Listener) (e : Event) :
    (w.handedOut ls e).errands = w.errands := by
  -- the tasks that are appended are jobs
  rw [errands, errands, handedOut, pick_append, List.append_right_eq_self, pick,
    List.filterMap_eq_nil_iff]
  rintro _ he
  obtain ⟨_, -, rfl⟩ := List.mem_map.1 he
  rfl

/-- Reporting the failure of `j` adds the jobs it is submitted to at the end of `ready`. -/
theorem report_schedule (w : World) (j : Job) (failure : Option CallbackFailure) :
    (w.report j failure).ready = w.ready ++
        List.range' w.nextTask (w.hearing.fallout j.event failure).length ∧
      (w.report j failure).timers = w.timers ∧ (w.report j failure).clock = w.clock ∧
      (w.report j failure).errands = w.errands := by
  cases failure with
  | none => exact ⟨(List.append_nil _).symm, rfl, rfl, rfl⟩
  | some f =>
    obtain ⟨log, hlog⟩ := foldl_logJob f.traceLines
      (w.logJob (.error ("Error in " ++ f.name ++ ": " ++ f.description)))
    have hheard : hearing { w.logJob (.error ("Error in " ++ f.name ++ ": " ++ f.description)) with
        trace.executorLog := log } = w.hearing := rfl
    unfold report reportFailure Registry.fallout
    dsimp only
    rw [hlog]
    split
    · exact ⟨(List.append_nil _).symm, rfl, rfl, rfl⟩
    · rw [publish_eq, hheard, errands_handedOut]
      simp [handedOut, Registry.audience, logJob, errands]

/-- A job that ends is replaced by the jobs that its failure is submitted to. -/
theorem settles_endJob (ht : w.Tidy) (h : (id, j) ∈ w.jobs) (hu : w.Unscheduled id)
    (failure : Option CallbackFailure) :
    Settles (submitted w.nextTask (w.hearing.fallout j.event failure)) false w
      (w.endJob id j failure) := by
  have hid : id < w.nextTask := ht.lt_of_mem_jobs h
  obtain ⟨hready, htimers, hclock, herrands⟩ := report_schedule w j failure
  have hphase {e : Nat × Job}
      (he : e ∈ submitted w.nextTask (w.hearing.fallout j.event failure)) :
      e.2.phase = .submitted := phase_of_mem_submitted he
  rw [endJob_eq]
  refine .of_untimed hclock (fun ho => ?_) (fun n => ?_) ?_ ?_ ?_
  · obtain ⟨_, h⟩ := gains_report w j failure
    have hreported := (h.orderly ho).endTask id
    exact hreported.of_same rfl rfl rfl rfl
  · have hcome : (∃ k, (n, k) ∈ submitted w.nextTask (w.hearing.fallout j.event failure) ∧
        k.isActive) ↔ n ∈ List.range' w.nextTask (w.hearing.fallout j.event failure).length := by
      rw [← map_fst_submitted, List.mem_map]
      constructor
      · rintro ⟨k, hk, -⟩
        exact ⟨_, hk, rfl⟩
      · rintro ⟨⟨_, k⟩, hk, rfl⟩
        have hsubmitted : k.phase = .submitted := hphase hk
        exact ⟨k, hk, by simp [Job.isActive, hsubmitted]⟩
    rw [hcome]
    simp only [discharge, endTask, hready, List.mem_filter, List.mem_append, decide_not,
      Bool.not_eq_true', decide_eq_false_iff_not, Bool.false_eq_true, false_and, or_false,
      and_iff_left_iff_imp]
    rintro (hn | hn) rfl
    · exact hu.ready hn
    · exact absurd (List.mem_range'_1.1 hn).1 (Nat.not_le.2 hid)
  · simp only [discharge, endTask, htimers]
    apply List.filter_eq_self.2
    rintro ⟨time, n⟩ hn
    simp only [decide_not, Bool.not_eq_true', decide_eq_false_iff_not]
    rintro rfl
    exact hu.timers time hn
  · have hfilter : (w.errands.filter (·.1 ≠ id)) = w.errands := by
      apply List.filter_eq_self.2
      intro e he
      have hne : e.1 ≠ id := ne_of_mem_of_not_mem (List.mem_map_of_mem he) (ht.not_errand h)
      simpa using hne
    rw [← hfilter, ← herrands]
    exact pick_filter (f := Task.errand?) (l := (w.report j failure).tasks) (· ≠ id)
  · exact fun e he => by simp [Job.isTimed, hphase he]

/-! ## The advance of a job -/

/-- From `w` to `w'` the job `id` is replaced as `Work` says, and the callbacks `calls` have been
called. A plain job does not wake the supervisor. -/
def Advances (calls : List Invocation) (w : World) (id : Nat) (j : Job) (w' : World) : Prop :=
  ∃ gone come executor told, Work w id j gone come executor ∧
    Shifts calls gone come executor w w' ∧ (j.Plain → told = false) ∧
    (w.Unscheduled id → Settles come told w w')

theorem endWork_eq (w : World) (id : Nat) (j : Job) (failure : Option CallbackFailure) :
    ∃ v, Keeps [] false w v ∧ w.endWork id j failure =
      (v.release.setTask id (.job { j with phase := .returned failure })).wake id := by
  unfold endWork
  dsimp only
  split
  · exact ⟨_, keeps_logJob w _, rfl⟩
  · exact ⟨w, .refl w, rfl⟩

/-- A job on its worker is called. Then it releases the worker, or it waits for an answer. -/
theorem work_cases (w : World) (id : Nat) (j : Job) :
    ∃ v told, Keeps [(j.callback, j.event)] told (w.published j) v ∧
      (j.callback.deed.isPlain → told = false) ∧
      ((∃ failure, j.callback.MayFail failure ∧ w.work id j =
        (v.release.setTask id (.job { j with phase := .returned failure })).wake id) ∨
      j.callback.deed.isPlain = false ∧
        ∃ call ms, w.work id j = v.sleep id ms (.job { j with phase := .asking call })) := by
  obtain ⟨u, hu, hslow⟩ : ∃ u, Keeps [] false (w.published j) (u.published j) ∧
      (if w.executor.slowStart.nanos < instantSpan.nanos then
        w.logJob (.warn ("Starting of " ++ j.callback.name ++ " took too long")) else w) = u := by
    split
    · exact ⟨_, published_logJob w j _ ▸ keeps_logJob _ _, rfl⟩
    · exact ⟨w, .refl _, rfl⟩
  obtain ⟨v, told, hv, htold, hdone⟩ := keeps_perform (u.deliver j) j
  rw [published_deliver] at hv
  have hcalled : Keeps [(j.callback, j.event)] told (w.published j) v := by
    simpa using (hu.trans (keeps_deliver _ j)).trans hv
  unfold work
  dsimp only
  rcases hdone with ⟨failure, hm, hperform⟩ | ⟨hplain, call, ms, hperform⟩
  · obtain ⟨v', hv', hend⟩ := endWork_eq v id j failure
    have hkeeps : Keeps [(j.callback, j.event)] told (w.published j) v' := by
      simpa using hcalled.trans hv'
    exact ⟨v', told, hkeeps, htold, .inl ⟨failure, hm, by rw [hslow, hperform, ← hend]⟩⟩
  · exact ⟨v, told, hcalled, htold, .inr ⟨hplain, call, ms, by rw [hslow, hperform]⟩⟩

section

variable {calls : List Invocation} {told : Bool} {v : World}

/-- A job whose deed is done releases its worker, to the first job in `executor.waiting` if there is
one. -/
theorem advances_returns (ht : w.Tidy) (hm : w.Manned) (h : (id, j) ∈ w.jobs) (hp : j.isWorking)
    (hv : Keeps calls told w v) (htold : j.Plain → told = false)
    {failure : Option CallbackFailure} (hmay : j.callback.MayFail failure) :
    Advances calls w id j
      ((v.release.setTask id (.job { j with phase := .returned failure })).wake id) := by
  have htidy := hv.tidy ht
  have hmem : (id, j) ∈ v.jobs := hv.jobs ▸ h
  have htold' (hplain : j.Plain) : (told || false) = false := by rw [htold hplain, Bool.or_false]
  cases hw : w.executor.waiting with
  | nil =>
    have hnone : v.executor.waiting = [] := hv.executor ▸ hw
    have hfrees := shifts_frees htidy hmem hnone { j with phase := .returned failure }
    rw [hv.executor] at hfrees
    have hshift := (hv.andThen hfrees).wake id
    rw [List.append_nil] at hshift
    exact ⟨_, _, _, _, .frees hp hw hmay, hshift, htold',
      fun _ => hv.settles (settles_frees htidy hmem hnone rfl)⟩
  | cons next rest =>
    have hsome : v.executor.waiting = next :: rest := hv.executor ▸ hw
    obtain ⟨k, hk, hwaits⟩ := hm.waiting_job (by rw [hw]; exact List.mem_cons_self)
    have hkmem : (next, k) ∈ v.jobs := hv.jobs ▸ hk
    have hne : id ≠ next := by
      rintro rfl
      obtain rfl : j = k := Task.job.inj (ht.eq_of_mem (mem_jobs.1 h) (mem_jobs.1 hk))
      simp [Job.isWorking, Job.isWaiting_iff.1 hwaits] at hp
    have hyields := shifts_yields htidy hmem hsome hkmem hne { j with phase := .returned failure }
    rw [hv.executor] at hyields
    have hshift := (hv.andThen hyields).wake id
    rw [List.append_nil] at hshift
    exact ⟨_, _, _, _, .yields hp hw hwaits hmay, hshift, htold',
      fun _ => hv.settles (settles_yields htidy hmem hsome hkmem rfl)⟩

theorem shifts_sleep (ht : w.Tidy) (h : (id, j) ∈ w.jobs) (hv : Keeps calls told w v) (ms : Nat)
    (k : Job) : Shifts calls [(id, j)] [(id, k)] w.executor w (v.sleep id ms (.job k)) := by
  have hset := shifts_setTask (hv.tidy ht) (hv.jobs ▸ h) k
  rw [hv.executor] at hset
  have hshift := hv.andThen hset
  rw [List.append_nil] at hshift
  exact hshift.of_same rfl rfl rfl rfl rfl

theorem settles_asking (ht : w.Tidy) (h : (id, j) ∈ w.jobs) (hv : Keeps calls told w v) (ms : Nat)
    (call : Call) : Settles [(id, { j with phase := .asking call })] (told || false) w
      (v.sleep id ms (.job { j with phase := .asking call })) :=
  hv.settles (settles_sleep (hv.tidy ht) (hv.jobs ▸ h) rfl (by simp))

/-- A job that ends is replaced by the jobs that its failure is submitted to. -/
theorem advances_endJob (ht : w.Tidy) (h : (id, j) ∈ w.jobs) (hv : Keeps calls told w v)
    (htold : j.Plain → told = false) {failure : Option CallbackFailure} (hp : j.MayEnd failure) :
    Advances calls w id j (v.endJob id j failure) := by
  have hmem : (id, j) ∈ v.jobs := hv.jobs ▸ h
  have hend := shifts_endJob (hv.tidy ht) hmem failure
  rw [hv.nextTask, hv.hearing, hv.executor] at hend
  have hshift := hv.andThen hend
  rw [List.append_nil] at hshift
  refine ⟨_, _, _, told || false, .ends hp, hshift, fun hplain => ?_, fun hu => ?_⟩
  · rw [htold hplain, Bool.or_false]
  · have hready : id ∉ v.ready := fun hr => by
      simpa [hu.ready, hu.task] using (hv.ready id).1 hr
    have hsettles := settles_endJob (hv.tidy ht) hmem
      ⟨hu.task, hready, fun time => hv.timers ▸ hu.timers time⟩ failure
    rw [hv.nextTask, hv.hearing] at hsettles
    exact hv.settles hsettles

/-- A task of its own whose deed is performed ends, or it waits for an answer. -/
theorem advances_act (ht : w.Tidy) (h : (id, j) ∈ w.jobs) (hv : Keeps calls told w (v.published j))
    (htold : told = false) (hp : j.phase = .sleeping ∨
      j.callback.isAsync ∧ j.phase = .submitted ∧ j.callback.delayMs = 0)
    (ha : j.callback.deed.isPlain = false → j.callback.isAsync) :
    Advances calls w id j (v.act id j) := by
  obtain ⟨u, told', hu, htold', hdone⟩ := keeps_perform v j
  have hkeeps : Keeps calls told' w u := by simpa [htold] using hv.trans hu
  unfold act
  rcases hdone with ⟨failure, hmay, hperform⟩ | ⟨hplain, call, ms, hperform⟩
  · have hend : j.MayEnd failure := .inr ⟨hmay, hp.imp_right fun hp => ⟨hp.1, .inl hp.2⟩⟩
    rw [hperform]
    exact advances_endJob ht h hkeeps (fun hj => htold' hj.deed) hend
  · have hown := ha hplain
    rw [hperform]
    exact ⟨_, _, _, _, .asks (.inr ⟨hown, hp.imp_right And.right⟩) hplain,
      shifts_sleep ht h hkeeps ms _, fun hj => absurd hplain hj.not_request,
      fun _ => settles_asking ht h hkeeps ms call⟩

end

/-- A job that has got a worker is called. -/
theorem advances_work (ht : (w.published j).Tidy) (hm : (w.published j).Manned)
    (h : (id, j) ∈ (w.published j).jobs) (hj : j.Regular) (hp : j.phase = .granted) :
    Advances [(j.callback, j.event)] (w.published j) id j (w.work id j) := by
  have hworks : j.isWorking := by simp [Job.isWorking, hp]
  obtain ⟨v, told, hv, htold, ⟨failure, hmay, hwork⟩ | ⟨hd, call, ms, hwork⟩⟩ := work_cases w id j
  · rw [hwork]
    exact advances_returns ht hm h hworks hv (fun hj => htold hj.deed) hmay
  · rw [hwork]
    exact ⟨_, _, _, _, .asks (.inl ⟨hp, hj.worker hd (.inr hp)⟩) hd, shifts_sleep ht h hv ms _,
      fun hj => absurd hd hj.not_request, fun _ => settles_asking ht h hv ms call⟩

theorem executor_published (w : World) (j : Job) :
    ∃ inFlight, (w.published j).executor = { w.executor with inFlight } := by
  unfold published
  split
  · rw [publish_eq]
    exact ⟨_, rfl⟩
  · exact ⟨_, rfl⟩

/-- A job that finds a free worker is called. It leaves the worker free, unless it waits for an
answer. -/
theorem advances_runs (ht : (w.published j).Tidy) (hm : (w.published j).Manned)
    (h : (id, j) ∈ (w.published j).jobs) (hp : j.phase = .submitted)
    (ha : j.callback.isAsync = false) (hf : w.executor.free ≠ 0) :
    Advances [(j.callback, j.event)] (w.published j) id j
      (work { w with executor.free := w.executor.free - 1 } id j) := by
  obtain ⟨_, hexecutor⟩ := executor_published w j
  have hfree : (w.published j).executor.free ≠ 0 := by rw [hexecutor]; exact hf
  obtain ⟨v, told, hv, htold, hcases⟩ :=
    work_cases { w with executor.free := w.executor.free - 1 } id j
  rw [published_occupy] at hv
  generalize w.published j = u at *
  have htidy : Tidy { u with executor.free := u.executor.free - 1 } :=
    ⟨ht.nodup, ht.fresh, ht.pinger⟩
  have hshifts {gone come : List (Nat × Job)} {executor : Executor} {v : World}
      (g : Shifts [(j.callback, j.event)] gone come executor
        { u with executor.free := u.executor.free - 1 } v) :
      Shifts [(j.callback, j.event)] gone come executor u v :=
    ⟨g.registry, g.executor, g.delivered, g.nextTask, g.jobs⟩
  have hsettles {come : List (Nat × Job)} {told : Bool} {v : World}
      (g : Settles come told { u with executor.free := u.executor.free - 1 } v) :
      Settles come told u v := g.of_same rfl rfl rfl rfl rfl
  rcases hcases with ⟨failure, hmay, hwork⟩ | ⟨hplain, call, ms, hwork⟩
  · have hw : v.executor.waiting = [] := by
      by_contra hne
      rw [hv.executor] at hne
      exact hfree (hm.eager hne)
    have hmem : (id, j) ∈ v.jobs := hv.jobs ▸ h
    have hfrees := shifts_frees (hv.tidy htidy) hmem hw { j with phase := .returned failure }
    have hback : { u.executor with free := u.executor.free - 1 + 1 } = u.executor := by
      rw [Nat.sub_add_cancel (Nat.pos_of_ne_zero hfree)]
    rw [hv.executor] at hfrees
    have hshift := (hv.andThen hfrees).wake id
    rw [List.append_nil] at hshift
    have hruns := hshifts hshift
    rw [hwork]
    exact ⟨_, _, _, _, .runs hp ha hfree hmay, ⟨hruns.registry, hruns.executor.trans hback,
      hruns.delivered, hruns.nextTask, hruns.jobs⟩,
      fun hj => by rw [htold hj.deed, Bool.or_false],
      fun _ => hsettles (hv.settles (settles_frees (hv.tidy htidy) hmem hw rfl))⟩
  · rw [hwork]
    exact ⟨_, _, _, _, .occupies hp ha hfree hplain, hshifts (shifts_sleep htidy h hv ms _),
      fun hj => absurd hplain hj.not_request, fun _ => hsettles (settles_asking htidy h hv ms call)⟩

/-- A job that finds no free worker joins `executor.waiting`. -/
theorem advances_queues (ht : w.Tidy) (h : (id, j) ∈ w.jobs) (hp : j.phase = .submitted)
    (ha : j.callback.isAsync = false) (hf : w.executor.free = 0) :
    Advances [] w id j (setTask { w with executor.waiting := w.executor.waiting ++ [id] } id
      (.job { j with phase := .waiting })) := by
  have hset := shifts_setTask ht h { j with phase := .waiting }
  refine ⟨_, _, _, false, .queues hp ha hf, ⟨hset.registry, rfl, hset.delivered, hset.nextTask,
    hset.jobs⟩, fun _ => rfl, fun _ => ?_⟩
  exact .of_untimed rfl (fun ho => ho.of_same rfl rfl rfl rfl) (by simp [setTask, Job.isActive])
    rfl (errands_setJob (ht.not_errand h) _) (by simp [Job.isTimed])

/-- A job whose answer has arrived ends, or it releases its worker. -/
theorem advances_answered (ht : w.Tidy) (hm : w.Manned) (h : (id, j) ∈ w.jobs) (hj : j.Regular)
    {call : Call} (hp : j.phase = .asking call) : Advances [] w id j (w.pollJob id j) := by
  obtain ⟨told, hfinish⟩ := keeps_finishCall w call
  have htold (hplain : j.Plain) : told = false := absurd hp (hplain.phase call)
  unfold pollJob
  rw [hp]
  dsimp only
  split
  next ha =>
    exact advances_endJob ht h hfinish htold
      (.inr ⟨hj.mayFail hp _, .inr ⟨ha, .inr ⟨call, hp⟩⟩⟩)
  next ha =>
    obtain ⟨v, hv, hend⟩ := endWork_eq (w.finishCall call).1 id j
      (requestFailure j.callback.name (w.finishCall call).2)
    have hworks : j.isWorking := by simpa [Job.isWorking, hp] using ha
    have hkeeps : Keeps [] told w v := by simpa using hfinish.trans hv
    rw [hend]
    exact advances_returns ht hm h hworks hkeeps htold (hj.mayFail hp _)

/-- Polling a job publishes the event of its deed, if the deed is performed, and then replaces the
job as `Work` says. -/
theorem advances_pollJob (ht : (w.primed j).Tidy) (hm : (w.primed j).Manned)
    (h : (id, j) ∈ (w.primed j).jobs) (hj : j.Regular) (hwaits : j.isWaiting = false) :
    Advances (w.callsOf j) (w.primed j) id j (w.pollJob id j) := by
  unfold callsOf
  cases hp : j.phase with
  | submitted =>
    cases ha : j.callback.isAsync with
    | true =>
      simp only [pollJob, hp, ha, Bool.true_or, if_true]
      split
      next hnow =>
        have hcalled := keeps_deliver (w.published j) j
        rw [← published_deliver] at hcalled
        rw [primed_of_performs (by simp [performs, hp, ha, hnow])] at ht h ⊢
        exact advances_act ht h hcalled rfl (.inr ⟨ha, hp, hnow⟩) fun _ => ha
      next hlater =>
        have hcalled := keeps_deliver w j
        rw [primed_of_not_performs (by simp [performs, hp, ha, hlater])] at ht h ⊢
        exact ⟨_, _, _, _, .sleeps hp ha hlater, shifts_sleep ht h hcalled _ _, fun _ => rfl,
          fun _ => hcalled.settles (settles_sleep (hcalled.tidy ht) (hcalled.jobs ▸ h) rfl
            fun _ => rfl)⟩
    | false =>
      by_cases hf : w.executor.free = 0
      · rw [primed_of_not_performs (by simp [performs, hp, ha, hf])] at ht h ⊢
        simpa [pollJob, hp, ha, hf] using advances_queues ht h hp ha hf
      · rw [primed_of_performs (by simp [performs, hp, ha, hf])] at ht hm h ⊢
        simpa [pollJob, hp, ha, hf] using advances_runs ht hm h hp ha hf
  | waiting => simp [Job.isWaiting, hp] at hwaits
  | granted =>
    rw [primed_of_performs (by simp [performs, hp])] at ht hm h ⊢
    simpa [pollJob, hp] using advances_work ht hm h hj hp
  | sleeping =>
    rw [primed_of_performs (by simp [performs, hp])] at ht h ⊢
    have hact := advances_act ht h (.refl (w.published j)) rfl (.inl hp) fun hd => hj.own hd hp
    simpa [pollJob, hp] using hact
  | asking call =>
    rw [primed_of_not_performs (by simp [performs, hp])] at ht hm h ⊢
    exact advances_answered ht hm h hj hp
  | returned failure =>
    rw [primed_of_not_performs (by simp [performs, hp])] at ht h ⊢
    have hend := advances_endJob ht h (.refl w) (fun _ => rfl) (.inl hp : j.MayEnd failure)
    simpa [pollJob, hp] using hend

end World

end PeerLink.Bridge
