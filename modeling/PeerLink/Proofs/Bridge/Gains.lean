import PeerLink.Proofs.Bridge.Jobs
/-!
# Tasks that are no jobs

Polling a task that is no job, the supervisor included, leaves the jobs as they are: their phases,
and whether their numbers are in `ready` and in `timers`. It may submit new jobs, which are counted
by `executor.inFlight` and added to `ready`. This is `World.Gains`.

## Main definitions

* `World.Jobless`: a number that has been given, but to no job.
* `World.Pinned`: the tasks that the supervisor may end are no jobs.
* `World.Orderly`: the numbers in `ready` and `timers` have been given, and no time is over.
* `World.Joins`, `World.Gains`: jobs are submitted, and the others stay as they are.

## Main statements

* `World.gains_poll`: polling a task that is no job.
* `World.gains_takeCommand`: a command that the supervisor takes.
-/

namespace PeerLink.Bridge.World

open Transport Connection

/-- The number `id` has been given, but to no job. -/
def Jobless (w : World) (id : Nat) : Prop := id < w.nextTask ∧ id ∉ w.jobs.map Prod.fst

/-- The number `id` is that of a job. -/
structure IsJob (w : World) (id : Nat) : Prop where
  first : supervisorId < id
  given : id < w.nextTask
  mem : id ∈ w.jobs.map Prod.fst

/-- Neither the number of the supervisor nor the numbers of the tasks that it may end are those of
jobs. -/
structure Pinned (w : World) : Prop where
  given : ∀ id ∈ w.jobs.map Prod.fst, id < w.nextTask
  supervisor : w.Jobless supervisorId
  attempt : ∀ id, w.attempt = some id → w.Jobless id
  reader : ∀ id, w.reader = some id → w.Jobless id
  pinger : ∀ id, w.pinger = some id → w.Jobless id

/-- The numbers in `ready` and `timers` have been given, `ready` has no duplicates, and no time in
`timers` is before the clock. -/
structure Orderly (w : World) : Prop where
  first : supervisorId < w.nextTask
  nodup : w.ready.Nodup
  ready : ∀ id ∈ w.ready, id < w.nextTask
  timers : ∀ e ∈ w.timers, e.2 < w.nextTask
  later : ∀ e ∈ w.timers, w.clock ≤ e.1

/-- A job submitted from `w` to `w'`: its callback is that of a listener, and it is in `ready`. -/
structure Newcomer (w w' : World) (e : Nat × Job) : Prop where
  number : w.nextTask ≤ e.1 ∧ e.1 < w'.nextTask
  phase : e.2.phase = .submitted
  listens : ∃ l ∈ w.registry.listeners, e.2.callback = l.callback
  goes : w.Orderly → e.1 ∈ w'.ready ∧ ∀ time, (time, e.1) ∉ w'.timers

/-- From `w` to `w'` the jobs `more` are submitted. The other jobs, their schedule and the clock
stay. -/
structure Joins (more : List (Nat × Job)) (w w' : World) : Prop where
  jobs : w'.jobs = w.jobs ++ more
  executor : w'.executor = { w.executor with inFlight := w.executor.inFlight + more.length }
  registry : w'.registry = w.registry
  clock : w'.clock = w.clock
  nextTask : w.nextTask ≤ w'.nextTask
  newcomer : ∀ e ∈ more, w.Newcomer w' e
  closed : w.executor.closed → more = []
  pinned : w.Pinned → w'.Pinned
  orderly : w.Orderly → w'.Orderly
  ready : ∀ id, w.IsJob id → (id ∈ w'.ready ↔ id ∈ w.ready)
  timers : ∀ id, w.IsJob id → ∀ time, (time, id) ∈ w'.timers ↔ (time, id) ∈ w.timers

/-- From `w` to `w'` some jobs are submitted. -/
def Gains (w w' : World) : Prop := ∃ more, Joins more w w'

section

variable {u v w w' : World} {a b : List (Nat × Job)} {id : Nat}

theorem Joins.jobless (h : Joins a w w') (hid : w.Jobless id) : w'.Jobless id := by
  refine ⟨Nat.lt_of_lt_of_le hid.1 h.nextTask, fun hm => ?_⟩
  rw [h.jobs, List.map_append, List.mem_append] at hm
  rcases hm with hm | hm
  · exact hid.2 hm
  · obtain ⟨e, he, rfl⟩ := List.mem_map.1 hm
    have hlt := hid.1
    have hle := (h.newcomer e he).number.1
    omega

theorem Joins.isJob (h : Joins a w w') (hid : w.IsJob id) : w'.IsJob id := by
  refine ⟨hid.first, Nat.lt_of_lt_of_le hid.given h.nextTask, ?_⟩
  rw [h.jobs, List.map_append]
  exact List.mem_append_left _ hid.mem

theorem Joins.trans (h : Joins a u v) (g : Joins b v w) : Joins (a ++ b) u w where
  jobs := by rw [g.jobs, h.jobs, List.append_assoc]
  executor := by
    rw [g.executor, h.executor, List.length_append]
    simp only [Nat.add_assoc]
  registry := g.registry.trans h.registry
  clock := g.clock.trans h.clock
  nextTask := Nat.le_trans h.nextTask g.nextTask
  newcomer e he := by
    rcases List.mem_append.1 he with he | he
    · obtain ⟨⟨hle, hlt⟩, hphase, hlistens, hgoes⟩ := h.newcomer e he
      refine ⟨⟨hle, Nat.lt_of_lt_of_le hlt g.nextTask⟩, hphase, hlistens, fun ho => ?_⟩
      have hjob : v.IsJob e.1 := by
        refine ⟨Nat.lt_of_lt_of_le ho.first hle, hlt, ?_⟩
        rw [h.jobs]
        exact List.mem_map_of_mem (List.mem_append_right _ he)
      obtain ⟨hready, htimers⟩ := hgoes ho
      exact ⟨(g.ready _ hjob).2 hready, fun time ht => htimers time ((g.timers _ hjob time).1 ht)⟩
    · obtain ⟨⟨hle, hlt⟩, hphase, hlistens, hgoes⟩ := g.newcomer e he
      exact ⟨⟨Nat.le_trans h.nextTask hle, hlt⟩, hphase, h.registry ▸ hlistens,
        fun ho => hgoes (h.orderly ho)⟩
  closed hc := by
    rw [h.closed hc, g.closed (by rw [h.executor]; exact hc), List.append_nil]
  pinned hp := g.pinned (h.pinned hp)
  orderly ho := g.orderly (h.orderly ho)
  ready n hn := (g.ready n (h.isJob hn)).trans (h.ready n hn)
  timers n hn time := (g.timers n (h.isJob hn) time).trans (h.timers n hn time)

namespace Gains

theorem trans (h : u.Gains v) (g : v.Gains w) : u.Gains w := by
  obtain ⟨_, h⟩ := h
  obtain ⟨_, g⟩ := g
  exact ⟨_, h.trans g⟩

theorem jobless (h : w.Gains w') (hid : w.Jobless id) : w'.Jobless id := by
  obtain ⟨_, h⟩ := h
  exact h.jobless hid

theorem pinned (h : w.Gains w') (hp : w.Pinned) : w'.Pinned := by
  obtain ⟨_, h⟩ := h
  exact h.pinned hp

/-- `Pinned` depends on the jobs and on the tasks that the supervisor remembers. -/
theorem pinned_of_same (hj : w'.jobs = w.jobs) (hn : w.nextTask ≤ w'.nextTask)
    (ha : w'.attempt = w.attempt) (hr : w'.reader = w.reader) (hp : w'.pinger = w.pinger)
    (h : w.Pinned) : w'.Pinned := by
  have hkept {id : Nat} (hid : w.Jobless id) : w'.Jobless id :=
    ⟨Nat.lt_of_lt_of_le hid.1 hn, hj ▸ hid.2⟩
  exact ⟨fun id hid => Nat.lt_of_lt_of_le (h.given id (hj ▸ hid)) hn, hkept h.supervisor,
    fun id hid => hkept (h.attempt id (ha ▸ hid)), fun id hid => hkept (h.reader id (hr ▸ hid)),
    fun id hid => hkept (h.pinger id (hp ▸ hid))⟩

/-- Jobs and executor stay. -/
theorem of_same (hj : w'.jobs = w.jobs) (hx : w'.executor = w.executor)
    (hr : w'.registry = w.registry) (hc : w'.clock = w.clock) (hn : w.nextTask ≤ w'.nextTask)
    (hpinned : w.Pinned → w'.Pinned) (horderly : w.Orderly → w'.Orderly)
    (hready : ∀ id, w.IsJob id → (id ∈ w'.ready ↔ id ∈ w.ready))
    (htimers : ∀ id, w.IsJob id → ∀ time, (time, id) ∈ w'.timers ↔ (time, id) ∈ w.timers) :
    w.Gains w' :=
  ⟨[], by simp [hj], by simp [hx], hr, hc, hn, List.forall_mem_nil _, fun _ => rfl, hpinned,
    horderly, hready, htimers⟩

/-- Tasks, executor, schedule and clock stay. -/
theorem of_eq (ht : w'.tasks = w.tasks) (hx : w'.executor = w.executor)
    (hr : w'.registry = w.registry) (hc : w'.clock = w.clock) (hn : w'.nextTask = w.nextTask)
    (ha : w'.attempt = w.attempt) (hd : w'.reader = w.reader) (hp : w'.pinger = w.pinger)
    (hready : w'.ready = w.ready) (htimers : w'.timers = w.timers) : w.Gains w' := by
  have hj : w'.jobs = w.jobs := by rw [jobs, ht, jobs]
  refine of_same hj hx hr hc (Nat.le_of_eq hn.symm)
    (pinned_of_same hj (Nat.le_of_eq hn.symm) ha hd hp) (fun ho => ⟨?_, ?_, ?_, ?_, ?_⟩) ?_ ?_
  · exact hn ▸ ho.first
  · exact hready ▸ ho.nodup
  · exact hn ▸ hready ▸ ho.ready
  · exact hn ▸ htimers ▸ ho.timers
  · exact hc ▸ htimers ▸ ho.later
  · simp [hready]
  · simp [htimers]

theorem refl (w : World) : w.Gains w := of_eq rfl rfl rfl rfl rfl rfl rfl rfl rfl rfl

end Gains

end

/-! ## Operations on other tasks -/

section Tasks

variable {w : World} {id : Nat} {t : Task}

theorem gains_log (w : World) (l : LogLine) : w.Gains (w.log l) :=
  .of_eq rfl rfl rfl rfl rfl rfl rfl rfl rfl rfl

theorem gains_logJob (w : World) (l : LogLine) : w.Gains (w.logJob l) :=
  .of_eq rfl rfl rfl rfl rfl rfl rfl rfl rfl rfl

theorem mem_wake {n : Nat} : n ∈ (w.wake id).ready ↔ n ∈ w.ready ∨ n = id := by
  unfold wake
  split
  next h =>
    have hmem : id ∈ w.ready := by simpa using h
    constructor
    · exact .inl
    · rintro (hn | rfl)
      · exact hn
      · exact hmem
  · simp

theorem Orderly.wake (h : w.Orderly) (hid : id < w.nextTask) : (w.wake id).Orderly := by
  unfold World.wake
  split
  · exact h
  next hn =>
    have hnodup := h.nodup.concat (a := id) (by simpa using hn)
    rw [List.concat_eq_append] at hnodup
    refine ⟨h.first, hnodup, ?_, h.timers, h.later⟩
    intro n hm
    rcases List.mem_append.1 hm with hm | hm
    · exact h.ready n hm
    · exact List.mem_singleton.1 hm ▸ hid

/-- Waking a task that is no job. -/
theorem gains_wake (hid : id = supervisorId ∨ w.Jobless id) : w.Gains (w.wake id) := by
  obtain ⟨ready, heq⟩ := wake_eq w id
  have hmem (n : Nat) (hn : w.IsJob n) : n ∈ (w.wake id).ready ↔ n ∈ w.ready := by
    have hother : n ≠ id := by
      rintro rfl
      exact hid.elim (Nat.ne_of_gt hn.first) fun h => h.2 hn.mem
    simp [mem_wake, hother]
  have horderly (ho : w.Orderly) : (w.wake id).Orderly := by
    apply ho.wake
    rcases hid with rfl | hid
    · exact ho.first
    · exact hid.1
  rw [heq] at hmem horderly ⊢
  exact .of_same rfl rfl rfl rfl (Nat.le_refl _)
    (Gains.pinned_of_same rfl (Nat.le_refl _) rfl rfl rfl) horderly hmem fun _ _ _ => .rfl

theorem gains_send (w : World) (c : Command) : w.Gains (w.send c).1 := by
  unfold send
  split
  · have hqueue : w.Gains { w with commands := w.commands ++ [c] } :=
      .of_eq rfl rfl rfl rfl rfl rfl rfl rfl rfl rfl
    exact hqueue.trans (gains_wake (.inl rfl))
  · exact .refl w

theorem jobs_setTask (hid : w.Jobless id) (ht : t.job? = none) : (w.setTask id t).jobs = w.jobs :=
  pick_set_of_none ht hid.2

theorem gains_setTask (hid : w.Jobless id) (ht : t.job? = none) : w.Gains (w.setTask id t) := by
  have hj := jobs_setTask hid ht
  exact .of_same hj rfl rfl rfl (Nat.le_refl _)
    (Gains.pinned_of_same hj (Nat.le_refl _) rfl rfl rfl)
    (fun ho => ⟨ho.first, ho.nodup, ho.ready, ho.timers, ho.later⟩) (fun _ _ => .rfl)
    fun _ _ _ => .rfl

theorem gains_sleep (hid : w.Jobless id) (ms : Nat) (ht : t.job? = none) :
    w.Gains (w.sleep id ms t) := by
  have hj : (w.sleep id ms t).jobs = w.jobs := jobs_setTask hid ht
  refine .of_same hj rfl rfl rfl (Nat.le_refl _)
    (Gains.pinned_of_same hj (Nat.le_refl _) rfl rfl rfl)
    (fun ho => ⟨ho.first, ho.nodup, ho.ready, ?_, ?_⟩) (fun _ _ => .rfl) ?_
  · intro e he
    rcases List.mem_append.1 he with he | he
    · exact ho.timers e he
    · exact List.mem_singleton.1 he ▸ hid.1
  · intro e he
    rcases List.mem_append.1 he with he | he
    · exact ho.later e he
    · exact List.mem_singleton.1 he ▸ Nat.le_add_right _ _
  · intro n hn time
    have hne : n ≠ id := fun h => hid.2 (h ▸ hn.mem)
    simp [sleep, setTask, hne]

/-- Ending a task that is no job leaves the jobs. -/
theorem jobs_endTask_of_jobless (hid : w.Jobless id) : (w.endTask id).jobs = w.jobs := by
  rw [jobs_endTask]
  apply List.filter_eq_self.2
  intro e he
  have hne : e.1 ≠ id := fun h => hid.2 (h ▸ List.mem_map_of_mem he)
  simpa using hne

theorem Orderly.endTask (h : w.Orderly) (id : Nat) : (w.endTask id).Orderly where
  first := h.first
  nodup := h.nodup.filter _
  ready n hn := h.ready n (List.mem_of_mem_filter hn)
  timers e he := h.timers e (List.mem_of_mem_filter he)
  later e he := h.later e (List.mem_of_mem_filter he)

theorem gains_endTask (hid : w.Jobless id) : w.Gains (w.endTask id) := by
  have hj := jobs_endTask_of_jobless hid
  refine .of_same hj rfl rfl rfl (Nat.le_refl _)
    (Gains.pinned_of_same hj (Nat.le_refl _) rfl rfl rfl) (·.endTask id) ?_ ?_
  · intro n hn
    have hne : n ≠ id := fun h => hid.2 (h ▸ hn.mem)
    simp [endTask, hne]
  · intro n hn time
    have hne : n ≠ id := fun h => hid.2 (h ▸ hn.mem)
    simp [endTask, hne]

/-- Ending a task preserves `Pinned`. -/
theorem Pinned.endTask (h : w.Pinned) (id : Nat) : (w.endTask id).Pinned := by
  have hmem {n : Nat} (hn : n ∈ (w.endTask id).jobs.map Prod.fst) : n ∈ w.jobs.map Prod.fst := by
    rw [jobs_endTask] at hn
    exact (List.filter_sublist.map _).subset hn
  have hkept {n : Nat} (hn : w.Jobless n) : (w.endTask id).Jobless n :=
    ⟨hn.1, fun hm => hn.2 (hmem hm)⟩
  exact ⟨fun n hn => h.given n (hmem hn), hkept h.supervisor, fun n hn => hkept (h.attempt n hn),
    fun n hn => hkept (h.reader n hn), fun n hn => hkept (h.pinger n hn)⟩

theorem jobs_spawn (w : World) (ht : t.job? = none) : (w.spawn t).1.jobs = w.jobs := by
  simp [jobs, spawn, pick, ht]

theorem Orderly.spawn (h : w.Orderly) (t : Task) : (w.spawn t).1.Orderly where
  first := Nat.lt_succ_of_lt h.first
  nodup := by
    have hnodup := h.nodup.concat fun hm => Nat.lt_irrefl _ (h.ready _ hm)
    rwa [List.concat_eq_append] at hnodup
  ready n hn := by
    rcases List.mem_append.1 hn with hn | hn
    · exact Nat.lt_succ_of_lt (h.ready n hn)
    · exact List.mem_singleton.1 hn ▸ Nat.lt_succ_self _
  timers e he := Nat.lt_succ_of_lt (h.timers e he)
  later := h.later

/-- Starting a task that is no job, with its number remembered as `attempt`, `reader` or
`pinger`. -/
theorem gains_start (w : World) (ht : t.job? = none) {attempt reader pinger : Option Nat}
    (ha : attempt = w.attempt ∨ attempt = some w.nextTask)
    (hr : reader = w.reader ∨ reader = some w.nextTask)
    (hp : pinger = w.pinger ∨ pinger = some w.nextTask) :
    w.Gains { (w.spawn t).1 with attempt, reader, pinger } := by
  have hj : (w.spawn t).1.jobs = w.jobs := jobs_spawn w ht
  refine .of_same hj rfl rfl rfl (Nat.le_succ _) (fun h => ?_) (fun ho => ?_) ?_ fun _ _ _ => .rfl
  · have hkept {id : Nat} (hid : w.Jobless id) : (w.spawn t).1.Jobless id :=
      ⟨Nat.lt_succ_of_lt hid.1, hj ▸ hid.2⟩
    have hnew : (w.spawn t).1.Jobless w.nextTask := by
      refine ⟨Nat.lt_succ_self _, fun hm => Nat.lt_irrefl w.nextTask ?_⟩
      rw [hj] at hm
      exact h.given _ hm
    have hpoint {old new : Option Nat} (hold : ∀ id, old = some id → w.Jobless id)
        (hn : new = old ∨ new = some w.nextTask) : ∀ id, new = some id →
          (w.spawn t).1.Jobless id := by
      rintro id rfl
      rcases hn with hn | hn
      · exact hkept (hold id hn.symm)
      · exact Option.some.inj hn ▸ hnew
    exact ⟨fun id hid => Nat.lt_succ_of_lt (h.given id (hj ▸ hid)), hkept h.supervisor,
      hpoint h.attempt ha, hpoint h.reader hr, hpoint h.pinger hp⟩
  · have h := ho.spawn t
    exact ⟨h.first, h.nodup, h.ready, h.timers, h.later⟩
  · intro n hn
    simp [spawn, Nat.ne_of_lt hn.given]

theorem gains_spawn (w : World) (ht : t.job? = none) : w.Gains (w.spawn t).1 :=
  gains_start w ht (.inl rfl) (.inl rfl) (.inl rfl)

theorem gains_foldl {α : Type} {f : World → α → World} (h : ∀ (w : World) a, w.Gains (f w a))
    (l : List α) (w : World) : w.Gains (l.foldl f w) := by
  induction l generalizing w with
  | nil => exact .refl w
  | cons a rest ih => exact (h w a).trans (ih _)

theorem gains_finishCall (w : World) (call : Call) : w.Gains (w.finishCall call).1 := by
  have hlost (reason : String) := gains_send w (.setOffline (some call.epoch) reason)
  unfold finishCall
  rcases call.request.conclude call.answer with ⟨_, _ | reason, _ | text⟩
  · exact .refl w
  · exact gains_log w _
  · exact hlost reason
  · exact (hlost reason).trans (gains_log _ _)

theorem gains_begin (w : World) (r : Request) : w.Gains (w.begin r).1 := by
  unfold begin
  split
  · exact .refl w
  · exact .refl w
  next epoch out ha =>
    dsimp only
    have h : w.Gains ({ w with script := (w.script.respond out).2 }.observe out) :=
      .of_eq rfl rfl rfl rfl rfl rfl rfl rfl rfl rfl
    split
    · exact h.trans (gains_finishCall _ _)
    · exact h

theorem gains_of_begin {w' : World} {r : Request} {begun : Begun} (h : w.begin r = (w', begun)) :
    w.Gains w' := by
  simpa only [h] using gains_begin w r

end Tasks

/-! ## Publishing -/

section Publishing

variable {w : World}

/-- The numbers of submitted jobs are new. -/
theorem Pinned.handedOut (h : w.Pinned) (ls : List Listener) (e : Event) :
    (w.handedOut ls e).Pinned := by
  have hnumber {id : Nat} (hid : id ∈ (w.handedOut ls e).jobs.map Prod.fst) :
      id ∈ w.jobs.map Prod.fst ∨ w.nextTask ≤ id ∧ id < w.nextTask + ls.length := by
    rw [jobs_handedOut, List.map_append, List.mem_append] at hid
    refine hid.imp_right fun hm => ?_
    obtain ⟨n, hn, rfl⟩ := List.mem_map.1 hm
    simpa using range_of_mem_submitted hn
  have hkept {id : Nat} (hid : w.Jobless id) : (w.handedOut ls e).Jobless id := by
    refine ⟨Nat.lt_add_right _ hid.1, fun hm => ?_⟩
    rcases hnumber hm with hm | hrange
    · exact hid.2 hm
    · exact Nat.not_lt.2 hrange.1 hid.1
  refine ⟨fun id hm => ?_, hkept h.supervisor, fun id hid => hkept (h.attempt id hid),
    fun id hid => hkept (h.reader id hid), fun id hid => hkept (h.pinger id hid)⟩
  rcases hnumber hm with hm | hrange
  · exact Nat.lt_add_right _ (h.given id hm)
  · exact hrange.2

theorem Orderly.handedOut (h : w.Orderly) (ls : List Listener) (e : Event) :
    (w.handedOut ls e).Orderly := by
  refine ⟨Nat.lt_add_right _ h.first, ?_, ?_, fun n hn => Nat.lt_add_right _ (h.timers n hn),
    h.later⟩
  · refine h.nodup.append List.nodup_range' fun n hn hn' => ?_
    have hlt := h.ready n hn
    have hle := (List.mem_range'_1.1 hn').1
    omega
  · intro n hn
    rcases List.mem_append.1 hn with hn | hn
    · exact Nat.lt_add_right _ (h.ready n hn)
    · exact (List.mem_range'_1.1 hn).2

/-- Publishing submits jobs, which are in `ready`. -/
theorem joins_publish (w : World) (topic : String) (e : Event) :
    Joins (submitted w.nextTask (w.hearing.audience topic e)) w (w.publish topic e).1 := by
  have hlength : (submitted w.nextTask (w.hearing.audience topic e)).length =
      (w.hearing.accepting topic e).length := by
    simp [length_submitted, Registry.audience]
  rw [publish_eq]
  refine ⟨jobs_handedOut w _ e, by rw [hlength]; rfl, rfl, rfl, Nat.le_add_right _ _, ?_, ?_,
    fun h => h.handedOut _ e, fun h => h.handedOut _ e, ?_, fun _ _ _ => .rfl⟩
  · intro n hn
    have hrange : w.nextTask ≤ n.1 ∧
        n.1 < w.nextTask + (w.hearing.accepting topic e).length := by
      simpa [Registry.audience] using range_of_mem_submitted hn
    refine ⟨hrange, phase_of_mem_submitted hn, ?_, fun ho => ⟨?_, fun time ht => ?_⟩⟩
    · obtain ⟨⟨i, id⟩, hi, rfl⟩ := List.mem_map.1 hn
      obtain ⟨l, hl, rfl⟩ := List.mem_map.1 (List.fst_mem_of_mem_zipIdx hi)
      exact ⟨l, mem_hearing (List.mem_of_mem_filter hl), rfl⟩
    · exact List.mem_append_right _ (List.mem_range'_1.2 hrange)
    · have hlt := ho.timers _ ht
      omega
  · intro hc
    simp [Registry.audience, accepting_hearing_of_closed hc, submitted]
  · intro n hn
    have hlt := hn.given
    simp [World.handedOut]
    omega

theorem gains_publish (w : World) (topic : String) (e : Event) : w.Gains (w.publish topic e).1 :=
  ⟨_, joins_publish w topic e⟩

theorem gains_deliver (w : World) (j : Job) : w.Gains (w.deliver j) := by
  rw [deliver_eq]
  exact .of_eq rfl rfl rfl rfl rfl rfl rfl rfl rfl rfl

theorem gains_perform (w : World) (j : Job) : w.Gains (w.perform j).1 := by
  unfold perform
  dsimp only
  split
  · exact .refl w
  · exact .refl w
  · exact .refl w
  · exact gains_publish w _ _
  · exact .of_eq rfl rfl rfl rfl rfl rfl rfl rfl rfl rfl
  next r _ =>
    split <;> (next heq => exact gains_of_begin heq)

theorem gains_of_perform {w' : World} {j : Job} {done : Done} (h : w.perform j = (w', done)) :
    w.Gains w' := by
  simpa only [h] using gains_perform w j

theorem gains_reportFailure (w : World) (j : Job) (f : CallbackFailure) :
    w.Gains (w.reportFailure j f) := by
  have h := (gains_logJob w (.error ("Error in " ++ f.name ++ ": " ++ f.description))).trans
    (gains_foldl (fun w line => gains_logJob w (.error line)) f.traceLines _)
  unfold reportFailure
  dsimp only
  split
  · exact h
  · exact h.trans (gains_publish _ _ _)

end Publishing

/-! ## The connection and the pinging -/

section Connection

variable {w : World} {id : Nat}

theorem gains_dropStream (w : World) (t : ReaderTask) : w.Gains (w.dropStream t) := by
  unfold dropStream
  split
  · exact .of_eq rfl rfl rfl rfl rfl rfl rfl rfl rfl rfl
  · exact .refl w

theorem gains_endReader (hid : w.Jobless id) (t : ReaderTask) (e : Feed.End) :
    w.Gains (w.endReader id t e) := by
  have h := (gains_dropStream w t).trans (gains_send _ (.streamEnded t.epoch e))
  exact h.trans (gains_endTask (h.jobless hid))

theorem gains_takeEvent (w : World) (topic : String) (e : Event) :
    w.Gains (w.takeEvent topic e) := by
  have hitems : w.Gains { w with items := w.items.apply e } :=
    .of_eq rfl rfl rfl rfl rfl rfl rfl rfl rfl rfl
  exact hitems.trans (gains_publish _ topic e)

theorem gains_doActs (w : World) (acts : List Feed.Act) : w.Gains (w.doActs acts).1 := by
  fun_induction doActs w acts with
  | case1 w => exact .refl w
  | case2 w l rest ih => exact (gains_log w l).trans ih
  | case3 w topic e rest ih => exact (gains_takeEvent w topic e).trans ih
  | case4 w e rest => exact .refl w

theorem gains_of_doActs {w' : World} {acts : List Feed.Act} {e : Option Feed.End}
    (h : w.doActs acts = (w', e)) : w.Gains w' := by
  simpa only [h] using gains_doActs w acts

theorem gains_takePieces (w : World) (t : ReaderTask) (pieces : List Piece) :
    w.Gains (w.takePieces t pieces).1 := by
  fun_induction takePieces w t pieces with
  | case1 w t => exact .refl w
  | case2 _ _ _ _ _ _ _ _ h ih => exact (gains_of_doActs h).trans ih
  | case3 _ _ _ _ _ _ _ _ _ h => exact gains_of_doActs h
  | case4 _ _ _ _ _ _ h => exact gains_of_doActs h
  | case5 _ _ _ _ _ h => exact gains_of_doActs h

theorem gains_pieces (hid : w.Jobless id) (t : ReaderTask) (pieces : List Piece) :
    w.Gains (match World.takePieces w t pieces with
      | (w, t, some e) => w.endReader id t e
      | (w, t, none) => w.setTask id (.reader { t with phase := .reading })) := by
  have h := gains_takePieces w t pieces
  split
  next heq =>
    rw [heq] at h
    exact h.trans (gains_endReader (h.jobless hid) _ _)
  next heq =>
    rw [heq] at h
    exact h.trans (gains_setTask (h.jobless hid) rfl)

theorem gains_read (hid : w.Jobless id) (t : ReaderTask) : w.Gains (w.read id t) := by
  have hread (streams : List OpenStream) (pieces : List Piece) :=
    Gains.trans (u := w) (v := { w with streams })
      (.of_eq rfl rfl rfl rfl rfl rfl rfl rfl rfl rfl)
      (gains_pieces (w := { w with streams }) hid t pieces)
  exact hread _ _

theorem gains_takeStream (hid : w.Jobless id) (t : ReaderTask) (answer : Except Failure Unit) :
    w.Gains (w.takeStream id t answer) := by
  unfold takeStream
  split
  · exact gains_endReader hid t _
  · have h := gains_log w (.info "Event stream connected")
    exact h.trans (gains_read (h.jobless hid) t)

/-- The reader takes the answer at once or sleeps until it arrives. -/
theorem gains_opening {v : World} (h : w.Gains v) (hid : w.Jobless id) (t : ReaderTask)
    (answer : Except Failure Unit) (ms : Nat) : w.Gains (match ms with
      | 0 => v.takeStream id t answer
      | ms => v.sleep id ms (.reader { t with phase := .opening answer })) := by
  split
  · exact h.trans (gains_takeStream (h.jobless hid) t answer)
  · exact h.trans (gains_sleep (h.jobless hid) _ rfl)

theorem gains_openStream (hid : w.Jobless id) (t : ReaderTask) : w.Gains (w.openStream id t) := by
  unfold openStream
  dsimp only
  cases w.script.openStream (Feed.outgoing t.session t.layout) with
  | mk answer script =>
    cases answer with
    | ok body => refine gains_opening (.of_eq ?_ ?_ ?_ ?_ ?_ ?_ ?_ ?_ ?_ ?_) hid _ _ _ <;> rfl
    | error cause => refine gains_opening (.of_eq ?_ ?_ ?_ ?_ ?_ ?_ ?_ ?_ ?_ ?_) hid _ _ _ <;> rfl

theorem gains_pollReader (hid : w.Jobless id) (t : ReaderTask) : w.Gains (w.pollReader id t) := by
  unfold pollReader
  split
  · exact gains_openStream hid t
  · exact gains_takeStream hid t _
  · exact gains_read hid t

theorem gains_answer (hid : w.Jobless id) (c : Command) : w.Gains ((w.send c).1.endTask id) :=
  (gains_send w c).trans (gains_endTask ((gains_send w c).jobless hid))

theorem gains_takeRoot (hid : w.Jobless id) (t : AttemptTask) (uuid : String)
    (reply : Except Error Response) : w.Gains (w.takeRoot id t uuid reply) := by
  unfold takeRoot
  dsimp only
  split
  · have h := gains_log w (.info Probe.untoldNotice)
    exact h.trans (gains_answer (h.jobless hid) _)
  · exact gains_answer hid _

theorem gains_takeIdentity (hid : w.Jobless id) (t : AttemptTask)
    (reply : Except Error Response) : w.Gains (w.takeIdentity id t reply) := by
  unfold takeIdentity
  split
  · exact gains_answer hid _
  · split
    next heq =>
      have h := gains_of_begin heq
      exact h.trans (gains_takeRoot (h.jobless hid) _ _ _)
    next heq =>
      have h := gains_of_begin heq
      exact h.trans (gains_sleep (h.jobless hid) _ rfl)

theorem gains_makeAttempt (hid : w.Jobless id) (t : AttemptTask) :
    w.Gains (w.makeAttempt id t) := by
  have h := gains_send w (.attempting t.epoch)
  unfold makeAttempt
  split
  next heq =>
    rw [heq] at h
    exact h.trans (gains_endTask (h.jobless hid))
  next heq =>
    rw [heq] at h
    split
    next heq =>
      have g := h.trans (gains_of_begin heq)
      exact g.trans (gains_takeIdentity (g.jobless hid) _ _)
    next heq =>
      have g := h.trans (gains_of_begin heq)
      exact g.trans (gains_sleep (g.jobless hid) _ rfl)

theorem gains_pollAttempt (hid : w.Jobless id) (t : AttemptTask) :
    w.Gains (w.pollAttempt id t) := by
  unfold pollAttempt
  split
  · split
    · exact gains_makeAttempt hid t
    · exact gains_sleep hid _ rfl
  · exact gains_makeAttempt hid t
  next call _ =>
    have h := gains_finishCall w call
    exact h.trans (gains_takeIdentity (h.jobless hid) _ _)
  next call _ =>
    have h := gains_finishCall w call
    exact h.trans (gains_takeRoot (h.jobless hid) _ _ _)

theorem gains_afterPing (hid : w.Jobless id) (reply : Reply) : w.Gains (w.afterPing id reply) := by
  unfold afterPing
  dsimp only
  split
  · exact gains_sleep hid _ rfl
  · split
    · exact gains_endTask hid
    next e _ =>
      have h := gains_log w (.error ("Ping to " ++ w.pingConfig.item ++ " failed: " ++ e.message))
      exact h.trans (gains_sleep (h.jobless hid) _ rfl)

theorem gains_beat (hid : w.Jobless id) : w.Gains (w.beat id) := by
  have hbeat (ping : Ping) : w.Gains { w with ping } :=
    .of_eq rfl rfl rfl rfl rfl rfl rfl rfl rfl rfl
  unfold beat
  dsimp only
  split
  next heq =>
    have h := (hbeat _).trans (gains_of_begin heq)
    exact h.trans (gains_afterPing (h.jobless hid) _)
  next heq =>
    have h := (hbeat _).trans (gains_of_begin heq)
    exact h.trans (gains_sleep (h.jobless hid) _ rfl)

theorem gains_pollPinger (hid : w.Jobless id) (phase : PingPhase) :
    w.Gains (w.pollPinger id phase) := by
  unfold pollPinger
  split
  · split
    · exact gains_beat hid
    · exact gains_sleep hid _ rfl
  · exact gains_beat hid
  next call =>
    have h := gains_finishCall w call
    exact h.trans (gains_afterPing (h.jobless hid) _)

theorem gains_endErrand (hid : w.Jobless id) (t : Errand) (reply : Reply) :
    w.Gains (w.endErrand id t reply) := by
  refine Gains.trans ?_ (gains_endTask hid)
  exact .of_eq rfl rfl rfl rfl rfl rfl rfl rfl rfl rfl

theorem gains_pollErrand (hid : w.Jobless id) (t : Errand) : w.Gains (w.pollErrand id t) := by
  unfold pollErrand
  split
  · split
    next heq =>
      have h := gains_of_begin heq
      exact h.trans (gains_endErrand (h.jobless hid) _ _)
    next heq =>
      have h := gains_of_begin heq
      exact h.trans (gains_sleep (h.jobless hid) _ rfl)
  next call _ =>
    have h := gains_finishCall w call
    exact h.trans (gains_endErrand (h.jobless hid) _ _)

theorem jobless_of_mem (ht : w.Tidy) {t : Task} (h : (id, t) ∈ w.tasks) (hj : t.job? = none) :
    w.Jobless id := by
  refine ⟨ht.fresh id (List.mem_map_of_mem h), fun hm => ?_⟩
  obtain ⟨⟨_, j⟩, he, rfl⟩ := List.mem_map.1 hm
  rw [ht.eq_of_mem h (mem_jobs.1 he)] at hj
  cases hj

/-- Polling a task that is no job leaves the jobs as they are. -/
theorem gains_poll (ht : w.Tidy) (hs : id ≠ supervisorId) (hid : id ∉ w.jobs.map Prod.fst) :
    w.Gains (w.poll id) := by
  unfold poll
  rw [if_neg hs]
  split
  next h => exact gains_pollAttempt (jobless_of_mem ht (mem_of_task? h) rfl) _
  next h => exact gains_pollReader (jobless_of_mem ht (mem_of_task? h) rfl) _
  next h => exact absurd (List.mem_map_of_mem (mem_jobs.2 (mem_of_task? h))) hid
  next h => exact gains_pollPinger (jobless_of_mem ht (mem_of_task? h) rfl) _
  next h => exact gains_pollErrand (jobless_of_mem ht (mem_of_task? h) rfl) _
  · exact .refl w

end Connection

/-! ## The supervisor -/

section Supervisor

variable {w : World}

theorem gains_stopPing (h : w.Pinned) : w.Gains w.stopPing := by
  have hforget (v : World) : v.Gains { v with ping := v.ping.stop, pinger := none } := by
    refine .of_same rfl rfl rfl rfl (Nat.le_refl _) (fun hp => ?_)
      (fun ho => ⟨ho.first, ho.nodup, ho.ready, ho.timers, ho.later⟩) (fun _ _ => .rfl)
      fun _ _ _ => .rfl
    exact ⟨hp.given, hp.supervisor, hp.attempt, hp.reader, fun _ h => nomatch h⟩
  unfold stopPing
  cases hp : w.pinger with
  | none => exact hforget w
  | some id =>
    exact (gains_endTask (h.pinger id hp)).trans (hforget _)

theorem gains_startPing (h : w.Pinned) : w.Gains w.startPing := by
  unfold startPing
  exact ((gains_stopPing h).trans (gains_log _ _)).trans
    (gains_start _ rfl (.inl rfl) (.inl rfl) (.inr rfl))

/-- A hook other than the setup leaves jobs and listeners as they are. -/
theorem gains_callHook (h : w.Pinned) {hook : Hook} (hh : hook ≠ .setup) (p : Plugin) :
    w.Gains (w.callHook hook p).1 := by
  cases p with
  | scripted name failing => exact .of_eq rfl rfl rfl rfl rfl rfl rfl rfl rfl rfl
  | ping =>
    rcases Decidable.em (!w.pingConfig.enabled ∧ hook ≠ .disconnect) with hoff | hoff
    · simp only [callHook, if_pos hoff]
      exact .refl w
    · simp only [callHook, if_neg hoff]
      cases hook with
      | setup => exact absurd rfl hh
      | connect => exact gains_startPing h
      | disconnect => exact gains_stopPing h

theorem gains_notify (h : w.Pinned) {hook : Hook} (hh : hook ≠ .setup) :
    w.Gains (w.notify hook) := by
  unfold notify
  generalize w.plugins = plugins
  induction plugins generalizing w with
  | nil => exact .refl w
  | cons p plugins ih =>
    have hcall := gains_callHook h hh p
    have hrest {v : World} (g : w.Gains v) := g.trans (ih (g.pinned h))
    rw [List.foldl_cons]
    split
    next heq =>
      rw [heq] at hcall
      exact hrest hcall
    next heq =>
      rw [heq] at hcall
      exact hrest (hcall.trans (gains_log _ _))

theorem gains_abort {id : Nat} (hid : w.Jobless id) : w.Gains (w.abort id) := by
  unfold abort
  split
  next t _ =>
    have h := gains_dropStream w t
    exact h.trans (gains_endTask (h.jobless hid))
  · exact gains_endTask hid

theorem gains_applyEffect (h : w.Pinned) {e : Effect} (he : e.hook? ≠ some .setup) :
    w.Gains (w.applyEffect e) := by
  have helim (o : Option Nat) (ho : ∀ id, o = some id → w.Jobless id) :
      w.Gains (o.elim w w.abort) := by
    cases o with
    | none => exact .refl w
    | some id => exact gains_abort (ho id rfl)
  cases e with
  | abortAttempt => exact helim _ h.attempt
  | abortReader => exact helim _ h.reader
  | notify hook => exact gains_notify h fun hh => he (congrArg some hh)
  | startAttempt => exact gains_start w rfl (.inr rfl) (.inl rfl) (.inl rfl)
  | startReader => exact gains_start w rfl (.inl rfl) (.inr rfl) (.inl rfl)
  | log | openSession => exact .of_eq rfl rfl rfl rfl rfl rfl rfl rfl rfl rfl

theorem gains_applyEffects (h : w.Pinned) {es : List Effect} (he : .setup ∉ Effect.hooks es) :
    w.Gains (es.foldl applyEffect w) := by
  induction es generalizing w with
  | nil => exact .refl w
  | cons e rest ih =>
    rw [Effect.hooks_cons, List.mem_append, not_or] at he
    have hfirst := gains_applyEffect h (e := e) fun hh => he.1 (by simp [hh])
    exact hfirst.trans (ih (hfirst.pinned h) he.2)

/-- A command that the supervisor takes leaves the jobs as they are. -/
theorem gains_takeCommand (h : w.Pinned) : w.Gains w.takeCommand := by
  have htaken (commands : List Command) (supervisor : Supervisor) :
      w.Gains { w with commands, supervisor } := .of_eq rfl rfl rfl rfl rfl rfl rfl rfl rfl rfl
  by_cases ha : w.supervisor.alive
  · cases hc : w.commands with
    | nil => simpa [takeCommand, ha, hc] using Gains.refl w
    | cons c rest =>
      rw [takeCommand_eq ha hc]
      exact (htaken _ _).trans (gains_applyEffects ((htaken _ _).pinned h)
        (Supervisor.setup_not_mem_hooks _ _ _))
  · simpa [takeCommand, ha] using htaken [] w.supervisor

theorem gains_takeCommands (h : w.Pinned) (n : Nat) : w.Gains (takeCommands n w) := by
  induction n generalizing w with
  | zero => exact .refl w
  | succ n ih =>
    have hfirst := gains_takeCommand h
    exact hfirst.trans (ih (hfirst.pinned h))

end Supervisor

/-! ## Steps from outside -/

theorem gains_feed {w : World} (ht : w.Tidy) (piece : Piece) : w.Gains (w.feed piece).1 := by
  unfold feed
  split
  next id stream h =>
    have hreader : w.Jobless id := by
      obtain ⟨⟨_, t⟩, he, hf⟩ := List.exists_of_findSome?_eq_some h
      split at hf
      · obtain ⟨rfl, rfl⟩ := Prod.mk.inj (Option.some.inj hf)
        exact jobless_of_mem ht he (by simp_all [Task.job?])
      · cases hf
    dsimp only
    refine Gains.trans ?_ (gains_wake (.inr hreader))
    exact .of_eq rfl rfl rfl rfl rfl rfl rfl rfl rfl rfl
  · exact .refl w

theorem gains_enter {w : World} (ht : w.Tidy) {s : Step} (hs : s.isPublic = false) :
    w.Gains (w.enter s) := by
  cases s with
  | listen | unlisten | unlistenMany | unlistenAll | closeExecutor => cases hs
  | feed piece => exact gains_feed ht piece
  | publish topic e => exact gains_publish w topic e
  | echoPing => exact gains_publish w _ _
  | spawn tag r => exact gains_spawn w rfl
  | request r => exact gains_begin w r
  | setOffline reason => exact gains_send w _
  | configure config => exact gains_send w _
  | shutdown => exact gains_send w _
  | _ => exact .of_eq rfl rfl rfl rfl rfl rfl rfl rfl rfl rfl

end PeerLink.Bridge.World
