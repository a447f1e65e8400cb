import PeerLink.Proofs.Bridge.Fanout
/-!
# Jobs

A job is a callback from its submission until its failure has been submitted. `World.Shifts`
describes a change of jobs by the invocations made, the jobs removed, the jobs added and the
executor afterwards. All other jobs and the registry stay as they are.

## Main definitions

* `World.jobs`: the jobs with their numbers.
* `Registry.audience`, `Registry.fallout`: the invocations for an event and for a failure.
* `World.hearing`: the listeners that events are submitted to.
* `World.Shifts`: a change of jobs.

## Main statements

* `World.shifts_publish`: publishing an event submits it to its audience.
* `World.shifts_endJob`: a job that ends is replaced by those that its failure is submitted to.
-/

namespace PeerLink

open Connection Bridge

/-- A callback with the event it is called with. -/
abbrev Invocation := Callback × Event

/-- The record that an invocation leaves in the trace, if any. -/
def Invocation.record? (i : Invocation) : Option (String × Event) :=
  match i.1.deed with
  | .echo => none
  | _ => some (i.1.name, i.2)

namespace Registry

/-- The invocations for `e` on `topic`, in the order of the listeners. -/
def audience (r : Registry) (topic : String) (e : Event) : List Invocation :=
  (r.accepting topic e).map fun l => (l.callback, e)

/-- The invocations for the failure of a callback that was called with `e`: none if `e` is a failure
itself. -/
def fallout (r : Registry) (e : Event) : Option CallbackFailure → List Invocation
  | some f => if e.isError then [] else r.audience Event.errorTopic f.event
  | none => []

end Registry

namespace Bridge

/-! ## Jobs with their numbers -/

section Numbered

variable {α : Type} {l : List (Nat × α)} {id : Nat} {a : α}

theorem perm_cons_filter (hn : (l.map Prod.fst).Nodup) (h : (id, a) ∈ l) :
    l.Perm ((id, a) :: l.filter (·.1 ≠ id)) := by
  induction l with
  | nil => cases h
  | cons e rest ih =>
    rw [List.map_cons, List.nodup_cons] at hn
    rcases List.mem_cons.1 h with rfl | h
    · have hrest : rest.filter (·.1 ≠ id) = rest := by
        apply List.filter_eq_self.2
        intro e he
        have hne : e.1 ≠ id := ne_of_mem_of_not_mem (List.mem_map_of_mem he) hn.1
        simpa using hne
      rw [List.filter_cons_of_neg (by simp), hrest]
    · have hne : e.1 ≠ id := (ne_of_mem_of_not_mem (List.mem_map_of_mem h) hn.1).symm
      rw [List.filter_cons_of_pos (by simpa using hne)]
      exact ((ih hn.2 h).cons e).trans (.swap _ _ _)

theorem filter_eq_singleton (hn : (l.map Prod.fst).Nodup) (h : (id, a) ∈ l) :
    l.filter (·.1 = id) = [(id, a)] := by
  have hperm := (perm_cons_filter hn h).filter (·.1 = id)
  have hnone : (l.filter (·.1 ≠ id)).filter (·.1 = id) = [] := by
    apply List.filter_eq_nil_iff.2
    intro e he
    simpa using (List.mem_filter.1 he).2
  rw [List.filter_cons_of_pos (by simp), hnone] at hperm
  exact List.perm_singleton.1 hperm

theorem perm_set (hn : (l.map Prod.fst).Nodup) (h : (id, a) ∈ l) (b : α) :
    (l.map fun e => if e.1 = id then (id, b) else e).Perm ((id, b) :: l.filter (·.1 ≠ id)) := by
  have hrest : (l.filter (·.1 ≠ id)).map (fun e => if e.1 = id then (id, b) else e) =
      l.filter (·.1 ≠ id) := by
    refine (List.map_congr_left fun e he => ?_).trans (List.map_id _)
    exact if_neg (by simpa using (List.mem_filter.1 he).2)
  have h := (perm_cons_filter hn h).map fun e => if e.1 = id then (id, b) else e
  rwa [List.map_cons, if_pos rfl, hrest] at h

theorem nodup_filter (hn : (l.map Prod.fst).Nodup) (p : Nat × α → Bool) :
    ((l.filter p).map Prod.fst).Nodup :=
  hn.sublist (List.filter_sublist.map _)

/-- The entries of two numbers are replaced. -/
theorem perm_set_set {m : Nat} {c : α} (hn : (l.map Prod.fst).Nodup) (h : (id, a) ∈ l)
    (hm : (m, c) ∈ l) (hne : id ≠ m) (b d : α) :
    ∃ others, l.Perm ((id, a) :: (m, c) :: others) ∧
      ((l.map fun e => if e.1 = m then (m, d) else e).map
        fun e => if e.1 = id then (id, b) else e).Perm ((id, b) :: (m, d) :: others) := by
  have hrest : (id, a) ∈ l.filter (·.1 ≠ m) := List.mem_filter.2 ⟨h, by simpa using hne⟩
  have hold := perm_cons_filter (nodup_filter hn _) hrest
  have hnew := perm_set (nodup_filter hn _) hrest b
  refine ⟨_, ((perm_cons_filter hn hm).trans (hold.cons _)).trans (.swap _ _ _), ?_⟩
  have hset := (perm_set hn hm d).map fun e => if e.1 = id then (id, b) else e
  rw [List.map_cons, if_neg hne.symm] at hset
  exact (hset.trans (hnew.cons _)).trans (.swap _ _ _)

theorem fst_pick_sublist {f : Task → Option α} (l : List (Nat × Task)) :
    ((pick f l).map Prod.fst).Sublist (l.map Prod.fst) := by
  induction l with
  | nil => exact .slnil
  | cons e rest ih =>
    cases h : f e.2 with
    | none => simpa [pick, h] using ih.cons e.1
    | some a => simpa [pick, h] using ih.cons_cons e.1

end Numbered

/-- The executor after the invocations `is` have been submitted. -/
def Executor.taking (x : Executor) (is : List Invocation) : Executor :=
  { x with inFlight := x.inFlight + is.length }

/-- The executor after a job has ended. -/
def Executor.ending (x : Executor) : Executor := { x with inFlight := x.inFlight - 1 }

/-- The job that a task is, if any. -/
def Task.job? : Task → Option Job
  | job j => some j
  | _ => none

namespace World

/-- The jobs with their numbers. -/
def jobs (w : World) : List (Nat × Job) := pick Task.job? w.tasks

variable {w : World} {id : Nat} {j : Job}

theorem mem_jobs : (id, j) ∈ w.jobs ↔ (id, .job j) ∈ w.tasks := by
  simp only [jobs, mem_pick]
  constructor
  · rintro ⟨u, hm, hu⟩
    cases u <;> simp_all [Task.job?]
  · intro h
    exact ⟨_, h, rfl⟩

theorem Tidy.lt_of_mem_jobs (ht : w.Tidy) (h : (id, j) ∈ w.jobs) : id < w.nextTask :=
  ht.fresh id (List.mem_map_of_mem (mem_jobs.1 h))

namespace Tidy

theorem nodup_jobs (ht : w.Tidy) : (w.jobs.map Prod.fst).Nodup :=
  ht.nodup.sublist (fst_pick_sublist w.tasks)

theorem task?_of_mem (ht : w.Tidy) {t : Task} (h : (id, t) ∈ w.tasks) : w.task? id = some t := by
  cases hu : w.task? id with
  | none =>
    have hne := List.lookup_eq_none_iff.1 hu _ h
    simp at hne
  | some u => rw [ht.eq_of_mem (mem_of_task? hu) h]

theorem poll_eq (ht : w.Tidy) (h : (id, j) ∈ w.jobs) (hid : id ≠ supervisorId) :
    w.poll id = w.pollJob id j := by
  simp only [poll, if_neg hid, ht.task?_of_mem (mem_jobs.1 h)]

theorem jobs_setJob (ht : w.Tidy) (h : (id, j) ∈ w.jobs) (k : Job) :
    (w.setTask id (.job k)).jobs = w.jobs.map fun e => if e.1 = id then (id, k) else e :=
  pick_set_of_some rfl fun u hu => by rw [ht.eq_of_mem hu (mem_jobs.1 h)]; rfl

end Tidy

theorem jobs_endTask (w : World) (id : Nat) : (w.endTask id).jobs = w.jobs.filter (·.1 ≠ id) := by
  simpa [jobs, endTask] using pick_filter (f := Task.job?) (l := w.tasks) (· ≠ id)

theorem wake_eq (w : World) (id : Nat) : ∃ ready, w.wake id = { w with ready } := by
  unfold wake
  split <;> exact ⟨_, rfl⟩

/-- The jobs submitted for the invocations `is`, with numbers from `next`. -/
def submitted (next : Nat) (is : List Invocation) : List (Nat × Job) :=
  (is.zipIdx next).map fun (i, id) => (id, { callback := i.1, event := i.2 })

theorem pick_zipIdx (ls : List Listener) (e : Event) (next : Nat) :
    pick Task.job? ((ls.zipIdx next).map fun (l, id) =>
      (id, .job { callback := l.callback, event := e })) =
        submitted next (ls.map fun l => (l.callback, e)) := by
  induction ls generalizing next with
  | nil => rfl
  | cons l ls ih => simpa [pick, submitted, Task.job?] using ih (next + 1)

theorem jobs_handedOut (w : World) (ls : List Listener) (e : Event) :
    (w.handedOut ls e).jobs =
      w.jobs ++ submitted w.nextTask (ls.map fun l => (l.callback, e)) := by
  rw [jobs, handedOut, pick_append, pick_zipIdx]
  rfl

/-- The listeners that events are submitted to: none once the executor is closed. -/
def hearing (w : World) : Registry := if w.executor.closed then w.registry.clear else w.registry

theorem hearing_of_open (ho : w.executor.closed = false) : w.hearing = w.registry := by
  simp [hearing, ho]

theorem accepting_hearing_of_closed (hc : w.executor.closed) (topic : String) (e : Event) :
    w.hearing.accepting topic e = [] := by
  simp [hearing, hc, Registry.clear, Registry.accepting]

theorem mem_hearing {l : Listener} (h : l ∈ w.hearing.listeners) : l ∈ w.registry.listeners := by
  unfold hearing at h
  split at h
  · simp [Registry.clear] at h
  · exact h

/-- `World.publish` submits the event to the listeners of `hearing` that accept it. -/
theorem publish_eq (w : World) (topic : String) (e : Event) : w.publish topic e =
    (w.handedOut (w.hearing.accepting topic e) e, (w.hearing.accepting topic e).length) := by
  cases hc : w.executor.closed with
  | false => rw [publish_of_open hc, hearing_of_open hc]
  | true =>
    rw [publish_of_closed hc, accepting_hearing_of_closed hc]
    simp [handedOut]

/-! ## A change of jobs -/

/-- From `w` to `w'` the invocations `calls` are made, the jobs `gone` are removed, the jobs `come`
are added, and the executor becomes `executor`. -/
structure Shifts (calls : List Invocation) (gone come : List (Nat × Job)) (executor : Executor)
    (w w' : World) : Prop where
  registry : w'.registry = w.registry
  executor : w'.executor = executor
  delivered : w'.trace.delivered = w.trace.delivered ++ calls.filterMap Invocation.record?
  nextTask : w.nextTask ≤ w'.nextTask
  jobs : ∃ others, w.jobs.Perm (gone ++ others) ∧ w'.jobs.Perm (come ++ others)

namespace Shifts

variable {a b : List Invocation} {gone come : List (Nat × Job)} {executor : Executor}
  {u v w : World}

/-- Tasks, executor and registry stay. -/
theorem of_eq (hr : v.registry = u.registry) (he : v.executor = u.executor)
    (hd : v.trace.delivered = u.trace.delivered ++ a.filterMap Invocation.record?)
    (hn : v.nextTask = u.nextTask) (ht : v.tasks = u.tasks) : Shifts a [] [] u.executor u v :=
  ⟨hr, he, hd, Nat.le_of_eq hn.symm, u.jobs, .refl _, by simp [World.jobs, ht]⟩

/-- Invocations may be made before the jobs change. -/
theorem after (h : Shifts a [] [] u.executor u v) (g : Shifts b gone come executor v w) :
    Shifts (a ++ b) gone come executor u w where
  registry := g.registry.trans h.registry
  executor := g.executor
  delivered := by rw [g.delivered, h.delivered, List.filterMap_append, List.append_assoc]
  nextTask := Nat.le_trans h.nextTask g.nextTask
  jobs := by
    obtain ⟨all, hu, hv⟩ := h.jobs
    obtain ⟨others, hg, hw⟩ := g.jobs
    exact ⟨others, (hu.trans hv.symm).trans hg, hw⟩

theorem of_same (h : Shifts a gone come executor u v) (hr : w.registry = v.registry)
    (he : w.executor = v.executor) (hd : w.trace.delivered = v.trace.delivered)
    (hn : w.nextTask = v.nextTask) (ht : w.tasks = v.tasks) :
    Shifts a gone come executor u w where
  registry := hr.trans h.registry
  executor := he.trans h.executor
  delivered := hd.trans h.delivered
  nextTask := hn ▸ h.nextTask
  jobs := by simpa only [World.jobs, ht] using h.jobs

theorem wake (h : Shifts a gone come executor u v) (id : Nat) :
    Shifts a gone come executor u (v.wake id) := by
  obtain ⟨_, heq⟩ := wake_eq v id
  exact heq ▸ h.of_same rfl rfl rfl rfl rfl

end Shifts

theorem range_of_mem_submitted {next : Nat} {is : List Invocation} {e : Nat × Job}
    (h : e ∈ submitted next is) : next ≤ e.1 ∧ e.1 < next + is.length := by
  obtain ⟨⟨i, id⟩, hi, rfl⟩ := List.mem_map.1 h
  have hrange := List.mem_zipIdx hi
  exact ⟨hrange.1, hrange.2.1⟩

theorem le_of_mem_submitted {next : Nat} {is : List Invocation} {e : Nat × Job}
    (h : e ∈ submitted next is) : next ≤ e.1 :=
  (range_of_mem_submitted h).1

theorem phase_of_mem_submitted {next : Nat} {is : List Invocation} {e : Nat × Job}
    (h : e ∈ submitted next is) : e.2.phase = .submitted := by
  obtain ⟨i, -, rfl⟩ := List.mem_map.1 h
  rfl

theorem length_submitted (next : Nat) (is : List Invocation) :
    (submitted next is).length = is.length := by
  simp [submitted]

/-- Publishing makes no invocation at once. It submits jobs. -/
theorem shifts_publish (w : World) (topic : String) (e : Event) :
    Shifts [] [] (submitted w.nextTask (w.hearing.audience topic e))
      (w.executor.taking (w.hearing.audience topic e)) w (w.publish topic e).1 := by
  rw [publish_eq]
  refine ⟨rfl, ?_, ?_, ?_, w.jobs, .refl _, ?_⟩
  · simp [handedOut, Registry.audience, Executor.taking]
  · simp [handedOut]
  · simp [handedOut]
  · rw [jobs_handedOut]
    exact List.perm_append_comm

theorem shifts_setTask (ht : w.Tidy) (h : (id, j) ∈ w.jobs) (k : Job) :
    Shifts [] [(id, j)] [(id, k)] w.executor w (w.setTask id (.job k)) := by
  refine ⟨rfl, rfl, by simp [setTask], Nat.le_refl _, w.jobs.filter (·.1 ≠ id),
    perm_cons_filter ht.nodup_jobs h, ?_⟩
  rw [ht.jobs_setJob h]
  exact perm_set ht.nodup_jobs h k

/-! ## Calls and failures -/

theorem deliver_eq (w : World) (j : Job) : w.deliver j = { w with
    trace.delivered := w.trace.delivered ++
      [(j.callback, j.event)].filterMap Invocation.record? } := by
  unfold deliver
  cases h : j.callback.deed <;> simp [Invocation.record?, h]

theorem foldl_logJob (lines : List String) (w : World) :
    ∃ log, lines.foldl (fun w line => w.logJob (.error line)) w =
      { w with trace.executorLog := log } := by
  induction lines generalizing w with
  | nil => exact ⟨_, rfl⟩
  | cons line lines ih => exact ih (w.logJob (.error line))

/-- Reporting a failure submits it to its `Registry.fallout`. -/
theorem shifts_reportFailure (w : World) (j : Job) (f : CallbackFailure) :
    Shifts [] [] (submitted w.nextTask (w.hearing.fallout j.event (some f)))
      (w.executor.taking (w.hearing.fallout j.event (some f))) w (w.reportFailure j f) := by
  obtain ⟨log, hlog⟩ : ∃ log, f.traceLines.foldl (fun w line => w.logJob (.error line))
      (w.logJob (.error ("Error in " ++ f.name ++ ": " ++ f.description))) =
        { w with trace.executorLog := log } := foldl_logJob _ _
  have hstill : Shifts [] [] [] w.executor w { w with trace.executorLog := log } :=
    .of_eq rfl rfl (by simp) rfl rfl
  unfold reportFailure Registry.fallout
  dsimp only
  rw [hlog]
  split
  · exact hstill
  · exact hstill.after (shifts_publish { w with trace.executorLog := log } _ _)

/-- A job that ends is replaced by those that its failure is submitted to. -/
theorem shifts_endJob (ht : w.Tidy) (h : (id, j) ∈ w.jobs) (failure : Option CallbackFailure) :
    Shifts [] [(id, j)] (submitted w.nextTask (w.hearing.fallout j.event failure))
      (w.executor.taking (w.hearing.fallout j.event failure)).ending w
      (w.endJob id j failure) := by
  have hid : id < w.nextTask := ht.lt_of_mem_jobs h
  have hend {v : World} {is : List Invocation}
      (g : Shifts [] [] (submitted w.nextTask is) (w.executor.taking is) w v) :
      Shifts [] [(id, j)] (submitted w.nextTask is) (w.executor.taking is).ending w
        ({ v with executor.inFlight := v.executor.inFlight - 1 }.endTask id) := by
    refine ⟨g.registry, ?_, g.delivered, g.nextTask, w.jobs.filter (·.1 ≠ id),
      perm_cons_filter ht.nodup_jobs h, ?_⟩
    · simp [endTask, g.executor, Executor.ending]
    · obtain ⟨others, hw, hv⟩ := g.jobs
      have hfresh : (submitted w.nextTask is).filter (·.1 ≠ id) = submitted w.nextTask is := by
        apply List.filter_eq_self.2
        intro e he
        have hle := le_of_mem_submitted he
        simp
        omega
      have hjobs := (hv.trans (hw.symm.append_left _)).filter (·.1 ≠ id)
      rw [List.filter_append, hfresh] at hjobs
      rw [jobs_endTask]
      exact hjobs
  unfold endJob
  cases failure with
  | none => exact hend (.of_eq (a := []) rfl rfl (by simp) rfl rfl)
  | some f => exact hend (shifts_reportFailure w j f)

end World

end Bridge

end PeerLink
