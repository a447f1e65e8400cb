import PeerLink.Proofs.Bridge.Pulse
import PeerLink.Proofs.Bridge.Stopping
/-!
# Worlds without a supervisor

Once the supervisor is dead there are neither attempts nor readers nor pingers: all tasks are jobs
and errands. An errand has at most two turns, and callbacks publish nothing if the executor is
closed. So `World.stamina`, which weights what is left of them, decreases with every turn, and
`World.drain` ends.

## Main definitions

* `World.Deserted`: the supervisor is dead, and all tasks are jobs and errands.
* `World.stamina`: a bound on the turns of `World.drainFor` in a deserted world.

## Main statements

* `World.Sound.deserted`: a reachable world is deserted if its supervisor is dead.
* `World.TurnsTo.stamina_lt`: each turn decreases `World.stamina`.
* `World.drain_of_dead`: `World.drain` ends without a supervisor once the executor is closed.
-/

namespace PeerLink.Bridge

open Transport Connection

/-- The number of polls after which `t` has ended. -/
def Errand.turns (t : Errand) : Nat := if t.call.isNone then 2 else 1

theorem Errand.turns_pos (t : Errand) : 0 < t.turns := by
  unfold turns
  split <;> exact Nat.succ_pos _

theorem Errand.turns_le (t : Errand) : t.turns ≤ 2 := by
  unfold turns
  split <;> omega

namespace World

variable {w w' v : World} {id : Nat} {t : Errand} {told : Bool}

/-- The supervisor is dead, and all tasks are jobs and errands. -/
structure Deserted (w : World) : Prop where
  dead : w.supervisor.alive = false
  attempts : w.attempts = []
  readers : w.readers = []
  pingers : w.pingers = []

/-- A dead supervisor owns no attempt and no reader. -/
theorem Sound.holds_of_dead (h : w.Sound) (ha : w.supervisor.alive = false) : w.Holds [] [] := by
  cases h.phase with
  | idle hs | trying hs | up hs => exact absurd hs.alive (by simp [ha])
  | gone _ hh => exact hh

theorem Sound.isOnline_of_dead (h : w.Sound) (ha : w.supervisor.alive = false) :
    w.supervisor.isOnline = false := by
  by_contra ho
  exact absurd (h.steady.alive (by simpa using ho)) (by simp [ha])

theorem Sound.deserted {pulses : List Pulse} (h : w.Sound) (hb : Beating pulses w)
    (ha : w.supervisor.alive = false) : w.Deserted := by
  have hholds := h.holds_of_dead ha
  refine ⟨ha, hholds.attempts, hholds.readers, ?_⟩
  by_contra hne
  exact absurd ((hb.pingers h.tidy).2 hne) (by simp [h.isOnline_of_dead ha])

theorem Deserted.errand_of_mem (h : w.Deserted) {t : Task} (ht : (id, t) ∈ w.tasks)
    (hid : id ∉ w.jobs.map Prod.fst) : ∃ u, t = .errand u := by
  cases t with
  | attempt u => simpa [h.attempts] using mem_attempts.2 ht
  | reader u => simpa [h.readers] using mem_readers.2 ht
  | job j => exact absurd (List.mem_map_of_mem (mem_jobs.2 ht)) hid
  | pinger phase => simpa [h.pingers] using mem_pingers.2 ht
  | errand u => exact ⟨u, rfl⟩

/-! ## The measure -/

/-- The number of polls after which all errands have ended. -/
def errandTurns (w : World) : Nat := (w.errands.map (·.2.turns)).sum

/-- A bound on the turns of `World.drainFor` in a deserted world. A poll removes a number from
`ready`, and it adds at most an entry of `timers`, which is later moved to `ready`, and the
supervisor. -/
def stamina (w : World) : Nat :=
  3 * ((w.jobs.map w.burden).sum + w.errandTurns) + 2 * w.timers.length + w.ready.length

theorem length_jobs_add_length_errands (w : World) :
    w.jobs.length + w.errands.length ≤ w.tasks.length := by
  unfold jobs errands
  induction w.tasks with
  | nil => simp [pick]
  | cons e rest ih =>
    obtain ⟨id, t⟩ := e
    cases t <;> simp [pick, Task.job?, Task.errand?] at ih ⊢ <;> omega

theorem Keeps.errandTurns {calls : List Invocation} (h : Keeps calls told w v) :
    v.errandTurns = w.errandTurns := by
  rw [World.errandTurns, h.errands, World.errandTurns]

/-- Waking the supervisor costs one turn. -/
theorem Keeps.stamina_le {calls : List Invocation} (h : Keeps calls told w v)
    (hn : w.ready.Nodup) : v.stamina ≤ w.stamina + 1 := by
  have hready : v.ready.length ≤ (w.ready ++ [supervisorId]).length := by
    refine (List.subperm_of_subset (h.nodup hn) fun n hm => ?_).length_le
    rcases (h.ready n).1 hm with hm | ⟨-, rfl⟩ <;> simp [hm]
  rw [List.length_append, List.length_singleton] at hready
  rw [stamina, stamina, h.jobs, burden_congr h.hearing, h.errandTurns, h.timers]
  omega

/-! ## Turns of errands -/

theorem Tidy.nodup_errands (ht : w.Tidy) : (w.errands.map Prod.fst).Nodup :=
  ht.nodup.sublist (fst_pick_sublist w.tasks)

theorem errands_endTask (w : World) (id : Nat) :
    (w.endTask id).errands = w.errands.filter (·.1 ≠ id) := by
  simpa [errands, endTask] using pick_filter (f := Task.errand?) (l := w.tasks) (· ≠ id)

theorem Tidy.errands_setErrand (ht : w.Tidy) (h : (id, t) ∈ w.errands) (u : Errand) :
    (w.setTask id (.errand u)).errands =
      w.errands.map fun e => if e.1 = id then (id, u) else e :=
  pick_set_of_some rfl fun v hv => by rw [ht.eq_of_mem hv (mem_errands.1 h)]; rfl

theorem Tidy.jobless_errand (ht : w.Tidy) (h : (id, t) ∈ w.errands) : w.Jobless id := by
  refine ⟨ht.fresh id (List.mem_map_of_mem (f := Prod.fst) (mem_errands.1 h)), fun hid => ?_⟩
  obtain ⟨⟨_, j⟩, hj, rfl⟩ := List.mem_map.1 hid
  cases ht.eq_of_mem (mem_errands.1 h) (mem_jobs.1 hj)

theorem sum_turns_perm {l : List (Nat × Errand)} {others : List (Nat × Errand)}
    (h : l.Perm ((id, t) :: others)) :
    (l.map (·.2.turns)).sum = t.turns + (others.map (·.2.turns)).sum := by
  rw [(h.map _).sum_nat, List.map_cons, List.sum_cons]

theorem stamina_endErrand (ht : w.Tidy) (h : (id, t) ∈ w.errands) (reply : Reply) :
    (w.endErrand id t reply).stamina + 3 * t.turns ≤ w.stamina := by
  have hjobs : (w.endErrand id t reply).jobs = w.jobs :=
    jobs_endTask_of_jobless (ht.jobless_errand h)
  have hburden : (w.endErrand id t reply).burden = w.burden := burden_congr rfl
  have herrands : (w.endErrand id t reply).errandTurns + t.turns = w.errandTurns := by
    have hend : (w.endErrand id t reply).errands = w.errands.filter (·.1 ≠ id) :=
      errands_endTask _ id
    rw [errandTurns, errandTurns, hend, sum_turns_perm (perm_cons_filter ht.nodup_errands h)]
    omega
  have htimers : (w.endErrand id t reply).timers.length ≤ w.timers.length :=
    List.length_filter_le _ _
  have hready : (w.endErrand id t reply).ready.length ≤ w.ready.length :=
    List.length_filter_le _ _
  rw [stamina, stamina, hjobs, hburden]
  omega

theorem stamina_sleepErrand (ht : w.Tidy) (h : (id, t) ∈ w.errands) (ms : Nat) (u : Errand) :
    (w.sleep id ms (.errand u)).stamina + 3 * t.turns = w.stamina + 3 * u.turns + 2 := by
  have hjobs : (w.sleep id ms (.errand u)).jobs = w.jobs :=
    jobs_setTask (ht.jobless_errand h) rfl
  have hburden : (w.sleep id ms (.errand u)).burden = w.burden := burden_congr rfl
  have herrands : (w.sleep id ms (.errand u)).errandTurns + t.turns = w.errandTurns + u.turns := by
    have hset : (w.sleep id ms (.errand u)).errands =
        w.errands.map fun e => if e.1 = id then (id, u) else e := ht.errands_setErrand h u
    rw [errandTurns, errandTurns, hset, sum_turns_perm (perm_cons_filter ht.nodup_errands h),
      sum_turns_perm (perm_set ht.nodup_errands h u)]
    omega
  have htimers : (w.sleep id ms (.errand u)).timers.length = w.timers.length + 1 := by
    simp [sleep]
  have hready : (w.sleep id ms (.errand u)).ready = w.ready := rfl
  rw [stamina, stamina, hjobs, hburden, htimers, hready]
  omega

theorem stamina_pollErrand (ht : w.Tidy) (hn : w.ready.Nodup) (h : (id, t) ∈ w.errands) :
    (w.pollErrand id t).stamina ≤ w.stamina := by
  have hended {told : Bool} {v : World} (hv : Keeps [] told w v) (reply : Reply) :
      (v.endErrand id t reply).stamina ≤ w.stamina := by
    have hend := stamina_endErrand (hv.tidy ht) (hv.errands ▸ h) reply
    have hkept := hv.stamina_le hn
    have hturns := t.turns_pos
    omega
  unfold pollErrand
  cases hc : t.call with
  | none =>
    obtain ⟨told, hv⟩ := keeps_begin w t.request
    dsimp only
    split
    next heq =>
      rw [heq] at hv
      exact hended hv _
    next v call ms heq =>
      rw [heq] at hv
      have hsleep := stamina_sleepErrand (hv.tidy ht) (hv.errands ▸ h) ms
        { t with call := some call }
      have hkept : v.stamina ≤ w.stamina + 1 := hv.stamina_le hn
      dsimp only at hsleep
      have hbefore : t.turns = 2 := by simp [Errand.turns, hc]
      have hafter : Errand.turns { t with call := some call } = 1 := rfl
      omega
  | some call =>
    obtain ⟨told, hv⟩ := keeps_finishCall w call
    exact hended hv _

/-! ## Turns -/

theorem Settles.length_ready {come : List (Nat × Job)} (h : Settles come told w w')
    (hn : w'.ready.Nodup) :
    w'.ready.length ≤ w.ready.length + come.countP (·.2.isActive) + 1 := by
  have hsub : w'.ready ⊆
      w.ready ++ (come.filter (·.2.isActive)).map Prod.fst ++ [supervisorId] := by
    intro n hm
    rcases (h.ready n).1 hm with hm | ⟨k, hk, ha⟩ | ⟨-, rfl⟩
    · simp [hm]
    · have hactive : (n, k) ∈ come.filter (·.2.isActive) := List.mem_filter.2 ⟨hk, ha⟩
      exact List.mem_append_left _ (List.mem_append_right _ (List.mem_map_of_mem hactive))
    · simp
  have hlength := (List.subperm_of_subset hn hsub).length_le
  simpa [List.countP_eq_length_filter, Nat.add_assoc] using hlength

theorem Settles.length_timers {come : List (Nat × Job)} (h : Settles come told w w') :
    w'.timers.length = w.timers.length + come.countP (·.2.isTimed) := by
  obtain ⟨ms, -, htimers⟩ := h.timers
  rw [htimers, List.length_append, List.length_map, List.countP_eq_length_filter]

/-- A dead supervisor drops its commands. -/
theorem takeCommands_of_dead (ha : w.supervisor.alive = false) (n : Nat) :
    ∃ commands, takeCommands n w = { w with commands } := by
  induction n generalizing w with
  | zero => exact ⟨w.commands, rfl⟩
  | succ n ih =>
    have hdrop : w.takeCommand = { w with commands := [] } := by simp [takeCommand, ha]
    obtain ⟨commands, h⟩ := ih (w := w.takeCommand) (by rw [hdrop]; exact ha)
    refine ⟨commands, ?_⟩
    rw [takeCommands, h, hdrop]

theorem stamina_fire (hr : w.ready = []) {time : Nat} (ht : (time, id) ∈ w.timers)
    (hn : (w.fire time).ready.Nodup) : (w.fire time).stamina < w.stamina := by
  have hready : (w.fire time).ready.length ≤ (w.timers.filter (·.1 = time)).length := by
    rw [← List.length_map Prod.snd]
    refine (List.subperm_of_subset hn fun n hm => ?_).length_le
    rcases (mem_ready_fire w time n).1 hm with hm | hm
    · simp [hr] at hm
    · exact List.mem_map.2 ⟨(time, n), List.mem_filter.2 ⟨hm, by simp⟩, rfl⟩
  have hdue : 0 < (w.timers.filter (·.1 = time)).length :=
    List.length_pos_of_mem (List.mem_filter.2 ⟨ht, by simp⟩)
  have hsplit := List.length_eq_length_filter_add (l := w.timers) (·.1 = time)
  obtain ⟨ready, heq⟩ := fire_eq w time
  have htimers : (w.fire time).timers = w.timers.filter (·.1 ≠ time) := by rw [heq]
  have hwork : ((w.fire time).jobs.map (w.fire time).burden).sum + (w.fire time).errandTurns =
      (w.jobs.map w.burden).sum + w.errandTurns := by
    rw [heq]
    rfl
  rw [stamina, stamina, hwork, htimers, hr, List.length_nil]
  simp only [decide_not] at hsplit ⊢
  omega

/-- Polling a job does not increase `stamina`, also if it wakes the supervisor. -/
theorem Poised.stamina_le {j : Job} (h : w.Poised id j) (hm : w.Mute) :
    (w.pollJob id j).stamina ≤ w.stamina := by
  obtain ⟨gone, come, executor, told, hwork, hshift, -, hsettles⟩ := h.turn_of_mute hm
  obtain ⟨others, hold, hnew⟩ := hshift.sum_burden hwork.closed
  have hless := hwork.burden_lt
  have hready := hsettles.length_ready h.attended.orderly.nodup
  have htimers := hsettles.length_timers
  have herrands : (w.pollJob id j).errandTurns = w.errandTurns := by
    rw [errandTurns, hsettles.errands, errandTurns]
  rw [stamina, stamina, hold, hnew, herrands, htimers]
  omega

/-- Taking a number off `ready` decreases `stamina`. -/
theorem stamina_of_ready {rest : List Nat} (hr : w.ready = id :: rest) :
    stamina { w with ready := rest } + 1 = w.stamina := by
  have hsame : stamina { w with ready := rest } = 3 * ((w.jobs.map w.burden).sum + w.errandTurns) +
      2 * w.timers.length + rest.length := rfl
  rw [hsame, stamina, hr, List.length_cons, Nat.add_assoc]

/-- Polling a task that is no job does not increase `stamina` in a deserted world. -/
theorem Deserted.stamina_poll (h : w.Deserted) (ht : w.Tidy) (hn : w.ready.Nodup)
    (hid : id ∉ w.jobs.map Prod.fst) : (w.poll id).stamina ≤ w.stamina := by
  by_cases hfirst : id = supervisorId
  · obtain ⟨commands, heq⟩ := takeCommands_of_dead h.dead w.commands.length
    have hpoll : w.poll id = { w with commands } := by
      rw [hfirst, ← heq]
      rfl
    rw [hpoll]
    exact Nat.le_refl w.stamina
  · unfold World.poll
    rw [if_neg hfirst]
    cases htask : w.task? id with
    | none => exact Nat.le_refl _
    | some t =>
      have hmem := mem_of_task? htask
      obtain ⟨t, rfl⟩ := h.errand_of_mem hmem hid
      exact stamina_pollErrand ht hn (mem_errands.2 hmem)

/-- Each turn decreases `stamina` in a deserted world in which callbacks publish nothing. -/
theorem TurnsTo.stamina_lt (h : w.TurnsTo v) (hw : w.Attended) (hd : w.Deserted) (hm : w.Mute) :
    v.stamina < w.stamina := by
  cases h with
  | @job id rest j hr hpoised =>
    have hpolled := hpoised.stamina_le hm
    have hless := stamina_of_ready hr
    omega
  | @aside id rest hr hid hgains =>
    have htidy : Tidy { w with ready := rest } := ⟨hw.tidy.nodup, hw.tidy.fresh, hw.tidy.pinger⟩
    have hdeserted : Deserted { w with ready := rest } :=
      ⟨hd.dead, hd.attempts, hd.readers, hd.pingers⟩
    have hnodup : rest.Nodup := (List.nodup_cons.1 (hr ▸ hw.orderly.nodup)).2
    have hpolled := hdeserted.stamina_poll htidy hnodup hid
    have hless := stamina_of_ready hr
    omega
  | @time time hr hjobs hdue =>
    obtain ⟨⟨_, n⟩, hn, rfl⟩ := List.mem_map.1 (List.min?_eq_some_iff.1 hdue).1
    exact stamina_fire hr hn (hw.fire (nextDue_le hdue)).orderly.nodup

/-! ## Waiting without a supervisor -/

/-- The fuel of `World.drain` exceeds `stamina`. -/
theorem stamina_lt_allowance (w : World) : w.stamina < w.allowance := by
  have hjobs := w.sum_burden_le
  have herrands : w.errandTurns ≤ w.errands.length * 2 := by
    have hle := List.sum_le_card_nsmul (w.errands.map (·.2.turns)) 2
      (List.forall_mem_map.2 fun e _ => e.2.turns_le)
    rwa [List.length_map, smul_eq_mul] at hle
  have hall : (w.jobs.length + w.errands.length) * (6 * (w.registry.size + 1)) ≤
      w.tasks.length * (6 * (w.registry.size + 1)) :=
    Nat.mul_le_mul_right _ w.length_jobs_add_length_errands
  have hsix : w.errands.length * 2 ≤ w.errands.length * (6 * (w.registry.size + 1)) :=
    Nat.mul_le_mul_left _ (by omega)
  have htasks := w.allowance_tasks
  rw [Nat.add_mul] at hall
  unfold stamina allowance
  omega

/-- A dead supervisor takes no command and is unchanged. -/
theorem Run.of_not_alive {log : List Handled} (g : Run w log w')
    (ha : w.supervisor.alive = false) : log = [] ∧ w'.supervisor = w.supervisor := by
  induction g with
  | start => exact ⟨rfl, rfl⟩
  | step _ hm ih =>
    obtain ⟨rfl, hs⟩ := ih
    rcases hm.supervisor_or with ⟨rfl, hsame⟩ | ⟨d, -, -, -, halive, -⟩
    · exact ⟨rfl, hsame.trans hs⟩
    · rw [hs, ha] at halive
      cases halive

section

variable {config : Config} {script : Peer.Script} {plugins : List Plugin} {pingStart : Span}

/-- A reachable world whose supervisor is dead is deserted. -/
theorem deserted_of_proceeds (h : (launch config script plugins pingStart).Proceeds w)
    (ha : w.supervisor.alive = false) : w.Deserted := by
  obtain ⟨os, rfl⟩ := h.leadsTo
  have hsound : (launch config script plugins pingStart).Sound := sound_launch
  exact (hsound.run (run_course hsound.tidy os)).deserted
    (beating_course config script plugins pingStart os) ha

/-- Without a supervisor waiting ends, if callbacks publish nothing. -/
theorem isIdle_drainFor_of_dead (h : (launch config script plugins pingStart).Proceeds w)
    (ha : w.supervisor.alive = false) (hm : w.Mute) {n : Nat} (hn : w.stamina < n) :
    (drainFor n w).isIdle := by
  induction n generalizing w with
  | zero => exact absurd hn (Nat.not_lt_zero _)
  | succ n ih =>
    cases hidle : w.isIdle with
    | true => exact (drainFor_of_isIdle hidle (n + 1)).symm ▸ hidle
    | false =>
      have hw := (attended_launch config script plugins pingStart).of_proceeds h
      obtain ⟨v, hturn, -, hturns⟩ := hw.turn hidle
      have hless := hturns.stamina_lt hw (deserted_of_proceeds h ha) hm
      have hdead : v.supervisor.alive = false := by
        obtain ⟨os, rfl⟩ := leadsTo_turn hturn
        rw [((run_course hw.tidy os).of_not_alive ha).2, ha]
      rw [drainFor_succ hidle hturn]
      exact ih (proceeds_turn h hturn) hdead (hturns.mute hm) (by omega)

/-- `World.drain` ends without a supervisor once the executor is closed. -/
theorem drain_of_dead (h : (launch config script plugins pingStart).Proceeds w)
    (ha : w.supervisor.alive = false) (hc : w.executor.closed) :
    w.drain.isIdle ∧ w.drain.executor.closed ∧ w.drain.supervisor.alive = false := by
  have hw := (attended_launch config script plugins pingStart).of_proceeds h
  obtain ⟨more, hmore⟩ := leadsTo_drainFor w.allowance w
  have hrun := run_course hw.tidy more
  have hclosed := closed_course w more
  rw [hmore] at hrun hclosed
  refine ⟨isIdle_drainFor_of_dead h ha (.inl hc) w.stamina_lt_allowance, ?_, ?_⟩
  · exact hclosed.trans (by rw [hc, Bool.true_or])
  · exact (congrArg Supervisor.alive (hrun.of_not_alive ha).2).trans ha

end

end World

end PeerLink.Bridge
