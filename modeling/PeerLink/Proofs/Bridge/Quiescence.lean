import PeerLink.Proofs.Bridge.Seclusion
/-!
# Quiescence

`executor.inFlight` is the number of callbacks that have been accepted and have not finished. While
it is `0`, every accepted callback has finished, including those that a failure was submitted to. If
callbacks publish nothing by themselves and no other task submits any, `World.drain` ends in an idle
world, with the clock at `World.horizon`.

## Main definitions

* `World.Ends`: a callback finishes, and its failure has been submitted before.
* `World.Resolves`: `Step.waitIdle` ends in an idle world at a given time.

## Main statements

* `World.quiescence_of_course`: the accounts of `executor.inFlight`, and the end of waiting.
-/

namespace PeerLink.Bridge

open Connection
open scoped List

namespace World

variable {w : World} {o : Occurrence} {id : Nat} {i : Invocation} {j : Job}

/-- The callbacks that `failure` of `j` is submitted to, with the numbers they are accepted with. -/
def heirs (u : World) (j : Job) (failure : Option CallbackFailure) : List (Nat × Invocation) :=
  numbered u.nextTask (u.hearing.fallout j.event failure)

/-- The job `id` finishes at the occurrence `o`. Its deed is done in `u`, with the failure
`failure`. When `failure` has been submitted, in `u.report j failure`, the job is still pending and
counted by `executor.inFlight`. -/
structure Ends (w : World) (o : Occurrence) (id : Nat) (j : Job) (u : World)
    (failure : Option CallbackFailure) : Prop where
  occurs : o = .go id
  job : (id, j) ∈ w.jobs
  concludes : j.Concludes w u failure
  told : (u.report j failure).pending.Perm (u.pending ++ u.heirs j failure)
  pending : (id, j.invocation) ∈ (u.report j failure).pending
  counted : (u.report j failure).executor.inFlight = (u.report j failure).pending.length
  discharged : w.undergo o = (u.report j failure).discharge id
  accepted : u.heirs j failure ⊆ w.accepts o

/-- Each entry of `w.finishes o` ends as `World.Ends` says. -/
theorem Counted.ends (h : w.Counted) (he : (id, i) ∈ w.finishes o) :
    ∃ j u failure, j.invocation = i ∧ w.Ends o id j u failure := by
  obtain ⟨rfl, j, u, failure, hj, hi, hc, heq⟩ := h.of_mem_finishes he
  obtain ⟨hcounted, hpending⟩ := h.report hj hc
  have htold := pending_report u j failure
  have hdischarged := heq.trans (endJob_eq u id j failure)
  refine ⟨j, u, failure, hi, rfl, hj, hc, htold, hpending, hcounted.inFlight, hdischarged, ?_⟩
  intro e hheir
  obtain ⟨_, hjoins⟩ := gains_of_concludes hc
  have hnumber : u.nextTask ≤ e.1 := by
    obtain ⟨⟨_, n⟩, hn, rfl⟩ := List.mem_map.1 hheir
    exact List.le_snd_of_mem_zipIdx hn
  have hnext : w.nextTask ≤ e.1 := Nat.le_trans hjoins.nextTask hnumber
  have hlt : id < w.nextTask := h.lt_of_mem (mem_pending.2 ⟨j, hj, rfl⟩)
  have hmem : e ∈ (u.report j failure).pending := htold.mem_iff.2 (List.mem_append_right _ hheir)
  rw [accepts, hdischarged, pending_discharge]
  refine List.mem_filter.2 ⟨List.mem_filter.2 ⟨hmem, ?_⟩, by simpa using hnext⟩
  simp only [decide_not, Bool.not_eq_true', decide_eq_false_iff_not]
  omega

/-- Publishing an event accepts the callbacks of its audience, in their order. -/
theorem Counted.accepts_publish (h : w.Counted) (topic : String) (e : Event) :
    w.accepts (.step (.publish topic e)) = numbered w.nextTask (w.hearing.audience topic e) := by
  have henters := (joins_publish w topic e).enters
  rw [pending_submitted] at henters
  exact (h.of_enters henters).1

theorem accepted_append (w : World) (os more : List Occurrence) :
    w.accepted (os ++ more) = w.accepted os ++ (w.course os).accepted more := by
  induction os generalizing w with
  | nil => rfl
  | cons o os ih => rw [List.cons_append, accepted, ih, accepted, List.append_assoc, course_cons]

/-- If `executor.inFlight` is `0`, the accepted callbacks are those that have finished. -/
theorem Counted.perm_of_idle (h : w.Counted) (hnone : w.pending = []) {os : List Occurrence}
    (hi : (w.course os).executor.inFlight = 0) : (w.finished os).Perm (w.accepted os) := by
  obtain ⟨hcounted, hbalance⟩ := h.course os
  have hpending : (w.course os).pending = [] :=
    List.eq_nil_of_length_eq_zero (hcounted.inFlight ▸ hi)
  rwa [hpending, hnone] at hbalance

theorem counted_launch (config : Config) (script : Peer.Script) (plugins : List Plugin)
    (pingStart : Span) : (launch config script plugins pingStart).Counted ∧
      (launch config script plugins pingStart).pending = [] := by
  have hattended := attended_launch config script plugins pingStart
  have hcounted := hattended.counted
  refine ⟨hcounted, List.eq_nil_of_length_eq_zero ?_⟩
  obtain ⟨_, _, h⟩ := launch_eq config script plugins pingStart
  rw [← hcounted.inFlight, h]
  rfl

/-- `Step.waitIdle` ends in an idle world at the time `time`. -/
structure Resolves (w : World) (time : Nat) : Prop where
  idle : (w.take .waitIdle).1.isIdle
  clock : (w.take .waitIdle).1.clock = time
  answer : (w.take .waitIdle).2 = .waited (time - w.clock)

theorem resolves_of_drain {time : Nat} (h : w.drain.isIdle ∧ w.drain.clock = time) :
    w.Resolves time :=
  ⟨h.1, h.2, congrArg (fun clock => Answer.waited (clock - w.clock)) h.2⟩

/-- After the occurrences `os`, `executor.inFlight` is the number of pending callbacks, and these
and the finished ones are the accepted ones. An occurrence increases `executor.inFlight` by the
callbacks it accepts, which are none if the executor is closed, and decreases it by those it
finishes, whose failures have been submitted before. So if `executor.inFlight` is `0`, every
accepted callback has finished, including those that failures were submitted to, and this is where
`World.drainFor` ends.

In a reachable world `v` that is not idle there is a turn. If callbacks publish nothing by
themselves and other tasks submit nothing, `World.drainFor` ends in an idle world with enough fuel,
and `Step.waitIdle` does if other tasks have at most `patience` turns. Once no callback is running
the clock stays. If all deeds are plain the clock is then at `v.horizon`, the end of the last
callback. In a secluded world other tasks have no turn, so `Step.waitIdle` resolves at `v.horizon`,
and `Step.closeExecutor` at the end of the last callback that was accepted before. -/
theorem quiescence_of_course (config : Config) (script : Peer.Script) (plugins : List Plugin)
    (pingStart : Span) (os : List Occurrence) :
    let start := launch config script plugins pingStart
    let w := start.course os
    (w.executor.inFlight = w.pending.length ∧
      (w.pending ++ start.finished os).Perm (start.accepted os) ∧
      ((start.accepted os).map Prod.fst).Nodup) ∧
    (∀ past o rest, os = past ++ o :: rest →
      let v := start.course past
      (v.undergo o).executor.inFlight + (v.finishes o).length =
        v.executor.inFlight + (v.accepts o).length ∧
      (v.executor.closed → v.accepts o = []) ∧
      (∀ topic e, o = .step (.publish topic e) →
        v.accepts o = numbered v.nextTask (v.hearing.audience topic e)) ∧
      ∀ id i, (id, i) ∈ v.finishes o → ∃ j u failure, j.invocation = i ∧
        v.Ends o id j u failure ∧
        (w.executor.inFlight = 0 → u.heirs j failure ⊆ start.finished os)) ∧
    (w.executor.inFlight = 0 → (start.finished os).Perm (start.accepted os)) ∧
    (∀ n, (drainFor n w).isIdle → (drainFor n w).executor.inFlight = 0 ∧
      ∃ more, drainFor n w = w.course more ∧
        (start.finished (os ++ more)).Perm (start.accepted (os ++ more))) ∧
    ∀ v, start.Proceeds v →
      (v.isIdle = false → v.turn.isSome) ∧
      (v.executor.closed → ∀ n, v.isAlone n) ∧
      (∀ n, (v.Mute → v.isAlone n → v.toil + 2 * v.asides n < n → (drainFor n v).isIdle) ∧
        ((drainFor n v).executor.inFlight = 0 →
          (drainFor (n + 1) v).clock = (drainFor n v).clock ∧
          (v.Plain → v.isAlone n → (drainFor n v).clock = v.horizon))) ∧
      (v.Mute → v.isAlone v.allowance → v.asides v.allowance ≤ patience →
        (v.take .waitIdle).1.isIdle ∧ (v.Plain → v.Resolves v.horizon)) ∧
      (v.Plain → v.Secluded →
        (∀ n, v.isAlone n ∧ v.asides n = 0) ∧ v.Resolves v.horizon ∧
        (v.take .closeExecutor).1.isIdle ∧
        (v.take .closeExecutor).1.clock = (v.enter .closeExecutor).horizon ∧
        (v.enter .closeExecutor).horizon ≤ v.horizon) := by
  intro start w
  obtain ⟨hstart, hnone⟩ : start.Counted ∧ start.pending = [] := counted_launch _ _ _ _
  have hattended : start.Attended := attended_launch _ _ _ _
  obtain ⟨hcounted, hbalance⟩ := hstart.course os
  rw [hnone, List.nil_append] at hbalance
  refine ⟨⟨hcounted.inFlight, hbalance, (hstart.nodup_accepted os).1⟩, ?_,
    hstart.perm_of_idle hnone, ?_, ?_⟩
  · rintro past o rest rfl v
    have hv : v.Counted := (hstart.course past).1
    obtain ⟨hafter, hsum, -, hclosed⟩ := hv.balance o
    refine ⟨?_, hclosed, ?_, ?_⟩
    · have hlength := hsum.length_eq
      rw [List.length_append, List.length_append] at hlength
      rw [hafter.inFlight, hv.inFlight]
      exact hlength
    · rintro topic e rfl
      exact hv.accepts_publish topic e
    · intro id i he
      obtain ⟨j, u, failure, hi, hends⟩ := hv.ends he
      refine ⟨j, u, failure, hi, hends, fun hidle n hn => ?_⟩
      rw [(hstart.perm_of_idle hnone hidle).mem_iff, accepted_append, accepted]
      exact List.mem_append_right _ (List.mem_append_left _ (hends.accepted hn))
  · intro n hidle
    have hzero : (drainFor n w).executor.inFlight = 0 := (isIdle_iff.1 hidle).2
    obtain ⟨more, hmore⟩ := leadsTo_drainFor n w
    refine ⟨hzero, more, hmore.symm, hstart.perm_of_idle hnone ?_⟩
    rw [course_append, hmore]
    exact hzero
  · intro v hproceeds
    have hv := hattended.of_proceeds hproceeds
    refine ⟨fun hidle => ?_, hv.isAlone_of_closed, fun n => ⟨fun hm => hv.isIdle_drainFor hm,
      fun hzero => ?_⟩, fun hm halone hle => ?_, fun hplain hs => ?_⟩
    · obtain ⟨_, hturn, -⟩ := hv.turn hidle
      simp [hturn]
    · rw [drainFor_add]
      exact ⟨(hv.drainFor n).clock_drainFor_one hzero,
        fun hplain halone => hv.clock_drainFor hplain halone hzero⟩
    · exact ⟨hv.isIdle_drain hm halone hle,
        fun hplain => resolves_of_drain (hv.drain_of_plain hplain halone hle)⟩
    · obtain ⟨hidle, hclock⟩ := hv.closeExecutor_of_secluded hplain hs
      exact ⟨hv.alone_of_secluded hplain hs, resolves_of_drain (hv.drain_of_secluded hplain hs),
        hidle, hclock, horizon_closed_le v⟩

/-- A bridge that has nothing to connect to. -/
def dormant : World := launch {} {} [] ⟨0⟩

/-- The lamp fails after five milliseconds, and the bell, which its failure is submitted to, takes
seven. -/
def lampAndBell : List Step :=
  [.listen (.ofString "lamp") .any
      { name := "lamp", isAsync := true, delayMs := 5, deed := .fail ["no power"] },
    .listen (.ofString "errors") .any
      { name := "bell", isAsync := true, delayMs := 7, deed := .succeed },
    .publish "lamp" (.itemRemoved "lamp")]

/-- After `lampAndBell`, `Step.waitIdle` resolves at twelve milliseconds, and `Step.closeExecutor`
at five. -/
theorem quiescence_of_course_demo :
    let v := dormant.course (lampAndBell.map .step)
    let os := lampAndBell.map .step ++ [.go 1, .fire 5, .go 1, .go 2, .fire 12, .go 2]
    (dormant.finished os).Perm (dormant.accepted os) ∧
      (dormant.accepted os).map (fun e => e.2.1.name) = ["lamp", "bell"] ∧
      v.Resolves 12 ∧ (v.take .closeExecutor).1.isIdle ∧ (v.take .closeExecutor).1.clock = 5 := by
  intro v os
  have hdormant : launch {} {} [] ⟨0⟩ = dormant := rfl
  have hcounts := quiescence_of_course {} {} [] ⟨0⟩ os
  rw [hdormant] at hcounts
  obtain ⟨-, -, hall, -, hwaits⟩ := hcounts
  have hplain : v.Plain := by
    have hjobs : ∀ e ∈ v.jobs, e.2.callback.deed.isPlain ∧ e.2.isTimed = false := by decide +kernel
    refine ⟨by decide +kernel, fun e he => ⟨(hjobs e he).1, fun call hp => ?_⟩⟩
    have htimed := (hjobs e he).2
    simp [Job.isTimed, hp] at htimed
  have hsecluded : v.Secluded := ⟨by decide +kernel, by decide +kernel⟩
  obtain ⟨-, -, -, -, hends⟩ := hwaits v (Proceeds.steps .start lampAndBell)
  obtain ⟨-, hresolves, hidle, hclock, -⟩ := hends hplain hsecluded
  have hlast : v.horizon = 12 := by decide +kernel
  exact ⟨hall (by decide +kernel), by decide +kernel, hlast ▸ hresolves, hidle,
    hclock.trans (by decide +kernel)⟩

end World

end PeerLink.Bridge
