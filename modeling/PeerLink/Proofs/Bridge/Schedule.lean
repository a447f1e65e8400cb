import PeerLink.Proofs.Bridge.Course
import PeerLink.Proofs.Bridge.Moves
/-!
# Courses are runs

Each occurrence consists of moves, so what holds on every run holds on every course, and for the
scheduler in particular. `World.AttemptTurn` and `World.ReaderTurn` describe the polls of attempts
and readers more precisely than moves.

## Main definitions

* `World.AttemptTurn`, `World.ReaderTurn`: one poll of an attempt, and of a reader.
* `World.scheduled`: polls tasks in a given order.
* `World.taken`: the commands taken on a course.
* `World.Reaches`: there is a run from one world to another.

## Main statements

* `World.run_poll`, `World.run_scheduled`: polls of tasks are runs.
* `World.run_course`: every course is a run.
* `World.reaches_settle`, `World.reaches_take`: the scheduler and all steps are runs.
-/

namespace PeerLink.Bridge

open Transport Connection

/-- Whether the delay of an attempt has not ended. -/
def AttemptPhase.isDelayed : AttemptPhase → Bool
  | planned _ | sleeping => true
  | askedIdentity _ | askedRoot _ _ => false

namespace World

/-! ## Polls of attempts and readers -/

section Attempts

/-- The world after the attempt `t` has sent that its delay is over, if it was delayed. -/
def begun (w : World) (t : AttemptTask) : World :=
  if t.phase.isDelayed then (w.send (.attempting t.epoch)).1 else w

/-- One poll of the attempt `t`. -/
inductive AttemptTurn (w : World) (id : Nat) (t : AttemptTask) : World → Prop where
  | sleeps {delay : Span} (hp : t.phase = .planned delay) :
      AttemptTurn w id t (w.sleep id delay.millisUp (.attempt { t with phase := .sleeping }))
  /-- The attempt waits for an answer of the server. -/
  | asks {v : World} {ms : Nat} {phase : AttemptPhase} (hb : Beside [] (w.begun t) v)
      (hp : phase.isDelayed = false) :
      AttemptTurn w id t (v.sleep id ms (.attempt { t with phase }))
  | answers {v : World} (hb : Beside [] (w.begun t) v) (result : Except Error PeerInfo) :
      AttemptTurn w id t ((v.send (.handshakeDone t.epoch result)).1.endTask id)

variable {w v : World} {id : Nat} {t : AttemptTask}

theorem attemptTurn_takeRoot (hb : Beside [] (w.begun t) v) (uuid : String)
    (reply : Except Error Response) : AttemptTurn w id t (v.takeRoot id t uuid reply) := by
  unfold takeRoot
  dsimp only
  split
  · exact .answers (hb.andThen (beside_log v _)) _
  · exact .answers hb _

theorem attemptTurn_takeIdentity (hb : Beside [] (w.begun t) v) (reply : Except Error Response) :
    AttemptTurn w id t (v.takeIdentity id t reply) := by
  unfold takeIdentity
  split
  · exact .answers hb _
  next uuid _ =>
    have h := hb.andThen (beside_begin v Probe.root)
    split
    next v' reply heq =>
      rw [heq] at h
      exact attemptTurn_takeRoot h uuid _
    next v' call ms heq =>
      rw [heq] at h
      exact .asks h rfl

theorem attemptTurn_makeAttempt (hp : t.phase.isDelayed) :
    AttemptTurn w id t (w.makeAttempt id t) := by
  have hbegun : w.begun t = (w.send (.attempting t.epoch)).1 := if_pos hp
  unfold makeAttempt
  rcases Decidable.em (w.supervisor.alive = true) with ha | ha
  · obtain ⟨ready, heq⟩ := send_of_alive ha (.attempting t.epoch)
    rw [heq] at hbegun ⊢
    have h := beside_begin (w.begun t) (Probe.identity t.expectSuccess)
    rw [hbegun] at h
    dsimp only
    split
    next v' reply heq =>
      rw [heq, ← hbegun] at h
      exact attemptTurn_takeIdentity h _
    next v' call ms heq =>
      rw [heq, ← hbegun] at h
      exact .asks h rfl
  · -- without a supervisor the attempt ends as if it had sent its result
    have hend : AttemptTurn w id t
        (((w.begun t).send (.handshakeDone t.epoch (.error .notConfigured))).1.endTask id) :=
      .answers (.refl _) _
    rw [hbegun, send_of_not_alive ha, send_of_not_alive ha] at hend
    rw [send_of_not_alive ha]
    exact hend

/-- Polling an attempt is a case of `AttemptTurn`. -/
theorem attemptTurn_poll (w : World) (id : Nat) (t : AttemptTask) :
    AttemptTurn w id t (w.pollAttempt id t) := by
  have hcall (call : Call) (hp : t.phase.isDelayed = false) :
      Beside [] (w.begun t) (w.finishCall call).1 := by
    have hbegun : w.begun t = w := if_neg (by simp [hp])
    rw [hbegun]
    exact beside_finishCall w call
  unfold pollAttempt
  split
  next delay hp =>
    split
    · exact attemptTurn_makeAttempt (by simp [hp, AttemptPhase.isDelayed])
    · exact .sleeps hp
  next hp => exact attemptTurn_makeAttempt (by simp [hp, AttemptPhase.isDelayed])
  next call hp =>
    exact attemptTurn_takeIdentity (hcall call (by simp [hp, AttemptPhase.isDelayed])) _
  next uuid call hp =>
    exact attemptTurn_takeRoot (hcall call (by simp [hp, AttemptPhase.isDelayed])) uuid _

theorem run_begun (h : (id, t) ∈ w.attempts) : Run w [] (w.begun t) := by
  unfold begun
  split
  · exact .of_move (.tries h)
  · exact .start

theorem attempts_begun (w : World) (t : AttemptTask) : (w.begun t).attempts = w.attempts := by
  unfold begun
  split
  · obtain ⟨_, _, heq⟩ := send_spec w (.attempting t.epoch)
    rw [heq]
    rfl
  · rfl

theorem AttemptTurn.run {w' : World} (h : (id, t) ∈ w.attempts) (g : AttemptTurn w id t w') :
    Run w [] w' := by
  have hsleep {v : World} (hv : (id, t) ∈ v.attempts) (ms : Nat) (phase : AttemptPhase) :
      Run v [] (v.sleep id ms (.attempt { t with phase })) :=
    (Run.of_move (.asks (u := { t with phase }) hv rfl)).andThen
      (.of_beside (.of_eq rfl rfl rfl rfl rfl rfl rfl rfl rfl))
  have hto {v : World} (hb : Beside [] (w.begun t) v) : (id, t) ∈ v.attempts ∧ Run w [] v :=
    ⟨by rw [hb.attempts, attempts_begun]; exact h, (run_begun h).andThen (.of_beside hb)⟩
  cases g with
  | sleeps hp => exact hsleep h _ _
  | asks hb hp => exact (hto hb).2.andThen (hsleep (hto hb).1 _ _)
  | answers hb result => exact (hto hb).2.andThen (.of_move (.answers (hto hb).1 result))

end Attempts

section Readers

/-- One poll of the reader `t`, which keeps its epoch, its session and its layout. -/
inductive ReaderTurn (w : World) (id : Nat) (t : ReaderTask) : World → Prop where
  | waits {v : World} {decoder : Sse.Decoder} {stream : Option Nat} {phase : ReaderPhase}
      {timers : List (Nat × Nat)} (hb : Beside [] w v) : ReaderTurn w id t
        { v.setTask id (.reader { t with decoder, stream, phase }) with timers }
  | ends {v : World} (hb : Beside [] w v) (ending : Feed.End) :
      ReaderTurn w id t ((v.send (.streamEnded t.epoch ending)).1.endTask id)

/- A reader may have another decoder, stream and phase in the midst of what it does. -/
variable {w v : World} {id : Nat} {t : ReaderTask} (decoder : Sse.Decoder) (stream : Option Nat)
  (phase : ReaderPhase)

theorem readerTurn_end (hb : Beside [] w v) (ending : Feed.End) :
    ReaderTurn w id t (v.endReader id { t with decoder, stream, phase } ending) :=
  .ends (hb.andThen (beside_dropStream v _)) ending

/-- Taking pieces leaves the reader or ends it. -/
theorem readerTurn_pieces (hb : Beside [] w v) (pieces : List Piece) :
    ReaderTurn w id t (match World.takePieces v { t with decoder, stream, phase } pieces with
      | (w, t, some e) => w.endReader id t e
      | (w, t, none) => w.setTask id (.reader { t with phase := .reading })) := by
  have hb := hb.andThen (beside_takePieces v { t with decoder, stream, phase } pieces)
  obtain ⟨decoder', ht⟩ := takePieces_task v { t with decoder, stream, phase } pieces
  split
  next v' t' e heq =>
    rw [heq] at hb ht
    obtain rfl : t' = { t with decoder := decoder', stream, phase } := ht
    exact readerTurn_end decoder' stream phase hb e
  next v' t' heq =>
    rw [heq] at hb ht
    obtain rfl : t' = { t with decoder := decoder', stream, phase } := ht
    exact .waits hb

theorem readerTurn_read (hb : Beside [] w v) :
    ReaderTurn w id t (v.read id { t with decoder, stream, phase }) := by
  have hpieces (streams : List OpenStream) (pieces : List Piece) :=
    @readerTurn_pieces w _ id t decoder stream phase
      (hb.andThen (.of_eq (v := { v with streams }) rfl rfl rfl rfl rfl rfl rfl rfl rfl)) pieces
  exact hpieces _ _

theorem readerTurn_takeStream (hb : Beside [] w v) (answer : Except Failure Unit) :
    ReaderTurn w id t (v.takeStream id { t with decoder, stream, phase } answer) := by
  unfold takeStream
  split
  · exact readerTurn_end decoder stream phase hb _
  · exact readerTurn_read decoder stream phase (hb.andThen (beside_log v _))

/-- The reader takes the answer at once or sleeps until it arrives. -/
theorem readerTurn_opening (hb : Beside [] w v) (answer : Except Failure Unit) (ms : Nat) :
    ReaderTurn w id t (match ms with
      | 0 => v.takeStream id { t with decoder, stream, phase } answer
      | ms => v.sleep id ms (.reader { t with decoder, stream, phase := .opening answer })) := by
  split
  · exact readerTurn_takeStream decoder stream phase hb answer
  · exact .waits hb

theorem readerTurn_openStream (w : World) (id : Nat) (t : ReaderTask) :
    ReaderTurn w id t (w.openStream id t) := by
  unfold openStream
  dsimp only
  cases w.script.openStream (Feed.outgoing t.session t.layout) with
  | mk answer script =>
    cases answer with
    | ok body =>
      refine readerTurn_opening t.decoder (some w.nextStream) t.phase ?_ _ _
      exact .of_eq rfl rfl rfl rfl rfl rfl rfl rfl rfl
    | error cause =>
      refine readerTurn_opening t.decoder t.stream t.phase ?_ _ _
      exact .of_eq rfl rfl rfl rfl rfl rfl rfl rfl rfl

/-- Polling a reader is a case of `ReaderTurn`. -/
theorem readerTurn_poll (w : World) (id : Nat) (t : ReaderTask) :
    ReaderTurn w id t (w.pollReader id t) := by
  unfold pollReader
  split
  · exact readerTurn_openStream w id t
  · exact readerTurn_takeStream t.decoder t.stream t.phase (.refl w) _
  · exact readerTurn_read t.decoder t.stream t.phase (.refl w)

theorem ReaderTurn.run {w' : World} (h : (id, t) ∈ w.readers) (g : ReaderTurn w id t w') :
    Run w [] w' := by
  cases g with
  | @waits v decoder stream phase timers hb =>
    have hwaits := Run.of_move
      (Move.reads (t := t) (u := { t with decoder, stream, phase }) (hb.readers ▸ h) rfl)
    exact ((Run.of_beside hb).andThen hwaits).andThen
      (.of_beside (.of_eq rfl rfl rfl rfl rfl rfl rfl rfl rfl))
  | ends hb ending => exact (Run.of_beside hb).andThen (.of_move (.ends (hb.readers ▸ h) ending))

end Readers

/-! ## Occurrences -/

section

variable {w : World}

/-- One move that takes no command. -/
inductive Happens (w : World) : World → Prop where
  | beside {w' : World} (h : Beside [] w w') : Happens w w'
  | attempt {id : Nat} {t : AttemptTask} {w' : World} (h : (id, t) ∈ w.attempts)
      (g : AttemptTurn w id t w') : Happens w w'
  | reader {id : Nat} {t : ReaderTask} {w' : World} (h : (id, t) ∈ w.readers)
      (g : ReaderTurn w id t w') : Happens w w'

theorem Happens.run {w' : World} (h : w.Happens w') : Run w [] w' := by
  cases h with
  | beside hb => exact .of_beside hb
  | attempt h g => exact g.run h
  | reader h g => exact g.run h

theorem happens_poll (ht : w.Tidy) {id : Nat} (hid : id ≠ supervisorId) :
    w.Happens (w.poll id) := by
  unfold poll
  rw [if_neg hid]
  split
  next t h => exact .attempt (mem_attempts.2 (mem_of_task? h)) (attemptTurn_poll w id t)
  next t h => exact .reader (mem_readers.2 (mem_of_task? h)) (readerTurn_poll w id t)
  next j h => exact .beside (beside_pollJob ht (ht.spare (mem_of_task? h) rfl rfl) j)
  next phase h => exact .beside (beside_pollPinger (ht.spare (mem_of_task? h) rfl rfl) phase)
  next t h => exact .beside (beside_pollErrand (ht.spare (mem_of_task? h) rfl rfl) t)
  · exact .beside (.refl w)

theorem run_poll (ht : w.Tidy) {id : Nat} (hid : id ≠ supervisorId) : Run w [] (w.poll id) :=
  (happens_poll ht hid).run

/-- Polls the tasks of a list in order, where the supervisor takes one command, and returns the
commands taken and the world. -/
def scheduled : List Nat → World → List Handled × World
  | [], w => ([], w)
  | id :: ids, w =>
    let (taken, next) :=
      if id = supervisorId then (w.upcoming, w.takeCommand) else ([], w.poll id)
    let (log, last) := scheduled ids next
    (taken ++ log, last)

/-- Polling tasks in any order is a run. -/
theorem run_scheduled (ht : w.Tidy) (ids : List Nat) :
    Run w (scheduled ids w).1 (scheduled ids w).2 := by
  induction ids generalizing w with
  | nil => exact .start
  | cons id ids ih =>
    unfold scheduled
    by_cases hid : id = supervisorId
    · rw [if_pos hid]
      have hm := Run.of_move (.command w)
      exact hm.trans (ih (hm.tidy ht))
    · rw [if_neg hid]
      have hp := run_poll ht hid
      exact hp.trans (ih (hp.tidy ht))

/-! ## Courses -/

theorem beside_fire (w : World) (t : Nat) : Beside [] w (w.fire t) :=
  Beside.andThen (v := { w with clock := t, timers := w.timers.filter (·.1 ≠ t) })
    (.of_eq rfl rfl rfl rfl rfl rfl rfl rfl rfl) (beside_foldl beside_wake _ _)

theorem beside_feed (w : World) (piece : Piece) : Beside [] w (w.feed piece).1 := by
  have hwake (streams : List OpenStream) (id : Nat) : Beside [] w (wake { w with streams } id) :=
    Beside.andThen (v := { w with streams }) (.of_eq rfl rfl rfl rfl rfl rfl rfl rfl rfl)
      (beside_wake _ id)
  unfold feed
  split
  · exact hwake _ _
  · exact .refl w

theorem beside_enter (w : World) (s : Step) : Beside [] w (w.enter s) := by
  cases s with
  | feed piece => exact beside_feed w piece
  | request r => exact beside_begin w r
  | publish topic e => exact beside_publish w topic e
  | echoPing => exact beside_publish w _ _
  | spawn tag r => exact beside_spawn w rfl rfl
  | setOffline reason => exact beside_send trivial
  | configure config => exact beside_send trivial
  | shutdown => exact beside_send trivial
  | _ => exact .of_eq rfl rfl rfl rfl rfl rfl rfl rfl rfl

theorem undergo_supervisor (w : World) : w.undergo (.go supervisorId) = w.takeCommand := by
  simp [undergo]

/-- Occurrences other than polls are beside the connection. -/
theorem beside_undergo (w : World) {o : Occurrence} (hgo : ∀ id, o ≠ .go id) :
    Beside [] w (w.undergo o) := by
  cases o with
  | go id => exact absurd rfl (hgo id)
  | answer call => exact beside_finishCall w call
  | fire time => exact beside_fire w time
  | step s => exact beside_enter w s
  | clock | order | note => exact .of_eq rfl rfl rfl rfl rfl rfl rfl rfl rfl

theorem happens_undergo (ht : w.Tidy) {o : Occurrence} (hgo : o ≠ .go supervisorId) :
    w.Happens (w.undergo o) := by
  cases o with
  | go id =>
    have hid : id ≠ supervisorId := fun h => hgo (congrArg Occurrence.go h)
    simpa only [undergo, if_neg hid] using happens_poll ht hid
  | _ => exact .beside (beside_undergo w (by simp))

/-- The command taken at an occurrence, if any. -/
def takes (w : World) : Occurrence → List Handled
  | .go id => if id = supervisorId then w.upcoming else []
  | _ => []

theorem takes_supervisor (w : World) : w.takes (.go supervisorId) = w.upcoming := by simp [takes]

theorem takes_of_ne (w : World) {o : Occurrence} (hgo : o ≠ .go supervisorId) :
    w.takes o = [] := by
  cases o with
  | go id =>
    have hid : id ≠ supervisorId := fun h => hgo (congrArg Occurrence.go h)
    simp [takes, hid]
  | _ => rfl

/-- The commands taken on a course, in order. -/
def taken (w : World) : List Occurrence → List Handled
  | [] => []
  | o :: os => w.takes o ++ (w.undergo o).taken os

theorem run_undergo (ht : w.Tidy) (o : Occurrence) : Run w (w.takes o) (w.undergo o) := by
  rcases Classical.em (o = .go supervisorId) with rfl | hgo
  · rw [takes_supervisor, undergo_supervisor]
    exact .of_move (.command w)
  · rw [takes_of_ne w hgo]
    exact (happens_undergo ht hgo).run

/-- Every course is a run. -/
theorem run_course (ht : w.Tidy) (os : List Occurrence) : Run w (w.taken os) (w.course os) := by
  induction os generalizing w with
  | nil => exact .start
  | cons o os ih =>
    have h := run_undergo ht o
    exact h.trans (ih (h.tidy ht))

/-- A property that holds at the start and is preserved by occurrences holds on every course. -/
theorem course_induction {P : List Handled → World → Prop} (hw : P [] w)
    (hstep : ∀ log v o, P log v → P (log ++ v.takes o) (v.undergo o)) (os : List Occurrence) :
    P (w.taken os) (w.course os) := by
  have h (log : List Handled) (v : World) (os : List Occurrence) (hv : P log v) :
      P (log ++ v.taken os) (v.course os) := by
    induction os generalizing log v with
    | nil => simpa [taken] using hv
    | cons o os ih => simpa [taken] using ih _ _ (hstep log v o hv)
  exact h [] w os hw

/-- There is a run from `w` to `w'`. -/
def Reaches (w w' : World) : Prop := ∃ log, Run w log w'

theorem LeadsTo.reaches {w' : World} (h : w.LeadsTo w') (ht : w.Tidy) : w.Reaches w' := by
  obtain ⟨os, rfl⟩ := h
  exact ⟨_, run_course ht os⟩

theorem reaches_settle (ht : w.Tidy) : w.Reaches w.settle := (leadsTo_settle w).reaches ht

/-- Every step is a run. -/
theorem reaches_take (ht : w.Tidy) (s : Step) : w.Reaches (w.take s).1 :=
  (leadsTo_take w s).reaches ht

end

end World

end PeerLink.Bridge
