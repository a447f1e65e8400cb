import PeerLink.Proofs.Bridge.Gains
/-!
# The shutdown command is taken

A command that has been sent stays in `commands`, and the supervisor stays in `ready` at the same
place or further ahead, until the supervisor is polled. `World.settle` polls every task in `ready`,
so after it the supervisor has taken the command to shut down.

## Main definitions

* `World.Awaits`: a command is in `commands`, and the supervisor is among the first `n` in `ready`.
* `World.Doomed`: the supervisor is dead, or it awaits the command to shut down.

## Main statements

* `World.Awaits.poll`: polling another task preserves `World.Awaits`.
* `World.alive_settle_eq_false`: the supervisor is dead after `send .shutdown` and `settle`.
-/

namespace PeerLink.Bridge.World

open Transport Connection

/-- The command `c` is in `commands`, and the supervisor is among the first `n` tasks in `ready`. -/
def Awaits (w : World) (n : Nat) (c : Command) : Prop :=
  supervisorId ∈ w.ready.take n ∧ c ∈ w.commands

theorem mem_take_filter {α : Type} {p : α → Bool} {l : List α} {n : Nat} {a : α}
    (h : a ∈ l.take n) (ha : p a) : a ∈ (l.filter p).take n := by
  induction l generalizing n with
  | nil => simp at h
  | cons b l ih =>
    cases n with
    | zero => simp at h
    | succ n =>
      rw [List.take_succ_cons, List.mem_cons] at h
      cases hb : p b with
      | true =>
        rw [List.filter_cons_of_pos hb, List.take_succ_cons, List.mem_cons]
        exact h.imp_right ih
      | false =>
        rw [List.filter_cons_of_neg (by simp [hb])]
        have hl : a ∈ l.take n := h.resolve_left fun heq => by simp [← heq, ha] at hb
        exact (List.take_prefix_take_left (Nat.le_succ n)).subset (ih hl)

theorem mem_take_append {α : Type} {l : List α} {n : Nat} {a : α} (h : a ∈ l.take n)
    (more : List α) : a ∈ (l ++ more).take n := by
  rw [List.take_append]
  exact List.mem_append_left _ h

namespace Awaits

variable {w : World} {n : Nat} {c : Command} {id : Nat}

/-! ## Operations on tasks -/

@[grind .]
theorem log (h : w.Awaits n c) (l : LogLine) : (w.log l).Awaits n c := h

@[grind .]
theorem logJob (h : w.Awaits n c) (l : LogLine) : (w.logJob l).Awaits n c := h

@[grind .]
theorem observe (h : w.Awaits n c) (out : Outgoing) : (w.observe out).Awaits n c := h

@[grind .]
theorem setTask (h : w.Awaits n c) (id : Nat) (t : Task) : (w.setTask id t).Awaits n c := h

@[grind .]
theorem sleep (h : w.Awaits n c) (id ms : Nat) (t : Task) : (w.sleep id ms t).Awaits n c := h

@[grind .]
theorem wake (h : w.Awaits n c) (id : Nat) : (w.wake id).Awaits n c := by
  unfold World.wake
  split
  · exact h
  · exact ⟨mem_take_append h.1 _, h.2⟩

@[grind .]
theorem endTask (h : w.Awaits n c) (hid : id ≠ supervisorId) : (w.endTask id).Awaits n c :=
  ⟨mem_take_filter h.1 (by simpa using hid.symm), h.2⟩

@[grind .]
theorem send (h : w.Awaits n c) (d : Command) : (w.send d).1.Awaits n c := by
  have hqueue : Awaits { w with commands := w.commands ++ [d] } n c :=
    ⟨h.1, List.mem_append_left _ h.2⟩
  unfold World.send
  split
  · exact hqueue.wake supervisorId
  · exact h

@[grind .]
theorem finishCall (h : w.Awaits n c) (call : Call) : (w.finishCall call).1.Awaits n c := by
  grind [World.finishCall]

@[grind .]
theorem begin (h : w.Awaits n c) (r : Request) : (w.begin r).1.Awaits n c := by
  have hsent (script : Peer.Script) (out : Outgoing) :
      (World.observe { w with script } out).Awaits n c := h
  grind [World.begin]

@[grind .]
theorem publish (h : w.Awaits n c) (topic : String) (e : Event) :
    (w.publish topic e).1.Awaits n c := by
  rw [publish_eq]
  exact ⟨mem_take_append h.1 _, h.2⟩

/-! ## Callbacks -/

@[grind .]
theorem deliver (h : w.Awaits n c) (j : Job) : (w.deliver j).Awaits n c := by
  rw [deliver_eq]
  exact h

@[grind .]
theorem perform (h : w.Awaits n c) (j : Job) : (w.perform j).1.Awaits n c := by
  have hping (ping : Ping) : Awaits { w with ping } n c := h
  grind [World.perform]

@[grind .]
theorem release (h : w.Awaits n c) : w.release.Awaits n c := by
  have hfree (free : Nat) (waiting : List Nat) :
      Awaits { w with executor.free := free, executor.waiting := waiting } n c := h
  unfold World.release
  grind

@[grind .]
theorem reportFailure (h : w.Awaits n c) (j : Job) (f : CallbackFailure) :
    (w.reportFailure j f).Awaits n c := by
  have hlines (lines : List String) {v : World} (hv : v.Awaits n c) :
      (lines.foldl (fun w line => w.logJob (.error line)) v).Awaits n c := by
    obtain ⟨_, heq⟩ := foldl_logJob lines v
    rw [heq]
    exact hv
  grind [World.reportFailure]

@[grind .]
theorem endJob (h : w.Awaits n c) (hid : id ≠ supervisorId) (j : Job)
    (failure : Option CallbackFailure) : (w.endJob id j failure).Awaits n c := by
  have hless {v : World} (hv : v.Awaits n c) (inFlight : Nat) :
      (World.endTask { v with executor.inFlight := inFlight } id).Awaits n c :=
    endTask (w := { v with executor.inFlight := inFlight }) hv hid
  cases failure with
  | none => exact hless h _
  | some f => exact hless (h.reportFailure j f) _

@[grind .]
theorem endWork (h : w.Awaits n c) (id : Nat) (j : Job) (failure : Option CallbackFailure) :
    (w.endWork id j failure).Awaits n c := by
  grind [World.endWork]

@[grind .]
theorem work (h : w.Awaits n c) (id : Nat) (j : Job) : (w.work id j).Awaits n c := by
  grind [World.work]

@[grind .]
theorem act (h : w.Awaits n c) (hid : id ≠ supervisorId) (j : Job) : (w.act id j).Awaits n c := by
  grind [World.act]

@[grind .]
theorem pollJob (h : w.Awaits n c) (hid : id ≠ supervisorId) (j : Job) :
    (w.pollJob id j).Awaits n c := by
  have hwaiting (waiting : List Nat) (t : Task) :
      (World.setTask { w with executor.waiting := waiting } id t).Awaits n c := h
  have hfree (free : Nat) : (World.work { w with executor.free := free } id j).Awaits n c :=
    work (w := { w with executor.free := free }) h id j
  unfold World.pollJob
  grind

/-! ## Other tasks -/

@[grind .]
theorem afterPing (h : w.Awaits n c) (hid : id ≠ supervisorId) (reply : Reply) :
    (w.afterPing id reply).Awaits n c := by
  cases reply <;> grind [World.afterPing]

@[grind .]
theorem beat (h : w.Awaits n c) (hid : id ≠ supervisorId) : (w.beat id).Awaits n c := by
  have hping (ping : Ping) : Awaits { w with ping } n c := h
  unfold World.beat
  grind

@[grind .]
theorem pollPinger (h : w.Awaits n c) (hid : id ≠ supervisorId) (phase : PingPhase) :
    (w.pollPinger id phase).Awaits n c := by
  cases phase with
  | planned =>
    unfold World.pollPinger
    dsimp only
    split
    · exact h.beat hid
    · exact h.sleep id _ _
  | sleeping => exact h.beat hid
  | posting call => exact (h.finishCall call).afterPing hid _

@[grind .]
theorem endErrand (h : w.Awaits n c) (hid : id ≠ supervisorId) (t : Errand) (reply : Reply) :
    (w.endErrand id t reply).Awaits n c :=
  endTask (w := { w with trace.finished := w.trace.finished ++ [(t.tag, reply)] }) h hid

@[grind .]
theorem pollErrand (h : w.Awaits n c) (hid : id ≠ supervisorId) (t : Errand) :
    (w.pollErrand id t).Awaits n c := by
  grind [World.pollErrand]

@[grind .]
theorem takeRoot (h : w.Awaits n c) (hid : id ≠ supervisorId) (t : AttemptTask) (uuid : String)
    (reply : Except Error Response) : (w.takeRoot id t uuid reply).Awaits n c := by
  grind [World.takeRoot]

@[grind .]
theorem takeIdentity (h : w.Awaits n c) (hid : id ≠ supervisorId) (t : AttemptTask)
    (reply : Except Error Response) : (w.takeIdentity id t reply).Awaits n c := by
  grind [World.takeIdentity]

@[grind .]
theorem makeAttempt (h : w.Awaits n c) (hid : id ≠ supervisorId) (t : AttemptTask) :
    (w.makeAttempt id t).Awaits n c := by
  grind [World.makeAttempt]

@[grind .]
theorem pollAttempt (h : w.Awaits n c) (hid : id ≠ supervisorId) (t : AttemptTask) :
    (w.pollAttempt id t).Awaits n c := by
  unfold World.pollAttempt
  split
  · split
    · exact h.makeAttempt hid t
    · exact h.sleep id _ _
  · exact h.makeAttempt hid t
  next call _ => exact (h.finishCall call).takeIdentity hid t _
  next uuid call _ => exact (h.finishCall call).takeRoot hid t uuid _

@[grind .]
theorem dropStream (h : w.Awaits n c) (t : ReaderTask) : (w.dropStream t).Awaits n c := by
  unfold World.dropStream
  split <;> exact h

@[grind .]
theorem endReader (h : w.Awaits n c) (hid : id ≠ supervisorId) (t : ReaderTask) (e : Feed.End) :
    (w.endReader id t e).Awaits n c := by
  grind [World.endReader]

@[grind .]
theorem takeEvent (h : w.Awaits n c) (topic : String) (e : Event) :
    (w.takeEvent topic e).Awaits n c :=
  publish (w := { w with items := w.items.apply e }) h topic e

@[grind .]
theorem doActs (h : w.Awaits n c) (acts : List Feed.Act) : (w.doActs acts).1.Awaits n c := by
  fun_induction World.doActs w acts with
  | case1 => exact h
  | case2 w l rest ih => exact ih (h.log l)
  | case3 w topic e rest ih => exact ih (h.takeEvent topic e)
  | case4 => exact h

@[grind .]
theorem takePieces (h : w.Awaits n c) (t : ReaderTask) (pieces : List Piece) :
    (w.takePieces t pieces).1.Awaits n c := by
  fun_induction World.takePieces w t pieces <;> grind

@[grind .]
theorem read (h : w.Awaits n c) (hid : id ≠ supervisorId) (t : ReaderTask) :
    (w.read id t).Awaits n c := by
  have hread (streams : List OpenStream) : Awaits { w with streams } n c := h
  unfold World.read
  grind

@[grind .]
theorem takeStream (h : w.Awaits n c) (hid : id ≠ supervisorId) (t : ReaderTask)
    (answer : Except Failure Unit) : (w.takeStream id t answer).Awaits n c := by
  cases answer <;> grind [World.takeStream]

theorem opening (h : w.Awaits n c) (hid : id ≠ supervisorId) (t : ReaderTask)
    (answer : Except Failure Unit) (ms : Nat) :
    (match ms with
      | 0 => w.takeStream id t answer
      | ms => w.sleep id ms (.reader { t with phase := .opening answer })).Awaits n c := by
  grind

@[grind .]
theorem openStream (h : w.Awaits n c) (hid : id ≠ supervisorId) (t : ReaderTask) :
    (w.openStream id t).Awaits n c := by
  unfold World.openStream
  dsimp only
  cases w.script.openStream (Feed.outgoing t.session t.layout) with
  | mk answer script =>
    cases answer with
    | ok body =>
      refine opening ?_ hid _ _ _
      exact h
    | error cause =>
      refine opening ?_ hid _ _ _
      exact h

@[grind .]
theorem pollReader (h : w.Awaits n c) (hid : id ≠ supervisorId) (t : ReaderTask) :
    (w.pollReader id t).Awaits n c := by
  grind [World.pollReader]

/-- Polling another task preserves `Awaits`. -/
theorem poll (h : w.Awaits n c) (hid : id ≠ supervisorId) : (w.poll id).Awaits n c := by
  unfold World.poll
  rw [if_neg hid]
  grind

end Awaits

/-! ## The end of the supervisor -/

variable {w w' : World} {n : Nat}

/-- The supervisor is dead, or it is polled within `n` turns and takes the command to shut down. -/
structure Doomed (w : World) (n : Nat) : Prop where
  tidy : w.Tidy
  waits : w.supervisor.alive → w.Awaits n .shutdown

theorem doomed_send (ht : w.Tidy) :
    (w.send .shutdown).1.Doomed (w.send .shutdown).1.ready.length := by
  refine ⟨tidy_send ht _, fun ha => ?_⟩
  rw [Awaits, List.take_length]
  unfold send at ha ⊢
  split at ha
  next hw =>
    rw [if_pos hw]
    obtain ⟨_, heq⟩ := wake_eq { w with commands := w.commands ++ [.shutdown] } supervisorId
    refine ⟨mem_wake.2 (.inr rfl), ?_⟩
    rw [heq]
    simp
  next hw => exact absurd ha hw

/-- The supervisor dies when it takes `n` commands, one of them to shut down. -/
theorem alive_takeCommands_eq_false (ht : w.Tidy)
    (hc : w.supervisor.alive → .shutdown ∈ w.commands.take n) :
    (takeCommands n w).supervisor.alive = false := by
  induction n generalizing w with
  | zero =>
    have hdead : w.supervisor.alive = false := by simpa using hc
    exact hdead
  | succ n ih =>
    refine ih ((Move.command w).tidy ht) fun ha => ?_
    cases hw : w.supervisor.alive with
    | false => simp [takeCommand, hw] at ha
    | true =>
      have hmem := hc hw
      cases hq : w.commands with
      | nil => simp [hq] at hmem
      | cons c rest =>
        have hframe := frame_takeCommand ht hw hq
        obtain ⟨sent, hcommands, -⟩ := hframe.commands
        rw [hq, List.take_succ_cons] at hmem
        rcases List.mem_cons.1 hmem with rfl | hrest
        · -- the command itself ends the supervisor
          rw [hframe.supervisor] at ha
          cases ha
        · rw [hcommands]
          exact mem_take_append hrest sent

namespace Doomed

/-- A turn of another task brings the supervisor one place ahead. -/
theorem settleStep (h : w.Doomed (n + 1)) (hs : w.settleStep = some w') : w'.Doomed n := by
  unfold World.settleStep at hs
  split at hs
  · cases hs
  next id rest hr =>
    obtain rfl := Option.some.inj hs
    have htidy : Tidy { w with ready := rest } := ⟨h.tidy.nodup, h.tidy.fresh, h.tidy.pinger⟩
    obtain ⟨_, hrun⟩ := (leadsTo_poll { w with ready := rest } id).reaches htidy
    refine ⟨hrun.tidy htidy, fun ha => ?_⟩
    by_cases hid : id = supervisorId
    · subst hid
      have hdead : (takeCommands w.commands.length { w with ready := rest }).supervisor.alive =
          false := by
        refine alive_takeCommands_eq_false htidy fun hw => ?_
        rw [List.take_length]
        exact (h.waits hw).2
      rw [show World.poll { w with ready := rest } supervisorId =
        takeCommands w.commands.length { w with ready := rest } from rfl, hdead] at ha
      cases ha
    · obtain ⟨_, hgoes⟩ := (talks_poll { w with ready := rest } hid).goes
      rw [hgoes.supervisor] at ha
      have hrest := (h.waits ha).1
      rw [hr, List.take_succ_cons] at hrest
      exact Awaits.poll (w := { w with ready := rest })
        ⟨(List.mem_cons.1 hrest).resolve_left (Ne.symm hid), (h.waits ha).2⟩ hid

theorem alive_eq_false (h : w.Doomed n) (hr : n = 0 ∨ w.ready = []) :
    w.supervisor.alive = false := by
  by_contra ha
  have hready := (h.waits (by simpa using ha)).1
  rcases hr with rfl | hr
  · simp at hready
  · simp [hr] at hready

/-- A dead supervisor stays dead, and a doomed one dies within `n` turns. -/
theorem settleFor (h : w.Doomed n) {fuel : Nat} (hn : n ≤ fuel) :
    (World.settleFor fuel w).supervisor.alive = false := by
  induction fuel generalizing w n with
  | zero => exact h.alive_eq_false (.inl (Nat.le_zero.1 hn))
  | succ fuel ih =>
    unfold World.settleFor
    split
    next v hs =>
      cases n with
      | zero =>
        have hdead := h.alive_eq_false (.inl rfl)
        have hdoomed : w.Doomed 1 := ⟨h.tidy, fun ha => by simp [hdead] at ha⟩
        exact ih (hdoomed.settleStep hs) (Nat.zero_le _)
      | succ n => exact ih (h.settleStep hs) (Nat.le_of_succ_le_succ hn)
    next hs =>
      refine h.alive_eq_false (.inr ?_)
      unfold World.settleStep at hs
      split at hs
      · assumption
      · cases hs

end Doomed

/-- Once the command to shut down has been sent, the supervisor does not survive `World.settle`. -/
theorem alive_settle_eq_false (ht : w.Tidy) :
    (w.send .shutdown).1.settle.supervisor.alive = false :=
  (doomed_send ht).settleFor (Nat.le_add_left _ _)

end PeerLink.Bridge.World
