import PeerLink.Bridge.Step
/-!
# Courses

An `Occurrence` is what happens at one instant: a task is polled, the supervisor takes a command, an
answer arrives, the clock moves, or a step is taken from outside. A list of occurrences in any order
is a course. A course may poll tasks that are not in `ready`, so it leaves the order of polls open.

## Main definitions

* `Occurrence`: what happens at one instant.
* `World.undergo`, `World.course`: the world after one occurrence, and after several.
* `World.LeadsTo`: some course leads from one world to another.

## Main statements

* `World.leadsTo_settle`, `World.leadsTo_take`: the scheduler and all steps are courses.
-/

namespace PeerLink.Bridge

open Connection

/-- What happens at one instant. -/
inductive Occurrence where
  /-- Polls the task `id`. The supervisor takes one command. -/
  | go (id : Nat)
  /-- The answer to a request from outside arrives. -/
  | answer (call : Call)
  /-- Moves the clock to `time` and wakes the tasks that are due then. -/
  | fire (time : Nat)
  | clock (time : Nat)
  /-- Replaces `ready`. -/
  | order (ready : List Nat)
  | note (l : LogLine)
  /-- The part of a step from outside that precedes all waiting. -/
  | step (s : Step)

namespace World

/-- The part of a step that precedes all waiting. -/
def enter (w : World) : Step → World
  | .request r => (w.begin r).1
  | .shutdown => (w.send .shutdown).1
  | .closeExecutor => { w with executor.closed := true }
  | .advance _ | .waitIdle => w
  | s => (w.take s).1

/-- The world after an occurrence. -/
def undergo (w : World) : Occurrence → World
  | .go id => if id = supervisorId then w.takeCommand else w.poll id
  | .answer call => (w.finishCall call).1
  | .fire time => w.fire time
  | .clock time => { w with clock := time }
  | .order ready => { w with ready }
  | .note l => w.log l
  | .step s => w.enter s

/-- The world after several occurrences. -/
def course (w : World) (os : List Occurrence) : World := os.foldl undergo w

@[simp] theorem course_nil (w : World) : w.course [] = w := rfl

@[simp] theorem course_cons (w : World) (o : Occurrence) (os : List Occurrence) :
    w.course (o :: os) = (w.undergo o).course os := rfl

theorem course_append (w : World) (os more : List Occurrence) :
    w.course (os ++ more) = (w.course os).course more :=
  List.foldl_append

/-- Some course leads from `w` to `w'`. -/
def LeadsTo (w w' : World) : Prop := ∃ os, w.course os = w'

namespace LeadsTo

variable {u v w : World}

theorem refl (w : World) : w.LeadsTo w := ⟨[], rfl⟩

theorem of_undergo (w : World) (o : Occurrence) : w.LeadsTo (w.undergo o) := ⟨[o], rfl⟩

theorem trans (h : u.LeadsTo v) (g : v.LeadsTo w) : u.LeadsTo w := by
  obtain ⟨os, rfl⟩ := h
  obtain ⟨more, rfl⟩ := g
  exact ⟨os ++ more, course_append u os more⟩

end LeadsTo

/-! ## The scheduler -/

theorem leadsTo_takeCommands (n : Nat) (w : World) : w.LeadsTo (takeCommands n w) := by
  induction n generalizing w with
  | zero => exact .refl w
  | succ n ih => exact (LeadsTo.of_undergo w (.go supervisorId)).trans (ih w.takeCommand)

theorem leadsTo_poll (w : World) (id : Nat) : w.LeadsTo (w.poll id) := by
  by_cases hid : id = supervisorId
  · subst hid
    exact leadsTo_takeCommands _ w
  · refine ⟨[.go id], ?_⟩
    simp [undergo, hid]

theorem leadsTo_settleStep {w w' : World} (h : w.settleStep = some w') : w.LeadsTo w' := by
  unfold settleStep at h
  split at h
  · cases h
  next id rest _ =>
    obtain rfl := Option.some.inj h
    exact (LeadsTo.of_undergo w (.order rest)).trans (leadsTo_poll _ id)

/-- A property preserved by `settleStep` is preserved by `settleFor`. -/
theorem settleFor_induction {P : World → Prop}
    (hP : ∀ {u v : World}, P u → u.settleStep = some v → P v) {w : World} (hw : P w) (fuel : Nat) :
    P (settleFor fuel w) := by
  induction fuel generalizing w with
  | zero => exact hw
  | succ fuel ih =>
    unfold settleFor
    split
    next h => exact ih (hP hw h)
    · exact hw

theorem leadsTo_settleFor (fuel : Nat) (w : World) : w.LeadsTo (settleFor fuel w) :=
  settleFor_induction (fun h g => h.trans (leadsTo_settleStep g)) (.refl w) fuel

theorem leadsTo_settle (w : World) : w.LeadsTo w.settle := leadsTo_settleFor _ w

/-! ## The clock -/

theorem leadsTo_passFor (target fuel : Nat) (w : World) : w.LeadsTo (passFor target fuel w) := by
  induction fuel generalizing w with
  | zero => exact .refl w
  | succ fuel ih =>
    unfold passFor
    dsimp only
    refine (leadsTo_settle w).trans ?_
    split
    · exact .of_undergo _ (.clock target)
    next t _ =>
      split
      · exact .of_undergo _ (.clock target)
      · split
        · exact .of_undergo _ (.fire t)
        · exact (LeadsTo.of_undergo _ (.fire t)).trans (ih _)

theorem leadsTo_passTo (w : World) (target : Nat) : w.LeadsTo (w.passTo target) :=
  leadsTo_passFor target _ w

theorem turn_cases {w w' : World} (h : w.turn = some w') :
    w.settleStep = some w' ∨ ∃ time, w.nextDue = some time ∧ w' = w.fire time := by
  unfold turn at h
  split at h
  next v hv =>
    obtain rfl := Option.some.inj h
    exact .inl hv
  · obtain ⟨time, hdue, rfl⟩ := Option.map_eq_some_iff.1 h
    exact .inr ⟨time, hdue, rfl⟩

theorem leadsTo_turn {w w' : World} (h : w.turn = some w') : w.LeadsTo w' := by
  rcases turn_cases h with h | ⟨time, -, rfl⟩
  · exact leadsTo_settleStep h
  · exact .of_undergo w (.fire time)

theorem isIdle_iff {w : World} : w.isIdle ↔ w.ready = [] ∧ w.executor.inFlight = 0 := by
  simp [isIdle]

/-- A property preserved by `turn` is preserved by `drainFor`. -/
theorem drainFor_induction {P : World → Prop}
    (hP : ∀ {u v : World}, P u → u.turn = some v → P v) {w : World} (hw : P w) (fuel : Nat) :
    P (drainFor fuel w) := by
  induction fuel generalizing w with
  | zero => exact hw
  | succ fuel ih =>
    unfold drainFor
    split
    · exact hw
    · split
      next h => exact ih (hP hw h)
      · exact hw

theorem leadsTo_drainFor (fuel : Nat) (w : World) : w.LeadsTo (drainFor fuel w) :=
  drainFor_induction (fun h g => h.trans (leadsTo_turn g)) (.refl w) fuel

/-! ## Steps from outside -/

theorem leadsTo_closeExecutor (w : World) : w.LeadsTo w.closeExecutor :=
  (LeadsTo.of_undergo w (.step .closeExecutor)).trans (leadsTo_drainFor _ _)

theorem leadsTo_shutdown (w : World) : w.LeadsTo w.shutdown := by
  have hstop : w.LeadsTo (w.send .shutdown).1.settle :=
    (LeadsTo.of_undergo w (.step .shutdown)).trans (leadsTo_settle _)
  exact (hstop.trans (leadsTo_closeExecutor _)).trans (.of_undergo _ (.note _))

theorem leadsTo_ask (w : World) (r : Request) : w.LeadsTo (w.ask r).1 := by
  have hbegin : w.LeadsTo (w.begin r).1 := .of_undergo w (.step (.request r))
  unfold ask
  split
  next w' reply heq =>
    rw [heq] at hbegin
    exact hbegin
  next w' call ms heq =>
    rw [heq] at hbegin
    exact (hbegin.trans (leadsTo_passTo w' _)).trans (.of_undergo _ (.answer call))

/-- Every step is a course. -/
theorem leadsTo_take (w : World) (s : Step) : w.LeadsTo (w.take s).1 := by
  have hprompt (h : w.enter s = (w.take s).1) : w.LeadsTo (w.take s).1 := ⟨[.step s], h⟩
  cases s with
  | advance ms => exact leadsTo_passTo w _
  | request r => exact leadsTo_ask w r
  | shutdown => exact leadsTo_shutdown w
  | closeExecutor => exact leadsTo_closeExecutor w
  | waitIdle => exact leadsTo_drainFor _ w
  | _ => exact hprompt rfl

end World

end PeerLink.Bridge
