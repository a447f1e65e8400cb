import PeerLink.Proofs.Bridge.Control
/-!
# Moves and runs

The supervisor takes commands one at a time, in the order in which they were sent. Apart from that
any attempt or reader may take any of its turns, and any operation beside the connection may happen.
A `World.Move` is one of these, and a `World.Run` is a finite sequence of them, with the log of the
commands taken.

## Main definitions

* `Handled`: a command with the world in which it is taken.
* `World.Move`, `World.Run`: one move, and any number of them.

## Main statements

* `World.Run.tidy`: `World.Tidy` is preserved on a run.
* `World.Run.records_hooks`: the plugins record the hooks called on a run.
-/

namespace PeerLink.Bridge

open Transport Connection

/-- A command with the world in which the supervisor takes it. -/
structure Handled where
  before : World
  command : Command

namespace Handled

/-- The world after the command. -/
def after (d : Handled) : World := d.before.takeCommand

/-- The effects of the command. -/
def effects (d : Handled) : List Effect :=
  (d.before.supervisor.handle d.before.opened d.command).2

/-- The hooks called by the command. -/
def hooks (d : Handled) : List Hook := Effect.hooks d.effects

/-- The epochs of the attempts begun by the command. -/
def begun (d : Handled) : List Nat := Effect.begun d.effects

end Handled

namespace World

/-- The command that the supervisor takes next, if any. -/
def upcoming (w : World) : List Handled :=
  if w.supervisor.alive then (w.commands.take 1).map (⟨w, ·⟩) else []

/-- One move from a world, with the command that the supervisor takes, if any. -/
inductive Move : World → List Handled → World → Prop where
  | command (w : World) : Move w w.upcoming w.takeCommand
  /-- An operation beside the connection. -/
  | beside {w w' : World} (h : Beside [] w w') : Move w [] w'
  /-- The delay of an attempt has ended, and it says so. -/
  | tries {w : World} {id : Nat} {t : AttemptTask} (h : (id, t) ∈ w.attempts) :
      Move w [] (w.send (.attempting t.epoch)).1
  /-- An attempt waits for something else. -/
  | asks {w : World} {id : Nat} {t u : AttemptTask} (h : (id, t) ∈ w.attempts)
      (he : u.epoch = t.epoch) : Move w [] (w.setTask id (.attempt u))
  | answers {w : World} {id : Nat} {t : AttemptTask} (h : (id, t) ∈ w.attempts)
      (result : Except Error PeerInfo) :
      Move w [] ((w.send (.handshakeDone t.epoch result)).1.endTask id)
  /-- A reader waits for something else. -/
  | reads {w : World} {id : Nat} {t u : ReaderTask} (h : (id, t) ∈ w.readers)
      (he : u.epoch = t.epoch) : Move w [] (w.setTask id (.reader u))
  | ends {w : World} {id : Nat} {t : ReaderTask} (h : (id, t) ∈ w.readers) (ending : Feed.End) :
      Move w [] ((w.send (.streamEnded t.epoch ending)).1.endTask id)

/-- Any number of moves from `w₀`, with the commands taken, in order. -/
inductive Run (w₀ : World) : List Handled → World → Prop where
  | start : Run w₀ [] w₀
  | step {log more : List Handled} {w w' : World} (h : Run w₀ log w) (g : Move w more w') :
      Run w₀ (log ++ more) w'

namespace Run

variable {u v w : World} {a b : List Handled}

theorem of_move (h : Move u a v) : Run u a v := .step .start h

theorem of_beside (h : Beside [] u v) : Run u [] v := .of_move (.beside h)

theorem trans (h : Run u a v) (g : Run v b w) : Run u (a ++ b) w := by
  induction g with
  | start => simpa using h
  | step _ g ih => simpa only [List.append_assoc] using ih.step g

theorem andThen (h : Run u [] v) (g : Run v [] w) : Run u [] w := h.trans g

end Run

/-! ## Properties preserved by moves -/

section

variable {w w' : World} {log : List Handled}

/-- A command sent to a supervisor that is alive is added to `commands`. -/
theorem send_of_alive (ha : w.supervisor.alive) (c : Command) :
    ∃ ready, w.send c = ({ w with commands := w.commands ++ [c], ready }, true) := by
  unfold send wake
  rw [if_pos ha]
  split
  · exact ⟨_, rfl⟩
  · exact ⟨_, rfl⟩

theorem send_of_not_alive (ha : ¬w.supervisor.alive) (c : Command) : w.send c = (w, false) :=
  if_neg ha

theorem send_spec (w : World) (c : Command) :
    ∃ commands ready, (w.send c).1 = { w with commands, ready } := by
  by_cases ha : w.supervisor.alive
  · obtain ⟨ready, h⟩ := send_of_alive ha c
    exact ⟨_, ready, congrArg Prod.fst h⟩
  · exact ⟨_, _, congrArg Prod.fst (send_of_not_alive ha c)⟩

theorem tidy_send (ht : w.Tidy) (c : Command) : (w.send c).1.Tidy := by
  obtain ⟨_, _, heq⟩ := send_spec w c
  exact heq ▸ ⟨ht.nodup, ht.fresh, ht.pinger⟩

theorem Move.tidy (h : Move w log w') (ht : w.Tidy) : w'.Tidy := by
  cases h with
  | command =>
    by_cases ha : w.supervisor.alive
    · cases hc : w.commands with
      | nil => simpa [takeCommand, ha, hc] using ht
      | cons c rest => exact (frame_takeCommand ht ha hc).tidy ⟨ht.nodup, ht.fresh, ht.pinger⟩
    · have hdropped : Tidy { w with commands := [] } := ⟨ht.nodup, ht.fresh, ht.pinger⟩
      simpa [takeCommand, ha] using hdropped
  | beside hb => exact hb.tidy ht
  | tries => exact tidy_send ht _
  | asks hm he => exact ht.setAttempt hm _
  | answers => exact (frame_endTask _ _).tidy (tidy_send ht _)
  | reads hm he => exact ht.setReader hm _
  | ends => exact (frame_endTask _ _).tidy (tidy_send ht _)

/-- A move takes one command or leaves the supervisor. -/
theorem Move.supervisor_or (h : Move w log w') : (log = [] ∧ w'.supervisor = w.supervisor) ∨
    ∃ d, log = [d] ∧ d.before = w ∧ d.after = w' ∧ w.supervisor.alive ∧
      ∃ rest, w.commands = d.command :: rest := by
  have hsend (c : Command) : (w.send c).1.supervisor = w.supervisor := by
    obtain ⟨_, _, heq⟩ := send_spec w c
    rw [heq]
  cases h with
  | command =>
    by_cases ha : w.supervisor.alive
    · cases hc : w.commands with
      | nil => exact .inl ⟨by simp [upcoming, ha, hc], by simp [takeCommand, ha, hc]⟩
      | cons c rest => exact .inr ⟨⟨w, c⟩, by simp [upcoming, ha, hc], rfl, rfl, ha, rest, rfl⟩
    · exact .inl ⟨by simp [upcoming, ha], by simp [takeCommand, ha]⟩
  | beside hb => exact .inl ⟨rfl, hb.supervisor⟩
  | tries | answers | ends => exact .inl ⟨rfl, hsend _⟩
  | asks | reads => exact .inl ⟨rfl, rfl⟩

/-- A move leaves the plugins, which record the hooks that it calls. -/
theorem Move.records_hooks (h : Move w log w') (ht : w.Tidy) : w'.plugins = w.plugins ∧
    w'.trace.hooks = w.trace.hooks ++ w.records (log.flatMap Handled.hooks) := by
  have hsend (c : Command) : (w.send c).1.plugins = w.plugins ∧
      (w.send c).1.trace.hooks = w.trace.hooks ++ w.records ([].flatMap Handled.hooks) := by
    obtain ⟨_, _, heq⟩ := send_spec w c
    simp [heq, records]
  cases h with
  | command =>
    by_cases ha : w.supervisor.alive
    · cases hc : w.commands with
      | nil => simp [takeCommand, upcoming, records, ha, hc]
      | cons c rest =>
        have hf := frame_takeCommand ht ha hc
        refine ⟨hf.plugins, hf.hooks.trans ?_⟩
        simp [upcoming, ha, hc, Handled.hooks, Handled.effects, records]
    · simp [takeCommand, upcoming, records, ha]
  | beside hb => exact ⟨hb.plugins, by simpa [records] using hb.hooks⟩
  | tries => exact hsend _
  | asks | reads => simp [setTask, records]
  | answers | ends => exact hsend _

namespace Run

theorem tidy (h : Run w log w') (ht : w.Tidy) : w'.Tidy := by
  induction h with
  | start => exact ht
  | step _ g ih => exact g.tidy ih

theorem records_hooks (h : Run w log w') (ht : w.Tidy) : w'.plugins = w.plugins ∧
    w'.trace.hooks = w.trace.hooks ++ w.records (log.flatMap Handled.hooks) := by
  induction h with
  | start => simp [records]
  | step h g ih =>
    obtain ⟨hp, hh⟩ := g.records_hooks (h.tidy ht)
    exact ⟨hp.trans ih.1, by simp [hh, ih.2, records, ih.1]⟩

end Run

end

end World

end PeerLink.Bridge
