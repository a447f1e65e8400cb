import PeerLink.Proofs.Bridge.Sound
/-!
# The hooks of plugins

Whenever the connection comes up or is lost, the hook for this is called for all plugins in the
order of their registration. The connection comes up only by an answer of the server that is
accepted in its epoch. So the hooks of each plugin alternate, whether plugins fail or not.

## Main definitions

* `World.rounds`: alternating hooks, beginning with `connect`.

## Main statements

* `World.hooks_of_run`: the hooks called on a run, and the records of the plugins.
-/

namespace PeerLink.Bridge

open Transport Connection

namespace World

/-- The hooks of `n` sessions that have ended, and of one that has not if `online`. -/
def rounds (n : Nat) (online : Bool) : List Hook :=
  (List.replicate n [.connect, .disconnect]).flatten ++ if online then [.connect] else []

/-- The hooks of `Supervisor.edge` continue `rounds`. -/
theorem rounds_append_edge (n : Nat) (before after : Bool) :
    ∃ m, rounds n before ++ Supervisor.edge before after = rounds m after := by
  cases before with
  | false =>
    refine ⟨n, ?_⟩
    cases after <;> simp [rounds, Supervisor.edge]
  | true =>
    cases after with
    | true => exact ⟨n, List.append_nil _⟩
    | false => exact ⟨n + 1, by simp [rounds, Supervisor.edge, List.replicate_succ']⟩

theorem count_rounds (n : Nat) (online : Bool) :
    (rounds n online).count .connect =
      (rounds n online).count .disconnect + if online then 1 else 0 := by
  have h (hook : Hook) : (List.replicate n [Hook.connect, .disconnect]).flatten.count hook =
      n * [Hook.connect, .disconnect].count hook := by
    simp [List.count_flatten]
  cases online <;> simp [rounds, h]

variable {w w' : World} {log : List Handled}

theorem rounds_of_run (h : w.Sound) (hw : w.supervisor.isOnline = false) (g : Run w log w') :
    ∃ n, log.flatMap Handled.hooks = rounds n w'.supervisor.isOnline := by
  induction g with
  | start => exact ⟨0, by simp [rounds, hw]⟩
  | step g hm ih =>
    obtain ⟨n, ih⟩ := ih
    rcases (h.run g).regular_or hm with ⟨rfl, heq⟩ | ⟨d, rfl, hd, rfl, rfl⟩
    · exact ⟨n, by simp [ih, heq]⟩
    · have he : d.hooks = Supervisor.edge d.before.supervisor.isOnline
          d.after.supervisor.isOnline := hd.turn.hooks_eq
      obtain ⟨m, hm⟩ := rounds_append_edge n d.before.supervisor.isOnline
        d.after.supervisor.isOnline
      exact ⟨m, by rw [List.flatMap_append, ih, ← hm, ← he]; simp⟩

/-- `connect` is called exactly for the answers that are accepted. -/
theorem count_connect (hreg : ∀ d ∈ log, d.Regular) :
    (log.flatMap Handled.hooks).count .connect =
      log.countP fun d => d.command.accepts d.before.supervisor.epoch := by
  induction log with
  | nil => rfl
  | cons d log ih =>
    have hd := hreg d List.mem_cons_self
    have he : d.hooks = Supervisor.edge d.before.supervisor.isOnline d.after.supervisor.isOnline :=
      hd.turn.hooks_eq
    have hup := hd.turn.comes_up_iff
    have hone : d.hooks.count .connect =
        if d.command.accepts d.before.supervisor.epoch then 1 else 0 := by
      rw [he]
      cases hb : d.before.supervisor.isOnline <;> cases ha : d.after.supervisor.isOnline <;>
        simp_all [Supervisor.edge]
    have ih := ih fun e he => hreg e (List.mem_cons_of_mem _ he)
    rw [List.flatMap_cons, List.count_append, ih, hone, List.countP_cons, Nat.add_comm]

section

variable {config : Config} {script : Peer.Script} {plugins : List Plugin} {pingStart : Span}

/-- On every run the plugins are those whose setup succeeded, and every hook is called for each of
them in the order of their registration. The hooks alternate, so that `connect` has been called once
more than `disconnect` while the connection is up, and as often otherwise. The calls of `connect`
are as many as the answers of the server that were accepted. -/
theorem hooks_of_run (h : Run (launch config script plugins pingStart) log w) :
    let hooks := log.flatMap Handled.hooks
    (∃ n, hooks = rounds n w.supervisor.isOnline) ∧
    hooks.count .connect = hooks.count .disconnect + (if w.supervisor.isOnline then 1 else 0) ∧
    hooks.count .connect = log.countP (fun d => d.command.accepts d.before.supervisor.epoch) ∧
    w.plugins = plugins.filter Plugin.setsUp ∧
    w.trace.hooks = plugins.filterMap (recorded .setup) ++
      hooks.flatMap fun hook => (plugins.filter Plugin.setsUp).filterMap (recorded hook) := by
  intro hooks
  obtain ⟨_, _, _, heq⟩ := launch_spec config script plugins pingStart
  have hoff : (launch config script plugins pingStart).supervisor.isOnline = false := by
    rw [heq]
    rfl
  obtain ⟨n, hn⟩ := rounds_of_run sound_launch hoff h
  obtain ⟨hp, ht⟩ := h.records_hooks sound_launch.tidy
  refine ⟨⟨n, hn⟩, ?_, count_connect (h.regular sound_launch), by rw [hp, heq], ?_⟩
  · simp only [hooks, hn, count_rounds]
  · rw [ht, heq]
    rfl

/-- The bridge has connected twice. The second plugin fails in `connect`, and the third was left out
at its setup. -/
theorem hooks_of_run_demo : demo.relapse.1.flatMap Handled.hooks =
      [.connect, .disconnect, .connect] ∧
    demo.relapse.2.trace.hooks = ["a.setup", "b.setup", "c.setup", "a.connect", "b.connect",
      "a.disconnect", "b.disconnect", "a.connect", "b.connect"] := by
  have hhooks : demo.relapse.1.flatMap Handled.hooks =
      [.connect, .disconnect, .connect] := by decide +kernel
  refine ⟨hhooks, ?_⟩
  rw [(hooks_of_run run_demo).2.2.2.2, hhooks]
  decide +kernel

end

end World

end PeerLink.Bridge
