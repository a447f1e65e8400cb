import PeerLink.Proofs.Bridge.Sound
/-!
# The loss of a session

A session may be reported lost by every request that fails in it and by its stream. The reports
carry the epoch of the session, and may be taken in a later session. Every loss increases the epoch,
so the first report taken in its session ends it, and all others change nothing.

## Main definitions

* `Handled.leaves`, `Handled.meets`: whether a command takes the connection down, and whether it is
  taken in the session of an epoch.
* `Handled.recorded`: the records of the plugins for a command.

## Main statements

* `World.losses_of_run`: on every run the commands of an epoch take the connection down at most
  once.
-/

namespace PeerLink.Bridge

open Transport Connection

namespace Handled

/-- Whether `d` takes the connection down. -/
def leaves (d : Handled) : Bool := d.before.supervisor.isOnline && !d.after.supervisor.isOnline

/-- Whether `d` is taken while the session of `epoch` is up. -/
def meets (epoch : Nat) (d : Handled) : Bool :=
  d.before.supervisor.isOnline && d.before.supervisor.epoch = epoch

/-- The records of the plugins for `d`. -/
def recorded (d : Handled) : List String :=
  d.after.trace.hooks.drop d.before.trace.hooks.length

namespace Regular

variable {d : Handled} {epoch : Nat}

theorem recorded_eq (h : d.Regular) : d.recorded = d.before.records d.hooks := by
  rw [recorded, h.frame.hooks]
  exact List.drop_left

theorem epoch_le (h : d.Regular) : d.before.supervisor.epoch ≤ d.after.supervisor.epoch :=
  h.turn.epoch_le

/-- A command of another epoch changes nothing but `commands`. -/
theorem after_of_stale (h : d.Regular) (hc : d.command.epoch? = some epoch)
    (hne : epoch ≠ d.before.supervisor.epoch) :
    d.after = { d.before with commands := d.before.commands.tail } := by
  obtain ⟨rest, hw⟩ := h.waiting
  rw [after, World.takeCommand_eq h.alive hw, Supervisor.handle_of_stale hc hne, hw]
  rfl

/-- A command of an epoch that takes the connection down is a report taken in the session of the
epoch. -/
theorem reports_of_leaves (h : d.Regular) (hl : d.leaves) (hc : d.command.epoch? = some epoch) :
    d.command.reportsLoss epoch ∧ d.meets epoch := by
  simp only [leaves, Bool.and_eq_true, Bool.not_eq_eq_eq_not, Bool.not_true] at hl
  have hr := h.turn.reportsLoss_of_leaves hl.1 hl.2 hc
  have he := (Command.epoch?_of_reportsLoss hr).symm.trans hc
  simp only [Option.some.injEq] at he
  subst he
  exact ⟨hr, by simp [meets, hl.1]⟩

/-- A report taken in its session ends the session, calls `disconnect` once and begins one
attempt. -/
theorem lost (h : d.Regular) (hc : d.command.reportsLoss epoch) (hm : d.meets epoch) :
    d.leaves ∧ d.after.supervisor.status.state = .offline ∧
      d.after.supervisor.epoch = epoch + 1 ∧
      d.recorded = d.before.records [.disconnect] ∧ d.begun = [epoch + 1] := by
  simp only [meets, Bool.and_eq_true, decide_eq_true_eq] at hm
  obtain ⟨ho, rfl⟩ := hm
  obtain ⟨⟨delay, backoff, hs⟩, hb⟩ := h.turn.eq_lost hc ho
  have hoff : d.after.supervisor.isOnline = false := hs ▸ rfl
  refine ⟨by simp [leaves, ho, hoff], hs ▸ rfl, hs ▸ rfl, ?_, hb⟩
  rw [h.recorded_eq, hooks, h.turn.hooks_eq, ho, hoff]
  rfl

theorem ignored (h : d.Regular) (hc : d.command.reportsLoss epoch) (hm : ¬d.meets epoch) :
    d.leaves = false ∧ d.recorded = [] ∧ d.begun = [] := by
  obtain ⟨hs, hes⟩ := h.turn.eq_self hc (by simpa [meets] using hm)
  refine ⟨by simp [leaves, hs], ?_, by rw [begun, hes]; rfl⟩
  rw [h.recorded_eq, hooks, hes]
  rfl

end Regular

end Handled

/-! ## Epochs along a run -/

/-- At most one element of a list satisfies `p` if no two do. -/
theorem filter_of_pairwise {α : Type} {p : α → Bool} {l : List α}
    (h : l.Pairwise fun a b => ¬(p a ∧ p b)) : l.filter p = [] ∨ ∃ a ∈ l, l.filter p = [a] := by
  induction h with
  | nil => exact .inl rfl
  | @cons a l ha hl ih =>
    cases hp : p a with
    | false =>
      rw [List.filter_cons_of_neg (by simp [hp])]
      exact ih.imp id fun ⟨b, hb, h⟩ => ⟨b, List.mem_cons_of_mem _ hb, h⟩
    | true =>
      have hnil : l.filter p = [] := List.filter_eq_nil_iff.2 fun b hb hpb => ha b hb ⟨hp, hpb⟩
      exact .inr ⟨a, List.mem_cons_self, by rw [List.filter_cons_of_pos hp, hnil]⟩

/-- Elements at which `f` is empty may be left out of `flatMap`. -/
theorem flatMap_filter {α β : Type} {p : α → Bool} {f : α → List β} {l : List α}
    (h : ∀ a ∈ l, ¬p a → f a = []) : l.flatMap f = (l.filter p).flatMap f := by
  induction l with
  | nil => rfl
  | cons a l ih =>
    have ih := ih fun b hb => h b (List.mem_cons_of_mem _ hb)
    cases hp : p a with
    | false => simp [hp, h a List.mem_cons_self (by simp [hp]), ih]
    | true => simp [hp, ih]

namespace World

variable {w w' : World} {log : List Handled}

theorem epochs_of_run (h : w.Sound) (g : Run w log w') :
    (log.Pairwise fun a b => a.after.supervisor.epoch ≤ b.before.supervisor.epoch) ∧
      ∀ d ∈ log, d.after.supervisor.epoch ≤ w'.supervisor.epoch := by
  induction g with
  | start => exact ⟨.nil, List.forall_mem_nil _⟩
  | step g hm ih =>
    rcases (h.run g).regular_or hm with ⟨rfl, heq⟩ | ⟨d, rfl, hd, rfl, rfl⟩
    · simpa [heq] using ih
    · refine ⟨?_, ?_⟩
      · rw [List.pairwise_append]
        refine ⟨ih.1, List.pairwise_singleton _ _, ?_⟩
        intro a ha b hb
        obtain rfl := List.mem_singleton.1 hb
        exact ih.2 a ha
      · rw [List.forall_mem_append]
        exact ⟨fun a ha => Nat.le_trans (ih.2 a ha) hd.epoch_le, by simp⟩

theorem plugins_of_run (h : w.Sound) (g : Run w log w') :
    ∀ d ∈ log, d.before.plugins = w.plugins := by
  induction g with
  | start => exact List.forall_mem_nil _
  | step g hm ih =>
    rw [List.forall_mem_append]
    refine ⟨ih, ?_⟩
    rcases (h.run g).regular_or hm with ⟨rfl, -⟩ | ⟨d, rfl, -, rfl, -⟩
    · exact List.forall_mem_nil _
    · simpa using (g.records_hooks h.tidy).1

/-- At most one report of an epoch is taken in its session. -/
theorem pairwise_meets (h : w.Sound) (g : Run w log w') (epoch : Nat) :
    log.Pairwise fun a b => ¬((a.command.reportsLoss epoch ∧ a.meets epoch) ∧
      (b.command.reportsLoss epoch ∧ b.meets epoch)) := by
  have hreg := g.regular h
  refine (epochs_of_run h g).1.imp_of_mem fun {a b} ha hb hle => ?_
  rintro ⟨⟨hac, ham⟩, -, hbm⟩
  have hlost := ((hreg a ha).lost hac ham).2.2.1
  simp only [Handled.meets, Bool.and_eq_true, decide_eq_true_eq] at hbm
  omega

/-- The list of the reports taken in the session of their epoch has at most one element. -/
theorem met_of_run (h : w.Sound) (g : Run w log w') (epoch : Nat) :
    let met := (log.filter (·.command.reportsLoss epoch)).filter (·.meets epoch)
    met = [] ∨ ∃ d ∈ log, d.command.reportsLoss epoch ∧ d.meets epoch ∧ met = [d] := by
  intro met
  have hpair : (log.filter (·.command.reportsLoss epoch)).Pairwise fun a b =>
      ¬(a.meets epoch ∧ b.meets epoch) := by
    refine ((pairwise_meets h g epoch).sublist List.filter_sublist).imp_of_mem ?_
    intro a b ha hb hn hab
    exact hn ⟨⟨(List.mem_filter.1 ha).2, hab.1⟩, (List.mem_filter.1 hb).2, hab.2⟩
  rcases filter_of_pairwise hpair with hnil | ⟨d, hd, hone⟩
  · exact .inl hnil
  · obtain ⟨hlog, hc⟩ := List.mem_filter.1 hd
    have hm : d ∈ met := by simp [met, hone]
    exact .inr ⟨d, hlog, hc, (List.mem_filter.1 hm).2, hone⟩

/-- The transitions, hooks, records and attempts of the reports of an epoch are those of the reports
taken in its session. -/
theorem caused_by_met (hreg : ∀ d ∈ log, d.Regular) (epoch : Nat) :
    let reports := log.filter (·.command.reportsLoss epoch)
    let met := reports.filter (·.meets epoch)
    reports.filter Handled.leaves = met ∧
      reports.flatMap Handled.begun = met.flatMap Handled.begun ∧
      reports.flatMap Handled.recorded = met.flatMap Handled.recorded := by
  intro reports met
  have hignored (d : Handled) (hd : d ∈ reports) (hm : ¬d.meets epoch) :
      d.leaves = false ∧ d.recorded = [] ∧ d.begun = [] := by
    obtain ⟨hlog, hc⟩ := List.mem_filter.1 hd
    exact (hreg d hlog).ignored hc hm
  refine ⟨List.filter_congr fun d hd => ?_, ?_, ?_⟩
  · obtain ⟨hlog, hc⟩ := List.mem_filter.1 hd
    cases hm : d.meets epoch with
    | false => exact (hignored d hd (by simp [hm])).1
    | true => exact ((hreg d hlog).lost hc hm).1
  · exact flatMap_filter fun d hd hm => (hignored d hd hm).2.2
  · exact flatMap_filter fun d hd hm => (hignored d hd hm).2.1

section

variable {config : Config} {script : Peer.Script} {plugins : List Plugin} {pingStart : Span}

/-- On every run and for every epoch, a command of another epoch than the present one changes
nothing but `commands`, and at most one command of the epoch takes the connection down. If a report
of the epoch is taken in its session, the reports of the epoch cause one transition, one call of
`disconnect` for every plugin and one new attempt. Otherwise they cause none. -/
theorem losses_of_run (h : Run (launch config script plugins pingStart) log w) (epoch : Nat) :
    (∀ d ∈ log, ∀ e, d.command.epoch? = some e → e ≠ d.before.supervisor.epoch →
      d.after = { d.before with commands := d.before.commands.tail }) ∧
    (log.filter fun d => d.command.epoch? = some epoch && d.leaves).length ≤ 1 ∧
    let reports := log.filter (·.command.reportsLoss epoch)
    let states := (reports.filter Handled.leaves).map (·.after.supervisor.status.state)
    ((∃ d ∈ reports, d.meets epoch) →
      states = [.offline] ∧ reports.flatMap Handled.begun = [epoch + 1] ∧
        reports.flatMap Handled.recorded =
          (plugins.filter Plugin.setsUp).filterMap (recorded .disconnect)) ∧
    ((∀ d ∈ reports, ¬d.meets epoch) →
      states = [] ∧ reports.flatMap Handled.begun = [] ∧
        reports.flatMap Handled.recorded = []) := by
  have hreg := h.regular sound_launch
  refine ⟨fun d hd e => (hreg d hd).after_of_stale, ?_, ?_⟩
  · have hleave (d : Handled) (hd : d ∈ log) (hp : d.command.epoch? = some epoch && d.leaves) :
        d.command.reportsLoss epoch ∧ d.meets epoch := by
      simp only [Bool.and_eq_true, decide_eq_true_eq] at hp
      exact (hreg d hd).reports_of_leaves hp.2 hp.1
    have hpair : log.Pairwise fun a b => ¬((a.command.epoch? = some epoch && a.leaves) ∧
        (b.command.epoch? = some epoch && b.leaves)) := by
      refine (pairwise_meets sound_launch h epoch).imp_of_mem ?_
      intro a b ha hb hn hab
      exact hn ⟨hleave a ha hab.1, hleave b hb hab.2⟩
    rcases filter_of_pairwise hpair with hf | ⟨d, -, hf⟩ <;> simp [hf]
  · intro reports states
    obtain ⟨hleaves, hbegun, hrecorded⟩ := caused_by_met hreg epoch
    simp only [states, reports, hleaves, hbegun, hrecorded]
    refine ⟨fun ⟨d, hd, hm⟩ => ?_, fun hnone => ?_⟩
    · rcases met_of_run sound_launch h epoch with hnil | ⟨d', hlog, hc, hm', hone⟩
      · exact absurd (List.mem_filter.2 ⟨hd, hm⟩) (hnil ▸ List.not_mem_nil)
      · obtain ⟨-, hstate, -, hrec, hb⟩ := (hreg d' hlog).lost hc hm'
        have hplugins : d'.before.plugins = plugins.filter Plugin.setsUp := by
          obtain ⟨_, _, _, heq⟩ := launch_spec config script plugins pingStart
          rw [plugins_of_run sound_launch h d' hlog, heq]
        simp [hone, hstate, hb, hrec, records, hplugins]
    · rw [List.filter_eq_nil_iff.2 hnone]
      exact ⟨rfl, rfl, rfl⟩

/-- Two requests that fail in the first session end it once. -/
theorem losses_of_run_demo :
    (demo.relapse.1.filter (·.command.reportsLoss 1)).map (·.meets 1) = [true, false] ∧
    (demo.relapse.1.filter fun d => d.command.epoch? = some 1 && d.leaves).length ≤ 1 ∧
    (demo.relapse.1.filter (·.command.reportsLoss 1)).flatMap Handled.begun = [2] := by
  obtain ⟨-, hone, hmet, -⟩ := losses_of_run run_demo 1
  exact ⟨by decide +kernel, hone, (hmet (by decide +kernel)).2.1⟩

end

end World

end PeerLink.Bridge
