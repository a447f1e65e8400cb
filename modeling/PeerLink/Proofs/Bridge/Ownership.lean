import PeerLink.Proofs.Bridge.Sound
/-!
# The owner of the connection

Between two commands one of three cases holds: there is no session and no attempt and no stream, or
exactly one attempt is being made, or the connection is up and exactly one stream is read. An
attempt counts from its beginning until its result has been taken, and a stream until its end has
been taken, so both may be commands in the queue.

## Main definitions

* `World.attemptsOf`, `World.streamsOf`: the numbers of attempts and streams of an epoch.
* `World.Idle`, `World.Trying`, `World.Up`: the three cases.

## Main statements

* `World.owns_of_run`: on every run exactly one of the cases holds.
-/

namespace PeerLink

open Transport Connection

/-- Whether a command is the result of an attempt of `epoch`. -/
def Connection.Command.isResultOf (epoch : Nat) : Command → Bool
  | handshakeDone e _ => e = epoch
  | _ => false

/-- Whether a command is the end of a stream of `epoch`. -/
def Connection.Command.isEndOf (epoch : Nat) : Command → Bool
  | streamEnded e _ => e = epoch
  | _ => false

namespace Bridge.World

/-! ## Cases -/

/-- The number of attempts of `epoch` that are being made or whose result has not been taken. -/
def attemptsOf (w : World) (epoch : Nat) : Nat :=
  w.attempts.countP (·.2.epoch = epoch) + w.commands.countP (·.isResultOf epoch)

/-- The number of streams of `epoch` that are being read or whose end has not been taken. -/
def streamsOf (w : World) (epoch : Nat) : Nat :=
  w.readers.countP (·.2.epoch = epoch) + w.commands.countP (·.isEndOf epoch)

/-- The state is `unconfigured`, and there are neither attempts nor streams. -/
structure Idle (w : World) : Prop where
  owner : w.supervisor.Resting
  attempts : w.attemptsOf w.supervisor.epoch = 0
  streams : w.streamsOf w.supervisor.epoch = 0

/-- The state is `offline` or `connecting`, with exactly one attempt. -/
structure Trying (w : World) : Prop where
  owner : w.supervisor.Seeking
  attempts : w.attemptsOf w.supervisor.epoch = 1
  streams : w.streamsOf w.supervisor.epoch = 0

/-- The state is `online`, with exactly one stream. -/
structure Up (w : World) : Prop where
  owner : w.supervisor.Serving
  attempts : w.attemptsOf w.supervisor.epoch = 0
  streams : w.streamsOf w.supervisor.epoch = 1

variable {w : World}

/-! ## Counting -/

/-- Commands of the present epoch may be counted in `news`. -/
theorem countP_commands {p : Command → Bool} (hp : ∀ c, p c → c.isNewsOf w.supervisor.epoch) :
    w.commands.countP p = w.news.countP p := by
  rw [news, newsOf, List.countP_filter]
  refine List.countP_congr fun c _ => ?_
  cases hc : p c <;> simp_all

theorem isNewsOf_of_isResultOf {c : Command} {epoch : Nat} (h : c.isResultOf epoch) :
    c.isNewsOf epoch := by
  cases c <;> simp_all [Command.isResultOf, Command.isNewsOf]

theorem isNewsOf_of_isEndOf {c : Command} {epoch : Nat} (h : c.isEndOf epoch) :
    c.isNewsOf epoch := by
  cases c <;> simp_all [Command.isEndOf, Command.isNewsOf]

theorem Phase.situation (h : w.Phase) (ha : w.supervisor.alive) : w.Idle ∨ w.Trying ∨ w.Up := by
  have hattempts : w.attemptsOf w.supervisor.epoch =
      w.attempts.countP (·.2.epoch = w.supervisor.epoch) +
        w.news.countP (·.isResultOf w.supervisor.epoch) := by
    rw [attemptsOf, countP_commands fun _ => isNewsOf_of_isResultOf]
  have hstreams : w.streamsOf w.supervisor.epoch =
      w.readers.countP (·.2.epoch = w.supervisor.epoch) +
        w.news.countP (·.isEndOf w.supervisor.epoch) := by
    rw [streamsOf, countP_commands fun _ => isNewsOf_of_isEndOf]
  cases h with
  | idle hs h hn =>
    exact .inl ⟨hs, by simp [hattempts, h.attempts, hn], by simp [hstreams, h.readers, hn]⟩
  | trying hs h =>
    have hnone (epoch : Nat) {cs : List Command} (hcs : ∀ c ∈ cs, c = .attempting epoch) :
        cs.countP (·.isResultOf epoch) = 0 ∧ cs.countP (·.isEndOf epoch) = 0 := by
      constructor <;> refine List.countP_eq_zero.2 fun c hc => ?_ <;>
        simp [hcs c hc, Command.isResultOf, Command.isEndOf]
    refine .inr (.inl ⟨hs, ?_, ?_⟩)
    · cases h with
      | live h he hn => simp [hattempts, h.attempts, he, (hnone _ hn).1]
      | told h ht hn =>
        rw [hattempts, h.attempts, hn, List.countP_append, (hnone _ ht).1]
        simp [Command.isResultOf]
    · cases h with
      | live h he hn => simp [hstreams, h.readers, (hnone _ hn).2]
      | told h ht hn =>
        rw [hstreams, h.readers, hn, List.countP_append, (hnone _ ht).2]
        simp [Command.isEndOf]
  | up hs h =>
    refine .inr (.inr ⟨hs, ?_, ?_⟩)
    · cases h with
      | live h he hn => simp [hattempts, h.attempts, hn]
      | told h hn => simp [hattempts, h.attempts, hn, Command.isResultOf]
    · cases h with
      | live h he hn => simp [hstreams, h.readers, hn, he]
      | told h hn => simp [hstreams, h.readers, hn, Command.isEndOf]
  | gone hs _ => simp [hs] at ha

section

variable {config : Config} {script : Peer.Script} {plugins : List Plugin} {pingStart : Span}

/-- On every run of harmless commands exactly one of `Idle`, `Trying` and `Up` holds. -/
theorem owns_of_run {log : List Handled} (h : Run (launch config script plugins pingStart) log w)
    (hlog : ∀ d ∈ log, d.Harmless) :
    (w.Idle ∨ w.Trying ∨ w.Up) ∧ ¬(w.Idle ∧ w.Trying) ∧ ¬(w.Idle ∧ w.Up) ∧ ¬(w.Trying ∧ w.Up) := by
  have ha : w.supervisor.alive := by
    refine (sound_launch.alive_iff_of_run h).2 ⟨?_, hlog⟩
    obtain ⟨_, _, _, heq⟩ := launch_spec config script plugins pingStart
    rw [heq]
    rfl
  refine ⟨(sound_launch.run h).phase.situation ha, ?_, ?_, ?_⟩
  · rintro ⟨hi, ht⟩
    rcases ht.owner.state with hs | hs <;> simp [hi.owner.state] at hs
  · rintro ⟨hi, hu⟩
    simpa [hi.owner.state] using hu.owner.state
  · rintro ⟨ht, hu⟩
    exact ht.owner.not_isOnline hu.owner.isOnline

/-- The bridge has lost its first session and connected again. -/
theorem owns_of_run_demo : Run demo demo.relapse.1 demo.relapse.2 ∧
    (∀ d ∈ demo.relapse.1, d.Harmless) ∧ demo.relapse.2.supervisor.epoch = 2 ∧
    (demo.relapse.2.Idle ∨ demo.relapse.2.Trying ∨ demo.relapse.2.Up) := by
  have hlog : ∀ d ∈ demo.relapse.1, d.Harmless := by decide +kernel
  exact ⟨run_demo, hlog, by decide +kernel, (owns_of_run run_demo hlog).1⟩

end

end Bridge.World

end PeerLink
