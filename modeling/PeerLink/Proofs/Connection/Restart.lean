import PeerLink.Proofs.Connection.Status
/-!
# Restarting the supervisor

The supervisor only compares epochs and increments them, so starting at a higher epoch shifts all
epochs and changes nothing else. `Command.configure` with a server keeps nothing else of the earlier
state. So after it the supervisor behaves like a new one with shifted epochs, and commands of
earlier epochs have no effect.

## Main definitions

* `Command.shift`, `Effect.shift`, `Supervisor.shift`: the shift of the epochs.
* `Command.since?`: a command with its epoch counted from a given epoch on.
* `Supervisor.handleAll`: the supervisor after a list of commands, with the effects of all of them.

## Main statements

* `Supervisor.handle_shift`: `Supervisor.handle` commutes with the shift.
* `Supervisor.handleAll_shift`: so does `Supervisor.handleAll`, without the commands of earlier
  epochs.
* `Supervisor.configure_eq_shift`: `Command.configure` gives a new supervisor, shifted.
-/

namespace PeerLink.Connection

open Transport

/-! ## The shift -/

namespace Command

/-- The command with its epoch mapped by `f`, if it has one. -/
def mapEpoch (f : Nat → Nat) : Command → Command
  | configure config => configure config
  | setOffline epoch reason => setOffline (epoch.map f) reason
  | attempting epoch => attempting (f epoch)
  | handshakeDone epoch result => handshakeDone (f epoch) result
  | streamEnded epoch ending => streamEnded (f epoch) ending
  | shutdown => shutdown

/-- The command with its epoch shifted by `k`. -/
def shift (k : Nat) (c : Command) : Command := c.mapEpoch (· + k)

/-- The command with its epoch counted from `k` on. It is `none` if the epoch is at most `k`. -/
def since? (k : Nat) (c : Command) : Option Command :=
  if c.epoch?.all (k < ·) then some (c.mapEpoch (· - k)) else none

theorem eq_shift_of_since? {k : Nat} {c d : Command} (h : c.since? k = some d) : c = d.shift k := by
  simp only [since?, Option.ite_none_right_eq_some, Option.some.injEq] at h
  obtain ⟨hlater, rfl⟩ := h
  have hback {e : Nat} (he : k < e) : e - k + k = e := by omega
  cases c with
  | setOffline epoch reason => cases epoch <;> simp_all [shift, mapEpoch, epoch?]
  | attempting | handshakeDone | streamEnded => simp_all [shift, mapEpoch, epoch?]
  | configure | shutdown => rfl

theorem epoch?_of_since? {k : Nat} {c : Command} (h : c.since? k = none) :
    ∃ epoch ≤ k, c.epoch? = some epoch := by
  cases he : c.epoch? with
  | none => simp [since?, he] at h
  | some epoch => exact ⟨epoch, by simpa [since?, he] using h, rfl⟩

end Command

namespace Effect

/-- The effect with its epoch shifted by `k`. -/
def shift (k : Nat) : Effect → Effect
  | startAttempt epoch delay expectSuccess => startAttempt (epoch + k) delay expectSuccess
  | startReader epoch session layout bufferSize =>
    startReader (epoch + k) session layout bufferSize
  | e => e

theorem map_shift_of_isLog {k : Nat} {es : List Effect} (h : ∀ e ∈ es, e.isLog) :
    es.map (shift k) = es := by
  have hkept : ∀ e ∈ es, shift k e = id e := by
    intro e he
    have hlog := h e he
    cases e <;> simp_all [isLog, shift]
  rw [List.map_congr_left hkept, List.map_id]

theorem hooks_shift (k : Nat) (es : List Effect) : hooks (es.map (shift k)) = hooks es := by
  rw [hooks, List.filterMap_map]
  congr 1
  funext e
  cases e <;> rfl

end Effect

namespace Supervisor

/-- The supervisor with its epochs shifted by `k`. -/
def shift (k : Nat) (s : Supervisor) : Supervisor :=
  { s with
    epoch := s.epoch + k
    view.status.epoch := s.status.epoch + k
    attempt := s.attempt.map fun a => { a with epoch := a.epoch + k }
    reader := s.reader.map (· + k) }

/-- The supervisor and its effects with their epochs shifted by `k`. -/
def shiftBoth (k : Nat) (done : Supervisor × List Effect) : Supervisor × List Effect :=
  (done.1.shift k, done.2.map (Effect.shift k))

variable {k : Nat} {s : Supervisor}

@[simp] theorem isOnline_shift : (s.shift k).isOnline = s.isOnline := rfl

@[simp] theorem alive_shift : (s.shift k).alive = s.alive := rfl

theorem publishPeer_shift (state : State) (peer : Option PeerInfo) :
    (s.shift k).publishPeer state peer = (s.publishPeer state peer).shift k := rfl

theorem cancelAttempt_shift : (s.shift k).cancelAttempt = shiftBoth k s.cancelAttempt := by
  cases h : s.attempt <;> simp [cancelAttempt, shiftBoth, shift, status, h, Effect.shift]

theorem cancelReader_shift : (s.shift k).cancelReader = shiftBoth k s.cancelReader := by
  cases h : s.reader <;> simp [cancelReader, shiftBoth, shift, status, h, Effect.shift]

theorem cancelTasks_shift : (s.shift k).cancelTasks = shiftBoth k s.cancelTasks := by
  simp only [cancelTasks, cancelAttempt_shift, shiftBoth, cancelReader_shift, List.map_append]

theorem crash_shift : (s.shift k).crash = shiftBoth k s.crash := by
  simp only [crash, cancelTasks_shift, shiftBoth]
  rfl

theorem scheduleAttempt_shift : (s.shift k).scheduleAttempt = shiftBoth k s.scheduleAttempt := by
  simp only [scheduleAttempt, cancelAttempt_shift, shiftBoth]
  have hbackoff : (s.cancelAttempt.1.shift k).backoff = s.cancelAttempt.1.backoff := rfl
  rw [hbackoff]
  cases s.cancelAttempt.1.backoff.next? with
  | none => simp [crash_shift, shiftBoth]
  | some next => simp [shift, Effect.shift, status]

/-- Incrementing the epoch commutes with the shift. -/
theorem renew_shift : { s.shift k with epoch := (s.shift k).epoch + 1 } =
    { s with epoch := s.epoch + 1 }.shift k := by
  simp [shift, status, Nat.add_right_comm]

theorem goOffline_shift : (s.shift k).goOffline = shiftBoth k s.goOffline := by
  simp only [goOffline, renew_shift, cancelTasks_shift, publishPeer_shift, scheduleAttempt_shift,
    shiftBoth, List.map_append, List.map_cons]
  rfl

theorem abandon_shift : (s.shift k).abandon = shiftBoth k s.abandon := by
  simp only [abandon, renew_shift, cancelTasks_shift, shiftBoth, isOnline_shift]
  by_cases ho : s.isOnline <;> simp [ho, Effect.shift]

/-! ## Commands with shifted epochs -/

variable {opened : Except Failure Unit}

theorem configure_shift (config : ConnectionConfig) :
    (s.shift k).configure opened config = shiftBoth k (s.configure opened config) := by
  simp only [configure, abandon_shift, shiftBoth]
  cases config.isConfigured with
  | false => simp [Effect.shift]; rfl
  | true =>
    cases opened with
    | error cause => simp [Effect.shift]; rfl
    | ok =>
      have hpoint (s : Supervisor) :
          ({ s.shift k with
            view.session := some ⟨config.baseUrl⟩, config
            backoff := Backoff.ofConfig config } : Supervisor).publishPeer .connecting none =
          (({ s with
            view.session := some ⟨config.baseUrl⟩, config
            backoff := Backoff.ofConfig config } : Supervisor).publishPeer .connecting none).shift
              k := rfl
      simp only [hpoint, scheduleAttempt_shift, shiftBoth, List.map_append, List.map_cons,
        Bool.not_true, Bool.false_eq_true, if_false]
      rfl

theorem setOffline_shift (epoch : Option Nat) (reason : String) :
    (s.shift k).setOffline (epoch.map (· + k)) reason =
      shiftBoth k (s.setOffline epoch reason) := by
  have hepoch : (s.shift k).epoch = s.epoch + k := rfl
  have hcond : (epoch.map (· + k) = none ∨ epoch.map (· + k) = some (s.epoch + k)) ↔
      (epoch = none ∨ epoch = some s.epoch) := by
    cases epoch <;> simp
  simp only [setOffline, isOnline_shift, hepoch, hcond, goOffline_shift, shiftBoth]
  split <;> rfl

theorem attempting_shift (epoch : Nat) :
    (s.shift k).attempting (epoch + k) = shiftBoth k (s.attempting epoch) := by
  have hepoch : epoch + k = (s.shift k).epoch ↔ epoch = s.epoch := Nat.add_right_cancel_iff
  simp only [attempting, hepoch, shiftBoth]
  split <;> rfl

theorem connect_shift (info : PeerInfo) :
    (s.shift k).connect info = shiftBoth k (s.connect info) := by
  have hsession : (s.shift k).view.session = s.view.session := rfl
  simp only [connect, hsession]
  cases s.view.session <;> rfl

theorem handshakeDone_shift (epoch : Nat) (result : Except Error PeerInfo) :
    (s.shift k).handshakeDone (epoch + k) result = shiftBoth k (s.handshakeDone epoch result) := by
  have hepoch : epoch + k ≠ (s.shift k).epoch ↔ epoch ≠ s.epoch := by
    simp [shift]
  have hdrop : { s.shift k with attempt := none } = { s with attempt := none }.shift k := rfl
  simp only [handshakeDone, hepoch, hdrop]
  split
  · rfl
  · cases result with
    | ok info => exact connect_shift info
    | error e =>
      simp only [scheduleAttempt_shift, shiftBoth, List.map_append]
      split
      · rfl
      · simp only [Effect.map_shift_of_isLog isLog_failureLines]

theorem streamEnded_shift (epoch : Nat) (ending : Feed.End) :
    (s.shift k).streamEnded (epoch + k) ending = shiftBoth k (s.streamEnded epoch ending) := by
  have hepoch : epoch + k = (s.shift k).epoch ↔ epoch = s.epoch := Nat.add_right_cancel_iff
  have hdrop : { s.shift k with reader := none } = { s with reader := none }.shift k := rfl
  simp only [streamEnded, hepoch, isOnline_shift, hdrop, goOffline_shift]
  split
  · simp only [shiftBoth, List.map_append]
    split
    · rfl
    · simp only [Effect.map_shift_of_isLog isLog_failureLines]
  · rfl

theorem stop_shift : (s.shift k).stop = shiftBoth k s.stop := by
  have hstopped : (s.shift k).stopped = s.stopped.shift k := by
    simp [stopped, fallen, shift, status, Nat.add_right_comm]
    rfl
  have hcancelling : (s.shift k).cancelling = s.cancelling.map (Effect.shift k) := by
    cases ha : s.attempt <;> cases hr : s.reader <;>
      simp [cancelling, shift, ha, hr, Effect.shift]
  have htelling : (s.shift k).telling = s.telling.map (Effect.shift k) := by
    by_cases ho : s.isOnline <;> simp [telling, ho, Effect.shift]
  simp only [stop_eq, shiftBoth, hstopped, hcancelling, htelling, List.map_cons, List.map_append]
  rfl

/-- `Supervisor.handle` commutes with the shift. -/
theorem handle_shift (c : Command) :
    (s.shift k).handle opened (c.shift k) = shiftBoth k (s.handle opened c) := by
  cases c with
  | configure config =>
    simp only [Command.shift, Command.mapEpoch, handle]
    exact configure_shift config
  | setOffline epoch reason => exact setOffline_shift epoch reason
  | attempting epoch => exact attempting_shift epoch
  | handshakeDone epoch result => exact handshakeDone_shift epoch result
  | streamEnded epoch ending => exact streamEnded_shift epoch ending
  | shutdown => exact stop_shift

/-! ## Lists of commands -/

/-- The supervisor after a list of commands, with the effects of all of them. Each command comes
with the result of opening a session. Commands after the end of the supervisor are not taken. -/
def handleAll (s : Supervisor) :
    List (Except Failure Unit × Command) → Supervisor × List Effect
  | [] => (s, [])
  | (opened, c) :: rest =>
    if s.alive then
      let (next, effects) := s.handle opened c
      let (last, more) := next.handleAll rest
      (last, effects ++ more)
    else (s, [])

/-- The commands with their epochs counted from `k` on, without those of epochs up to `k`. -/
def since (k : Nat) (inputs : List (Except Failure Unit × Command)) :
    List (Except Failure Unit × Command) :=
  inputs.filterMap fun e => (e.2.since? k).map (e.1, ·)

theorem handleAll_of_not_alive (ha : s.alive = false)
    (inputs : List (Except Failure Unit × Command)) : s.handleAll inputs = (s, []) := by
  cases inputs with
  | nil => rfl
  | cons e rest => simp [handleAll, ha]

theorem handleAll_cons_of_alive (ha : s.alive) (c : Command)
    (rest : List (Except Failure Unit × Command)) :
    s.handleAll ((opened, c) :: rest) =
      (((s.handle opened c).1.handleAll rest).1,
        (s.handle opened c).2 ++ ((s.handle opened c).1.handleAll rest).2) := by
  simp [handleAll, ha]

theorem handleAll_append (s : Supervisor) (a b : List (Except Failure Unit × Command)) :
    s.handleAll (a ++ b) = (((s.handleAll a).1.handleAll b).1,
      (s.handleAll a).2 ++ ((s.handleAll a).1.handleAll b).2) := by
  induction a generalizing s with
  | nil => simp [handleAll]
  | cons e rest ih =>
    obtain ⟨opened, c⟩ := e
    by_cases ha : s.alive
    · simp [handleAll_cons_of_alive ha, ih]
    · simp [handleAll_of_not_alive (Bool.not_eq_true _ ▸ ha)]

@[simp] theorem epoch_scheduleAttempt (s : Supervisor) : s.scheduleAttempt.1.epoch = s.epoch := by
  unfold scheduleAttempt
  dsimp only
  split <;> rfl

theorem epoch_goOffline (s : Supervisor) : s.goOffline.1.epoch = s.epoch + 1 := by
  simp [goOffline, cancelTasks_eq, publishPeer, publish]

theorem Turn.configured {s' : Supervisor} {config : ConnectionConfig} {es : List Effect}
    (h : s.Turn opened (.configure config) s' es) :
    s'.epoch = s.epoch + 1 ∧ s'.isOnline = false := by
  refine ⟨by simpa [Command.renews] using h.epoch_eq, ?_⟩
  cases h with
  | stale hc => simp [Command.epoch?] at hc
  | unmoved hc => simp [Command.isLoss] at hc
  | detaches | joins | balks => rfl

/-- `Command.configure` begins a new epoch, in which the connection is not up. -/
theorem handle_configure (s : Supervisor) (opened : Except Failure Unit)
    (config : ConnectionConfig) : (s.handle opened (.configure config)).1.epoch = s.epoch + 1 ∧
      (s.handle opened (.configure config)).1.isOnline = false := by
  rw [handle]
  exact (turn_configure s opened config).configured

/-- The epoch does not decrease. -/
theorem epoch_le_handle (s : Supervisor) (opened : Except Failure Unit) (c : Command) :
    s.epoch ≤ (s.handle opened c).1.epoch := by
  cases c with
  | configure config =>
    rw [(handle_configure s opened config).1]
    exact Nat.le_succ _
  | setOffline epoch reason =>
    dsimp only [handle, setOffline]
    split
    · exact epoch_goOffline s ▸ Nat.le_succ _
    · exact Nat.le_refl _
  | attempting epoch =>
    dsimp only [handle, attempting]
    split <;> exact Nat.le_refl _
  | handshakeDone epoch result =>
    dsimp only [handle, handshakeDone]
    split
    · exact Nat.le_refl _
    · cases result with
      | ok info =>
        dsimp only [connect]
        split <;> exact Nat.le_refl _
      | error e => simp
  | streamEnded epoch ending =>
    dsimp only [handle, streamEnded]
    split
    · simp [epoch_goOffline]
    · exact Nat.le_refl _
  | shutdown =>
    rw [handle, stop_eq]
    exact Nat.le_succ _

/-- A shifted supervisor takes the commands of epochs after `k` like the supervisor itself, and the
other commands have no effect. -/
theorem handleAll_shift (hs : 0 < s.epoch) (inputs : List (Except Failure Unit × Command)) :
    (s.shift k).handleAll inputs = shiftBoth k (s.handleAll (since k inputs)) := by
  induction inputs generalizing s with
  | nil => rfl
  | cons e rest ih =>
    obtain ⟨opened, c⟩ := e
    by_cases ha : s.alive
    · rw [handleAll_cons_of_alive (by simpa using ha)]
      cases hc : c.since? k with
      | none =>
        obtain ⟨epoch, hle, hepoch⟩ := Command.epoch?_of_since? hc
        have hne : epoch ≠ (s.shift k).epoch := by
          have hlater : (s.shift k).epoch = s.epoch + k := rfl
          omega
        have hrest : since k ((opened, c) :: rest) = since k rest := by simp [since, hc]
        rw [handle_of_stale hepoch hne, hrest, ih hs, List.nil_append]
      | some d =>
        have hrest : since k ((opened, c) :: rest) = (opened, d) :: since k rest := by
          simp [since, hc]
        have hnext : 0 < (s.handle opened d).1.epoch :=
          Nat.lt_of_lt_of_le hs (epoch_le_handle s opened d)
        rw [hrest, handleAll_cons_of_alive ha, Command.eq_shift_of_since? hc, handle_shift]
        simp only [shiftBoth, ih hnext, List.map_append]
    · have ha : s.alive = false := by simpa using ha
      rw [handleAll_of_not_alive ha, handleAll_of_not_alive (by simpa using ha)]
      rfl

/-! ## Configuring -/

/-- For a supervisor that is alive, `Command.configure` with a server gives the shift of what it
gives for a new supervisor, and the same effects after those that abort its tasks. -/
theorem configure_eq_shift {config : ConnectionConfig} (hc : config.isConfigured) (ha : s.alive)
    (hopen : s.view.closed = false) (other : ConnectionConfig) :
    (s.configure (.ok ()) config).1 =
        ((initial other s.status.readOnly).configure (.ok ()) config).1.shift s.epoch ∧
      (s.configure (.ok ()) config).2 = s.cancelling ++ s.telling ++
        ((initial other s.status.readOnly).configure (.ok ()) config).2.map
          (Effect.shift s.epoch) := by
  have hpointed : s.pointed config =
      ((initial other s.status.readOnly).pointed config).shift s.epoch := by
    simp [pointed, fallen, initial, shift, status, ha, hopen, Nat.add_comm]
  cases hn : (Backoff.ofConfig config).next? with
  | none =>
    rw [configure_of_none hc hn, configure_of_none hc hn, hpointed]
    exact ⟨rfl, rfl⟩
  | some next =>
    rw [configure_of_some hc hn, configure_of_some hc hn, hpointed]
    refine ⟨rfl, ?_⟩
    simp [initial, cancelling, telling, isOnline, Effect.shift, Nat.add_comm]
    rfl

end Supervisor

end PeerLink.Connection
