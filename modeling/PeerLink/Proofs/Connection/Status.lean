import PeerLink.Proofs.Connection.Supervisor
/-!
# The status after a command

## Main definitions

* `Command.renews`: a command that begins a new epoch in every state.
* `Effect.delays`: the delays of the attempts that are begun.
* `Supervisor.Candid`: the peer and the layout of the status.
* `Supervisor.Timing`: the delay of the status after a command.

## Main statements

* `Supervisor.Turn.epoch_eq`: the epoch after a command.
* `Supervisor.Turn.candid`, `Supervisor.Turn.timing`: the status after a command.
-/

namespace PeerLink.Connection

open Transport

namespace Command

/-- Whether a command begins a new epoch in every state. -/
def renews : Command → Bool
  | configure _ | shutdown => true
  | _ => false

/-- Whether a command reports that the delay of the attempt of `epoch` is over. -/
def isTryOf (epoch : Nat) : Command → Bool
  | attempting e => e = epoch
  | _ => false

theorem isNewsOf_of_isTryOf {c : Command} {epoch : Nat} (h : c.isTryOf epoch) :
    c.isNewsOf epoch := by
  cases c <;> simp_all [isTryOf, isNewsOf]

theorem Foreign.isTryOf_eq_false {c : Command} {epoch : Nat} (h : c.Foreign epoch) :
    c.isTryOf epoch = false := by
  cases ht : c.isTryOf epoch with
  | false => rfl
  | true => simpa [h.isNewsOf_eq_false] using isNewsOf_of_isTryOf ht

end Command

namespace Effect

/-- The delay of the attempt that an effect begins, if any. -/
def delay? : Effect → Option Span
  | startAttempt _ delay _ => some delay
  | _ => none

/-- The delays of the attempts that a list of effects begins. -/
def delays (es : List Effect) : List Span := es.filterMap delay?

@[simp] theorem delays_nil : delays [] = [] := rfl

@[simp] theorem delays_cons (e : Effect) (es : List Effect) :
    delays (e :: es) = e.delay?.toList ++ delays es := by
  cases h : e.delay? <;> simp [delays, h]

@[simp] theorem delays_append (a b : List Effect) : delays (a ++ b) = delays a ++ delays b :=
  List.filterMap_append

/-- Effects that begin no attempt have no delay. -/
theorem delays_of_begun {es : List Effect} (h : begun es = []) : delays es = [] := by
  apply List.filterMap_eq_nil_iff.2
  intro e he
  have hnone := List.filterMap_eq_nil_iff.1 h e he
  cases e <;> simp_all [begun?, delay?]

theorem delays_of_isLog {es : List Effect} (h : ∀ e ∈ es, e.isLog) : delays es = [] :=
  delays_of_begun (begun_of_isLog h)

end Effect

namespace Supervisor

variable {s s' : Supervisor} {opened : Except Failure Unit} {c : Command} {es : List Effect}

@[simp] theorem delays_cancelling (s : Supervisor) : Effect.delays s.cancelling = [] :=
  Effect.delays_of_begun (begun_cancelling s)

@[simp] theorem delays_telling (s : Supervisor) : Effect.delays s.telling = [] :=
  Effect.delays_of_begun (begun_telling s)

/-! ## Epochs -/

/-- A command increments the epoch iff it is `configure` or `shutdown`, or it takes the connection
down. -/
theorem Turn.epoch_eq (h : s.Turn opened c s' es) :
    s'.epoch = s.epoch + if c.renews || (s.isOnline && !s'.isOnline) then 1 else 0 := by
  cases h with
  | @stale c epoch hc hne => cases c <;> simp_all [Command.renews, Command.epoch?]
  | @unmoved c hc ho => cases c <;> simp_all [Command.renews, Command.isLoss]
  | tries ho => simp [Command.renews, ho, publish]
  | connects ho hv => simp [Command.renews, ho, connected]
  | retries ho hv hl hn => simp [Command.renews, ho, retried]
  | jams ho hr hl hn => simp [Command.renews, ho, jammed]
  | loses ho | ends ho =>
    simp [Command.renews, ho]
    rfl
  | detaches | joins | balks | stops => rfl

/-! ## Peer and layout -/

/-- The status has a peer iff the connection is up, and it has the layout of this peer. -/
structure Candid (s : Supervisor) : Prop where
  peer : s.status.peer.isSome = s.isOnline
  layout : s.status.layout = (s.status.peer.map PeerInfo.layout).getD .current

theorem Candid.of_none (ho : s.isOnline = false) (hp : s.status.peer = none)
    (hl : s.status.layout = .current) : s.Candid :=
  ⟨by rw [hp, ho]; rfl, by rw [hp, hl]; rfl⟩

theorem candid_initial (config : ConnectionConfig) (readOnly : Bool) :
    (initial config readOnly).Candid :=
  .of_none rfl rfl rfl

theorem Turn.candid (hs : s.Candid) (h : s.Turn opened c s' es) : s'.Candid := by
  cases h with
  | stale | unmoved => exact hs
  | tries ho =>
    have hpeer : s.status.peer.isSome = false := by simpa [ho] using hs.peer
    exact ⟨hpeer, hs.layout⟩
  | connects => exact ⟨rfl, rfl⟩
  | retries | jams => exact ⟨hs.peer, hs.layout⟩
  | loses | ends | detaches | joins | balks => exact .of_none rfl rfl rfl
  | stops => exact .of_none isOnline_stopped rfl rfl

/-- If the connection is up after a command, the command has changed nothing or it is an accepted
answer. -/
theorem Turn.connected_or (h : s.Turn opened c s' es) (ho : s'.isOnline) :
    (s' = s ∧ es = [] ∧ c.accepts s.epoch = false) ∨
      ∃ info session, c = .handshakeDone s.epoch (.ok info) ∧ s.view.session = some session ∧
        s' = s.connected info ∧
        es = [.log (.info (greeting s.status.readOnly info)),
          .startReader s.epoch session info.layout s.config.bufferSize, .notify .connect] := by
  have hdown := h.comes_up_iff
  cases h with
  | stale | unmoved => exact .inl ⟨rfl, rfl, by simpa [ho] using hdown⟩
  | @connects info session _ hv => exact .inr ⟨info, session, rfl, hv, rfl, rfl⟩
  | _ => simp_all

/-! ## The delay -/

/-- The delay of the status after a command. -/
inductive Timing (s : Supervisor) :
    Command → Supervisor → List Effect → Prop where
  | same {c : Command} (hc : c.isTryOf s.epoch = false) : Timing s c s []
  | begins : Timing s (.attempting s.epoch) (s.publish .connecting) []
  /-- No attempt is planned, and the status has the next delay. -/
  | rests {c : Command} {s' : Supervisor} {es : List Effect} (ha : s'.attempt = none)
      (hb : s'.status.backoff = s'.backoff.current) (hd : Effect.delays es = [])
      (hc : s'.epoch = s.epoch + 1 ∨
        s'.epoch = s.epoch ∧ ∃ result, c = .handshakeDone s.epoch result) :
      Timing s c s' es
  | jams {e : Error} {es : List Effect} (hd : Effect.delays es = []) :
      Timing s (.handshakeDone s.epoch (.error e)) s.jammed es
  /-- An attempt is planned, and the status has its delay. -/
  | plans {c : Command} {s' : Supervisor} {es : List Effect} (ha : s'.attempt.isSome)
      (hv : s'.alive = s.alive) (hd : Effect.delays es = [s'.status.backoff])
      (hc : s'.epoch = s.epoch + 1 ∨
        s'.epoch = s.epoch ∧ ∃ result, c = .handshakeDone s.epoch result) :
      Timing s c s' es

theorem Turn.timing (h : s.Turn opened c s' es) : s.Timing c s' es := by
  cases h with
  | @stale c epoch hc hne => exact .same (by cases c <;> simp_all [Command.isTryOf, Command.epoch?])
  | @unmoved c hc ho => exact .same (by cases c <;> simp_all [Command.isTryOf, Command.isLoss])
  | tries => exact .begins
  | connects => exact .rests rfl rfl rfl (.inr ⟨rfl, _, rfl⟩)
  | retries ho hv hl hn =>
    exact .plans rfl rfl (by simp [Effect.delays_of_isLog hl, Effect.delay?, retried, status])
      (.inr ⟨rfl, _, rfl⟩)
  | jams ho hr hl hn => exact .jams (Effect.delays_of_isLog hl)
  | loses ho he hn =>
    exact .plans rfl rfl (by simp [Effect.delay?, lost, status]) (.inl rfl)
  | ends ho hl hn =>
    exact .plans rfl rfl (by simp [Effect.delays_of_isLog hl, Effect.delay?, lost, status])
      (.inl rfl)
  | detaches => exact .rests rfl rfl (by simp [Effect.delay?]) (.inl rfl)
  | joins hc ho hn =>
    exact .plans rfl rfl (by simp [Effect.delay?, retried, status]) (.inl rfl)
  | balks => exact .rests rfl rfl (by simp [Effect.delay?]) (.inl rfl)
  | stops => exact .rests rfl rfl (by simp [Effect.delay?]) (.inl rfl)

theorem current_of_next? {b backoff : Backoff} {delay : Span}
    (h : b.next? = some (delay, backoff)) : delay = b.current := by
  simp only [Backoff.next?, Option.map_eq_some_iff, Prod.mk.injEq] at h
  obtain ⟨_, _, rfl, _⟩ := h
  rfl

/-- A command that opens no session begins at most one attempt, with the next delay. -/
theorem Turn.delays_eq (h : s.Turn opened c s' es) (hc : c.renews = false) :
    Effect.delays es = [] ∨ Effect.delays es = [s.backoff.current] ∧
      (s.isOnline ∨ ∃ result, c = .handshakeDone s.epoch result) := by
  cases h with
  | stale | unmoved | tries | connects => exact .inl rfl
  | jams ho hr hl hn => exact .inl (Effect.delays_of_isLog hl)
  | retries ho hv hl hn =>
    exact .inr
      ⟨by simp [Effect.delays_of_isLog hl, Effect.delay?, current_of_next? hn], .inr ⟨_, rfl⟩⟩
  | loses ho he hn => exact .inr ⟨by simp [Effect.delay?, current_of_next? hn], .inl ho⟩
  | ends ho hl hn =>
    exact .inr ⟨by simp [Effect.delays_of_isLog hl, Effect.delay?, current_of_next? hn], .inl ho⟩
  | detaches | joins | balks | stops => cases hc

end Supervisor

end PeerLink.Connection
