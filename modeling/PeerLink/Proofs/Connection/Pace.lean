import PeerLink.Proofs.Connection.Status
/-!
# The timer of the supervisor

The delays of a configuration are the terms of the sequence `Backoff.term?`, and a timer is at one
of them. A command draws the current delay and moves the timer to the next one, or resets the timer
to the first delay, or leaves it. Which of these it does depends on the command, on its epoch and on
whether the connection is up.

## Main definitions

* `Backoff.term?`: the sequence of delays of a configuration.
* `Backoff.StandsAt`: the timer after `n` delays have been drawn.
* `Backoff.draw`: the delay that is drawn, with the timer after it.
* `Command.opens?`, `Command.fails`: the commands that open a session or report a failed attempt.

## Main statements

* `Backoff.StandsAt.draw`, `Backoff.StandsAt.reset`: the position of a timer after a draw and after
  a reset.
* `Supervisor.Turn.pace_eq`, `Supervisor.Turn.grown?_eq`: the timer after a command, and the delays
  of the attempts that it begins.
* `Supervisor.handshakeDone_error_congr`: the error of a failed attempt affects the log only.
-/

namespace PeerLink.Connection

open Transport

/-! ## The sequence of delays -/

namespace Backoff

/-- The delay number `n`. The first is the configured minimum, and each later one is the one before
grown by the factor, up to the maximum. There is none after a delay that overflows. -/
def term? (c : ConnectionConfig) : (n : Nat) → Option Span
  | 0 => some c.minBackoff
  | n + 1 => (term? c n).bind fun delay =>
      (delay.grow? (ofConfig c).factor).map (·.min (ofConfig c).max)

/-- The timer of a valid configuration has the configured maximum and the configured factor. -/
theorem ofConfig_of_validate {c : Config} (h : c.validate = .ok ()) :
    (ofConfig c.connection).max = c.connection.maxBackoff ∧
      (ofConfig c.connection).factor = c.connection.backoffFactor := by
  unfold Config.validate at h
  split at h
  · cases h
  split at h
  · cases h
  next hle =>
    split at h
    · cases h
    next hfactor =>
      refine ⟨?_, if_neg hfactor⟩
      have hmax : c.connection.minBackoffMs * Span.milli ≤ c.connection.maxBackoffMs * Span.milli :=
        Nat.mul_le_mul_right _ (Nat.not_lt.1 hle)
      exact congrArg Span.mk (Nat.max_eq_left hmax)

/-- `b` is the timer of `c` after `n` delays have been drawn. -/
structure StandsAt (c : ConnectionConfig) (n : Nat) (b : Backoff) : Prop where
  current : term? c n = some b.current
  min : b.min = c.minBackoff
  max : b.max = (ofConfig c).max
  factor : b.factor = (ofConfig c).factor

/-- The delay that is drawn, if it does not overflow, and the timer after it. -/
def draw (b : Backoff) : List Span × Backoff :=
  match b.next? with
  | some (delay, grown) => ([delay], grown)
  | none => ([], b)

theorem draw_of_some {b grown : Backoff} {delay : Span} (h : b.next? = some (delay, grown)) :
    b.draw = ([delay], grown) := by
  simp [draw, h]

theorem draw_of_none {b : Backoff} (h : b.next? = none) : b.draw = ([], b) := by
  simp [draw, h]

namespace StandsAt

variable {c : ConnectionConfig} {n : Nat} {b : Backoff}

theorem ofConfig (c : ConnectionConfig) : StandsAt c 0 (ofConfig c) := ⟨rfl, rfl, rfl, rfl⟩

theorem reset (h : StandsAt c n b) : StandsAt c 0 b.reset :=
  ⟨congrArg some h.min.symm, h.min, h.max, h.factor⟩

/-- `Backoff.next?` gives the delay number `n` and leaves the timer at `n + 1`. -/
theorem next (h : StandsAt c n b) {delay : Span} {grown : Backoff}
    (hn : b.next? = some (delay, grown)) : term? c n = some delay ∧ StandsAt c (n + 1) grown := by
  simp only [next?, Option.map_eq_some_iff, Prod.mk.injEq] at hn
  obtain ⟨longer, hg, rfl, rfl⟩ := hn
  refine ⟨h.current, ?_, h.min, h.max, h.factor⟩
  rw [term?, h.current, Option.bind_some, ← h.factor, ← h.max, hg]
  rfl

/-- A draw gives the delay number `n` and leaves the timer at `n + 1`, unless the delay
overflows. -/
theorem draw (h : StandsAt c n b) {delays : List Span} {b' : Backoff}
    (hd : (delays, b') = b.draw) :
    delays.map some = (List.range delays.length).map (fun i => term? c (n + i)) ∧
      StandsAt c (n + delays.length) b' := by
  cases hn : b.next? with
  | none =>
    obtain ⟨rfl, rfl⟩ := Prod.mk.inj (hd.trans (draw_of_none hn))
    exact ⟨rfl, h⟩
  | some next =>
    obtain ⟨delay, grown⟩ := next
    obtain ⟨rfl, rfl⟩ := Prod.mk.inj (hd.trans (draw_of_some hn))
    obtain ⟨hterm, hgrown⟩ := h.next hn
    simpa [hterm] using hgrown

end StandsAt

end Backoff

/-! ## The timer after a command -/

namespace Command

/-- The configuration that a command opens a session with, if any. `opened` is the result of opening
it. -/
def opens? (opened : Except Failure Unit) : Command → Option ConnectionConfig
  | configure config => if config.isConfigured ∧ opened.isOk then some config else none
  | _ => none

/-- Whether a command reports the failure of the attempt of `epoch`. -/
def fails (epoch : Nat) : Command → Bool
  | handshakeDone e (.error _) => e = epoch
  | _ => false

theorem opens?_of_not_renews {c : Command} (h : c.renews = false)
    (opened : Except Failure Unit) : c.opens? opened = none := by
  cases c <;> simp_all [opens?, renews]

theorem renews_of_fails {c : Command} {epoch : Nat} (h : c.fails epoch) : c.renews = false := by
  cases c <;> simp_all [fails, renews]

end Command

namespace Supervisor

variable {s s' : Supervisor} {opened : Except Failure Unit} {c : Command} {es : List Effect}

/-- A command draws a delay from the present timer or from a new one, or it resets the timer, if it
is an accepted answer, or it leaves the timer. -/
theorem Turn.pace_eq (h : s.Turn opened c s' es) : (Effect.delays es, s'.backoff) =
    match s.grown? opened c with
    | some b => b.draw
    | none => ([], if c.accepts s.epoch then s.backoff.reset else s.backoff) := by
  cases h with
  | @stale c epoch hc hne =>
    have hacc : ¬c.accepts s.epoch := fun h =>
      hne (Option.some.inj (hc.symm.trans (Command.epoch?_of_accepts h)))
    rw [grown?_of_stale hc hne]
    simp [hacc]
  | @unmoved c hc ho => cases c <;> simp_all [grown?, Command.isLoss, Command.accepts]
  | tries ho => simp [grown?, Command.accepts, publish]
  | connects ho hv => simp [grown?, Command.accepts, connected, Effect.delay?]
  | retries ho hv hl hn =>
    simp [grown?, Backoff.draw_of_some hn, Effect.delays_of_isLog hl, Effect.delay?, retried]
  | jams ho hr hl hn =>
    simp [grown?, Backoff.draw_of_none hn, Effect.delays_of_isLog hl, jammed]
  | loses ho he hn => simp [grown?, ho, he, Backoff.draw_of_some hn, Effect.delay?, lost]
  | ends ho hl hn =>
    simp [grown?, ho, Backoff.draw_of_some hn, Effect.delays_of_isLog hl, Effect.delay?, lost]
  | detaches hc =>
    obtain hc | ⟨cause, rfl⟩ := hc
    · simp [grown?, hc, Command.accepts, detached, Effect.delay?]
    · simp [grown?, Command.accepts, detached, Effect.delay?, Except.isOk, Except.toBool]
  | joins hc ho hn =>
    subst ho
    simp [grown?, hc, Backoff.draw_of_some hn, Effect.delay?, retried, Except.isOk, Except.toBool]
  | balks hc ho hn =>
    subst ho
    simp [grown?, hc, Backoff.draw_of_none hn, Effect.delay?, jammed, pointed, Except.isOk,
      Except.toBool]
  | stops => simp [grown?, Command.accepts, stopped, Effect.delay?]

/-- A delay is drawn when a session is opened, after a failed attempt, and when the connection is
lost. -/
theorem Turn.grown?_eq (h : s.Turn opened c s' es) : s.grown? opened c =
    ((c.opens? opened).map Backoff.ofConfig).or
      (if c.fails s.epoch || (!c.renews && s.isOnline && !s'.isOnline) then some s.backoff
        else none) := by
  cases h with
  | @stale c epoch hc hne =>
    rw [grown?_of_stale hc hne]
    cases c with
    | configure | shutdown => simp [Command.epoch?] at hc
    | handshakeDone e result =>
      obtain rfl : e = epoch := Option.some.inj hc
      cases result <;> simp [Command.opens?, Command.fails, hne]
    | _ => simp [Command.opens?, Command.fails]
  | @unmoved c hc ho =>
    cases c <;> simp_all [grown?, Command.isLoss, Command.opens?, Command.fails]
  | tries ho => simp [grown?, Command.opens?, Command.fails, ho]
  | connects ho hv => simp [grown?, Command.opens?, Command.fails, ho]
  | retries ho hv hl hn | jams ho hr hl hn => simp [grown?, Command.opens?, Command.fails]
  | loses ho he hn => simp [grown?, Command.opens?, Command.fails, Command.renews, ho, he]
  | ends ho hl hn => simp [grown?, Command.opens?, Command.fails, Command.renews, ho]
  | @detaches config =>
    by_cases hopen : config.isConfigured ∧ opened.isOk
    · simp [grown?, Command.opens?, hopen]
    · simp [grown?, Command.opens?, Command.fails, Command.renews, hopen]
  | joins hc ho hn | balks hc ho hn =>
    subst ho
    simp [grown?, Command.opens?, hc, Except.isOk, Except.toBool]
  | stops => simp [grown?, Command.opens?, Command.fails, Command.renews]

/-- An accepted answer draws no delay. -/
theorem grown?_of_accepts (hc : c.accepts s.epoch) : s.grown? opened c = none := by
  cases c with
  | handshakeDone epoch result =>
    cases result with
    | ok info => rfl
    | error e => simp [Command.accepts] at hc
  | _ => simp [Command.accepts] at hc

/-- A command that keeps the epoch and does not bring the connection up opens no session and is no
accepted answer. -/
theorem Turn.opens?_of_same (h : s.Turn opened c s' es) (he : s'.epoch = s.epoch)
    (ho : s'.isOnline → s.isOnline) : c.opens? opened = none ∧ c.accepts s.epoch = false := by
  constructor
  · have hrenews : c.renews = false := by
      have hepoch := h.epoch_eq
      cases hr : c.renews with
      | false => rfl
      | true => simp [hr, he] at hepoch
    exact Command.opens?_of_not_renews hrenews opened
  · rw [← Bool.not_eq_true, ← h.comes_up_iff]
    rintro ⟨hdown, hup⟩
    simp [ho hup] at hdown

/-- Without a session no attempt is begun, until a command opens one. -/
theorem Turn.sessionless (hs : s.Steady) (h : s.Turn opened c s' es) (hv : s.view.session = none)
    (hc : c.opens? opened = none) : Effect.delays es = [] ∧ s'.view.session = none := by
  have hdown (ho : s.isOnline) : False := by
    have hsome := hs.session ho
    simp [hv] at hsome
  cases h with
  | stale | unmoved | tries => exact ⟨rfl, hv⟩
  | connects ho hsome => simp [hv] at hsome
  | retries ho hsome => simp [hv] at hsome
  | jams ho hr hl hn => exact ⟨Effect.delays_of_isLog hl, hv⟩
  | loses ho | ends ho => exact (hdown ho).elim
  | detaches => exact ⟨by simp [Effect.delay?], rfl⟩
  | joins hconf ho | balks hconf ho =>
    subst ho
    simp [Command.opens?, hconf, Except.isOk, Except.toBool] at hc
  | stops => exact ⟨by simp [Effect.delay?], hv⟩

/-- A report of a loss that is taken while the connection is not up does nothing. -/
theorem handle_of_isLoss (hc : c.isLoss) (ho : ¬s.isOnline) : s.handle opened c = (s, []) := by
  cases c with
  | setOffline epoch reason => simp [handle, setOffline, ho]
  | streamEnded epoch ending => simp [handle, streamEnded, ho]
  | _ => simp [Command.isLoss] at hc

/-- The error of a failed attempt affects only the lines in the log. -/
theorem handshakeDone_error_congr (s : Supervisor) (epoch : Nat) (e e' : Error) :
    (s.handshakeDone epoch (.error e)).1 = (s.handshakeDone epoch (.error e')).1 ∧
      (s.handshakeDone epoch (.error e)).2.filter (!·.isLog) =
        (s.handshakeDone epoch (.error e')).2.filter (!·.isLog) := by
  have hlines (e : Error) :
      (if e.isTransient then [Effect.log (.info ("Peer not ready: " ++ e.message))]
        else failureLines ("Connection attempt failed [" ++ e.code ++ "]") e.causes).filter
          (!·.isLog) = [] := by
    apply List.filter_eq_nil_iff.2
    split
    · simp [Effect.isLog]
    · intro l hl
      simp [isLog_failureLines l hl]
  unfold handshakeDone
  split
  · exact ⟨rfl, rfl⟩
  · exact ⟨rfl, by simp only [List.filter_append, hlines]⟩

end Supervisor

end PeerLink.Connection
