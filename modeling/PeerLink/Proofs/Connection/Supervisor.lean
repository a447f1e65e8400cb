import PeerLink.Connection.Supervisor
/-!
# The outcomes of a command

A command that carries an epoch is *stale* unless it is the present epoch, and a stale command
changes nothing. Every other command has one of the outcomes of `Turn`, which lists the supervisor
after the command and the effects for each of them.

Which commands can be in the queue depends on the world. `Expected` is the condition on the command
that `turn_handle` needs.

## Main definitions

* `Command.epoch?`, `Command.isNewsOf`, `Command.reportsLoss`: the epoch and the kind of a command.
* `Effect.hooks`, `Effect.begun`: the hooks that are called and the attempts that are begun.
* `Supervisor.Expected`: the commands that can be in the queue.
* `Supervisor.Steady`: the invariant of a supervisor between two commands.
* `Supervisor.Turn`: the outcomes of a command.

## Main statements

* `Supervisor.turn_handle`: `Supervisor.handle` of an expected command is one of the outcomes.
-/

namespace PeerLink.Connection

open Transport

/-! ## Commands -/

namespace Command

/-- The epoch that a command carries, if any. -/
def epoch? : Command → Option Nat
  | configure _ | shutdown => none
  | setOffline epoch _ => epoch
  | attempting epoch | handshakeDone epoch _ | streamEnded epoch _ => some epoch

/-- Whether a command is sent by the attempt or by the reader of `epoch`. -/
def isNewsOf (epoch : Nat) : Command → Bool
  | attempting e | handshakeDone e _ | streamEnded e _ => e = epoch
  | _ => false

/-- Whether a command reports the loss of the session of `epoch`. -/
def reportsLoss (epoch : Nat) : Command → Bool
  | setOffline (some e) _ | streamEnded e _ => e = epoch
  | _ => false

/-- Whether a command reports a loss. -/
def isLoss : Command → Bool
  | setOffline _ _ | streamEnded _ _ => true
  | _ => false

/-- Whether a command is the success of the attempt of `epoch`. -/
def accepts (epoch : Nat) : Command → Bool
  | handshakeDone e (.ok _) => e = epoch
  | _ => false

/-- Whether a command is `shutdown`. -/
def isShutdown : Command → Bool
  | shutdown => true
  | _ => false

/-- Whether a command can be sent at any time while `epoch` is present: it is no report of an
attempt or a reader, or it is one of an earlier epoch. -/
def Foreign (epoch : Nat) : Command → Prop
  | attempting e | handshakeDone e _ | streamEnded e _ => e < epoch
  | _ => True

theorem epoch?_of_reportsLoss {c : Command} {epoch : Nat} (h : c.reportsLoss epoch) :
    c.epoch? = some epoch := by
  cases c with
  | setOffline e _ => cases e <;> simp_all [reportsLoss, epoch?]
  | _ => simp_all [reportsLoss, epoch?]

theorem epoch?_of_accepts {c : Command} {epoch : Nat} (h : c.accepts epoch) :
    c.epoch? = some epoch := by
  cases c with
  | handshakeDone e result => cases result <;> simp_all [accepts, epoch?]
  | _ => simp [accepts] at h

theorem isNewsOf_eq_false {c : Command} {e epoch : Nat} (hc : c.epoch? = some e) (he : e ≠ epoch) :
    c.isNewsOf epoch = false := by
  cases c <;> simp_all [epoch?, isNewsOf]

theorem Foreign.isNewsOf_eq_false {c : Command} {epoch : Nat} (h : c.Foreign epoch) :
    c.isNewsOf epoch = false := by
  cases c <;> simp_all [Foreign, isNewsOf] <;> omega

end Command

namespace Effect

/-- The hook that an effect calls, if any. -/
def hook? : Effect → Option Hook
  | notify hook => some hook
  | _ => none

/-- The epoch of the attempt that an effect begins, if any. -/
def begun? : Effect → Option Nat
  | startAttempt epoch _ _ => some epoch
  | _ => none

/-- The hooks that a list of effects calls, in order. -/
def hooks (es : List Effect) : List Hook := es.filterMap hook?

/-- The epochs of the attempts that a list of effects begins. -/
def begun (es : List Effect) : List Nat := es.filterMap begun?

/-- Whether an effect is a line in the log. -/
def isLog : Effect → Bool
  | log _ => true
  | _ => false

/-- Whether an effect starts and aborts no task. -/
def isQuiet : Effect → Bool
  | log _ | openSession _ | notify _ => true
  | _ => false

@[simp] theorem hooks_nil : hooks [] = [] := rfl

@[simp] theorem hooks_cons (e : Effect) (es : List Effect) :
    hooks (e :: es) = e.hook?.toList ++ hooks es := by
  cases h : e.hook? <;> simp [hooks, h]

@[simp] theorem begun_nil : begun [] = [] := rfl

@[simp] theorem begun_cons (e : Effect) (es : List Effect) :
    begun (e :: es) = e.begun?.toList ++ begun es := by
  cases h : e.begun? <;> simp [begun, h]

@[simp] theorem hooks_append (a b : List Effect) : hooks (a ++ b) = hooks a ++ hooks b :=
  List.filterMap_append

@[simp] theorem begun_append (a b : List Effect) : begun (a ++ b) = begun a ++ begun b :=
  List.filterMap_append

theorem isQuiet_of_isLog {e : Effect} (h : e.isLog) : e.isQuiet := by
  cases e <;> simp_all [isLog, isQuiet]

theorem hooks_of_isLog {es : List Effect} (h : ∀ e ∈ es, e.isLog) : hooks es = [] := by
  refine List.filterMap_eq_nil_iff.2 fun e he => ?_
  have := h e he
  cases e <;> simp_all [isLog, hook?]

theorem begun_of_isLog {es : List Effect} (h : ∀ e ∈ es, e.isLog) : begun es = [] := by
  refine List.filterMap_eq_nil_iff.2 fun e he => ?_
  have := h e he
  cases e <;> simp_all [isLog, begun?]

end Effect

namespace Supervisor

/-! ## Aborting tasks -/

/-- The effects that abort the attempt and the reader. -/
def cancelling (s : Supervisor) : List Effect :=
  (if s.attempt.isSome then [.abortAttempt] else []) ++
    if s.reader.isSome then [.abortReader] else []

/-- The effects that report the end of a session to the plugins. -/
def telling (s : Supervisor) : List Effect := if s.isOnline then [.notify .disconnect] else []

@[simp] theorem hooks_cancelling (s : Supervisor) : Effect.hooks s.cancelling = [] := by
  unfold cancelling; split <;> split <;> rfl

@[simp] theorem begun_cancelling (s : Supervisor) : Effect.begun s.cancelling = [] := by
  unfold cancelling; split <;> split <;> rfl

theorem isQuiet_telling (s : Supervisor) : ∀ e ∈ s.telling, e.isQuiet := by
  unfold telling; split <;> simp [Effect.isQuiet]

@[simp] theorem hooks_telling (s : Supervisor) :
    Effect.hooks s.telling = if s.isOnline then [.disconnect] else [] := by
  unfold telling; split <;> rfl

@[simp] theorem begun_telling (s : Supervisor) : Effect.begun s.telling = [] := by
  unfold telling; split <;> rfl

theorem cancelTasks_eq (s : Supervisor) :
    s.cancelTasks = ({ s with attempt := none, reader := none }, s.cancelling) := rfl

theorem abandon_eq (s : Supervisor) :
    s.abandon = ({ s with epoch := s.epoch + 1, attempt := none, reader := none },
      s.cancelling ++ s.telling) := rfl

/-! ## Outcomes -/

/-- The status of the next epoch, without a peer. -/
def fallen (s : Supervisor) (state : State) : Status :=
  { s.status with
    state, epoch := s.epoch + 1, peer := none, layout := .current, backoff := s.backoff.current }

/-- The next attempt of the present epoch is planned. -/
def retried (s : Supervisor) (delay : Span) (backoff : Backoff) : Supervisor :=
  { s with backoff, view.status.backoff := delay, attempt := some ⟨s.epoch, delay⟩ }

/-- The session is lost, and the first attempt of a new epoch is planned. -/
def lost (s : Supervisor) (delay : Span) (backoff : Backoff) : Supervisor :=
  { s with
    epoch := s.epoch + 1, attempt := some ⟨s.epoch + 1, delay⟩, reader := none, backoff
    view.status := { s.fallen .offline with backoff := delay } }

/-- The supervisor without a server. -/
def detached (s : Supervisor) (config : ConnectionConfig) : Supervisor :=
  { s with
    epoch := s.epoch + 1, attempt := none, reader := none, config
    view.session := none, view.status := s.fallen .unconfigured }

/-- The supervisor with a new server. -/
def pointed (s : Supervisor) (config : ConnectionConfig) : Supervisor :=
  { s with
    epoch := s.epoch + 1, attempt := none, reader := none, config
    backoff := Backoff.ofConfig config, view.session := some ⟨config.baseUrl⟩
    view.status := { s.fallen .connecting with backoff := (Backoff.ofConfig config).current } }

/-- The connection is up. -/
def connected (s : Supervisor) (info : PeerInfo) : Supervisor :=
  { s with
    backoff := s.backoff.reset, attempt := none, reader := some s.epoch
    view.status := { s.status with
      state := .online, epoch := s.epoch, peer := some info, layout := info.layout
      backoff := s.backoff.reset.current } }

/-- The delay of the next attempt has overflowed. -/
def jammed (s : Supervisor) : Supervisor := { s with attempt := none, alive := false }

/-- The connection is shut down. -/
def stopped (s : Supervisor) : Supervisor :=
  { s with
    epoch := s.epoch + 1, attempt := none, reader := none, alive := false, view.closed := true
    view.status := s.fallen (if s.config.isConfigured then .offline else .unconfigured) }

/-! ## Steps by their outcome -/

section

variable {s : Supervisor} {delay : Span} {backoff : Backoff}

theorem scheduleAttempt_of_some (ha : s.attempt = none)
    (hn : s.backoff.next? = some (delay, backoff)) :
    s.scheduleAttempt =
      (s.retried delay backoff, [.startAttempt s.epoch delay s.config.expectSuccessOnProbe]) := by
  simp [scheduleAttempt, cancelAttempt, retried, ha, hn]

theorem scheduleAttempt_of_none (ha : s.attempt = none) (hr : s.reader = none)
    (hn : s.backoff.next? = none) : s.scheduleAttempt = (s.jammed, []) := by
  obtain ⟨config, view, backoff, epoch, attempt, reader, alive⟩ := s
  subst ha hr
  simp_all [scheduleAttempt, cancelAttempt, crash, cancelTasks, cancelReader, jammed]

theorem goOffline_of_some (hn : s.backoff.next? = some (delay, backoff)) :
    s.goOffline = (s.lost delay backoff, s.cancelling ++
      [.notify .disconnect, .startAttempt (s.epoch + 1) delay s.config.expectSuccessOnProbe]) := by
  unfold goOffline
  rw [cancelTasks_eq]
  dsimp only
  rw [scheduleAttempt_of_some rfl (by exact hn)]
  rfl

theorem connect_of_some {session : Session} (info : PeerInfo) (ha : s.attempt = none)
    (hv : s.view.session = some session) :
    s.connect info = (s.connected info,
      [.log (.info (greeting s.status.readOnly info)),
        .startReader s.epoch session info.layout s.config.bufferSize, .notify .connect]) := by
  unfold connect connected
  rw [hv, ← ha]
  rfl

theorem stop_eq (s : Supervisor) :
    s.stop = (s.stopped,
      .log (.info "Shutting down connection") :: (s.cancelling ++ s.telling)) := by
  cases h : s.config.isConfigured with
  | true => simp only [stop, abandon_eq, stopped, h]; rfl
  | false => simp only [stop, abandon_eq, stopped, h]; rfl

variable {config : ConnectionConfig}

theorem configure_of_not_isConfigured {opened : Except Failure Unit}
    (h : config.isConfigured = false) :
    s.configure opened config = (s.detached config,
      s.cancelling ++ s.telling ++ [.log (.info "Peer connection unconfigured")]) := by
  simp only [configure, abandon_eq, h]
  rfl

theorem configure_of_error {cause : Failure} (h : config.isConfigured = true) :
    s.configure (.error cause) config = (s.detached s.config,
      s.cancelling ++ s.telling ++ [.log (.error
        ("Could not open session for " ++ config.baseUrl ++ ": " ++ cause.message))]) := by
  simp only [configure, abandon_eq, h]
  rfl

theorem configure_of_some (h : config.isConfigured = true)
    (hn : (Backoff.ofConfig config).next? = some (delay, backoff)) :
    s.configure (.ok ()) config = ((s.pointed config).retried delay backoff,
      s.cancelling ++ s.telling ++
        [.openSession config, .log (.info ("Connecting to " ++ config.baseUrl)),
          .startAttempt (s.epoch + 1) delay config.expectSuccessOnProbe]) := by
  simp only [configure, abandon_eq, h]
  rw [scheduleAttempt_of_some rfl (by exact hn)]
  rfl

theorem configure_of_none (h : config.isConfigured = true)
    (hn : (Backoff.ofConfig config).next? = none) :
    s.configure (.ok ()) config = ((s.pointed config).jammed,
      s.cancelling ++ s.telling ++
        [.openSession config, .log (.info ("Connecting to " ++ config.baseUrl))]) := by
  simp only [configure, abandon_eq, h]
  rw [scheduleAttempt_of_none rfl rfl (by exact hn)]
  rfl

end

theorem isLog_failureLines {context : String} {causes : List String} :
    ∀ e ∈ failureLines context causes, e.isLog := by
  intro e he
  simp only [failureLines, List.mem_cons, List.mem_map] at he
  obtain rfl | ⟨_, _, rfl⟩ := he <;> rfl

/-! ## Expected commands -/

/-- The commands that can be in the queue. A report of the present attempt comes only while the
connection is not up, and its result only if there is a session and no reader. -/
def Expected (s : Supervisor) : Command → Prop
  | .attempting epoch => epoch = s.epoch → ¬s.isOnline
  | .handshakeDone epoch _ =>
    epoch = s.epoch → ¬s.isOnline ∧ s.view.session.isSome ∧ s.reader = none
  | _ => True

/-- The invariant of a supervisor between two commands. -/
structure Steady (s : Supervisor) : Prop where
  published : s.status.epoch = s.epoch
  session : s.isOnline → s.view.session.isSome
  /-- While the connection is up, the next delay is the first one. -/
  rested : s.isOnline → s.backoff.reset = s.backoff
  /-- The first delay of a session can be grown. -/
  growing : s.alive → s.view.session.isSome → s.backoff.reset.next?.isSome
  alive : s.isOnline → s.alive

/-- The timer that a delay is drawn from at a command, if any. -/
def grown? (s : Supervisor) (opened : Except Failure Unit) : Command → Option Backoff
  | .configure config =>
    if config.isConfigured ∧ opened.isOk then some (Backoff.ofConfig config) else none
  | .setOffline epoch _ =>
    if s.isOnline ∧ (epoch = none ∨ epoch = some s.epoch) then some s.backoff else none
  | .streamEnded epoch _ => if epoch = s.epoch ∧ s.isOnline then some s.backoff else none
  | .handshakeDone epoch (.error _) => if epoch = s.epoch then some s.backoff else none
  | _ => none

/-- The delay that is drawn at the command overflows. -/
def Overflows (s : Supervisor) (opened : Except Failure Unit) (c : Command) : Prop :=
  ∃ backoff, s.grown? opened c = some backoff ∧ backoff.next? = none

instance (s : Supervisor) (opened : Except Failure Unit) (c : Command) :
    Decidable (s.Overflows opened c) :=
  decidable_of_iff ((s.grown? opened c).any (·.next?.isNone))
    (by simp [Overflows, Option.any_eq_true])

/-- The outcomes of a command: the supervisor after it, with the effects. -/
inductive Turn (s : Supervisor) (opened : Except Failure Unit) :
    Command → Supervisor → List Effect → Prop where
  | stale {c : Command} {epoch : Nat} (hc : c.epoch? = some epoch) (hne : epoch ≠ s.epoch) :
      Turn s opened c s []
  /-- A loss is reported while the connection is not up. -/
  | unmoved {c : Command} (hc : c.isLoss) (ho : ¬s.isOnline) : Turn s opened c s []
  | tries (ho : ¬s.isOnline) : Turn s opened (.attempting s.epoch) (s.publish .connecting) []
  | connects {info : PeerInfo} {session : Session} (ho : ¬s.isOnline)
      (hv : s.view.session = some session) :
      Turn s opened (.handshakeDone s.epoch (.ok info)) (s.connected info)
        [.log (.info (greeting s.status.readOnly info)),
          .startReader s.epoch session info.layout s.config.bufferSize, .notify .connect]
  | retries {e : Error} {lines : List Effect} {delay : Span} {backoff : Backoff}
      (ho : ¬s.isOnline) (hv : s.view.session.isSome) (hl : ∀ l ∈ lines, l.isLog)
      (hn : s.backoff.next? = some (delay, backoff)) :
      Turn s opened (.handshakeDone s.epoch (.error e)) (s.retried delay backoff)
        (lines ++ [.startAttempt s.epoch delay s.config.expectSuccessOnProbe])
  /-- The delay overflows. -/
  | jams {e : Error} {lines : List Effect} (ho : ¬s.isOnline) (hr : s.reader = none)
      (hl : ∀ l ∈ lines, l.isLog) (hn : s.backoff.next? = none) :
      Turn s opened (.handshakeDone s.epoch (.error e)) s.jammed lines
  | loses {epoch : Option Nat} {reason : String} {line : LogLine} {delay : Span}
      {backoff : Backoff} (ho : s.isOnline) (he : epoch = none ∨ epoch = some s.epoch)
      (hn : s.backoff.next? = some (delay, backoff)) :
      Turn s opened (.setOffline epoch reason) (s.lost delay backoff)
        ([.log line] ++ s.cancelling ++
          [.notify .disconnect, .startAttempt (s.epoch + 1) delay s.config.expectSuccessOnProbe])
  /-- The reader of the session has ended, so it is not aborted. -/
  | ends {ending : Feed.End} {lines : List Effect} {delay : Span} {backoff : Backoff}
      (ho : s.isOnline) (hl : ∀ l ∈ lines, l.isLog)
      (hn : s.backoff.next? = some (delay, backoff)) :
      Turn s opened (.streamEnded s.epoch ending) (s.lost delay backoff)
        (lines ++ { s with reader := none }.cancelling ++
          [.notify .disconnect, .startAttempt (s.epoch + 1) delay s.config.expectSuccessOnProbe])
  | detaches {config kept : ConnectionConfig} {line : LogLine}
      (hc : config.isConfigured = false ∨ ∃ cause, opened = .error cause) :
      Turn s opened (.configure config) (s.detached kept) (s.cancelling ++ s.telling ++ [.log line])
  | joins {config : ConnectionConfig} {line : LogLine} {delay : Span} {backoff : Backoff}
      (hc : config.isConfigured) (ho : opened = .ok ())
      (hn : (Backoff.ofConfig config).next? = some (delay, backoff)) :
      Turn s opened (.configure config) ((s.pointed config).retried delay backoff)
        (s.cancelling ++ s.telling ++ [.openSession config, .log line,
          .startAttempt (s.epoch + 1) delay config.expectSuccessOnProbe])
  /-- The first delay overflows. -/
  | balks {config : ConnectionConfig} {line : LogLine}
      (hc : config.isConfigured) (ho : opened = .ok ())
      (hn : (Backoff.ofConfig config).next? = none) :
      Turn s opened (.configure config) (s.pointed config).jammed
        (s.cancelling ++ s.telling ++ [.openSession config, .log line])
  | stops {line : LogLine} :
      Turn s opened .shutdown s.stopped ([.log line] ++ s.cancelling ++ s.telling)

theorem handle_of_stale {s : Supervisor} {opened : Except Failure Unit} {c : Command} {epoch : Nat}
    (hc : c.epoch? = some epoch) (hne : epoch ≠ s.epoch) : s.handle opened c = (s, []) := by
  cases c with
  | configure | shutdown => simp [Command.epoch?] at hc
  | setOffline e reason =>
    obtain rfl : e = some epoch := hc
    simp [handle, setOffline, hne]
  | attempting e =>
    obtain rfl : e = epoch := Option.some.inj hc
    simp [handle, attempting, hne]
  | handshakeDone e result =>
    obtain rfl : e = epoch := Option.some.inj hc
    simp [handle, handshakeDone, hne]
  | streamEnded e ending =>
    obtain rfl : e = epoch := Option.some.inj hc
    simp [handle, streamEnded, hne]

theorem grown?_of_stale {s : Supervisor} {opened : Except Failure Unit} {c : Command} {epoch : Nat}
    (hc : c.epoch? = some epoch) (hne : epoch ≠ s.epoch) : s.grown? opened c = none := by
  cases c with
  | configure | shutdown => simp [Command.epoch?] at hc
  | setOffline e reason =>
    obtain rfl : e = some epoch := hc
    simp [grown?, hne]
  | attempting e => rfl
  | handshakeDone e result =>
    obtain rfl : e = epoch := Option.some.inj hc
    cases result <;> simp [grown?, hne]
  | streamEnded e ending =>
    obtain rfl : e = epoch := Option.some.inj hc
    simp [grown?, hne]

/-- While the connection is up, the delay does not overflow. -/
theorem Steady.exists_next? {s : Supervisor} (hs : s.Steady) (ho : s.isOnline) :
    ∃ delay backoff, s.backoff.next? = some (delay, backoff) := by
  have hg := hs.growing (hs.alive ho) (hs.session ho)
  rw [hs.rested ho] at hg
  obtain ⟨⟨delay, backoff⟩, h⟩ := Option.isSome_iff_exists.1 hg
  exact ⟨delay, backoff, h⟩

theorem turn_configure (s : Supervisor) (opened : Except Failure Unit) (config : ConnectionConfig) :
    s.Turn opened (.configure config) (s.configure opened config).1
      (s.configure opened config).2 := by
  cases hc : config.isConfigured with
  | false => rw [configure_of_not_isConfigured hc]; exact .detaches (.inl hc)
  | true =>
    cases opened with
    | error cause => rw [configure_of_error hc]; exact .detaches (.inr ⟨cause, rfl⟩)
    | ok _ =>
      cases hn : (Backoff.ofConfig config).next? with
      | none => rw [configure_of_none hc hn]; exact .balks hc rfl hn
      | some next => rw [configure_of_some hc hn]; exact .joins hc rfl hn

theorem turn_setOffline {s : Supervisor} (hs : s.Steady) (opened : Except Failure Unit)
    (epoch : Option Nat) (reason : String) :
    s.Turn opened (.setOffline epoch reason) (s.setOffline epoch reason).1
      (s.setOffline epoch reason).2 := by
  unfold setOffline
  split
  next h =>
    obtain ⟨delay, backoff, hn⟩ := hs.exists_next? h.1
    rw [goOffline_of_some hn]
    exact .loses h.1 h.2 hn
  next h =>
    by_cases ho : s.isOnline
    · obtain _ | e := epoch
      · exact absurd ⟨ho, .inl rfl⟩ h
      · exact .stale rfl fun he => h ⟨ho, .inr (he ▸ rfl)⟩
    · exact .unmoved rfl ho

theorem turn_handshakeDone {s : Supervisor} (opened : Except Failure Unit) {epoch : Nat}
    {result : Except Error PeerInfo} (hx : s.Expected (.handshakeDone epoch result)) :
    s.Turn opened (.handshakeDone epoch result) (s.handshakeDone epoch result).1
      (s.handshakeDone epoch result).2 := by
  unfold handshakeDone
  split
  next he => exact .stale rfl he
  next he =>
    obtain rfl := Decidable.not_not.1 he
    obtain ⟨ho, hv, hr⟩ := hx rfl
    cases result with
    | ok info =>
      obtain ⟨session, hv⟩ := Option.isSome_iff_exists.1 hv
      have h := connect_of_some (s := { s with attempt := none }) info rfl hv
      dsimp only at h ⊢
      rw [h]
      exact .connects ho hv
    | error e =>
      have hl : ∀ l ∈ (if e.isTransient then [Effect.log (.info ("Peer not ready: " ++ e.message))]
          else failureLines ("Connection attempt failed [" ++ e.code ++ "]") e.causes),
          l.isLog := by
        split
        · simp [Effect.isLog]
        · exact isLog_failureLines
      cases hn : s.backoff.next? with
      | none =>
        have h := scheduleAttempt_of_none (s := { s with attempt := none }) rfl hr hn
        dsimp only at h ⊢
        rw [h, List.append_nil]
        exact .jams ho hr hl hn
      | some next =>
        have h := scheduleAttempt_of_some (s := { s with attempt := none }) rfl hn
        dsimp only at h ⊢
        rw [h]
        exact .retries ho hv hl hn

theorem turn_streamEnded {s : Supervisor} (hs : s.Steady) (opened : Except Failure Unit)
    (epoch : Nat) (ending : Feed.End) :
    s.Turn opened (.streamEnded epoch ending) (s.streamEnded epoch ending).1
      (s.streamEnded epoch ending).2 := by
  unfold streamEnded
  split
  next h =>
    obtain ⟨rfl, ho⟩ := h
    obtain ⟨delay, backoff, hn⟩ := hs.exists_next? ho
    dsimp only
    rw [goOffline_of_some (s := { s with reader := none }) hn, ← List.append_assoc]
    refine .ends ho ?_ hn
    split
    · simp [Effect.isLog]
    · exact isLog_failureLines
  next h =>
    by_cases he : epoch = s.epoch
    · exact .unmoved rfl fun ho => h ⟨he, ho⟩
    · exact .stale rfl he

/-- `Supervisor.handle` of an expected command is one of the outcomes. -/
theorem turn_handle {s : Supervisor} (hs : s.Steady) (opened : Except Failure Unit) {c : Command}
    (hx : s.Expected c) : s.Turn opened c (s.handle opened c).1 (s.handle opened c).2 := by
  cases c with
  | configure config => exact turn_configure s opened config
  | setOffline epoch reason => exact turn_setOffline hs opened epoch reason
  | attempting epoch =>
    dsimp only [handle, attempting]
    split
    next he => obtain rfl := he; exact .tries (hx rfl)
    next he => exact .stale rfl he
  | handshakeDone epoch result => exact turn_handshakeDone opened hx
  | streamEnded epoch ending => exact turn_streamEnded hs opened epoch ending
  | shutdown =>
    dsimp only [handle]
    rw [stop_eq]
    exact .stops

/-! ## Consequences for every outcome -/

section

variable {s s' : Supervisor} {opened : Except Failure Unit} {c : Command} {es : List Effect}

@[simp] theorem isOnline_publish (state : State) :
    (s.publish state).isOnline = decide (state = .online) := rfl

@[simp] theorem isOnline_retried (delay : Span) (backoff : Backoff) :
    (s.retried delay backoff).isOnline = s.isOnline := rfl

@[simp] theorem isOnline_lost (delay : Span) (backoff : Backoff) :
    (s.lost delay backoff).isOnline = false := rfl

@[simp] theorem isOnline_detached (config : ConnectionConfig) :
    (s.detached config).isOnline = false := rfl

@[simp] theorem isOnline_pointed (config : ConnectionConfig) :
    (s.pointed config).isOnline = false := rfl

@[simp] theorem isOnline_connected (info : PeerInfo) : (s.connected info).isOnline = true := rfl

@[simp] theorem isOnline_jammed : s.jammed.isOnline = s.isOnline := rfl

@[simp] theorem isOnline_stopped : s.stopped.isOnline = false := by
  cases h : s.config.isConfigured <;>
    simp [stopped, fallen, isOnline, Status.isOnline, status, h]

theorem Turn.epoch_le (h : s.Turn opened c s' es) : s.epoch ≤ s'.epoch := by
  cases h with
  | stale | unmoved | tries | connects | retries | jams => exact Nat.le_refl _
  | loses | ends | detaches | joins | balks | stops => exact Nat.le_succ _

@[simp] theorem reset_ofConfig (config : ConnectionConfig) :
    (Backoff.ofConfig config).reset = Backoff.ofConfig config := rfl

theorem reset_of_next? {b backoff : Backoff} {delay : Span} (h : b.next? = some (delay, backoff)) :
    backoff.reset = b.reset := by
  simp only [Backoff.next?, Option.map_eq_some_iff, Prod.mk.injEq] at h
  obtain ⟨_, _, _, rfl⟩ := h
  rfl

/-- A supervisor that is not online is steady if its status has its epoch and the first delay of its
session can be grown. -/
theorem Steady.of_not_isOnline (ho : s.isOnline = false) (hp : s.status.epoch = s.epoch)
    (hg : s.alive → s.view.session.isSome → s.backoff.reset.next?.isSome) : s.Steady := by
  constructor <;> simp_all

theorem Turn.steady (hs : s.Steady) (ha : s.alive) (h : s.Turn opened c s' es) : s'.Steady := by
  have hg := hs.growing ha
  cases h with
  | stale | unmoved => exact hs
  | tries ho => exact .of_not_isOnline rfl rfl hs.growing
  | connects ho hv =>
    exact ⟨rfl, fun _ => by simp [connected, hv], fun _ => rfl, hs.growing, fun _ => ha⟩
  | retries ho hv hl hn =>
    refine .of_not_isOnline (by simpa using ho) hs.published fun _ _ => ?_
    simpa only [retried, reset_of_next? hn] using hg hv
  | jams ho hr hl hn => exact .of_not_isOnline (by simpa using ho) hs.published (by simp [jammed])
  | loses ho he hn | ends ho hl hn =>
    refine .of_not_isOnline rfl rfl fun _ hv => ?_
    simpa only [lost, reset_of_next? hn] using hg hv
  | detaches => exact .of_not_isOnline rfl rfl (by simp [detached])
  | joins hc ho hn =>
    refine .of_not_isOnline rfl rfl fun _ _ => ?_
    simp [retried, reset_of_next? hn, hn]
  | balks hc ho hn => exact .of_not_isOnline rfl rfl (by simp [jammed])
  | stops => exact .of_not_isOnline isOnline_stopped rfl (by simp [stopped])

/-- The hooks of a change of `isOnline`. -/
def edge : (before after : Bool) → List Hook
  | false, true => [.connect]
  | true, false => [.disconnect]
  | _, _ => []

/-- The hooks of a command are those of its change of `isOnline`. -/
theorem Turn.hooks_eq (h : s.Turn opened c s' es) :
    Effect.hooks es = edge s.isOnline s'.isOnline := by
  cases h with
  | stale | unmoved => cases s.isOnline <;> rfl
  | tries ho => simp [ho, edge]
  | connects ho hv => simp [ho, Effect.hook?, edge]
  | retries ho hv hl hn => simp [ho, Effect.hooks_of_isLog hl, Effect.hook?, edge]
  | jams ho hr hl hn => simp [ho, Effect.hooks_of_isLog hl, edge]
  | loses ho he hn => simp [ho, Effect.hook?, edge]
  | ends ho hl hn => simp [ho, Effect.hooks_of_isLog hl, Effect.hook?, edge]
  | detaches | joins | balks | stops => cases ho : s.isOnline <;> simp [ho, Effect.hook?, edge]

/-- While the connection is up, a report of its loss takes it down and begins one attempt. -/
theorem Turn.eq_lost (h : s.Turn opened c s' es) (hc : c.reportsLoss s.epoch) (ho : s.isOnline) :
    (∃ delay backoff, s' = s.lost delay backoff) ∧ Effect.begun es = [s.epoch + 1] := by
  cases h with
  | stale hc' hne =>
    exact absurd (Option.some.inj (hc'.symm.trans (Command.epoch?_of_reportsLoss hc))) hne
  | unmoved _ ho' => exact absurd ho ho'
  | loses => exact ⟨⟨_, _, rfl⟩, by simp [Effect.begun?]⟩
  | ends _ hl => exact ⟨⟨_, _, rfl⟩, by simp [Effect.begun_of_isLog hl, Effect.begun?]⟩
  | _ => simp [Command.reportsLoss] at hc

/-- A report of a loss that is not taken in its session changes nothing. -/
theorem Turn.eq_self {epoch : Nat} (h : s.Turn opened c s' es) (hc : c.reportsLoss epoch)
    (hm : ¬(s.isOnline ∧ s.epoch = epoch)) : s' = s ∧ es = [] := by
  cases h with
  | stale | unmoved => exact ⟨rfl, rfl⟩
  | loses ho he =>
    obtain rfl | rfl := he
    · simp [Command.reportsLoss] at hc
    · exact absurd ⟨ho, by simpa [Command.reportsLoss] using hc⟩ hm
  | ends ho => exact absurd ⟨ho, by simpa [Command.reportsLoss] using hc⟩ hm
  | _ => simp [Command.reportsLoss] at hc

/-- Of the commands that carry an epoch, only a report of the loss of the present session takes the
connection down. -/
theorem Turn.reportsLoss_of_leaves {epoch : Nat} (h : s.Turn opened c s' es) (ho : s.isOnline)
    (ho' : s'.isOnline = false) (hc : c.epoch? = some epoch) : c.reportsLoss s.epoch := by
  cases h with
  | stale | unmoved => simp [ho] at ho'
  | tries hn | connects hn | retries hn | jams hn => exact absurd ho hn
  | loses _ he =>
    obtain rfl | rfl := he
    · simp [Command.epoch?] at hc
    · simp [Command.reportsLoss]
  | ends => simp [Command.reportsLoss]
  | detaches | joins | balks | stops => simp [Command.epoch?] at hc

/-- A command brings the connection up iff it is an accepted answer. -/
theorem Turn.comes_up_iff (h : s.Turn opened c s' es) :
    (s.isOnline = false ∧ s'.isOnline = true) ↔ c.accepts s.epoch := by
  cases h with
  | stale hc hne =>
    have : ¬c.accepts s.epoch := fun h =>
      hne (Option.some.inj (hc.symm.trans (Command.epoch?_of_accepts h)))
    cases s.isOnline <;> simp [this]
  | unmoved hc ho => cases c <;> simp_all [Command.accepts, Command.isLoss]
  | _ => simp_all [Command.accepts]

/-- The view of the callers is closed from the shutdown on. -/
theorem Turn.closed_eq (h : s.Turn opened c s' es) :
    s'.view.closed = (s.view.closed || c.isShutdown) := by
  cases h with
  | @stale c epoch hc hne => cases c <;> simp_all [Command.isShutdown, Command.epoch?]
  | @unmoved c hc ho => cases c <;> simp_all [Command.isShutdown, Command.isLoss]
  | stops => simp [Command.isShutdown, stopped]
  | _ => exact (Bool.or_false _).symm

/-- `readOnly` is constant. -/
theorem Turn.readOnly_eq (h : s.Turn opened c s' es) :
    s'.status.readOnly = s.status.readOnly := by
  cases h <;> rfl

/-- The supervisor ends iff the command is `shutdown` or its delay overflows. -/
theorem Turn.alive_eq_false_iff (h : s.Turn opened c s' es) (ha : s.alive) :
    s'.alive = false ↔ c.isShutdown ∨ s.Overflows opened c := by
  cases h with
  | stale hc hne =>
    have hs : c.isShutdown = false := by cases c <;> simp_all [Command.isShutdown, Command.epoch?]
    simp [hs, Overflows, grown?_of_stale hc hne, ha]
  | unmoved hc ho => cases c <;> simp_all [Command.isShutdown, Overflows, grown?, Command.isLoss]
  | tries | connects => simp [Command.isShutdown, Overflows, grown?, publish, connected, ha]
  | retries ho hv hl hn => simp [Command.isShutdown, Overflows, grown?, retried, ha, hn]
  | jams ho hr hl hn => simp [Command.isShutdown, Overflows, grown?, jammed, hn]
  | loses ho he hn => simp [Command.isShutdown, Overflows, grown?, lost, ha, hn, ho, he]
  | ends ho hl hn => simp [Command.isShutdown, Overflows, grown?, lost, ha, hn, ho]
  | detaches hc =>
    obtain hc | ⟨cause, rfl⟩ := hc
    · simp [Command.isShutdown, Overflows, grown?, detached, ha, hc]
    · simp [Command.isShutdown, Overflows, grown?, detached, ha, Except.isOk, Except.toBool]
  | joins hc ho hn =>
    subst ho
    simp [Command.isShutdown, Overflows, grown?, retried, pointed, ha, hn]
  | balks hc ho hn =>
    subst ho
    simp [Command.isShutdown, Overflows, grown?, jammed, hc, hn, Except.isOk, Except.toBool]
  | stops => simp [Command.isShutdown, stopped]

end

/-! ## The hooks of a command -/

theorem hooks_scheduleAttempt (s : Supervisor) : Effect.hooks s.scheduleAttempt.2 = [] := by
  have hcancel (s : Supervisor) : Effect.hooks s.cancelAttempt.2 = [] := by
    unfold cancelAttempt; split <;> rfl
  unfold scheduleAttempt
  dsimp only
  split
  · simp [hcancel, crash, cancelTasks_eq]
  · simp [hcancel, Effect.hook?]

theorem hooks_goOffline (s : Supervisor) : Effect.hooks s.goOffline.2 = [.disconnect] := by
  unfold goOffline
  rw [cancelTasks_eq]
  simp [hooks_scheduleAttempt, Effect.hook?]

/-- No command calls the hook `setup`. -/
theorem setup_not_mem_hooks (s : Supervisor) (opened : Except Failure Unit) (c : Command) :
    .setup ∉ Effect.hooks (s.handle opened c).2 := by
  have hlines (context : String) (causes : List String) :
      Effect.hooks (failureLines context causes) = [] := Effect.hooks_of_isLog isLog_failureLines
  cases c with
  | configure config =>
    dsimp only [handle, configure]
    rw [abandon_eq]
    dsimp only
    split
    · simp [Effect.hook?]
    · split <;> simp [Effect.hook?, hooks_scheduleAttempt]
  | setOffline epoch reason =>
    dsimp only [handle, setOffline]
    split <;> simp [hooks_goOffline, Effect.hook?]
  | attempting epoch =>
    dsimp only [handle, attempting]
    split <;> simp
  | handshakeDone epoch result =>
    dsimp only [handle, handshakeDone]
    split
    · simp
    · cases result with
      | ok info =>
        dsimp only [connect]
        split <;> simp [Effect.hook?]
      | error e => dsimp only; split <;> simp [hooks_scheduleAttempt, hlines, Effect.hook?]
  | streamEnded epoch ending =>
    dsimp only [handle, streamEnded]
    split
    · dsimp only
      split <;> simp [hooks_goOffline, hlines, Effect.hook?]
    · simp
  | shutdown =>
    dsimp only [handle]
    rw [stop_eq]
    simp [Effect.hook?]

end Supervisor

end PeerLink.Connection
