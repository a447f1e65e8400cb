import PeerLink.Proofs.Bridge.Launch
/-!
# The invariant of the connection

`World.Sound` is the invariant of the supervisor, its tasks and its queue. The attempt and the
reader that the supervisor records are the attempt and the reader among the tasks. The commands of
the present epoch in the queue are those these tasks have sent, in order. Every other command in the
queue is of an earlier epoch or carries no epoch.

## Main definitions

* `Supervisor.Resting`, `Supervisor.Seeking`, `Supervisor.Serving`: the states of a supervisor that
  is alive.
* `World.news`: the commands of the present epoch in the queue.
* `World.Phase`, `World.Sound`: the invariant.

## Main statements

* `World.Sound.move`, `World.Sound.run`, `World.sound_launch`: the invariant holds on every run of
  the bridge.
* `World.Sound.alive_iff_of_run`: the supervisor is alive as long as every command is harmless.
-/

namespace PeerLink.Connection

theorem Command.Foreign.mono {c : Command} {e e' : Nat} (h : c.Foreign e) (he : e ≤ e') :
    c.Foreign e' := by
  cases c with
  | attempting | handshakeDone | streamEnded => exact Nat.lt_of_lt_of_le h he
  | configure | setOffline | shutdown => trivial

/-! ## The states of the supervisor -/

namespace Supervisor

/-- The supervisor is unconfigured, without an attempt and without a reader. -/
structure Resting (s : Supervisor) : Prop where
  alive : s.alive
  state : s.status.state = .unconfigured
  attempt : s.attempt = none
  reader : s.reader = none

/-- The supervisor is offline or connecting, with a session, an attempt of the present epoch and no
reader. -/
structure Seeking (s : Supervisor) : Prop where
  alive : s.alive
  state : s.status.state = .offline ∨ s.status.state = .connecting
  session : s.view.session.isSome
  attempt : s.attempt.map Attempt.epoch = some s.epoch
  reader : s.reader = none

/-- The supervisor is online, with a reader of the present epoch and no attempt. -/
structure Serving (s : Supervisor) : Prop where
  alive : s.alive
  state : s.status.state = .online
  session : s.view.session.isSome
  attempt : s.attempt = none
  reader : s.reader = some s.epoch

theorem isOnline_iff {s : Supervisor} : s.isOnline ↔ s.status.state = .online := by
  simp [isOnline, Status.isOnline]

theorem resting_initial (config : ConnectionConfig) (readOnly : Bool) :
    (initial config readOnly).Resting :=
  ⟨rfl, rfl, rfl, rfl⟩

theorem steady_initial (config : ConnectionConfig) (readOnly : Bool) :
    (initial config readOnly).Steady :=
  .of_not_isOnline rfl rfl fun _ h => by cases h

theorem Resting.not_isOnline {s : Supervisor} (h : s.Resting) : ¬s.isOnline := by
  simp [isOnline_iff, h.state]

theorem Seeking.not_isOnline {s : Supervisor} (h : s.Seeking) : ¬s.isOnline := by
  rcases h.state with hs | hs <;> simp [isOnline_iff, hs]

theorem Serving.isOnline {s : Supervisor} (h : s.Serving) : s.isOnline := isOnline_iff.2 h.state

end Supervisor

end PeerLink.Connection

namespace PeerLink.Bridge

open Transport Connection

/-- The command `d` is no shutdown, and it draws no delay that overflows. The supervisor is alive
after it. -/
def Handled.Harmless (d : Handled) : Prop :=
  d.command.isShutdown = false ∧ ¬d.before.supervisor.Overflows d.before.opened d.command

instance (d : Handled) : Decidable d.Harmless := inferInstanceAs (Decidable (_ ∧ ¬_))

namespace World

/-! ## The invariant -/

/-- The commands of an epoch that tasks have sent. -/
def newsOf (epoch : Nat) (commands : List Command) : List Command :=
  commands.filter (·.isNewsOf epoch)

/-- The commands in the queue that tasks of the present epoch have sent. -/
def news (w : World) : List Command := newsOf w.supervisor.epoch w.commands

/-- The attempt of the present epoch is among the tasks, or it has ended and its result is in the
queue. -/
inductive Underway (w : World) : Prop where
  | live {id : Nat} {t : AttemptTask} (h : w.Holds [(id, t)] []) (he : t.epoch = w.supervisor.epoch)
      (hn : ∀ c ∈ w.news, c = .attempting w.supervisor.epoch)
  | told {tries : List Command} {result : Except Error PeerInfo} (h : w.Holds [] [])
      (ht : ∀ c ∈ tries, c = .attempting w.supervisor.epoch)
      (hn : w.news = tries ++ [.handshakeDone w.supervisor.epoch result])

/-- The reader of the present epoch is among the tasks, or it has ended and its end is in the
queue. -/
inductive Streaming (w : World) : Prop where
  | live {id : Nat} {t : ReaderTask} (h : w.Holds [] [(id, t)]) (he : t.epoch = w.supervisor.epoch)
      (hn : w.news = [])
  | told {ending : Feed.End} (h : w.Holds [] [])
      (hn : w.news = [.streamEnded w.supervisor.epoch ending])

/-- The state of the supervisor with the tasks and the commands of the present epoch. -/
inductive Phase (w : World) : Prop where
  | idle (hs : w.supervisor.Resting) (h : w.Holds [] []) (hn : w.news = [])
  | trying (hs : w.supervisor.Seeking) (h : w.Underway)
  | up (hs : w.supervisor.Serving) (h : w.Streaming)
  /-- The supervisor is not alive, and it has no task. -/
  | gone (hs : w.supervisor.alive = false) (h : w.Holds [] [])

/-- The invariant of a run. -/
structure Sound (w : World) : Prop where
  steady : w.supervisor.Steady
  /-- No command in the queue is of a later epoch. -/
  past : ∀ c ∈ w.commands, c.Foreign (w.supervisor.epoch + 1)
  phase : w.Phase

variable {w w' : World}

/-! ## The queue -/

section News

variable {epoch : Nat} {c : Command} {a b : List Command}

@[simp] theorem newsOf_nil : newsOf epoch [] = [] := rfl

@[simp] theorem newsOf_append : newsOf epoch (a ++ b) = newsOf epoch a ++ newsOf epoch b :=
  List.filter_append ..

theorem newsOf_cons_of_isNewsOf (h : c.isNewsOf epoch) :
    newsOf epoch (c :: a) = c :: newsOf epoch a :=
  List.filter_cons_of_pos h

theorem newsOf_cons_of_not_isNewsOf (h : c.isNewsOf epoch = false) :
    newsOf epoch (c :: a) = newsOf epoch a :=
  List.filter_cons_of_neg (by simp [h])

theorem newsOf_of_foreign (h : ∀ c ∈ a, c.Foreign epoch) : newsOf epoch a = [] :=
  List.filter_eq_nil_iff.2 fun c hc => by simp [(h c hc).isNewsOf_eq_false]

end News

/-! ## Consequences of the invariant -/

theorem Phase.of_eq (h : w.Phase) (hs : w'.supervisor = w.supervisor)
    (hh : ∀ as rs, w.Holds as rs → w'.Holds as rs) (hn : w'.news = w.news) : w'.Phase := by
  cases h with
  | idle ho h hw => exact .idle (hs ▸ ho) (hh _ _ h) (hn.trans hw)
  | trying ho h =>
    refine .trying (hs ▸ ho) ?_
    cases h with
    | live h he hw => exact .live (hh _ _ h) (hs ▸ he) (by rwa [hn, hs])
    | told h ht hw => exact .told (hh _ _ h) (by rwa [hs]) (by rw [hn, hw, hs])
  | up ho h =>
    refine .up (hs ▸ ho) ?_
    cases h with
    | live h he hw => exact .live (hh _ _ h) (hs ▸ he) (hn.trans hw)
    | told h hw => exact .told (hh _ _ h) (by rw [hn, hw, hs])
  | gone ho h => exact .gone (hs ▸ ho) (hh _ _ h)

theorem Phase.holds (h : w.Phase) : ∃ as rs, w.Holds as rs ∧
    (w.supervisor.attempt = none → as = []) ∧ (w.supervisor.reader = none → rs = []) := by
  cases h with
  | idle _ h _ => exact ⟨_, _, h, fun _ => rfl, fun _ => rfl⟩
  | trying hs h =>
    have ha : w.supervisor.attempt ≠ none := fun h => by simpa [h] using hs.attempt
    cases h with
    | live h => exact ⟨_, _, h, fun h => absurd h ha, fun _ => rfl⟩
    | told h => exact ⟨_, _, h, fun _ => rfl, fun _ => rfl⟩
  | up hs h =>
    have hr : w.supervisor.reader ≠ none := fun h => by simpa [h] using hs.reader
    cases h with
    | live h => exact ⟨_, _, h, fun _ => rfl, fun h => absurd h hr⟩
    | told h => exact ⟨_, _, h, fun _ => rfl, fun _ => rfl⟩
  | gone _ h => exact ⟨_, _, h, fun _ => rfl, fun _ => rfl⟩

theorem Sound.tidy (h : w.Sound) : w.Tidy := by
  obtain ⟨_, _, h, _⟩ := h.phase.holds
  exact h.tidy

/-- An attempt among the tasks is the only one, and it is of the present epoch. -/
theorem Phase.of_mem_attempts (h : w.Phase) {id : Nat} {t : AttemptTask}
    (hm : (id, t) ∈ w.attempts) :
    w.supervisor.Seeking ∧ w.Holds [(id, t)] [] ∧ t.epoch = w.supervisor.epoch ∧
      ∀ c ∈ w.news, c = .attempting w.supervisor.epoch := by
  have hnone {rs : List (Nat × ReaderTask)} (h : w.Holds [] rs) : False := by
    simp [h.attempts] at hm
  cases h with
  | idle _ h _ => exact (hnone h).elim
  | trying hs h =>
    cases h with
    | live h he hn =>
      obtain ⟨rfl, rfl⟩ : id = _ ∧ t = _ := by simpa [h.attempts] using hm
      exact ⟨hs, h, he, hn⟩
    | told h => exact (hnone h).elim
  | up hs h => cases h with | live h | told h => exact (hnone h).elim
  | gone _ h => exact (hnone h).elim

theorem Phase.of_mem_readers (h : w.Phase) {id : Nat} {t : ReaderTask}
    (hm : (id, t) ∈ w.readers) :
    w.supervisor.Serving ∧ w.Holds [] [(id, t)] ∧ t.epoch = w.supervisor.epoch ∧ w.news = [] := by
  have hnone {as : List (Nat × AttemptTask)} (h : w.Holds as []) : False := by
    simp [h.readers] at hm
  cases h with
  | idle _ h _ => exact (hnone h).elim
  | trying hs h => cases h with | live h | told h => exact (hnone h).elim
  | up hs h =>
    cases h with
    | live h he hn =>
      obtain ⟨rfl, rfl⟩ : id = _ ∧ t = _ := by simpa [h.readers] using hm
      exact ⟨hs, h, he, hn⟩
    | told h => exact (hnone h).elim
  | gone _ h => exact (hnone h).elim

section Heads

variable {more : List Command}

/-- If `attempting` of the present epoch is the first of `news`, the supervisor is `Seeking`. -/
theorem Phase.of_attempting (h : w.Phase) (ha : w.supervisor.alive)
    (hn : w.news = .attempting w.supervisor.epoch :: more) : w.supervisor.Seeking ∧
      ((∃ id t, w.Holds [(id, t)] [] ∧ t.epoch = w.supervisor.epoch ∧
          ∀ c ∈ more, c = .attempting w.supervisor.epoch) ∨
        ∃ tries result, w.Holds [] [] ∧ (∀ c ∈ tries, c = .attempting w.supervisor.epoch) ∧
          more = tries ++ [.handshakeDone w.supervisor.epoch result]) := by
  cases h with
  | idle _ _ hi => simp [hi] at hn
  | trying hs h =>
    refine ⟨hs, ?_⟩
    cases h with
    | live h he ht =>
      rw [hn] at ht
      exact .inl ⟨_, _, h, he, fun c hc => ht c (List.mem_cons_of_mem _ hc)⟩
    | told h ht hd =>
      rename_i tries result
      rw [hd] at hn
      cases tries with
      | nil => simp at hn
      | cons c tries =>
        obtain ⟨-, rfl⟩ := List.cons.inj hn
        exact .inr ⟨tries, result, h, fun c hc => ht c (List.mem_cons_of_mem _ hc), rfl⟩
  | up _ h => cases h with | live _ _ hu | told _ hu => simp [hu] at hn
  | gone hd _ => simp [hd] at ha

/-- If `handshakeDone` of the present epoch is the first of `news`, no attempt and no reader is
left. -/
theorem Phase.of_handshakeDone (h : w.Phase) (ha : w.supervisor.alive)
    {result : Except Error PeerInfo}
    (hn : w.news = .handshakeDone w.supervisor.epoch result :: more) :
    w.supervisor.Seeking ∧ w.Holds [] [] ∧ more = [] := by
  cases h with
  | idle _ _ hi => simp [hi] at hn
  | trying hs h =>
    cases h with
    | live _ _ ht =>
      rw [hn] at ht
      cases ht _ List.mem_cons_self
    | told h ht hd =>
      rename_i tries result'
      rw [hd] at hn
      cases tries with
      | nil => exact ⟨hs, h, (List.cons.inj hn).2.symm⟩
      | cons c tries =>
        obtain ⟨hc, -⟩ := List.cons.inj hn
        simpa [hc] using ht c List.mem_cons_self
  | up _ h => cases h with | live _ _ hu | told _ hu => simp [hu] at hn
  | gone hd _ => simp [hd] at ha

/-- If `streamEnded` of the present epoch is the first of `news`, no attempt and no reader is
left. -/
theorem Phase.of_streamEnded (h : w.Phase) (ha : w.supervisor.alive) {ending : Feed.End}
    (hn : w.news = .streamEnded w.supervisor.epoch ending :: more) :
    w.supervisor.Serving ∧ w.Holds [] [] ∧ more = [] := by
  cases h with
  | idle _ _ hi => simp [hi] at hn
  | trying hs h =>
    cases h with
    | live _ _ ht =>
      rw [hn] at ht
      cases ht _ List.mem_cons_self
    | told h ht hd =>
      rename_i tries result
      rw [hd] at hn
      cases tries with
      | nil => simp at hn
      | cons c tries =>
        obtain ⟨hc, -⟩ := List.cons.inj hn
        simpa [hc] using ht c List.mem_cons_self
  | up hs h =>
    cases h with
    | live _ _ hu => simp [hu] at hn
    | told h hu =>
      rw [hu] at hn
      exact ⟨hs, h, (List.cons.inj hn).2.symm⟩
  | gone hd _ => simp [hd] at ha

end Heads

theorem news_of_cons {c : Command} {rest : List Command} (hc : w.commands = c :: rest)
    (hn : c.isNewsOf w.supervisor.epoch) : w.news = c :: newsOf w.supervisor.epoch rest := by
  rw [news, hc, newsOf_cons_of_isNewsOf hn]

theorem Sound.expected (h : w.Sound) (ha : w.supervisor.alive) {c : Command} {rest : List Command}
    (hc : w.commands = c :: rest) : w.supervisor.Expected c := by
  cases c with
  | attempting epoch =>
    rintro rfl
    exact (h.phase.of_attempting ha (news_of_cons hc (by simp [Command.isNewsOf]))).1.not_isOnline
  | handshakeDone epoch result =>
    rintro rfl
    have hs := (h.phase.of_handshakeDone ha (news_of_cons hc (by simp [Command.isNewsOf]))).1
    exact ⟨hs.not_isOnline, hs.session, hs.reader⟩
  | configure | setOffline | streamEnded | shutdown => trivial

/-! ## Taking a command -/

theorem news_of_frame {called : List String} (f : Frame called w w') : w'.news = w.news := by
  obtain ⟨sent, hc, hs⟩ := f.commands
  rw [news, news, hc, f.supervisor, newsOf_append, newsOf_of_foreign hs, List.append_nil]

section Turns

variable {called : List String} {rest : List Command} {c : Command} {s : Supervisor}
  {es : List Effect}

theorem Phase.of_idle (f : Frame called w w') (hs : w.supervisor.Resting) (h : w'.Holds [] [])
    (hn : w.news = []) : w'.Phase :=
  .idle (f.supervisor ▸ hs) h ((news_of_frame f).trans hn)

theorem Phase.of_trying (f : Frame called w w') (hs : w.supervisor.Seeking) {id : Nat}
    {t : AttemptTask} (h : w'.Holds [(id, t)] []) (he : t.epoch = w.supervisor.epoch)
    (hn : w.news = []) : w'.Phase :=
  .trying (f.supervisor ▸ hs) (.live h (f.supervisor ▸ he) (by simp [news_of_frame f, hn]))

theorem Phase.of_up (f : Frame called w w') (hs : w.supervisor.Serving) {id : Nat}
    {t : ReaderTask} (h : w'.Holds [] [(id, t)]) (he : t.epoch = w.supervisor.epoch)
    (hn : w.news = []) : w'.Phase :=
  .up (f.supervisor ▸ hs) (.live h (f.supervisor ▸ he) ((news_of_frame f).trans hn))

/-- The world in which the effects of a command are applied. -/
def turned (w : World) (rest : List Command) (s : Supervisor) : World :=
  { w with commands := rest, supervisor := s }

theorem Holds.turned {as : List (Nat × AttemptTask)} {rs : List (Nat × ReaderTask)}
    (h : w.Holds as rs) (rest : List Command) (s : Supervisor) : (w.turned rest s).Holds as rs :=
  ⟨⟨h.tidy.nodup, h.tidy.fresh, h.tidy.pinger⟩, h.attempts, h.readers, h.attempt, h.reader⟩

theorem Sound.news_turned (h : w.Sound) (hc : w.commands = c :: rest)
    (he : s.epoch = w.supervisor.epoch + 1) : (w.turned rest s).news = [] :=
  newsOf_of_foreign fun d hd => he ▸ h.past d (hc ▸ List.mem_cons_of_mem _ hd)

/-- A report of a loss that is taken while the connection is not up carries no present epoch. -/
theorem Sound.isNewsOf_of_isLoss (h : w.Sound) (ha : w.supervisor.alive)
    (hc : w.commands = c :: rest) (hl : c.isLoss) (ho : ¬w.supervisor.isOnline) :
    c.isNewsOf w.supervisor.epoch = false := by
  cases c with
  | setOffline => rfl
  | streamEnded epoch ending =>
    by_cases he : epoch = w.supervisor.epoch
    · subst he
      have hn := news_of_cons hc (by simp [Command.isNewsOf])
      exact absurd (h.phase.of_streamEnded ha hn).1.isOnline ho
    · exact Command.isNewsOf_eq_false rfl he
  | configure | attempting | handshakeDone | shutdown => cases hl

/-- A `Turn` of the supervisor preserves `Phase`. -/
theorem Sound.phase_of_turn (h : w.Sound) (ha : w.supervisor.alive) (hc : w.commands = c :: rest)
    (ht : w.supervisor.Turn w.opened c s es) : (es.foldl applyEffect (w.turned rest s)).Phase := by
  have f := frame_applyEffects (w := w.turned rest s)
    ⟨h.tidy.nodup, h.tidy.fresh, h.tidy.pinger⟩ es
  have hquiet (hn : c.isNewsOf w.supervisor.epoch = false) : (w.turned rest w.supervisor).Phase :=
    h.phase.of_eq rfl (fun _ _ h => h.turned _ _)
      (by rw [news, news, hc, newsOf_cons_of_not_isNewsOf hn]; rfl)
  obtain ⟨as, rs, hh, hat, hre⟩ := h.phase.holds
  -- the old attempt and reader are aborted before a new task is started
  have hleft {v : World} (hv : v.Holds as rs) : (w.supervisor.telling.foldl applyEffect
      (w.supervisor.cancelling.foldl applyEffect v)).Holds [] [] :=
    (hv.cancel hat hre).quietly (Supervisor.isQuiet_telling _)
  cases ht with
  | stale hce hne => exact hquiet (Command.isNewsOf_eq_false hce hne)
  | unmoved hl ho => exact hquiet (h.isNewsOf_of_isLoss ha hc hl ho)
  | tries ho =>
    have hn := news_of_cons hc (by simp [Command.isNewsOf])
    obtain ⟨hs, hm⟩ := h.phase.of_attempting ha hn
    refine .trying ⟨hs.alive, .inr rfl, hs.session, hs.attempt, hs.reader⟩ ?_
    obtain ⟨id, t, hl, he, ht⟩ | ⟨tries, result, hl, ht, hd⟩ := hm
    · exact .live (hl.turned _ _) he ht
    · exact .told (hl.turned _ _) ht hd
  | @connects info session ho hv =>
    have hn := news_of_cons hc (by simp [Command.isNewsOf])
    obtain ⟨hs, hl, hmore⟩ := h.phase.of_handshakeDone ha hn
    obtain ⟨id, t, he, hr⟩ := ((hl.turned rest (w.supervisor.connected info)).quiet
      (e := .log (.info (Supervisor.greeting w.supervisor.status.readOnly info))) rfl).startReader
      w.supervisor.epoch session info.layout w.supervisor.config.bufferSize
    exact .of_up f ⟨hs.alive, rfl, hs.session, rfl, rfl⟩ (hr.quiet (e := .notify .connect) rfl) he
      hmore
  | @retries e lines delay backoff ho hv hl hn =>
    have hnews := news_of_cons hc (by simp [Command.isNewsOf])
    obtain ⟨hs, hh, hmore⟩ := h.phase.of_handshakeDone ha hnews
    rw [List.foldl_append] at f ⊢
    obtain ⟨id, hr⟩ := ((hh.turned rest (w.supervisor.retried delay backoff)).quietly
      fun l hm => Effect.isQuiet_of_isLog (hl l hm)).startAttempt
      w.supervisor.epoch delay w.supervisor.config.expectSuccessOnProbe
    exact .of_trying f ⟨hs.alive, hs.state, hs.session, rfl, hs.reader⟩ hr rfl hmore
  | jams ho hr hl hn =>
    have hnews := news_of_cons hc (by simp [Command.isNewsOf])
    obtain ⟨hs, hh, hmore⟩ := h.phase.of_handshakeDone ha hnews
    exact .gone (f.supervisor ▸ rfl)
      ((hh.turned _ _).quietly fun l hm => Effect.isQuiet_of_isLog (hl l hm))
  | @loses epoch reason line delay backoff ho he hn =>
    have hleft := ((hh.turned rest (w.supervisor.lost delay backoff)).quiet
      (e := .log line) rfl).cancel hat hre
    rw [List.foldl_append, List.foldl_append] at f ⊢
    obtain ⟨id, hr⟩ := (hleft.quiet (e := .notify .disconnect) rfl).startAttempt
      (w.supervisor.epoch + 1) delay w.supervisor.config.expectSuccessOnProbe
    exact .of_trying f ⟨ha, .inl rfl, h.steady.session ho, rfl, rfl⟩ hr rfl (h.news_turned hc rfl)
  | @ends ending lines delay backoff ho hl hn =>
    have hnews := news_of_cons hc (by simp [Command.isNewsOf])
    obtain ⟨hs, hh, -⟩ := h.phase.of_streamEnded ha hnews
    have hleft := ((hh.turned rest (w.supervisor.lost delay backoff)).quietly
      fun l hm => Effect.isQuiet_of_isLog (hl l hm)).cancel
      (s := { w.supervisor with reader := none }) (fun _ => rfl) (fun _ => rfl)
    rw [List.foldl_append, List.foldl_append] at f ⊢
    obtain ⟨id, hr⟩ := (hleft.quiet (e := .notify .disconnect) rfl).startAttempt
      (w.supervisor.epoch + 1) delay w.supervisor.config.expectSuccessOnProbe
    exact .of_trying f ⟨ha, .inl rfl, hs.session, rfl, rfl⟩ hr rfl (h.news_turned hc rfl)
  | @detaches config kept line hd =>
    rw [List.foldl_append, List.foldl_append] at f ⊢
    exact .of_idle f ⟨ha, rfl, rfl, rfl⟩ ((hleft (hh.turned rest _)).quiet (e := .log line) rfl)
      (h.news_turned hc rfl)
  | @joins config line delay backoff hd ho hn =>
    rw [List.foldl_append, List.foldl_append] at f ⊢
    obtain ⟨id, hr⟩ := (((hleft (hh.turned rest _)).quiet (e := .openSession config) rfl).quiet
      (e := .log line) rfl).startAttempt (w.supervisor.epoch + 1) delay config.expectSuccessOnProbe
    exact .of_trying f ⟨ha, .inr rfl, rfl, rfl, rfl⟩ hr rfl (h.news_turned hc rfl)
  | @balks config line hd ho hn =>
    rw [List.foldl_append, List.foldl_append] at f ⊢
    exact .gone (f.supervisor ▸ rfl)
      (((hleft (hh.turned rest _)).quiet (e := .openSession config) rfl).quiet (e := .log line) rfl)
  | @stops line =>
    rw [List.foldl_append, List.foldl_append] at f ⊢
    exact .gone (f.supervisor ▸ rfl) (hleft ((hh.turned rest _).quiet (e := .log line) rfl))

end Turns

/-! ## Preservation -/

theorem past_of_frame {called : List String} (f : Frame called w w')
    (h : ∀ c ∈ w.commands, c.Foreign (w.supervisor.epoch + 1)) :
    ∀ c ∈ w'.commands, c.Foreign (w'.supervisor.epoch + 1) := by
  obtain ⟨sent, hc, hs⟩ := f.commands
  rw [hc, f.supervisor]
  intro c hm
  rcases List.mem_append.1 hm with hm | hm
  · exact h c hm
  · exact (hs c hm).mono (Nat.le_succ _)

namespace Sound

theorem turn (h : w.Sound) (ha : w.supervisor.alive) {c : Command} {rest : List Command}
    (hc : w.commands = c :: rest) : w.supervisor.Turn w.opened c
      (w.supervisor.handle w.opened c).1 (w.supervisor.handle w.opened c).2 :=
  Supervisor.turn_handle h.steady _ (h.expected ha hc)

theorem takeCommand (h : w.Sound) : w.takeCommand.Sound := by
  by_cases ha : w.supervisor.alive
  · cases hc : w.commands with
    | nil =>
      have hw : w.takeCommand = w := by simp [World.takeCommand, ha, hc]
      exact hw.symm ▸ h
    | cons c rest =>
      have ht := h.turn ha hc
      have f := frame_takeCommand h.tidy ha hc
      refine ⟨f.supervisor ▸ ht.steady h.steady ha, past_of_frame f fun d hd => ?_, ?_⟩
      · exact (h.past d (hc ▸ List.mem_cons_of_mem _ hd)).mono (Nat.succ_le_succ ht.epoch_le)
      · rw [takeCommand_eq ha hc]
        exact h.phase_of_turn ha hc ht
  · have hw : w.takeCommand = { w with commands := [] } := by simp [World.takeCommand, ha]
    rw [hw]
    refine ⟨h.steady, List.forall_mem_nil _, ?_⟩
    cases h.phase with
    | idle hs | trying hs | up hs => exact absurd hs.alive ha
    | gone hs hh => exact .gone hs (hh.turned [] w.supervisor)

theorem beside {called : List String} (h : w.Sound) (hb : Beside called w w') : w'.Sound where
  steady := hb.supervisor ▸ h.steady
  past := past_of_frame hb.toFrame h.past
  phase := h.phase.of_eq hb.supervisor (fun _ _ hh => hh.beside hb) (news_of_frame hb.toFrame)

/-- A command of the present epoch that a task sends is appended to `news`, and `Holds` is
preserved. -/
theorem tell (h : w.Sound) (ha : w.supervisor.alive) {c : Command}
    (hc : c.isNewsOf w.supervisor.epoch) : ∃ v, (w.send c).1 = v ∧ v.supervisor = w.supervisor ∧
      (∀ d ∈ v.commands, d.Foreign (w.supervisor.epoch + 1)) ∧ v.news = w.news ++ [c] ∧
      ∀ as rs, w.Holds as rs → v.Holds as rs := by
  obtain ⟨ready, heq⟩ := send_of_alive ha c
  refine ⟨_, congrArg Prod.fst heq, rfl, fun d hd => ?_, ?_, fun as rs hh => ?_⟩
  · rcases List.mem_append.1 hd with hd | hd
    · exact h.past d hd
    · obtain rfl := List.mem_singleton.1 hd
      cases d <;> simp_all [Command.isNewsOf, Command.Foreign]
  · simp only [news, newsOf_append, newsOf_cons_of_isNewsOf hc, newsOf_nil]
  · exact ⟨⟨hh.tidy.nodup, hh.tidy.fresh, hh.tidy.pinger⟩, hh.attempts, hh.readers, hh.attempt,
      hh.reader⟩

theorem tries (h : w.Sound) {id : Nat} {t : AttemptTask} (hm : (id, t) ∈ w.attempts) :
    (w.send (.attempting t.epoch)).1.Sound := by
  obtain ⟨hs, hh, he, hn⟩ := h.phase.of_mem_attempts hm
  obtain ⟨v, hv, hsup, hpast, hnews, hhv⟩ := h.tell hs.alive (c := .attempting t.epoch)
    (by simp [Command.isNewsOf, he])
  rw [hv]
  have hsteady := h.steady
  rw [← hsup] at hsteady hpast hs he hn
  refine ⟨hsteady, hpast, .trying hs (.live (hhv _ _ hh) he fun c hc => ?_)⟩
  rcases List.mem_append.1 (hnews ▸ hc) with hc | hc
  · exact hn c hc
  · rw [List.mem_singleton.1 hc, he]

theorem asks (h : w.Sound) {id : Nat} {t u : AttemptTask} (hm : (id, t) ∈ w.attempts)
    (he : u.epoch = t.epoch) : (w.setTask id (.attempt u)).Sound := by
  obtain ⟨hs, hh, hte, hn⟩ := h.phase.of_mem_attempts hm
  have hset : (w.setTask id (.attempt u)).Holds [(id, u)] [] :=
    ⟨hh.tidy.setAttempt hm u, by simp [attempts_setAttempt hh.tidy hm, hh.attempts],
      by rw [readers_setAttempt hh.tidy hm, hh.readers],
      fun e he => by rw [List.mem_singleton.1 he]; exact hh.attempt (id, t) List.mem_cons_self,
      List.forall_mem_nil _⟩
  exact ⟨h.steady, h.past, .trying hs (.live hset (he.trans hte) hn)⟩

theorem answers (h : w.Sound) {id : Nat} {t : AttemptTask} (hm : (id, t) ∈ w.attempts)
    (result : Except Error PeerInfo) :
    ((w.send (.handshakeDone t.epoch result)).1.endTask id).Sound := by
  obtain ⟨hs, hh, he, hn⟩ := h.phase.of_mem_attempts hm
  obtain ⟨v, hv, hsup, hpast, hnews, hhv⟩ := h.tell hs.alive (c := .handshakeDone t.epoch result)
    (by simp [Command.isNewsOf, he])
  have hend : (v.endTask id).Holds [] [] := by simpa using (hhv _ _ hh).endTask id
  rw [hv]
  have hsteady := h.steady
  rw [he] at hnews
  rw [← hsup] at hsteady hpast hs hn hnews
  exact ⟨hsteady, hpast, .trying hs (.told hend hn hnews)⟩

theorem reads (h : w.Sound) {id : Nat} {t u : ReaderTask} (hm : (id, t) ∈ w.readers)
    (he : u.epoch = t.epoch) : (w.setTask id (.reader u)).Sound := by
  obtain ⟨hs, hh, hte, hn⟩ := h.phase.of_mem_readers hm
  have hset : (w.setTask id (.reader u)).Holds [] [(id, u)] :=
    ⟨hh.tidy.setReader hm u, by rw [attempts_setReader hh.tidy hm, hh.attempts],
      by simp [readers_setReader hh.tidy hm, hh.readers], List.forall_mem_nil _,
      fun e he => by rw [List.mem_singleton.1 he]; exact hh.reader (id, t) List.mem_cons_self⟩
  exact ⟨h.steady, h.past, .up hs (.live hset (he.trans hte) hn)⟩

theorem ends (h : w.Sound) {id : Nat} {t : ReaderTask} (hm : (id, t) ∈ w.readers)
    (ending : Feed.End) : ((w.send (.streamEnded t.epoch ending)).1.endTask id).Sound := by
  obtain ⟨hs, hh, he, hn⟩ := h.phase.of_mem_readers hm
  obtain ⟨v, hv, hsup, hpast, hnews, hhv⟩ := h.tell hs.alive (c := .streamEnded t.epoch ending)
    (by simp [Command.isNewsOf, he])
  have hend : (v.endTask id).Holds [] [] := by simpa using (hhv _ _ hh).endTask id
  rw [hv]
  have hsteady := h.steady
  rw [he, hn, List.nil_append] at hnews
  rw [← hsup] at hsteady hpast hs hnews
  exact ⟨hsteady, hpast, .up hs (.told hend hnews)⟩

theorem move {log : List Handled} (h : w.Sound) (g : Move w log w') : w'.Sound := by
  cases g with
  | command => exact h.takeCommand
  | beside hb => exact h.beside hb
  | tries hm => exact h.tries hm
  | asks hm he => exact h.asks hm he
  | answers hm result => exact h.answers hm result
  | reads hm he => exact h.reads hm he
  | ends hm ending => exact h.ends hm ending

theorem run {log : List Handled} (h : w.Sound) (g : Run w log w') : w'.Sound := by
  induction g with
  | start => exact h
  | step _ g ih => exact ih.move g

end Sound

/-! ## Runs of the bridge -/

section

variable {config : Config} {script : Peer.Script} {plugins : List Plugin} {pingStart : Span}

theorem sound_launch : (launch config script plugins pingStart).Sound := by
  obtain ⟨log, registry, ready, h⟩ := launch_spec config script plugins pingStart
  rw [h]
  generalize hcs : (if config.connection.isConfigured then
    [Command.configure config.connection] else []) = commands
  have hforeign (epoch : Nat) : ∀ c ∈ commands, c.Foreign epoch := by
    cases hc : config.connection.isConfigured <;> simp [← hcs, hc, Command.Foreign]
  have hnews : newsOf 0 commands = [] := newsOf_of_foreign (hforeign 0)
  exact ⟨Supervisor.steady_initial _ _, hforeign 1,
    .idle (Supervisor.resting_initial _ _)
      ⟨.of_nil rfl rfl, rfl, rfl, List.forall_mem_nil _, List.forall_mem_nil _⟩ hnews⟩

end

/-! ## The commands of a run -/

end World

/-- The command `d` is taken by a supervisor that is alive, in a sound world with `d.command` at the
head of the queue. -/
structure Handled.Regular (d : Handled) : Prop where
  sound : d.before.Sound
  alive : d.before.supervisor.alive
  waiting : ∃ rest, d.before.commands = d.command :: rest

namespace Handled.Regular

variable {d : Handled}

theorem frame (h : d.Regular) : World.Frame (d.before.records d.hooks)
    { d.before with
      commands := d.before.commands.tail
      supervisor := (d.before.supervisor.handle d.before.opened d.command).1 } d.after := by
  obtain ⟨rest, hc⟩ := h.waiting
  have hf := World.frame_takeCommand h.sound.tidy h.alive hc
  rwa [hc]

theorem turn (h : d.Regular) :
    d.before.supervisor.Turn d.before.opened d.command d.after.supervisor d.effects := by
  obtain ⟨rest, hc⟩ := h.waiting
  rw [h.frame.supervisor]
  exact h.sound.turn h.alive hc

theorem harmless_iff (h : d.Regular) : d.Harmless ↔ d.after.supervisor.alive := by
  rw [← Bool.not_eq_false, h.turn.alive_eq_false_iff h.alive, Harmless, not_or, Bool.not_eq_true]

end Handled.Regular

namespace World

theorem Sound.regular_or {log : List Handled} (h : w.Sound) (g : Move w log w') :
    (log = [] ∧ w'.supervisor = w.supervisor) ∨
      ∃ d : Handled, log = [d] ∧ d.Regular ∧ d.before = w ∧ d.after = w' := by
  rcases g.supervisor_or with hs | ⟨d, rfl, rfl, rfl, ha, hc⟩
  · exact .inl hs
  · exact .inr ⟨d, rfl, ⟨h, ha, hc⟩, rfl, rfl⟩

theorem Sound.regular_of_takes (h : w.Sound) {o : Occurrence} {d : Handled} (hd : d ∈ w.takes o) :
    d.Regular ∧ d.before = w ∧ d.after = w.undergo o := by
  have hgo : o = .go supervisorId := by
    by_contra hgo
    simp [takes_of_ne w hgo] at hd
  rw [hgo, takes_supervisor] at hd
  rcases h.regular_or (.command w) with ⟨hnone, -⟩ | ⟨d', hup, hreg, hw, hafter⟩
  · simp [hnone] at hd
  · obtain rfl : d = d' := by simpa [hup] using hd
    exact ⟨hreg, hw, by rw [hafter, hgo, undergo_supervisor]⟩

theorem Run.regular {log : List Handled} (g : Run w log w') (h : w.Sound) :
    ∀ d ∈ log, d.Regular := by
  induction g with
  | start => exact List.forall_mem_nil _
  | step g hm ih =>
    rw [List.forall_mem_append]
    refine ⟨ih, ?_⟩
    rcases (h.run g).regular_or hm with ⟨rfl, -⟩ | ⟨d, rfl, hd, -, -⟩
    · exact List.forall_mem_nil _
    · simpa using hd

/-- The supervisor is alive after a run iff it was alive before and every command of the run is
harmless. -/
theorem Sound.alive_iff_of_run {log : List Handled} (h : w.Sound) (g : Run w log w') :
    w'.supervisor.alive ↔ w.supervisor.alive ∧ ∀ d ∈ log, d.Harmless := by
  induction g with
  | start => simp
  | step g hm ih =>
    rw [List.forall_mem_append, ← and_assoc, ← ih]
    rcases (h.run g).regular_or hm with ⟨rfl, heq⟩ | ⟨d, rfl, hd, rfl, rfl⟩
    · simp [heq]
    · simp [hd.alive, hd.harmless_iff]

/-- The view of the callers is closed once a shutdown has been taken. `readOnly` is constant. -/
theorem view_of_run {log : List Handled} (h : w.Sound) (g : Run w log w') :
    w'.supervisor.view.closed = (w.supervisor.view.closed || log.any (·.command.isShutdown)) ∧
      w'.supervisor.status.readOnly = w.supervisor.status.readOnly := by
  induction g with
  | start => simp
  | step g hm ih =>
    obtain ⟨hclosed, hread⟩ := ih
    rcases (h.run g).regular_or hm with ⟨rfl, heq⟩ | ⟨d, rfl, hd, rfl, rfl⟩
    · simpa [heq] using And.intro hclosed hread
    · rw [hd.turn.closed_eq, hd.turn.readOnly_eq, hclosed, hread]
      simp [Bool.or_assoc]

end World

end PeerLink.Bridge
