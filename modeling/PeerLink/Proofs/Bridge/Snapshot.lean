import PeerLink.Proofs.Bridge.Losses
import PeerLink.Proofs.Bridge.Ownership
import PeerLink.Proofs.Connection.Status
/-!
# The status

The status may be read between any two commands. It contains the epoch, the peer that answered in
it, the topic layout of the stream, and the delay before the next attempt. This delay is the one of
the planned attempt until the supervisor takes the command that its delay is over, and then the one
that would be planned next. The proof counts the attempts whose delay is not over for the
supervisor: when an attempt sends that its delay is over, it moves from the tasks to `commands`, so
only commands change their number.

## Main definitions

* `World.delayed`: the number of attempts whose delay is not over for the supervisor.
* `World.Genuine`, `World.Timely`: the peer and the delay in the status.

## Main statements

* `World.Happens.delayed_eq`: a move without a command leaves `World.delayed`.
* `World.snapshot_of_course`: the status on every course of the bridge.
-/

namespace PeerLink.Bridge

open Transport Connection

namespace Handled

/-- The accepted answer that `d` is, if any, with its epoch. -/
def answer? (d : Handled) : Option (Nat × PeerInfo) :=
  match d.command with
  | .handshakeDone epoch (.ok info) =>
    if epoch = d.before.supervisor.epoch then some (epoch, info) else none
  | _ => none

/-- The delays of the attempts begun by `d`. -/
def delays (d : Handled) : List Span := Effect.delays d.effects

/-- Whether `d` is `configure` or `shutdown`, or takes the connection down. -/
def renews (d : Handled) : Bool := d.command.renews || d.leaves

theorem answer?_of_not_accepts {d : Handled}
    (h : d.command.accepts d.before.supervisor.epoch = false) : d.answer? = none := by
  obtain ⟨w, c⟩ := d
  unfold answer?
  split
  next epoch info hc =>
    subst hc
    exact if_neg (by simpa [Command.accepts] using h)
  · rfl

end Handled

namespace World

variable {w w' : World} {log : List Handled}

/-- The number of attempts whose command that their delay is over has not been taken. -/
def unheard (w : World) : Nat := w.commands.countP (·.isTryOf w.supervisor.epoch)

/-- The number of attempts whose delay has not ended, or has ended and the command for this has not
been taken. -/
def delayed (w : World) : Nat := w.attempts.countP (·.2.phase.isDelayed) + w.unheard

/-- The peer in the status is the last accepted answer, and the stream is read with its layout. -/
structure Genuine (log : List Handled) (w : World) : Prop where
  candid : w.supervisor.Candid
  answer : w.supervisor.isOnline → (log.filterMap Handled.answer?).getLast? =
    w.supervisor.status.peer.map (w.supervisor.epoch, ·)
  readers : ∀ e ∈ w.readers, e.2.layout = w.supervisor.status.layout ∧
    w.supervisor.view.session = some e.2.session

/-- The delay in the status is that of the delayed attempt, if any, and otherwise the next one. -/
structure Timely (log : List Handled) (w : World) : Prop where
  once : w.delayed ≤ 1
  ended : w.supervisor.alive = false → w.delayed = 0
  planned : ∀ e ∈ w.attempts, ∀ delay, e.2.phase = .planned delay →
    w.supervisor.status.backoff = delay
  due : w.delayed = 1 → (log.flatMap Handled.delays).getLast? = some w.supervisor.status.backoff
  free : w.delayed = 0 → w.supervisor.status.backoff = w.supervisor.backoff.current

/-! ## Counting -/

theorem unheard_of_frame {called : List String} (f : Frame called w w') :
    w'.unheard = w.unheard := by
  obtain ⟨sent, hc, hs⟩ := f.commands
  have hnone : sent.countP (·.isTryOf w.supervisor.epoch) = 0 :=
    List.countP_eq_zero.2 fun c hm => by simp [(hs c hm).isTryOf_eq_false]
  rw [unheard, unheard, hc, f.supervisor, List.countP_append, hnone, Nat.add_zero]

theorem unheard_of_news (hn : w.news = []) : w.unheard = 0 := by
  rw [unheard, countP_commands fun _ => Command.isNewsOf_of_isTryOf, hn]
  rfl

theorem Sound.readers_eq_nil (h : w.Sound) (ho : w.supervisor.isOnline = false) :
    w.readers = [] := by
  apply List.eq_nil_iff_forall_not_mem.2
  intro e he
  simp [(h.phase.of_mem_readers he).1.isOnline] at ho

theorem Sound.attempts_eq_nil (h : w.Sound) (ha : w.supervisor.attempt = none) :
    w.attempts = [] := by
  obtain ⟨as, rs, hh, hnone, -⟩ := h.phase.holds
  rw [hh.attempts, hnone ha]

theorem Sound.delayed_eq_zero (h : w.Sound) (ha : w.supervisor.attempt = none)
    (hn : w.news = []) : w.delayed = 0 := by
  rw [delayed, h.attempts_eq_nil ha, unheard_of_news hn]
  rfl

theorem Sound.serving (h : w.Sound) (ho : w.supervisor.isOnline) : w.supervisor.Serving := by
  cases h.phase with
  | idle hs => exact absurd ho hs.not_isOnline
  | trying hs => exact absurd ho hs.not_isOnline
  | up hs => exact hs
  | gone hs => simp [h.steady.alive ho] at hs

/-- No attempt is delayed while the connection is up. -/
theorem Sound.delayed_of_serving (h : w.Sound) (hs : w.supervisor.Serving) : w.delayed = 0 := by
  have hnone : w.unheard = 0 := by
    rw [unheard, countP_commands fun _ => Command.isNewsOf_of_isTryOf]
    cases h.phase with
    | idle ho => simpa [hs.state] using ho.state
    | trying ho => exact absurd hs.isOnline ho.not_isOnline
    | up _ g => cases g with | live _ _ hn | told _ hn => simp [hn, Command.isTryOf]
    | gone ho => simp [hs.alive] at ho
  rw [delayed, h.attempts_eq_nil hs.attempt, hnone]
  rfl

/-- A planned attempt is delayed. -/
theorem Sound.delayed_eq_one (h : w.Sound) (ha : w.supervisor.alive)
    (hs : w.supervisor.attempt.isSome) (hn : w.news = [])
    (hp : ∀ e ∈ w.attempts, ∃ delay, e.2.phase = .planned delay) : w.delayed = 1 := by
  rw [delayed, unheard_of_news hn]
  cases h.phase with
  | idle ho => simp [ho.attempt] at hs
  | trying ho g =>
    cases g with
    | @live id t hh =>
      obtain ⟨delay, hd⟩ : ∃ delay, t.phase = .planned delay :=
        hp (id, t) (hh.attempts ▸ List.mem_singleton_self _)
      simp [hh.attempts, hd, AttemptPhase.isDelayed]
    | told hh _ htold => simp [htold] at hn
  | up ho => simp [ho.attempt] at hs
  | gone ho => simp [ha] at ho

theorem Timely.of_zero (hz : w.delayed = 0)
    (hb : w.supervisor.status.backoff = w.supervisor.backoff.current) : Timely log w := by
  refine ⟨by omega, fun _ => hz, ?_, fun h => by omega, fun _ => hb⟩
  intro e he delay hp
  have hnone := List.countP_eq_zero.1 (Nat.add_eq_zero_iff.1 hz).1 e he
  simp [hp, AttemptPhase.isDelayed] at hnone

/-! ## Moves without a command -/

theorem Happens.supervisor_eq (g : w.Happens w') : w'.supervisor = w.supervisor := by
  have hsend (v : World) (c : Command) : (v.send c).1.supervisor = v.supervisor := by
    obtain ⟨_, _, heq⟩ := send_spec v c
    rw [heq]
  have hbegun (t : AttemptTask) : (w.begun t).supervisor = w.supervisor := by
    unfold begun
    split
    · exact hsend w _
    · rfl
  cases g with
  | beside hb => exact hb.supervisor
  | @attempt _ t _ _ g =>
    cases g with
    | sleeps => rfl
    | asks hb => exact hb.supervisor.trans (hbegun t)
    | answers hb => exact (hsend _ _).trans (hb.supervisor.trans (hbegun t))
  | reader _ g =>
    cases g with
    | waits hb => exact hb.supervisor
    | ends hb => exact (hsend _ _).trans hb.supervisor

/-- An attempt whose delay ends moves from the tasks to `commands`, so `delayed` stays. -/
theorem AttemptTurn.delayed_eq {id : Nat} {t : AttemptTask} (h : w.Sound)
    (hm : (id, t) ∈ w.attempts) (g : AttemptTurn w id t w') :
    w'.delayed = w.delayed ∧ ∀ e ∈ w'.attempts, ∀ delay, e.2.phase ≠ .planned delay := by
  obtain ⟨hs, hh, he, -⟩ := h.phase.of_mem_attempts hm
  have hset {v : World} (hv : v.attempts = [(id, t)]) (hv' : v.Tidy) (u : AttemptTask) :
      (v.setTask id (.attempt u)).attempts = [(id, u)] := by
    rw [attempts_setAttempt hv' (hv ▸ List.mem_singleton_self _), hv]
    simp
  -- what has begun is as much in the queue as it was among the tasks
  have hbegun : (w.begun t).supervisor = w.supervisor ∧ (w.begun t).Tidy ∧
      (w.begun t).unheard = w.delayed := by
    unfold begun
    split
    next hd =>
      obtain ⟨ready, heq⟩ := send_of_alive hs.alive (.attempting t.epoch)
      rw [heq]
      refine ⟨rfl, ⟨h.tidy.nodup, h.tidy.fresh, h.tidy.pinger⟩, ?_⟩
      simp [unheard, delayed, hh.attempts, hd, he, Command.isTryOf, Nat.add_comm]
    next hd => exact ⟨rfl, h.tidy, by simp [delayed, hh.attempts, hd]⟩
  obtain ⟨hsup, htidy, htries⟩ := hbegun
  have hattempts : (w.begun t).attempts = [(id, t)] := (attempts_begun w t).trans hh.attempts
  cases g with
  | @sleeps delay hp =>
    have hsleep : (w.sleep id delay.millisUp (.attempt { t with phase := .sleeping })).attempts =
        [(id, { t with phase := .sleeping })] := hset hh.attempts h.tidy _
    refine ⟨?_, by simp [hsleep]⟩
    rw [delayed, delayed, hsleep, hh.attempts]
    simp [hp, AttemptPhase.isDelayed, unheard, sleep, setTask]
  | @asks v ms phase hb hp =>
    have hasks : (v.sleep id ms (.attempt { t with phase })).attempts = [(id, { t with phase })] :=
      hset (hb.attempts.trans hattempts) (hb.tidy htidy) _
    have hv : (v.sleep id ms (.attempt { t with phase })).unheard = v.unheard := rfl
    refine ⟨?_, ?_⟩
    · rw [delayed, hasks, hv, unheard_of_frame hb.toFrame, htries]
      simp [hp]
    · rw [hasks]
      intro e hmem delay
      obtain rfl := List.mem_singleton.1 hmem
      rintro rfl
      cases hp
  | @answers v hb result =>
    have hnil : ((v.send (.handshakeDone t.epoch result)).1.endTask id).attempts = [] := by
      obtain ⟨_, _, heq⟩ := send_spec v (.handshakeDone t.epoch result)
      have hv : v.attempts = [(id, t)] := hb.attempts.trans hattempts
      rw [attempts_endTask, heq]
      show v.attempts.filter _ = []
      simp [hv]
    have htold : ((v.send (.handshakeDone t.epoch result)).1.endTask id).unheard = v.unheard := by
      obtain ⟨ready, heq⟩ := send_of_alive (w := v) (by rw [hb.supervisor, hsup]; exact hs.alive)
        (.handshakeDone t.epoch result)
      rw [heq]
      simp [unheard, endTask, Command.isTryOf]
    refine ⟨?_, by simp [hnil]⟩
    rw [delayed, hnil, htold, unheard_of_frame hb.toFrame, htries]
    exact Nat.zero_add _

/-- A move without a command leaves `delayed` and plans no attempt. -/
theorem Happens.delayed_eq (h : w.Sound) (g : w.Happens w') : w'.delayed = w.delayed ∧
    ∀ e ∈ w'.attempts, ∀ delay, e.2.phase = .planned delay → e ∈ w.attempts := by
  have hs' := h.run g.run
  cases g with
  | beside hb =>
    rw [delayed, delayed, hb.attempts, unheard_of_frame hb.toFrame]
    exact ⟨rfl, fun e he _ _ => he⟩
  | attempt hm g =>
    obtain ⟨hd, hp⟩ := g.delayed_eq h hm
    exact ⟨hd, fun e he delay hph => absurd hph (hp e he delay)⟩
  | reader hm g =>
    have hs := (h.phase.of_mem_readers hm).1
    have hs2 := (Happens.reader hm g).supervisor_eq ▸ hs
    rw [hs'.delayed_of_serving hs2, h.delayed_of_serving hs, hs'.attempts_eq_nil hs2.attempt]
    exact ⟨rfl, by simp⟩

/-- A move without a command leaves the layouts and the sessions of readers. -/
theorem Happens.mem_readers (h : w.Sound) (g : w.Happens w') {e : Nat × ReaderTask}
    (he : e ∈ w'.readers) :
    ∃ u ∈ w.readers, e.2.layout = u.2.layout ∧ e.2.session = u.2.session := by
  have hs' := h.run g.run
  have heq := g.supervisor_eq
  cases g with
  | beside hb => exact ⟨e, hb.readers ▸ he, rfl, rfl⟩
  | attempt hm g =>
    have hs := (h.phase.of_mem_attempts hm).1
    rw [hs'.readers_eq_nil (by rw [heq]; simpa using hs.not_isOnline)] at he
    cases he
  | @reader id t w' hm g =>
    cases g with
    | @waits v decoder stream phase timers hb =>
      have hmem : e ∈ (v.setTask id (.reader { t with decoder, stream, phase })).readers := he
      rw [readers_setReader (hb.tidy h.tidy) (hb.readers ▸ hm)] at hmem
      obtain ⟨u, hu, rfl⟩ := List.mem_map.1 hmem
      split
      · exact ⟨(id, t), hm, rfl, rfl⟩
      · exact ⟨u, hb.readers ▸ hu, rfl, rfl⟩
    | @ends v hb ending =>
      rw [readers_endTask] at he
      have hmem := List.mem_of_mem_filter he
      obtain ⟨_, _, hsend⟩ := send_spec v (.streamEnded t.epoch ending)
      rw [hsend] at hmem
      exact ⟨e, hb.readers ▸ hmem, rfl, rfl⟩

theorem Genuine.happens (hx : Genuine log w) (h : w.Sound) (g : w.Happens w') :
    Genuine log w' where
  candid := g.supervisor_eq ▸ hx.candid
  answer := g.supervisor_eq ▸ hx.answer
  readers e he := by
    obtain ⟨u, hu, hl, hs⟩ := g.mem_readers h he
    rw [g.supervisor_eq, hl, hs]
    exact hx.readers u hu

theorem Timely.happens (hx : Timely log w) (h : w.Sound) (g : w.Happens w') : Timely log w' := by
  obtain ⟨hd, hp⟩ := g.delayed_eq h
  have hs := g.supervisor_eq
  refine ⟨hd ▸ hx.once, ?_, ?_, ?_, ?_⟩
  · rw [hs, hd]
    exact hx.ended
  · intro e he delay hph
    rw [hs]
    exact hx.planned e (hp e he delay hph) delay hph
  · rw [hs, hd]
    exact hx.due
  · rw [hs, hd]
    exact hx.free

/-! ## Commands -/

section Effects

variable {e : Effect} {es : List Effect}

theorem mem_of_abort {id : Nat} : (∀ a ∈ (w.abort id).attempts, a ∈ w.attempts) ∧
    ∀ r ∈ (w.abort id).readers, r ∈ w.readers := by
  have hend (v : World) : (∀ a ∈ (v.endTask id).attempts, a ∈ v.attempts) ∧
      ∀ r ∈ (v.endTask id).readers, r ∈ v.readers := by
    rw [attempts_endTask, readers_endTask]
    exact ⟨fun _ ha => List.mem_of_mem_filter ha, fun _ hr => List.mem_of_mem_filter hr⟩
  unfold abort
  split
  next t _ =>
    have hdrop := beside_dropStream w t
    rw [← hdrop.attempts, ← hdrop.readers]
    exact hend _
  · exact hend w

/-- An attempt after an effect was there before or is planned by the effect. -/
theorem mem_attempts_applyEffect (ht : w.Tidy) {a : Nat × AttemptTask}
    (ha : a ∈ (w.applyEffect e).attempts) :
    a ∈ w.attempts ∨ ∃ delay ∈ e.delay?, a.2.phase = .planned delay := by
  have helim {o : Option Nat} (ha : a ∈ (o.elim w w.abort).attempts) : a ∈ w.attempts := by
    cases o with
    | none => exact ha
    | some id => exact mem_of_abort.1 a ha
  cases e with
  | log | openSession => exact .inl ha
  | abortAttempt | abortReader => exact .inl (helim ha)
  | notify hook => exact .inl ((notify_spec ht hook).attempts ▸ ha)
  | startAttempt epoch delay expectSuccess =>
    have hmem : a ∈ (w.spawn (.attempt ⟨epoch, expectSuccess, .planned delay⟩)).1.attempts := ha
    rw [attempts_spawn, List.mem_append] at hmem
    refine hmem.imp id fun hnew => ⟨delay, rfl, ?_⟩
    obtain rfl : a = (w.nextTask, ⟨epoch, expectSuccess, .planned delay⟩) := by
      simpa [Task.attempt?] using hnew
    rfl
  | startReader epoch session layout bufferSize =>
    let t : ReaderTask := { epoch, session, layout, decoder := { limit := bufferSize } }
    have hmem : a ∈ (w.spawn (.reader t)).1.attempts := ha
    rw [attempts_spawn] at hmem
    exact .inl (by simpa [Task.attempt?] using hmem)

/-- A reader after an effect was there before or is begun by the effect. -/
theorem mem_readers_applyEffect (ht : w.Tidy) {r : Nat × ReaderTask}
    (hr : r ∈ (w.applyEffect e).readers) : r ∈ w.readers ∨ ∃ epoch bufferSize,
      e = .startReader epoch r.2.session r.2.layout bufferSize := by
  have helim {o : Option Nat} (hr : r ∈ (o.elim w w.abort).readers) : r ∈ w.readers := by
    cases o with
    | none => exact hr
    | some id => exact mem_of_abort.2 r hr
  cases e with
  | log | openSession => exact .inl hr
  | abortAttempt | abortReader => exact .inl (helim hr)
  | notify hook => exact .inl ((notify_spec ht hook).readers ▸ hr)
  | startAttempt epoch delay expectSuccess =>
    have hmem : r ∈ (w.spawn (.attempt ⟨epoch, expectSuccess, .planned delay⟩)).1.readers := hr
    rw [readers_spawn] at hmem
    exact .inl (by simpa [Task.reader?] using hmem)
  | startReader epoch session layout bufferSize =>
    let t : ReaderTask := { epoch, session, layout, decoder := { limit := bufferSize } }
    have hmem : r ∈ (w.spawn (.reader t)).1.readers := hr
    rw [readers_spawn, List.mem_append] at hmem
    refine hmem.imp id fun hnew => ⟨epoch, bufferSize, ?_⟩
    obtain rfl : r = (w.nextTask, t) := by simpa [Task.reader?] using hnew
    rfl

theorem mem_applyEffects (ht : w.Tidy) :
    (∀ a ∈ (es.foldl applyEffect w).attempts,
      a ∈ w.attempts ∨ ∃ delay ∈ Effect.delays es, a.2.phase = .planned delay) ∧
    ∀ r ∈ (es.foldl applyEffect w).readers, r ∈ w.readers ∨ ∃ epoch bufferSize,
      .startReader epoch r.2.session r.2.layout bufferSize ∈ es := by
  induction es generalizing w with
  | nil => exact ⟨fun a ha => .inl ha, fun r hr => .inl hr⟩
  | cons e es ih =>
    obtain ⟨ha, hr⟩ := ih ((frame_applyEffect ht e).tidy ht)
    constructor
    · intro a hm
      rw [Effect.delays_cons]
      rcases ha a hm with hm | ⟨delay, hd, hp⟩
      · refine (mem_attempts_applyEffect ht hm).imp id fun ⟨delay, hd, hp⟩ => ⟨delay, ?_, hp⟩
        exact List.mem_append_left _ (Option.mem_toList.2 hd)
      · exact .inr ⟨delay, List.mem_append_right _ hd, hp⟩
    · intro r hm
      rcases hr r hm with hm | ⟨epoch, size, hd⟩
      · refine (mem_readers_applyEffect ht hm).imp id fun ⟨epoch, size, hd⟩ => ⟨epoch, size, ?_⟩
        exact hd ▸ List.mem_cons_self
      · exact .inr ⟨epoch, size, List.mem_cons_of_mem _ hd⟩

end Effects

section Turns

variable {rest : List Command} {c : Command} {s : Supervisor} {es : List Effect}

theorem tidy_turned (ht : w.Tidy) (rest : List Command) (s : Supervisor) :
    (w.turned rest s).Tidy :=
  ⟨ht.nodup, ht.fresh, ht.pinger⟩

/-- No attempt is delayed when the result of the attempt is taken. -/
theorem Sound.delayed_of_handshakeDone {result : Except Error PeerInfo} (h : w.Sound)
    (ha : w.supervisor.alive)
    (hc : w.commands = .handshakeDone w.supervisor.epoch result :: rest) : w.delayed = 0 := by
  have hnews := news_of_cons hc (by simp [Command.isNewsOf])
  obtain ⟨-, hh, hmore⟩ := h.phase.of_handshakeDone ha hnews
  rw [delayed, hh.attempts, unheard, countP_commands fun _ => Command.isNewsOf_of_isTryOf, hnews,
    hmore]
  simp [Command.isTryOf]

/-- After a command that increases the epoch or ends an attempt, no earlier attempt and no earlier
reader is left. -/
theorem Sound.fresh_of_turn (h : w.Sound) (ha : w.supervisor.alive) (hc : w.commands = c :: rest)
    (hw : (es.foldl applyEffect (w.turned rest s)).Sound)
    (hn : s.epoch = w.supervisor.epoch + 1 ∨
      s.epoch = w.supervisor.epoch ∧ ∃ result, c = .handshakeDone w.supervisor.epoch result) :
    (es.foldl applyEffect (w.turned rest s)).news = [] ∧
      ∀ a ∈ (es.foldl applyEffect (w.turned rest s)).attempts, a ∉ w.attempts := by
  have f := frame_applyEffects (tidy_turned h.tidy rest s) es
  rw [news_of_frame f]
  rcases hn with he | ⟨he, result, rfl⟩
  · refine ⟨h.news_turned hc he, ?_⟩
    intro a hm hold
    have hnew := (hw.phase.of_mem_attempts hm).2.2.1
    have hpast := (h.phase.of_mem_attempts hold).2.2.1
    rw [f.supervisor] at hnew
    simp only [turned] at hnew
    omega
  · have hnews := news_of_cons hc (by simp [Command.isNewsOf])
    obtain ⟨-, hh, hmore⟩ := h.phase.of_handshakeDone ha hnews
    refine ⟨?_, by simp [hh.attempts]⟩
    rw [news, turned, he]
    exact hmore

theorem Timely.turn (hx : Timely log w) (h : w.Sound) (ha : w.supervisor.alive)
    (hc : w.commands = c :: rest) (ht : w.supervisor.Turn w.opened c s es)
    (hw : (es.foldl applyEffect (w.turned rest s)).Sound) {d : Handled}
    (hd : d.delays = Effect.delays es) :
    Timely (log ++ [d]) (es.foldl applyEffect (w.turned rest s)) := by
  have htidy := tidy_turned h.tidy rest s
  have hs : (es.foldl applyEffect (w.turned rest s)).supervisor = s :=
    (frame_applyEffects htidy es).supervisor
  have hfresh := h.fresh_of_turn ha hc hw
  have hbefore : w.unheard = rest.countP (·.isTryOf w.supervisor.epoch) +
      if c.isTryOf w.supervisor.epoch then 1 else 0 := by rw [unheard, hc, List.countP_cons]
  cases ht.timing with
  | same hcn =>
    have hsame : (w.turned rest w.supervisor).delayed = w.delayed := by
      rw [delayed, delayed, hbefore, hcn]
      rfl
    have hlog : (log ++ [d]).flatMap Handled.delays = log.flatMap Handled.delays := by simp [hd]
    exact ⟨hsame ▸ hx.once, hsame ▸ hx.ended, hx.planned, by rw [hlog]; exact hsame ▸ hx.due,
      hsame ▸ hx.free⟩
  | begins =>
    -- the attempt that was counted is in the queue, where its word is taken
    have honce := hx.once
    rw [delayed, hbefore, if_pos (by simp [Command.isTryOf])] at honce
    refine .of_zero ?_ rfl
    have hrest : (w.turned rest (w.supervisor.publish .connecting)).unheard =
      rest.countP (·.isTryOf w.supervisor.epoch) := rfl
    have hattempts : (w.turned rest (w.supervisor.publish .connecting)).attempts = w.attempts := rfl
    show delayed (w.turned rest _) = 0
    rw [delayed, hrest, hattempts]
    omega
  | rests hat hb hdel hn =>
    exact .of_zero (hw.delayed_eq_zero (by rwa [hs]) (hfresh hn).1) (by rwa [hs])
  | jams hdel =>
    have hwas := h.delayed_of_handshakeDone ha hc
    refine .of_zero (hw.delayed_eq_zero (by rw [hs]; rfl) (hfresh (.inr ⟨rfl, _, rfl⟩)).1) ?_
    rw [hs]
    exact hx.free hwas
  | plans hat hv hdel hn =>
    obtain ⟨hnews, hnew⟩ := hfresh hn
    have hplanned (a : Nat × AttemptTask)
        (hm : a ∈ (es.foldl applyEffect (w.turned rest s)).attempts) :
        a.2.phase = .planned s.status.backoff := by
      rcases (mem_applyEffects htidy).1 a hm with hold | ⟨delay, hdm, hp⟩
      · exact absurd hold (hnew a hm)
      · rw [hdel, List.mem_singleton] at hdm
        rw [hp, hdm]
    have hone := hw.delayed_eq_one (by rw [hs, hv]; exact ha) (by rwa [hs]) hnews
      fun a hm => ⟨_, hplanned a hm⟩
    refine ⟨by omega, ?_, ?_, fun _ => ?_, fun h => by omega⟩
    · intro hdead
      rw [hs, hv, ha] at hdead
      cases hdead
    · intro a hm delay hp
      rw [hs]
      exact AttemptPhase.planned.inj ((hplanned a hm).symm.trans hp)
    · rw [hs, List.flatMap_append, List.flatMap_singleton, hd, hdel, List.getLast?_concat]

theorem Genuine.turn (hx : Genuine log w) (h : w.Sound) (ha : w.supervisor.alive)
    (hc : w.commands = c :: rest) (ht : w.supervisor.Turn w.opened c s es)
    (hw : (es.foldl applyEffect (w.turned rest s)).Sound) :
    Genuine (log ++ [⟨w, c⟩]) (es.foldl applyEffect (w.turned rest s)) := by
  have htidy := tidy_turned h.tidy rest s
  have hs : (es.foldl applyEffect (w.turned rest s)).supervisor = s :=
    (frame_applyEffects htidy es).supervisor
  refine ⟨by rw [hs]; exact ht.candid hx.candid, ?_, ?_⟩
  · intro ho
    rw [hs] at ho ⊢
    rw [List.filterMap_append]
    rcases ht.connected_or ho with ⟨rfl, -, hacc⟩ | ⟨info, session, rfl, hv, rfl, -⟩
    · have hnone : [Handled.mk w c].filterMap Handled.answer? = [] := by
        simp [Handled.answer?_of_not_accepts (d := ⟨w, c⟩) hacc]
      rw [hnone, List.append_nil]
      exact hx.answer ho
    · have hone : [Handled.mk w (.handshakeDone w.supervisor.epoch (.ok info))].filterMap
          Handled.answer? = [(w.supervisor.epoch, info)] := by simp [Handled.answer?]
      rw [hone, List.getLast?_concat]
      rfl
  · intro r hr
    have ho := (hw.phase.of_mem_readers hr).1.isOnline
    rw [hs] at ho ⊢
    rcases ht.connected_or ho with ⟨rfl, rfl, -⟩ | ⟨info, session, rfl, hv, rfl, rfl⟩
    · exact hx.readers r hr
    · have hnone : w.readers = [] := by
        obtain ⟨-, hh, -⟩ := h.phase.of_handshakeDone ha
          (news_of_cons hc (by simp [Command.isNewsOf]))
        exact hh.readers
      rcases (mem_applyEffects htidy).2 r hr with hold | ⟨epoch, size, hm⟩
      · have hold : r ∈ w.readers := hold
        simp [hnone] at hold
      · simp only [List.mem_cons, Effect.startReader.injEq, reduceCtorEq, List.not_mem_nil,
          or_false, false_or] at hm
        obtain ⟨-, hsession, hlayout, -⟩ := hm
        exact ⟨hlayout, by rw [hsession]; exact hv⟩

end Turns

/-! ## Courses -/

/-- The invariants of the status. -/
structure Shown (log : List Handled) (w : World) : Prop where
  sound : w.Sound
  genuine : Genuine log w
  timely : Timely log w

theorem Shown.undergo (hx : Shown log w) (o : Occurrence) :
    Shown (log ++ w.takes o) (w.undergo o) := by
  have hsound := hx.sound.run (run_undergo hx.sound.tidy o)
  suffices h : Genuine (log ++ w.takes o) (w.undergo o) ∧ Timely (log ++ w.takes o) (w.undergo o)
    from ⟨hsound, h.1, h.2⟩
  rcases Classical.em (o = .go supervisorId) with rfl | hgo
  · rw [undergo_supervisor] at hsound ⊢
    rw [takes_supervisor]
    by_cases ha : w.supervisor.alive
    · cases hc : w.commands with
      | nil => simpa [upcoming, takeCommand, ha, hc] using And.intro hx.genuine hx.timely
      | cons c rest =>
        have hup : w.upcoming = [⟨w, c⟩] := by simp [upcoming, ha, hc]
        rw [takeCommand_eq ha hc] at hsound ⊢
        have ht := hx.sound.turn ha hc
        rw [hup]
        exact ⟨hx.genuine.turn hx.sound ha hc ht hsound,
          hx.timely.turn hx.sound ha hc ht hsound rfl⟩
    · -- the queue of a supervisor that has ended is dropped
      have ha : w.supervisor.alive = false := by simpa using ha
      have htake : w.takeCommand = w.turned [] w.supervisor := by simp [takeCommand, ha]; rfl
      have hzero : w.delayed = 0 := hx.timely.ended ha
      have hnone : (w.turned [] w.supervisor).delayed = 0 := by
        have hattempts := (Nat.add_eq_zero_iff.1 hzero).1
        rw [delayed]
        exact Nat.add_eq_zero_iff.2 ⟨hattempts, rfl⟩
      rw [htake, show w.upcoming = [] by simp [upcoming, ha], List.append_nil]
      exact ⟨⟨hx.genuine.candid, hx.genuine.answer, hx.genuine.readers⟩,
        .of_zero hnone (hx.timely.free hzero)⟩
  · rw [takes_of_ne w hgo, List.append_nil]
    have g := happens_undergo hx.sound.tidy hgo
    exact ⟨hx.genuine.happens hx.sound g, hx.timely.happens hx.sound g⟩

section

variable (config : Config) (script : Peer.Script) (plugins : List Plugin) (pingStart : Span)

theorem shown_launch : Shown [] (launch config script plugins pingStart) := by
  suffices h : Genuine [] (launch config script plugins pingStart) ∧
    Timely [] (launch config script plugins pingStart) from ⟨sound_launch, h.1, h.2⟩
  obtain ⟨log, registry, ready, h⟩ := launch_spec config script plugins pingStart
  rw [h]
  have hzero : delayed { before config script with
      pingStart, registry, ready
      commands := if config.connection.isConfigured then [.configure config.connection] else []
      plugins := plugins.filter Plugin.setsUp
      trace.log := log
      trace.hooks := plugins.filterMap (recorded .setup) } = 0 := by
    cases hc : config.connection.isConfigured <;>
      simp [delayed, unheard, attempts, before, pick, Command.isTryOf]
  have hdown :=
    (Supervisor.resting_initial config.connection config.general.listenOnly).not_isOnline
  exact ⟨⟨Supervisor.candid_initial _ _, fun ho => absurd ho hdown, List.forall_mem_nil _⟩,
    .of_zero hzero rfl⟩

theorem shown_course (os : List Occurrence) : let w := launch config script plugins pingStart
    Shown (w.taken os) (w.course os) :=
  course_induction (shown_launch config script plugins pingStart)
    (fun _ _ o hx => hx.undergo o) os

/-- The delay of an attempt for the same server as before is in the status before it is begun. -/
theorem Shown.delays_eq (hx : Shown log w) {o : Occurrence} {d : Handled} (hd : d ∈ w.takes o)
    (hc : d.command.renews = false) : ∀ delay ∈ d.delays, delay = w.supervisor.status.backoff := by
  obtain ⟨hreg, rfl, -⟩ := hx.sound.regular_of_takes hd
  intro delay hdelay
  rcases hreg.turn.delays_eq hc with hnil | ⟨hone, hcase⟩
  · simp [Handled.delays, hnil] at hdelay
  · rw [Handled.delays, hone, List.mem_singleton] at hdelay
    obtain ⟨rest, hwait⟩ := hreg.waiting
    refine hdelay.trans (hx.timely.free ?_).symm
    rcases hcase with ho | ⟨result, hresult⟩
    · exact hreg.sound.delayed_of_serving (hreg.sound.serving ho)
    · exact hreg.sound.delayed_of_handshakeDone hreg.alive (hresult ▸ hwait)

/-- The epoch of the status increases at commands that `renews` holds for, and at no others. -/
theorem Shown.epoch_undergo (hx : Shown log w) (o : Occurrence) :
    (w.undergo o).supervisor.status.epoch =
      w.supervisor.status.epoch + (w.takes o).countP Handled.renews := by
  rw [(hx.undergo o).sound.steady.published, hx.sound.steady.published]
  rcases Classical.em (o = .go supervisorId) with rfl | hgo
  · rw [undergo_supervisor, takes_supervisor]
    rcases hx.sound.regular_or (.command w) with ⟨hnone, heq⟩ | ⟨d, hup, hreg, rfl, hafter⟩
    · rw [hnone, heq]
      rfl
    · rw [hup, ← hafter, hreg.turn.epoch_eq, List.countP_singleton]
      rfl
  · rw [takes_of_ne w hgo, (happens_undergo hx.sound.tidy hgo).supervisor_eq]
    rfl

/-- On every course of the bridge the status contains the present epoch. It contains a peer exactly
while the connection is up, namely the last accepted answer, which belongs to this epoch. Its layout
is that of the peer, with which the stream is read, or else the current one. It is read only as
configured. While an attempt is delayed, it contains the delay that was planned last, which is the
one that the attempt sleeps for, and otherwise the next delay, which is the first one while the
connection is up. So the delay of an attempt for the same server is in the status before it is
begun. The epoch increases at `configure`, at `shutdown` and at commands that take the connection
down, and at no others. -/
theorem snapshot_of_course (os : List Occurrence) :
    let start := launch config script plugins pingStart
    let w := start.course os
    let log := start.taken os
    let s := w.supervisor
    s.status.epoch = s.epoch ∧
    (s.status.peer.isSome ↔ s.status.state = .online) ∧
    (∀ info, s.status.peer = some info →
      (log.filterMap Handled.answer?).getLast? = some (s.epoch, info)) ∧
    s.status.layout = (s.status.peer.map PeerInfo.layout).getD .current ∧
    (∀ e ∈ w.readers, e.2.layout = s.status.layout ∧ s.view.session = some e.2.session) ∧
    s.status.readOnly = config.general.listenOnly ∧
    w.delayed ≤ 1 ∧
    (w.delayed = 1 → (log.flatMap Handled.delays).getLast? = some s.status.backoff ∧
      ∀ e ∈ w.attempts, ∀ delay, e.2.phase = .planned delay → s.status.backoff = delay) ∧
    (w.delayed = 0 → s.status.backoff = s.backoff.current) ∧
    (s.status.state = .online → s.status.backoff = s.backoff.min) ∧
    (∀ o, ∀ d ∈ w.takes o, d.command.renews = false →
      ∀ delay ∈ d.delays, delay = s.status.backoff) ∧
    ∀ o, (w.undergo o).supervisor.status.epoch =
      s.status.epoch + (w.takes o).countP Handled.renews := by
  intro start w log s
  have hx : Shown log w := shown_course config script plugins pingStart os
  have hread : s.status.readOnly = config.general.listenOnly := by
    have hview := (view_of_run sound_launch
      (run_course (tidy_launch config script plugins pingStart) os)).2
    obtain ⟨_, _, _, hlaunch⟩ := launch_spec config script plugins pingStart
    exact hview.trans (congrArg (·.supervisor.status.readOnly) hlaunch)
  have honline : s.isOnline ↔ s.status.state = .online := Supervisor.isOnline_iff
  have hpeer : s.status.peer.isSome ↔ s.status.state = .online := by
    rw [hx.genuine.candid.peer, honline]
  refine ⟨hx.sound.steady.published, hpeer, ?_, hx.genuine.candid.layout, hx.genuine.readers,
    hread, hx.timely.once, fun h => ⟨hx.timely.due h, hx.timely.planned⟩, hx.timely.free, ?_,
    fun o d hd hc => hx.delays_eq hd hc, hx.epoch_undergo⟩
  · intro info hi
    have ho : s.isOnline := honline.2 (hpeer.1 (by rw [hi]; rfl))
    have hanswer := hx.genuine.answer ho
    rw [hi] at hanswer
    exact hanswer
  · intro ho
    have ho := honline.2 ho
    rw [hx.timely.free (hx.sound.delayed_of_serving (hx.sound.serving ho))]
    exact (congrArg Backoff.current (hx.sound.steady.rested ho)).symm

end

/-- The delay in the status while the first attempt is planned, and the peer after it has
succeeded. -/
theorem snapshot_of_course_demo :
    let planned := demo.course [.go supervisorId]
    let up := [.go supervisorId, .go 1, .go 1, .go supervisorId, .go supervisorId]
    planned.delayed = 1 ∧
    ((demo.taken [.go supervisorId]).flatMap Handled.delays).getLast? =
      some planned.supervisor.status.backoff ∧
    (demo.course up).supervisor.status.state = .online ∧
    (demo.course up).supervisor.status.peer.isSome := by
  intro planned up
  have hshown := snapshot_of_course { connection := { url := "http://demo" } } demoScript
    [.scripted "a" [], .scripted "b" [.connect], .scripted "c" [.setup]] ⟨0⟩
  have hdelayed : planned.delayed = 1 := by decide +kernel
  have honline : (demo.course up).supervisor.status.state = .online := by decide +kernel
  obtain ⟨-, -, -, -, -, -, -, hdue, -⟩ := hshown [.go supervisorId]
  obtain ⟨-, hpeer, -⟩ := hshown up
  exact ⟨hdelayed, (hdue hdelayed).1, honline, hpeer.2 honline⟩

end World

end PeerLink.Bridge
