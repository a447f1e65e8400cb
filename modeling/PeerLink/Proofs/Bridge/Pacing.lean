import PeerLink.Proofs.Connection.Pace
import PeerLink.Proofs.Bridge.Snapshot
/-!
# The delays of attempts

The attempts begun since the last accepted answer, or since the last session that was opened, have
the first delays of the configuration, in order. `Handled.recent` computes these delays from the log
of the commands taken: a command rewinds the list, or it appends the delays of the attempts it
begins. The timer is at the next delay, and a planned attempt has the last one.

## Main definitions

* `Handled.opens?`, `Handled.accepted`, `Handled.fails`: the commands that concern the timer.
* `Handled.recent`: the delays since the timer was last rewound.
* `World.Paced`: the timer and the planned attempt as functions of the log.

## Main statements

* `World.Paced.turn`: a command preserves `World.Paced`.
* `World.pacing_of_course`: the delays on every course of the bridge.
-/

namespace PeerLink.Bridge

open Transport Connection

namespace Handled

/-- The configuration that `d` opens a session with, if any. -/
def opens? (d : Handled) : Option ConnectionConfig := d.command.opens? d.before.opened

/-- Whether `d` is an accepted answer. -/
def accepted (d : Handled) : Bool := d.command.accepts d.before.supervisor.epoch

/-- Whether `d` is the failure of the present attempt. -/
def fails (d : Handled) : Bool := d.command.fails d.before.supervisor.epoch

/-- Whether `d` is a report of a loss that takes the connection down. -/
def drops (d : Handled) : Bool := !d.command.renews && d.leaves

/-- Whether the delay drawn for `d` overflows. -/
def Overflows (d : Handled) : Prop := d.before.supervisor.Overflows d.before.opened d.command

/-- Whether `d` rewinds the timer. -/
def rewinds (d : Handled) : Bool := d.opens?.isSome || d.accepted

/-- The delays of the attempts begun since the last accepted answer or the last session that was
opened, for the commands taken, `log`. -/
def recent (log : List Handled) : List Span :=
  log.foldl (fun delays d => if d.rewinds then d.delays else delays ++ d.delays) []

/-- The configuration that the last session was opened with, if any. -/
def server? (log : List Handled) : Option ConnectionConfig := (log.filterMap opens?).getLast?

theorem recent_concat (log : List Handled) (d : Handled) :
    recent (log ++ [d]) = if d.rewinds then d.delays else recent log ++ d.delays := by
  simp [recent, List.foldl_append]

theorem server?_concat (log : List Handled) (d : Handled) :
    server? (log ++ [d]) = d.opens?.or (server? log) := by
  cases h : d.opens? <;> simp [server?, h]

namespace Regular

variable {d : Handled} {b : Backoff}

theorem pace_eq (h : d.Regular) : (d.delays, d.after.supervisor.backoff) =
    match d.before.supervisor.grown? d.before.opened d.command with
    | some b => b.draw
    | none => ([], if d.accepted then d.before.supervisor.backoff.reset
        else d.before.supervisor.backoff) :=
  h.turn.pace_eq

theorem grown?_eq (h : d.Regular) : d.before.supervisor.grown? d.before.opened d.command =
    (d.opens?.map Backoff.ofConfig).or
      (if d.fails || d.drops then some d.before.supervisor.backoff else none) := by
  rw [h.turn.grown?_eq, opens?, fails, drops, leaves, Bool.and_assoc]

/-- A command that begins an attempt draws a delay, if it does not overflow. -/
theorem draws (h : d.Regular) (ho : ¬d.Overflows)
    (hg : d.before.supervisor.grown? d.before.opened d.command = some b) :
    d.delays = [b.current] ∧ b.next? = some (b.current, d.after.supervisor.backoff) := by
  have hpace := h.pace_eq
  rw [hg] at hpace
  cases hn : b.next? with
  | none => exact absurd ⟨b, hg, hn⟩ ho
  | some next =>
    obtain ⟨delay, grown⟩ := next
    obtain ⟨hdelays, hbackoff⟩ := Prod.mk.inj (hpace.trans (Backoff.draw_of_some hn))
    obtain rfl := Supervisor.current_of_next? hn
    exact ⟨hdelays, by rw [hbackoff]⟩

/-- A command that begins no attempt leaves the timer, unless it is an accepted answer. -/
theorem rests (h : d.Regular)
    (hg : d.before.supervisor.grown? d.before.opened d.command = none) :
    d.delays = [] ∧ d.after.supervisor.backoff = if d.accepted then
      d.before.supervisor.backoff.reset else d.before.supervisor.backoff := by
  have hpace := h.pace_eq
  rw [hg] at hpace
  exact Prod.mk.inj hpace

/-- A report of a loss that is taken while the connection is not up changes nothing but
`commands`. -/
theorem after_of_isLoss (h : d.Regular) (hc : d.command.isLoss)
    (ho : d.before.supervisor.isOnline = false) :
    d.after = { d.before with commands := d.before.commands.tail } := by
  obtain ⟨rest, hw⟩ := h.waiting
  rw [after, World.takeCommand_eq h.alive hw, Supervisor.handle_of_isLoss hc (by simp [ho]), hw]
  rfl

end Regular

end Handled

namespace World

variable {w w' : World} {log : List Handled}

/-! ## The timer as a function of the log -/

/-- The timer is at the next delay after `Handled.recent log`, and a planned attempt has the last of
these. -/
structure Paced (log : List Handled) (w : World) : Prop where
  sound : w.Sound
  stands : ∀ c ∈ Handled.server? log,
    (Handled.recent log).map some =
      (List.range (Handled.recent log).length).map (Backoff.term? c) ∧
    Backoff.StandsAt c (Handled.recent log).length w.supervisor.backoff
  unopened : Handled.server? log = none →
    Handled.recent log = [] ∧ w.supervisor.view.session = none
  planned : ∀ e ∈ w.attempts, ∀ delay, e.2.phase = .planned delay →
    (Handled.recent log).getLast? = some delay

section Turns

variable {rest : List Command} {c : Command} {s : Supervisor} {es : List Effect}

/-- An attempt that is planned after a command is begun by it, or it was planned before and the
command begins none. -/
theorem Sound.planned_of_turn (h : w.Sound) (ha : w.supervisor.alive) (hc : w.commands = c :: rest)
    (ht : w.supervisor.Turn w.opened c s es) (hw : (es.foldl applyEffect (w.turned rest s)).Sound)
    {e : Nat × AttemptTask} (he : e ∈ (es.foldl applyEffect (w.turned rest s)).attempts)
    {delay : Span} (hp : e.2.phase = .planned delay) :
    Effect.delays es = [delay] ∨ e ∈ w.attempts ∧ Effect.delays es = [] ∧
      c.opens? w.opened = none ∧ c.accepts w.supervisor.epoch = false := by
  have htidy := tidy_turned h.tidy rest s
  have hs : (es.foldl applyEffect (w.turned rest s)).supervisor = s :=
    (frame_applyEffects htidy es).supervisor
  have hattempt : s.attempt ≠ none := by
    intro hnone
    simp [hw.attempts_eq_nil (by rw [hs, hnone])] at he
  have hfresh := h.fresh_of_turn ha hc hw
  have hold := (mem_applyEffects htidy).1 e he
  cases ht.timing with
  | same =>
    exact .inr ⟨hold.resolve_right (by simp), rfl, ht.opens?_of_same rfl id⟩
  | begins => exact .inr ⟨hold.resolve_right (by simp), rfl, rfl, rfl⟩
  | rests hnone => exact absurd hnone hattempt
  | jams => exact absurd rfl hattempt
  | plans hsome hv hdel hn =>
    rcases hold with hold | ⟨delay', hmem, hp'⟩
    · exact absurd hold ((hfresh hn).2 e he)
    · rw [hdel, List.mem_singleton] at hmem
      rw [hp] at hp'
      rw [hdel, ← hmem, AttemptPhase.planned.inj hp']
      exact .inl rfl

end Turns

namespace Paced

theorem turn {d : Handled} (hx : Paced log d.before) (h : d.Regular) :
    Paced (log ++ [d]) d.after where
  sound := hx.sound.run (.of_move (.command d.before))
  stands := by
    intro c hc
    have hpace := h.pace_eq
    rw [Handled.server?_concat] at hc
    rw [Handled.recent_concat, Handled.rewinds]
    cases hopen : d.opens? with
    | some config =>
      obtain rfl : config = c := by simpa [hopen] using hc
      rw [h.grown?_eq, hopen] at hpace
      simpa using (Backoff.StandsAt.ofConfig config).draw hpace
    | none =>
      obtain ⟨hterms, hstands⟩ := hx.stands c (by simpa [hopen] using hc)
      cases hacc : d.accepted with
      | true =>
        rw [Supervisor.grown?_of_accepts hacc, hacc] at hpace
        obtain ⟨hdelays, hbackoff⟩ := Prod.mk.inj hpace
        rw [hdelays, hbackoff]
        exact ⟨rfl, hstands.reset⟩
      | false =>
        have hdraw : (d.delays, d.after.supervisor.backoff) = d.before.supervisor.backoff.draw ∨
            (d.delays, d.after.supervisor.backoff) = ([], d.before.supervisor.backoff) := by
          rw [hpace, h.grown?_eq, hopen, hacc]
          by_cases hmore : d.fails || d.drops
          · exact .inl (by simp [hmore])
          · exact .inr (by simp [hmore])
        rcases hdraw with hdraw | hdraw
        · obtain ⟨hmore, hnext⟩ := hstands.draw hdraw
          refine ⟨?_, by simpa using hnext⟩
          simp [hterms, hmore, List.range_add, Function.comp_def]
        · obtain ⟨hdelays, hbackoff⟩ := Prod.mk.inj hdraw
          simpa [hdelays, hbackoff] using And.intro hterms hstands
  unopened := by
    intro hnone
    rw [Handled.server?_concat, Option.or_eq_none_iff] at hnone
    obtain ⟨hrecent, hsession⟩ := hx.unopened hnone.2
    obtain ⟨hdelays, hafter⟩ := h.turn.sessionless h.sound.steady hsession hnone.1
    have hdelays : d.delays = [] := hdelays
    exact ⟨by simp [Handled.recent_concat, hrecent, hdelays], hafter⟩
  planned := by
    intro e he delay hp
    obtain ⟨rest, hc⟩ := h.waiting
    have hafter : d.after.Sound := hx.sound.run (.of_move (.command d.before))
    rw [Handled.after, takeCommand_eq h.alive hc] at he hafter
    rw [Handled.recent_concat]
    rcases h.sound.planned_of_turn h.alive hc (h.sound.turn h.alive hc) hafter he hp with
      hnew | ⟨hold, hdelays, hopen, hacc⟩
    · have hnew : d.delays = [delay] := hnew
      rw [hnew]
      split
      · rfl
      · exact List.getLast?_concat
    · have hdelays : d.delays = [] := hdelays
      have hkept : d.rewinds = false := by
        simp [Handled.rewinds, Handled.opens?, Handled.accepted, hopen, hacc]
      simpa [hdelays, hkept] using hx.planned e hold delay hp

theorem happens (hx : Paced log w) (g : w.Happens w') : Paced log w' where
  sound := hx.sound.run g.run
  stands := g.supervisor_eq ▸ hx.stands
  unopened := g.supervisor_eq ▸ hx.unopened
  planned e he delay hp := hx.planned e ((g.delayed_eq hx.sound).2 e he delay hp) delay hp

theorem undergo (hx : Paced log w) (o : Occurrence) : Paced (log ++ w.takes o) (w.undergo o) := by
  rcases Classical.em (o = .go supervisorId) with rfl | hgo
  · rw [undergo_supervisor, takes_supervisor]
    by_cases ha : w.supervisor.alive
    · cases hc : w.commands with
      | nil => simpa [upcoming, takeCommand, ha, hc] using hx
      | cons c rest =>
        have hup : w.upcoming = [⟨w, c⟩] := by simp [upcoming, ha, hc]
        rw [hup]
        exact hx.turn (d := ⟨w, c⟩) ⟨hx.sound, ha, rest, hc⟩
    · have hsound := hx.sound.takeCommand
      have hdrop : w.takeCommand = { w with commands := [] } := by simp [takeCommand, ha]
      rw [hdrop] at hsound ⊢
      rw [show w.upcoming = [] by simp [upcoming, ha], List.append_nil]
      exact ⟨hsound, hx.stands, hx.unopened, hx.planned⟩
  · rw [takes_of_ne w hgo, List.append_nil]
    exact hx.happens (happens_undergo hx.sound.tidy hgo)

end Paced

/-! ## Courses -/

section

variable (config : Config) (script : Peer.Script) (plugins : List Plugin) (pingStart : Span)

theorem paced_launch : Paced [] (launch config script plugins pingStart) := by
  obtain ⟨_, _, _, h⟩ := launch_spec config script plugins pingStart
  refine ⟨sound_launch, ?_, ?_, ?_⟩
  · intro c hc
    cases hc
  · rw [h]
    exact fun _ => ⟨rfl, rfl⟩
  · rw [h]
    exact List.forall_mem_nil _

theorem paced_course (os : List Occurrence) : let w := launch config script plugins pingStart
    Paced (w.taken os) (w.course os) :=
  course_induction (paced_launch config script plugins pingStart) (fun _ _ o hx => hx.undergo o) os

/-- On every course of the bridge, the attempts begun since the last accepted answer or the last
session that was opened have the first delays of the configuration, in order. The timer is at the
next delay, and a planned attempt has the last one and sleeps for it. Opening a session draws the
first delay from a new timer. An accepted answer rewinds the timer, and no other command does. A
failed attempt, whatever the failure, and a loss of the session draw one delay. Any other command
draws none and leaves the timer. A command of an earlier epoch and a report of a loss while the
connection is not up change nothing but `commands`. An occurrence that takes no command, such as the
failure of a request, leaves the timer and plans no attempt. -/
theorem pacing_of_course (os : List Occurrence) :
    let start := launch config script plugins pingStart
    let w := start.course os
    let recent := Handled.recent (start.taken os)
    (∀ c, Handled.server? (start.taken os) = some c →
      recent.map some = (List.range recent.length).map (Backoff.term? c) ∧
      Backoff.term? c recent.length = some w.supervisor.backoff.current) ∧
    (Handled.server? (start.taken os) = none → recent = []) ∧
    (∀ e ∈ w.attempts, ∀ delay, e.2.phase = .planned delay → recent.getLast? = some delay ∧
      (delay.millisUp ≠ 0 → w.pollAttempt e.1 e.2 =
        w.sleep e.1 delay.millisUp (.attempt { e.2 with phase := .sleeping }))) ∧
    (∀ o, ∀ d ∈ w.takes o,
      let timer := w.supervisor.backoff
      let timer' := (w.undergo o).supervisor.backoff
      (∀ c, d.opens? = some c → ¬d.Overflows → d.delays = [c.minBackoff] ∧
        (Backoff.ofConfig c).next? = some (c.minBackoff, timer')) ∧
      (d.accepted → d.delays = [] ∧ timer' = timer.reset) ∧
      (d.fails ∨ d.drops → ¬d.Overflows → d.delays = [timer.current] ∧
        timer.next? = some (timer.current, timer')) ∧
      (d.opens? = none → d.accepted = false → d.fails = false → d.drops = false →
        d.delays = [] ∧ timer' = timer) ∧
      ((∃ epoch, d.command.epoch? = some epoch ∧ epoch ≠ w.supervisor.epoch) ∨
          d.command.isLoss ∧ w.supervisor.isOnline = false →
        w.undergo o = { w with commands := w.commands.tail }) ∧
      ∀ epoch e e', d.command = .handshakeDone epoch (.error e) →
        let other := w.supervisor.handle w.opened (.handshakeDone epoch (.error e'))
        other.1 = (w.undergo o).supervisor ∧
          other.2.filter (!·.isLog) = d.effects.filter (!·.isLog)) ∧
    ∀ o, (∀ id, o ≠ .go id) →
      (w.undergo o).supervisor = w.supervisor ∧ (w.undergo o).attempts = w.attempts := by
  intro start w recent
  have hx : Paced (start.taken os) w := paced_course config script plugins pingStart os
  refine ⟨fun c hc => ?_, fun hnone => (hx.unopened hnone).1, fun e he delay hp => ?_,
    fun o d hd => ?_, fun o hgo => ?_⟩
  · obtain ⟨hterms, hstands⟩ := hx.stands c hc
    exact ⟨hterms, hstands.current⟩
  · refine ⟨hx.planned e he delay hp, fun hmillis => ?_⟩
    simp only [pollAttempt, hp, if_neg hmillis]
  · obtain ⟨hreg, hbefore, hafter⟩ := hx.sound.regular_of_takes hd
    rw [← hafter, ← hbefore]
    have hgrown := hreg.grown?_eq
    refine ⟨fun c hopen ho => ?_, fun hacc => ?_, fun hmore ho => ?_,
      fun hopen hacc hfail hdrop => ?_, ?_, fun epoch e e' hc => ?_⟩
    · exact hreg.draws ho (by rw [hgrown, hopen]; rfl)
    · simpa [hacc] using hreg.rests (Supervisor.grown?_of_accepts hacc)
    · have hrenews : d.command.renews = false := by
        rcases hmore with hfail | hdrop
        · exact Command.renews_of_fails hfail
        · simp only [Handled.drops, Bool.and_eq_true, Bool.not_eq_true'] at hdrop
          exact hdrop.1
      have hopen : d.opens? = none := Command.opens?_of_not_renews hrenews _
      exact hreg.draws ho (by rw [hgrown, hopen]; simp [hmore])
    · simpa [hacc] using hreg.rests (by rw [hgrown, hopen]; simp [hfail, hdrop])
    · rintro (⟨epoch, hc, hne⟩ | ⟨hc, ho⟩)
      · exact hreg.after_of_stale hc hne
      · exact hreg.after_of_isLoss hc ho
    · have hsame := Supervisor.handshakeDone_error_congr d.before.supervisor epoch e' e
      have hframe := hreg.frame.supervisor
      rw [hc] at hframe
      rw [hframe, Handled.effects, hc]
      exact hsame
  · have hb := beside_undergo w hgo
    exact ⟨hb.supervisor, hb.attempts⟩

end

/-- A bridge to a server that does not answer. -/
def lonely : World := launch { connection := { url := "http://demo" } } {} [] ⟨0⟩

/-- The first attempt has failed, and the second one is planned with the second delay. -/
theorem pacing_of_course_demo :
    let os := [.go supervisorId, .go 1, .go 1, .go supervisorId, .go supervisorId, .go supervisorId]
    Handled.server? (lonely.taken os) = some { url := "http://demo" } ∧
    Handled.recent (lonely.taken os) = [.ofSeconds 1, .ofSeconds 2] ∧
    Backoff.term? { url := "http://demo" } 2 =
      some (lonely.course os).supervisor.backoff.current := by
  intro os
  have hserver : Handled.server? (lonely.taken os) = some { url := "http://demo" } := by
    decide +kernel
  have hrecent : Handled.recent (lonely.taken os) = [.ofSeconds 1, .ofSeconds 2] := by
    decide +kernel
  have hlength : (Handled.recent (lonely.taken os)).length = 2 := by rw [hrecent]; rfl
  have hlonely : launch { connection := { url := "http://demo" } } {} [] ⟨0⟩ = lonely := rfl
  have hpacing := pacing_of_course { connection := { url := "http://demo" } } {} [] ⟨0⟩ os
  rw [hlonely] at hpacing
  obtain ⟨hpace, -⟩ := hpacing
  obtain ⟨-, hstands⟩ := hpace _ hserver
  rw [hlength] at hstands
  exact ⟨hserver, hrecent, hstands⟩

end World

end PeerLink.Bridge
