import PeerLink.Proofs.Bridge.Airing
import PeerLink.Proofs.Bridge.Quiescence
import PeerLink.Proofs.Bus.TopicPattern
/-!
# Pings and their echoes

There is at most one pinger, and only while the connection is up. A round trip is measured when the
value of the last ping arrives as the state of its item. A ping cannot be measured any more once it
has been measured, another one has been sent, or the connection has come up or been lost.

## Main definitions

* `World.pingers`: the pingers.
* `World.measures`: whether an occurrence measures a round trip.
* `Pulse`, `World.pulsed`: the pings, the echoes and the edges of the connection on a course.
* `World.Beating`: the pinger and the ping as functions of the pulses.

## Main statements

* `World.beating_course`: `World.Beating` holds on every course of the bridge.
* `World.measured_of_course`: the pingers and the measurements on every course of the bridge.
-/

namespace PeerLink

open Connection

theorem Connection.Supervisor.eq_of_edge_eq_nil {before after : Bool}
    (h : edge before after = []) : after = before := by
  cases before <;> cases after <;> simp_all [edge]

theorem Connection.Supervisor.of_edge_eq_singleton {before after : Bool} {hook : Hook}
    (h : edge before after = [hook]) :
    hook = .connect ∧ before = false ∧ after = true ∨
      hook = .disconnect ∧ before = true ∧ after = false := by
  cases before <;> cases after <;> simp_all [edge]

namespace Registry

/-- The listeners whose deed is `echo` have the topic of `item`. -/
def Devoted (item : String) (r : Registry) : Prop :=
  ∀ l ∈ r.listeners, l.callback.deed = .echo → l.pattern = .ofString ("items/" ++ item)

end Registry

/-- An event leaves the ping, or it is a state with the value of the ping that is on its way. -/
theorem Ping.take_cases {p : Ping} (hp : p.sentAt.isSome = p.sentValue.isSome) (now : Span)
    (e : Event) : p.take now e = p ∨ ∃ sent name answer, e = .itemState name answer ∧
      p.sentAt = some sent ∧ p.sentValue = some (answer.getD noValue) ∧
      p.take now e = ⟨none, none, some ⟨now.nanos - sent.nanos⟩⟩ := by
  cases e with
  | itemState name answer =>
    by_cases hvalue : p.sentValue = some (answer.getD noValue)
    · obtain ⟨sent, hsent⟩ : ∃ sent, p.sentAt = some sent :=
        Option.isSome_iff_exists.1 (by simp [hp, hvalue])
      exact .inr ⟨sent, name, answer, rfl, hsent, hvalue, by
        simp [take, echo, hvalue, hsent]⟩
    · exact .inl (if_neg hvalue)
  | _ => exact .inl rfl

namespace Bridge

theorem Job.pinged_cases {j : Job} {p : Ping} (hp : p.sentAt.isSome = p.sentValue.isSome)
    (now : Span) : j.pinged p now = p ∨ ∃ sent name answer, j.callback.deed = .echo ∧
      j.event = .itemState name answer ∧ p.sentAt = some sent ∧
      p.sentValue = some (answer.getD Ping.noValue) ∧
      j.pinged p now = ⟨none, none, some ⟨now.nanos - sent.nanos⟩⟩ := by
  unfold pinged
  cases hd : j.callback.deed with
  | echo =>
    refine (Ping.take_cases hp now j.event).imp_right ?_
    rintro ⟨sent, name, answer, he, hrest⟩
    exact ⟨sent, name, answer, rfl, he, hrest⟩
  | _ => exact .inl rfl

/-- The phase of the pinger that a task is, if any. -/
def Task.pinger? : Task → Option PingPhase
  | pinger phase => some phase
  | _ => none

/-- Whether an occurrence adds a listener whose deed is `echo`. -/
def Occurrence.mimics : Occurrence → Bool
  | step (.listen _ _ { deed := .echo, .. }) => true
  | _ => false

theorem Occurrence.mimics_of_adds? {o : Occurrence} {id : Nat} {l : Listener}
    (h : o.adds? id = some l) (hd : l.callback.deed = .echo) : o.mimics := by
  unfold adds? at h
  split at h
  next pattern filter callback =>
    obtain rfl := Option.some.inj h
    obtain ⟨_, _, _, _, _⟩ := callback
    obtain rfl := hd
    rfl
  · cases h

/-- What concerns a ping: it is sent with a value, its echo is measured, or the connection comes up
or is lost. -/
inductive Pulse where
  | ping (sent : Span) (value : String)
  | echo
  | edge (hook : Hook)

/-- The ping that is on its way after a pulse, if any. -/
def Pulse.ping? : Pulse → Option (Span × String)
  | ping sent value => some (sent, value)
  | _ => none

/-- Every echo follows a ping immediately. So there is at most one echo for each ping, and no edge
of the connection in between. -/
def Pulse.Paired (pulses : List Pulse) : Prop :=
  ∀ before after, pulses = before ++ .echo :: after →
    ∃ sent value, before.getLast? = some (.ping sent value)

theorem Pulse.Paired.append {pulses : List Pulse} (h : Paired pulses) {p : Pulse}
    (hp : p = .echo → ∃ sent value, pulses.getLast? = some (.ping sent value)) :
    Paired (pulses ++ [p]) := by
  intro before after heq
  rcases List.eq_nil_or_concat after with rfl | ⟨rest, last, rfl⟩
  · obtain ⟨rfl, hecho⟩ := List.append_inj' heq rfl
    exact hp (List.cons.inj hecho).1
  · rw [List.concat_eq_append, ← List.cons_append, ← List.append_assoc] at heq
    exact h before rest (List.append_inj' heq rfl).1

namespace World

/-- The pingers with their numbers. -/
def pingers (w : World) : List (Nat × PingPhase) := pick Task.pinger? w.tasks

/-- Whether `o` measures a round trip: the ping is not on its way any more, and the supervisor has
taken no command. -/
def measures (w : World) (o : Occurrence) : Bool :=
  w.ping.sentAt.isSome && (w.undergo o).ping.sentAt.isNone && (w.takes o).isEmpty

/-- The ping sent at an occurrence, if any. -/
def pings (w : World) : Occurrence → List Pulse
  | .go id =>
    match w.task? id with
    | some (.pinger phase) =>
      if id ≠ supervisorId ∧ w.beats phase then [.ping w.now (w.ping.beat w.now).2] else []
    | _ => []
  | _ => []

/-- The pulses of an occurrence. -/
def pulses (w : World) (o : Occurrence) : List Pulse :=
  (if w.measures o then [.echo] else w.pings o) ++
    ((w.takes o).flatMap Handled.hooks).map .edge

/-- The pulses of a course, in order. -/
def pulsed (w : World) : List Occurrence → List Pulse
  | [] => []
  | o :: os => w.pulses o ++ (w.undergo o).pulsed os

variable {w : World} {o : Occurrence} {id : Nat}

/-- A callback accepted on a course is accepted at one of its occurrences. -/
theorem exists_of_mem_accepted {os : List Occurrence} {e : Nat × Invocation}
    (h : e ∈ w.accepted os) : ∃ earlier o later, os = earlier ++ o :: later ∧
      e ∈ (w.course earlier).accepts o := by
  induction os generalizing w with
  | nil => cases h
  | cons o os ih =>
    rcases List.mem_append.1 h with h | h
    · exact ⟨[], o, os, rfl, h⟩
    · obtain ⟨earlier, o', later, rfl, hmem⟩ := ih h
      exact ⟨o :: earlier, o', later, rfl, hmem⟩

/-! ## The listeners of echoes -/

section

variable {item : String}

theorem devoted_undergo (h : w.registry.Devoted item) (ho : o.mimics = false) :
    (w.undergo o).registry.Devoted item := by
  intro l hl hd
  rw [registry_undergo] at hl
  rcases List.mem_append.1 hl with hl | hl
  · exact h l (List.mem_of_mem_filter hl) hd
  · -- a listener that is added takes no echoes
    have hadds : o.adds? w.registry.nextId = some l := by simpa using hl
    simp [Occurrence.mimics_of_adds? hadds hd] at ho

theorem devoted_course (h : w.registry.Devoted item) {os : List Occurrence}
    (hown : ∀ o ∈ os, o.mimics = false) : (w.course os).registry.Devoted item := by
  induction os generalizing w with
  | nil => exact h
  | cons o os ih =>
    exact ih (devoted_undergo h (hown o List.mem_cons_self)) fun o' ho =>
      hown o' (List.mem_cons_of_mem _ ho)

theorem devoted_addPlugin (h : w.registry.Devoted w.pingConfig.item) (p : Plugin) :
    (w.addPlugin p).registry.Devoted w.pingConfig.item ∧
      (w.addPlugin p).pingConfig = w.pingConfig := by
  cases p with
  | scripted name failing =>
    unfold addPlugin callHook
    dsimp only
    cases failing.contains .setup <;> exact ⟨h, rfl⟩
  | ping =>
    unfold addPlugin callHook
    cases he : w.pingConfig.enabled with
    | false => simpa [he] using h
    | true =>
      simp only [Bool.not_true, Bool.false_eq_true, false_and, if_false, and_true]
      intro l hl hd
      rcases List.mem_append.1 hl with hl | hl
      · exact h l hl hd
      · obtain rfl := List.mem_singleton.1 hl
        rfl

theorem devoted_launch (config : Config) (script : Peer.Script) (plugins : List Plugin)
    (pingStart : Span) :
    (launch config script plugins pingStart).registry.Devoted config.ping.item := by
  have hplugins {w : World} (h : w.registry.Devoted w.pingConfig.item) :
      (plugins.foldl addPlugin w).registry.Devoted w.pingConfig.item := by
    induction plugins generalizing w with
    | nil => exact h
    | cons p rest ih =>
      obtain ⟨hp, hconfig⟩ := devoted_addPlugin h p
      rw [List.foldl_cons, ← hconfig]
      exact ih (hconfig ▸ hp)
  have hbefore (l : List LogLine) : ({ before config script with
      pingStart, trace.log := l } : World).registry.Devoted config.ping.item :=
    List.forall_mem_nil _
  unfold launch
  dsimp only
  split
  next hc =>
    rw [(sends_send _ _).registry]
    split
    · exact hplugins (hbefore _)
    · exact hplugins (hbefore [])
  · show Registry.Devoted _ (plugins.foldl addPlugin _).registry
    split
    · exact hplugins (hbefore _)
    · exact hplugins (hbefore [])

end

/-! ## Pulses -/

/-- The ping and the pulses after an occurrence other than a poll of the supervisor. -/
inductive Rings (w : World) : Occurrence → Ping → List Pulse → Prop where
  | still (o : Occurrence) : Rings w o w.ping []
  | sent (o : Occurrence) (h : w.pinger.isSome) :
      Rings w o (w.ping.beat w.now).1 [.ping w.now (w.ping.beat w.now).2]
  | answered {id : Nat} {j : Job} {sent : Span} {name : String} {answer : Option String}
      (hj : (id, j) ∈ w.jobs) (hd : j.callback.deed = .echo) (he : j.event = .itemState name answer)
      (hsent : w.ping.sentAt = some sent)
      (hvalue : w.ping.sentValue = some (answer.getD Ping.noValue)) :
      Rings w (.go id) ⟨none, none, some ⟨w.now.nanos - sent.nanos⟩⟩ [.echo]

/-- The pinger and the ping as functions of the pulses so far. -/
structure Beating (pulses : List Pulse) (w : World) : Prop where
  tended : w.Tended
  up : w.pinger.isSome → w.supervisor.isOnline ∧ .ping ∈ w.plugins
  live : w.ping.sentAt.isSome → w.pinger.isSome
  sentAt : w.ping.sentAt = (pulses.getLast?.bind Pulse.ping?).map Prod.fst
  sentValue : w.ping.sentValue = (pulses.getLast?.bind Pulse.ping?).map Prod.snd
  paired : Pulse.Paired pulses

section

variable {pulses : List Pulse}

/-- The ping has a time exactly if it has a value. -/
theorem Beating.isSome_eq (h : Beating pulses w) :
    w.ping.sentAt.isSome = w.ping.sentValue.isSome := by
  rw [h.sentAt, h.sentValue, Option.isSome_map, Option.isSome_map]

/-- An occurrence other than a poll of the supervisor measures an echo exactly if the ping is not on
its way after it. -/
theorem pulses_eq (ho : o ≠ .go supervisorId) : w.pulses o =
    if w.ping.sentAt.isSome && (w.undergo o).ping.sentAt.isNone then [.echo] else w.pings o := by
  simp [World.pulses, measures, takes_of_ne w ho]

/-- An occurrence that leaves the ping and sends none has no pulses. -/
theorem rings_still (ho : o ≠ .go supervisorId) (hping : (w.undergo o).ping = w.ping)
    (hnone : w.pings o = []) : Rings w o (w.undergo o).ping (w.pulses o) := by
  have hpulses : w.pulses o = [] := by
    rw [pulses_eq ho, hping, hnone]
    cases w.ping.sentAt <;> rfl
  rw [hping, hpulses]
  exact .still o

/-- Each occurrence other than a poll of the supervisor is a case of `Rings`. -/
theorem Beating.rings (h : Beating pulses w) (ho : o ≠ .go supervisorId) :
    Rings w o (w.undergo o).ping (w.pulses o) := by
  have hping := (h.tended.undergo ho).1
  cases o with
  | go id =>
    have hid : id ≠ supervisorId := fun heq => ho (congrArg Occurrence.go heq)
    cases ht : w.task? id with
    | none => exact rings_still ho (by simp [hping, pingAfter, ht]) (by simp [pings, ht])
    | some t =>
      cases t with
      | job j =>
        have hnone : w.pings (.go id) = [] := by simp [pings, ht]
        have hafter : (w.undergo (.go id)).ping =
            if w.performs j then j.pinged w.ping w.now else w.ping := by
          rw [hping]
          simp only [pingAfter, ht]
        by_cases hp : w.performs j
        · rw [if_pos hp] at hafter
          rcases Job.pinged_cases h.isSome_eq w.now with
            hsame | ⟨sent, name, answer, hd, he, hs, hv, heq⟩
          · exact rings_still ho (hafter.trans hsame) hnone
          · have hpulses : w.pulses (.go id) = [.echo] := by
              rw [pulses_eq ho, hafter, heq, hs]
              rfl
            rw [hpulses, hafter, heq]
            exact .answered (mem_jobs.2 (mem_of_task? ht)) hd he hs hv
        · rw [if_neg hp] at hafter
          exact rings_still ho hafter hnone
      | pinger phase =>
        by_cases hb : w.beats phase
        · have hafter : (w.undergo (.go id)).ping = (w.ping.beat w.now).1 := by
            rw [hping]
            simp only [pingAfter, ht, hb, if_true]
          have hpulses : w.pulses (.go id) = [.ping w.now (w.ping.beat w.now).2] := by
            rw [pulses_eq ho, hafter]
            simp [pings, ht, hb, hid, Ping.beat]
          rw [hafter, hpulses]
          exact .sent _ (by simp [h.tended id phase (mem_of_task? ht)])
        · exact rings_still ho (by simp [hping, pingAfter, ht, hb]) (by simp [pings, ht, hb])
      | attempt | reader | errand =>
        exact rings_still ho (by simp [hping, pingAfter, ht]) (by simp [pings, ht])
  | _ => exact rings_still ho hping rfl

/-! ## Courses -/

/-- `Beating` after a pulse, from the ping after it. -/
theorem Beating.after (h : Beating pulses w) {w' : World} {p : Pulse} (ht : w'.Tended)
    (hup : w'.pinger.isSome → w'.supervisor.isOnline ∧ .ping ∈ w'.plugins)
    (hlive : p.ping?.isSome → w'.pinger.isSome)
    (hsent : w'.ping.sentAt = p.ping?.map Prod.fst)
    (hvalue : w'.ping.sentValue = p.ping?.map Prod.snd)
    (hp : p = .echo → ∃ sent value, pulses.getLast? = some (.ping sent value)) :
    Beating (pulses ++ [p]) w' where
  tended := ht
  up := hup
  live hsome := hlive (by simpa [hsent] using hsome)
  sentAt := by simpa using hsent
  sentValue := by simpa using hvalue
  paired := h.paired.append hp

/-- An occurrence other than a poll of the supervisor leaves `supervisor`. -/
theorem supervisor_undergo (ho : o ≠ .go supervisorId) :
    (w.undergo o).supervisor = w.supervisor := by
  cases hp : o.isPublic with
  | false =>
    obtain ⟨_, h⟩ := (talks_undergo w hp ho).goes
    exact h.supervisor
  | true =>
    obtain ⟨_, _, h⟩ := undergo_of_isPublic w hp
    rw [h]

/-- A ping that is on its way is the last pulse. -/
theorem Beating.last (h : Beating pulses w) {sent : Span} {value : String}
    (hsent : w.ping.sentAt = some sent) (hvalue : w.ping.sentValue = some value) :
    pulses.getLast? = some (.ping sent value) := by
  rw [h.sentAt] at hsent
  rw [h.sentValue] at hvalue
  cases hp : pulses.getLast? with
  | none => simp [hp] at hsent
  | some p =>
    cases p with
    | ping s v => simp_all [Pulse.ping?]
    | echo | edge => simp [hp, Pulse.ping?] at hsent

theorem Beating.undergo (h : Beating pulses w) (hs : w.Sound) (ho : o ≠ .go supervisorId) :
    Beating (pulses ++ w.pulses o) (w.undergo o) := by
  have ht := h.tended.undergo_tended hs o
  have hpinger := (h.tended.undergo ho).2.1
  have hplugins := ((run_undergo hs.tidy o).records_hooks hs.tidy).1
  have hup : (w.undergo o).pinger.isSome →
      (w.undergo o).supervisor.isOnline ∧ .ping ∈ (w.undergo o).plugins := by
    rw [hpinger, hplugins, supervisor_undergo ho]
    exact h.up
  have hrings := h.rings ho
  generalize hafter : (w.undergo o).ping = ping, w.pulses o = ps at hrings
  cases hrings with
  | still =>
    rw [List.append_nil]
    exact ⟨ht, hup, by rw [hafter, hpinger]; exact h.live, hafter ▸ h.sentAt,
      hafter ▸ h.sentValue, h.paired⟩
  | sent _ hlive =>
    exact h.after ht hup (fun _ => hpinger ▸ hlive) (by rw [hafter]; rfl) (by rw [hafter]; rfl)
      nofun
  | answered hj hd he hsent hvalue =>
    exact h.after ht hup nofun (by rw [hafter]; rfl) (by rw [hafter]; rfl) fun _ =>
      ⟨_, _, h.last hsent hvalue⟩

theorem Tended.ping_takeCommand (h : w.Tended) (hs : w.Sound) :
    (w.upcoming = [] → w.takeCommand.ping = w.ping) ∧
      w.takeCommand.ping.measured = w.ping.measured := by
  obtain ⟨n, p, hdone, hcases⟩ := h.takeCommand hs (w.Airs (.go supervisorId))
  rw [hdone.ping]
  rcases hcases with ⟨-, -, rfl⟩ | ⟨hook, hhooks, htold⟩
  · exact ⟨fun _ => rfl, rfl⟩
  · refine ⟨fun hnone => by simp [hnone] at hhooks, ?_⟩
    cases htold <;> rfl

/-- The pulses of a poll of the supervisor are the edges of the connection. -/
theorem pulses_supervisor (h : w.Tended) (hs : w.Sound) :
    w.pulses (.go supervisorId) = (w.upcoming.flatMap Handled.hooks).map .edge := by
  have hpings : w.pings (.go supervisorId) = [] := by
    dsimp only [pings]
    split <;> simp
  have hmeasures : w.measures (.go supervisorId) = false := by
    rw [measures, undergo_supervisor, takes_supervisor]
    cases hup : w.upcoming with
    | nil => cases hsent : w.ping.sentAt <;> simp [(h.ping_takeCommand hs).1 hup, hsent]
    | cons d rest => simp
  simp [World.pulses, hmeasures, hpings, takes_supervisor]

/-- While the connection is not up there is neither a pinger nor a ping. -/
theorem Beating.idle (h : Beating pulses w) (hoff : ¬w.supervisor.isOnline ∨ .ping ∉ w.plugins) :
    w.pinger = none ∧ w.ping.sentAt = none ∧ w.ping.sentValue = none := by
  have hpinger : w.pinger = none := by
    by_contra hne
    obtain ⟨hon, hmem⟩ := h.up (Option.isSome_iff_ne_none.2 hne)
    exact hoff.elim (· hon) (· hmem)
  have hsent : w.ping.sentAt = none := by
    by_contra hne
    simpa [hpinger] using h.live (Option.isSome_iff_ne_none.2 hne)
  have hvalue := h.isSome_eq
  simp_all

/-- After an edge of the connection no ping is on its way. -/
theorem Beating.edge (h : Beating pulses w) {w' : World} {hook : Hook} (ht : w'.Tended)
    (hedge : Supervisor.edge w.supervisor.isOnline w'.supervisor.isOnline = [hook])
    (hplugins : w'.plugins = w.plugins)
    (htold : Told w.plugins w.pinger w.ping hook w'.pinger w'.ping) :
    Beating (pulses ++ [.edge hook]) w' := by
  have hsides := Supervisor.of_edge_eq_singleton hedge
  have hnext (hup : w'.pinger.isSome → w'.supervisor.isOnline ∧ .ping ∈ w'.plugins)
      (hsent : w'.ping.sentAt = none) (hvalue : w'.ping.sentValue = none) :
      Beating (pulses ++ [.edge hook]) w' :=
    h.after ht hup nofun hsent hvalue nofun
  generalize hn : w'.pinger = n, hp : w'.ping = p at htold hnext
  cases htold with
  | still hdeaf =>
    have hoff : ¬w.supervisor.isOnline ∨ .ping ∉ w.plugins := by
      rcases hsides with ⟨-, hbefore, -⟩ | ⟨hhook, -, -⟩
      · exact .inl (by simp [hbefore])
      · exact .inr (hdeaf hhook)
    obtain ⟨hpinger, hsent, hvalue⟩ := h.idle hoff
    exact hnext (by simp [hpinger]) hsent hvalue
  | starts id hmem =>
    refine hnext (fun _ => ⟨?_, hplugins ▸ hmem⟩) rfl rfl
    rcases hsides with ⟨-, -, hafter⟩ | ⟨hhook, -, -⟩
    · exact hafter
    · cases hhook
  | stops hmem => exact hnext nofun rfl rfl

theorem Beating.supervisor (h : Beating pulses w) (hs : w.Sound) :
    Beating (pulses ++ w.pulses (.go supervisorId)) w.takeCommand := by
  have ht := h.tended.undergo_tended hs (.go supervisorId)
  rw [undergo_supervisor] at ht
  have hedge := hs.hooks_upcoming
  obtain ⟨n, p, hdone, hcases⟩ := h.tended.takeCommand hs (w.Airs (.go supervisorId))
  obtain rfl := hdone.pinger
  obtain rfl := hdone.ping
  rw [pulses_supervisor h.tended hs]
  rcases hcases with ⟨hnone, hn, hp⟩ | ⟨hook, hhooks, htold⟩
  · rw [hnone] at hedge ⊢
    have honline := Supervisor.eq_of_edge_eq_nil hedge.symm
    rw [List.map_nil, List.append_nil]
    refine ⟨ht, ?_, ?_, hp ▸ h.sentAt, hp ▸ h.sentValue, h.paired⟩
    · rw [hn, hdone.plugins, honline]
      exact h.up
    · rw [hp, hn]
      exact h.live
  · rw [hhooks] at hedge ⊢
    exact h.edge ht hedge.symm hdone.plugins htold

theorem Beating.course (h : Beating pulses w) (hs : w.Sound) (os : List Occurrence) :
    Beating (pulses ++ w.pulsed os) (w.course os) := by
  induction os generalizing w pulses with
  | nil => simpa [pulsed] using h
  | cons o os ih =>
    have hnext : Beating (pulses ++ w.pulses o) (w.undergo o) := by
      by_cases ho : o = .go supervisorId
      · rw [ho, undergo_supervisor]
        exact h.supervisor hs
      · exact h.undergo hs ho
    rw [pulsed, ← List.append_assoc]
    exact ih hnext (hs.run (run_undergo hs.tidy o))

section

variable (config : Config) (script : Peer.Script) (plugins : List Plugin) (pingStart : Span)

theorem beating_launch : Beating [] (launch config script plugins pingStart) := by
  obtain ⟨_, _, _, hlaunch⟩ := launch_spec config script plugins pingStart
  rw [hlaunch]
  exact ⟨nofun, nofun, nofun, rfl, rfl, by simp [Pulse.Paired]⟩

theorem beating_course (os : List Occurrence) :
    let start := launch config script plugins pingStart
    Beating (start.pulsed os) (start.course os) := by
  simpa using (beating_launch config script plugins pingStart).course sound_launch os

end

/-! ## Pingers -/

theorem mem_pingers {phase : PingPhase} :
    (id, phase) ∈ w.pingers ↔ (id, .pinger phase) ∈ w.tasks := by
  simp only [pingers, mem_pick]
  constructor
  · rintro ⟨u, hm, hu⟩
    cases u <;> simp_all [Task.pinger?]
  · intro h
    exact ⟨_, h, rfl⟩

/-- There is at most one pinger, and only while the connection is up. -/
theorem Beating.pingers (h : Beating pulses w) (ht : w.Tidy) :
    w.pingers.length ≤ 1 ∧ (w.pingers ≠ [] → w.supervisor.isOnline) := by
  have hown : ∀ e ∈ w.pingers, w.pinger = some e.1 := fun e he =>
    h.tended e.1 e.2 (mem_pingers.1 he)
  have hnodup : (w.pingers.map Prod.fst).Nodup := ht.nodup.sublist (fst_pick_sublist w.tasks)
  constructor
  · rcases hp : w.pingers with _ | ⟨a, _ | ⟨b, rest⟩⟩
    · simp
    · simp
    · rw [hp] at hown hnodup
      have ha := hown a (by simp)
      have hb := hown b (by simp)
      rw [ha, Option.some.injEq] at hb
      simp [hb] at hnodup
  · intro hne
    obtain ⟨e, he⟩ := List.exists_mem_of_ne_nil _ hne
    exact (h.up (by simp [hown e he])).1

/-! ## Measurements -/

/-- An occurrence measures a round trip exactly if one of its pulses is an echo. -/
theorem measures_iff : w.measures o ↔ .echo ∈ w.pulses o := by
  have hpings : .echo ∉ w.pings o := by
    unfold pings
    split
    · split
      · split <;> simp
      · simp
    · simp
  cases hm : w.measures o <;> simp [World.pulses, hm, hpings]

/-- An occurrence that measures a round trip polls a job whose deed is `echo`, with the value of the
last ping, and measures the time since then. -/
theorem Beating.of_measures (h : Beating pulses w) (hs : w.Sound) (hm : w.measures o) :
    ∃ id j sent name answer, o = .go id ∧ (id, j) ∈ w.jobs ∧ j.callback.deed = .echo ∧
      j.event = .itemState name answer ∧
      pulses.getLast? = some (.ping sent (answer.getD Ping.noValue)) ∧
      (w.undergo o).ping = ⟨none, none, some ⟨w.now.nanos - sent.nanos⟩⟩ := by
  have hecho := measures_iff.1 hm
  have ho : o ≠ .go supervisorId := by
    rintro rfl
    simp [pulses_supervisor h.tended hs] at hecho
  have hrings := h.rings ho
  generalize hafter : (w.undergo o).ping = ping, hps : w.pulses o = ps at hrings hecho
  cases hrings with
  | still => cases hecho
  | sent => simp at hecho
  | answered hj hd he hsent hvalue =>
    exact ⟨_, _, _, _, _, rfl, hj, hd, he, h.last hsent hvalue, rfl⟩

/-- The last measurement changes at occurrences that measure a round trip only. -/
theorem Beating.measures_of_ne (h : Beating pulses w) (hs : w.Sound)
    (hne : (w.undergo o).ping.measured ≠ w.ping.measured) : w.measures o := by
  have ho : o ≠ .go supervisorId := by
    rintro rfl
    rw [undergo_supervisor] at hne
    exact hne (h.tended.ping_takeCommand hs).2
  rw [measures_iff]
  have hrings := h.rings ho
  generalize hafter : (w.undergo o).ping = ping, hps : w.pulses o = ps at hrings hne
  cases hrings with
  | still | sent => exact absurd rfl hne
  | answered => simp

/-- A callback whose deed is `echo` was accepted for an event on the topic of `item`. -/
theorem exists_airs_of_echo {start : World} (hpulses : Beating [] start) (hs : start.Sound)
    (hc : start.Counted) (hnone : start.pending = []) {item : String}
    (hdevoted : start.registry.Devoted item) (hstar : '*' ∉ item.toList) {past : List Occurrence}
    (hown : ∀ o ∈ past, o.mimics = false) {j : Job} (hj : (id, j) ∈ (start.course past).jobs)
    (hd : j.callback.deed = .echo) : ∃ earlier before later, past = earlier ++ before :: later ∧
      (id, j.invocation) ∈ (start.course earlier).accepts before ∧
      (start.course earlier).Airs before ("items/" ++ item) j.event := by
  have haccepted : (id, j.invocation) ∈ start.accepted past := by
    have hperm := (hc.course past).2
    rw [hnone, List.nil_append] at hperm
    exact hperm.subset (List.mem_append_left _ (mem_pending.2 ⟨j, hj, rfl⟩))
  obtain ⟨earlier, before, later, rfl, hmem⟩ := exists_of_mem_accepted haccepted
  have htended := (hpulses.course hs earlier).tended
  have hsound := hs.run (run_course hs.tidy earlier)
  obtain ⟨topic, hairs, l, hl, hcallback⟩ :=
    htended.airs_of_mem_accepts hsound (hc.course earlier).1 hmem
  obtain ⟨hlistens, htakes⟩ := List.mem_filter.1 hl
  have hpattern : l.pattern = .exact ("items/" ++ item) := by
    have hdevoted := devoted_course hdevoted fun o ho => hown o (List.mem_append_left _ ho)
    rw [hdevoted l hlistens (by rw [hcallback]; exact hd)]
    exact TopicPattern.ofString_of_not_mem (by simp [hstar])
  have htopic : topic = "items/" ++ item := by
    rw [Listener.accepts, hpattern, Bool.and_eq_true] at htakes
    exact (of_decide_eq_true htakes.1).symm
  exact ⟨earlier, before, later, rfl, hmem, htopic ▸ hairs⟩

/-- On every course of the bridge that adds no listener whose deed is `echo`, there is at most one
pinger, and only while the connection is up. The ping has a time exactly if it has a value. Every
echo follows its ping immediately, so each ping is measured at most once, and not after the
connection has been lost or has come up again. The last measurement changes only at an occurrence
that measures a round trip. This polls a callback with the state of an item, a missing one standing
for no value, which is the value of the last ping and was published on the topic of the item of the
pings when the callback was accepted. -/
theorem measured_of_course (config : Config) (script : Peer.Script) (plugins : List Plugin)
    (pingStart : Span) (hstar : '*' ∉ config.ping.item.toList) (past : List Occurrence)
    (hown : ∀ o ∈ past, o.mimics = false) :
    let start := launch config script plugins pingStart
    let w := start.course past
    (w.pingers.length ≤ 1 ∧ (w.pingers ≠ [] → w.supervisor.status.state = .online)) ∧
    w.ping.sentAt.isSome = w.ping.sentValue.isSome ∧
    Pulse.Paired (start.pulsed past) ∧
    ∀ o, ((w.undergo o).ping.measured ≠ w.ping.measured → w.measures o) ∧
      (w.measures o → ∃ id i sent name answer earlier before later, o = .go id ∧
        (w.undergo o).ping = ⟨none, none, some ⟨w.now.nanos - sent.nanos⟩⟩ ∧
        (start.pulsed past).getLast? = some (.ping sent (answer.getD Ping.noValue)) ∧
        past = earlier ++ before :: later ∧ (id, i) ∈ (start.course earlier).accepts before ∧
        i.2 = .itemState name answer ∧
        (start.course earlier).Airs before ("items/" ++ config.ping.item) i.2) := by
  intro start w
  have hsound : start.Sound := sound_launch
  have hfirst : Beating [] start := beating_launch config script plugins pingStart
  obtain ⟨hcounted, hnone⟩ : start.Counted ∧ start.pending = [] :=
    counted_launch config script plugins pingStart
  have hdevoted : start.registry.Devoted config.ping.item :=
    devoted_launch config script plugins pingStart
  have hw : w.Sound := hsound.run (run_course hsound.tidy past)
  have hbeating : Beating (start.pulsed past) w :=
    beating_course config script plugins pingStart past
  clear_value start
  obtain ⟨hone, hup⟩ := hbeating.pingers hw.tidy
  refine ⟨⟨hone, fun hne => Supervisor.isOnline_iff.1 (hup hne)⟩, hbeating.isSome_eq,
    hbeating.paired, fun o => ⟨hbeating.measures_of_ne hw, fun hm => ?_⟩⟩
  obtain ⟨id, j, sent, name, answer, rfl, hj, hd, he, hlast, hping⟩ := hbeating.of_measures hw hm
  obtain ⟨earlier, before, later, hpast, hmem, hairs⟩ :=
    exists_airs_of_echo hfirst hsound hcounted hnone hdevoted hstar hown hj hd
  exact ⟨id, j.invocation, sent, name, answer, earlier, before, later, rfl, hping, hlast, hpast,
    hmem, he, hairs⟩

end

/-- A bridge whose only plugin is that of the pings. -/
def pinging : World :=
  launch { connection := { url := "http://demo" }, ping := { item := "Ping" } } demoScript [.ping]
    ⟨0⟩

/-- The bridge connects and sends its first ping, and the echo is published. -/
def roundTrip : List Occurrence :=
  [.go supervisorId, .go 1, .go 1, .go supervisorId, .go supervisorId, .go 3, .step .echoPing,
    .clock 25]

/-- The callback that is accepted for the echo measures 25 milliseconds. -/
theorem measured_of_course_demo :
    '*' ∉ "Ping".toList ∧ (∀ o ∈ roundTrip, o.mimics = false) ∧
    (pinging.course roundTrip).pingers.length = 1 ∧
    (pinging.course roundTrip).supervisor.status.state = .online ∧
    ((pinging.course roundTrip).undergo (.go 4)).ping.measured = some ⟨25000000⟩ ∧
    ∃ name answer earlier before later, roundTrip = earlier ++ before :: later ∧
      (pinging.course earlier).Airs before "items/Ping" (.itemState name answer) := by
  have hstar : '*' ∉ "Ping".toList := by decide
  have hown : ∀ o ∈ roundTrip, o.mimics = false := by decide +kernel
  have hpinging : launch { connection := { url := "http://demo" }, ping := { item := "Ping" } }
    demoScript [.ping] ⟨0⟩ = pinging := rfl
  have hcourse := measured_of_course
    { connection := { url := "http://demo" }, ping := { item := "Ping" } } demoScript [.ping] ⟨0⟩
    hstar roundTrip hown
  rw [hpinging] at hcourse
  obtain ⟨⟨-, hup⟩, -, -, hmeasures⟩ := hcourse
  have hone : (pinging.course roundTrip).pingers.length = 1 := by decide +kernel
  have honline := hup (List.ne_nil_of_length_pos (by omega))
  obtain ⟨_, i, _, name, answer, earlier, before, later, -, -, -, hpast, -, hi, hairs⟩ :=
    (hmeasures (.go 4)).2 (by decide +kernel)
  exact ⟨hstar, hown, hone, honline, by decide +kernel, name, answer, earlier, before, later, hpast,
    hi ▸ hairs⟩

end World

end Bridge

end PeerLink
