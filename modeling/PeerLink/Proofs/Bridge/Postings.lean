import PeerLink.Proofs.Bridge.Pulse
import PeerLink.Proofs.Bridge.Restart
import PeerLink.Proofs.Bridge.Snapshot
import PeerLink.Proofs.Bridge.Writes
/-!
# The requests of pings

A ping is recorded when the pinger is polled, whatever becomes of its request. So a measurement
refers to an earlier poll of the pinger, in the same session and with the same value. The request is
sent at this poll, unless the bridge only listens.

## Main statements

* `World.sends_of_beats`: what is sent when the pinger sends a ping.
* `World.exists_of_getLast?_pulsed`: the occurrence of the last ping on a course.
* `World.supervisor_course_of_pulsed`: the supervisor stays while there are no pulses.
* `World.posted_of_course`: what was sent for the ping that is measured.
-/

namespace PeerLink

open Transport Connection

/-! ## What a request sends -/

/-- While the connection is up, a request that writes is sent unless the view is read only. -/
theorem Connection.ClientView.outgoing?_of_isOnline {v : ClientView} {session : Session}
    {r : Request} (hc : v.closed = false) (hs : v.session = some session)
    (ho : v.status.isOnline) (hm : r.method.isMutating) :
    v.outgoing? r = if v.status.readOnly then none else some (session.outgoing r) := by
  unfold outgoing? ClientView.admit
  cases hr : v.status.readOnly <;> simp [hc, hs, hm, Status.acceptsWrites, ho, hr]

/-- A command after which the connection is still up leaves the supervisor. -/
theorem Connection.Supervisor.Turn.eq_of_isOnline {s s' : Supervisor}
    {opened : Except Failure Unit} {c : Command} {es : List Effect} (h : s.Turn opened c s' es)
    (ho : s.isOnline) (ho' : s'.isOnline) : s' = s := by
  cases h with
  | stale | unmoved => rfl
  | tries hno | connects hno | retries hno | jams hno => exact absurd ho hno
  | loses | ends | detaches | joins | balks | stops => simp at ho'

namespace Bridge.World

variable {w : World} {o : Occurrence} {id : Nat}

/-- A poll of the pinger that sends a ping sends what its request sends. -/
theorem sends_of_beats {phase : PingPhase} (hid : id ≠ supervisorId)
    (ht : w.task? id = some (.pinger phase)) (hb : w.beats phase) :
    w.sends (.go id) = (w.supervisor.view.outgoing?
      (.postUpdate w.pingConfig.item (w.ping.beat w.now).2)).toList := by
  have hpoll : w.undergo (.go id) = w.beat id := by
    have hundergo : w.undergo (.go id) = w.pollPinger id phase := by
      simp [undergo, hid, poll, ht]
    rw [hundergo]
    cases phase with
    | planned => simp_all [pollPinger, beats]
    | sleeping => rfl
    | posting call => simp [beats] at hb
  rw [sends, hpoll, (sends_beat w id).requests, List.drop_left]

/-! ## The last ping -/

theorem pingConfig_course (w : World) (os : List Occurrence) :
    (w.course os).pingConfig = w.pingConfig := by
  induction os generalizing w with
  | nil => rfl
  | cons o os ih => rw [course_cons, ih, pingConfig_undergo]

theorem pulsed_append (w : World) (os more : List Occurrence) :
    w.pulsed (os ++ more) = w.pulsed os ++ (w.course os).pulsed more := by
  induction os generalizing w with
  | nil => rfl
  | cons o os ih => rw [List.cons_append, pulsed, pulsed, ih, List.append_assoc, course_cons]

/-- A ping is sent at a poll of the pinger only. -/
theorem of_mem_pings {sent : Span} {value : String} (h : .ping sent value ∈ w.pings o) :
    ∃ id phase, o = .go id ∧ id ≠ supervisorId ∧ w.task? id = some (.pinger phase) ∧
      w.beats phase ∧ w.pings o = [.ping sent value] ∧ sent = w.now ∧
      value = (w.ping.beat w.now).2 := by
  unfold pings at h ⊢
  split at h
  next id =>
    split at h
    next phase ht =>
      split at h
      next hbeats =>
        obtain ⟨rfl, rfl⟩ := Pulse.ping.inj (List.mem_singleton.1 h)
        exact ⟨id, phase, rfl, hbeats.1, ht, hbeats.2, if_pos hbeats, rfl, rfl⟩
      · cases h
    · cases h
  · cases h

/-- If the last pulse of an occurrence is a ping, it is the only one. -/
theorem pulses_of_getLast? {sent : Span} {value : String}
    (h : (w.pulses o).getLast? = some (.ping sent value)) :
    w.pulses o = w.pings o ∧ .ping sent value ∈ w.pings o := by
  unfold pulses at h ⊢
  rcases List.eq_nil_or_concat ((w.takes o).flatMap Handled.hooks) with hnone | ⟨hooks, hook, hedge⟩
  · rw [hnone, List.map_nil, List.append_nil] at h ⊢
    split at h
    · cases h
    next hm => exact ⟨if_neg hm, List.mem_of_getLast? h⟩
  · simp [hedge] at h

/-- If the last pulse of a course is a ping, there is the occurrence at which it was sent, with no
pulses after it. -/
theorem exists_of_getLast?_pulsed {sent : Span} {value : String} {past : List Occurrence}
    (h : (w.pulsed past).getLast? = some (.ping sent value)) :
    ∃ earlier o later, past = earlier ++ o :: later ∧
      ((w.course earlier).pulses o).getLast? = some (.ping sent value) ∧
      ((w.course earlier).undergo o).pulsed later = [] := by
  induction past using List.reverseRecOn with
  | nil => cases h
  | append_singleton past o ih =>
    have hlast : (w.course past).pulsed [o] = (w.course past).pulses o := List.append_nil _
    rw [pulsed_append, hlast] at h
    by_cases hnone : (w.course past).pulses o = []
    · rw [hnone, List.append_nil] at h
      obtain ⟨earlier, o', later, rfl, hping, hlater⟩ := ih h
      refine ⟨earlier, o', later ++ [o], by simp, hping, ?_⟩
      rw [course_append, course_cons] at hlast hnone
      rw [pulsed_append, hlater, List.nil_append, hlast, hnone]
    · rw [List.getLast?_append_of_ne_nil _ hnone] at h
      exact ⟨past, o, [], rfl, h, rfl⟩

/-! ## The session of a ping -/

/-- While the connection is up, an occurrence without a loss leaves the supervisor. -/
theorem supervisor_undergo_of_pulses (ht : w.Tended) (hs : w.Sound) (hup : w.supervisor.isOnline)
    (hkept : ∀ hook, .edge hook ∉ w.pulses o) : (w.undergo o).supervisor = w.supervisor := by
  by_cases ho : o = .go supervisorId
  · subst ho
    have hnone : w.upcoming.flatMap Handled.hooks = [] := by
      refine List.eq_nil_iff_forall_not_mem.2 fun hook hmem => hkept hook ?_
      rw [pulses_supervisor ht hs]
      exact List.mem_map_of_mem hmem
    rw [undergo_supervisor]
    rcases hs.regular_or (.command w) with ⟨-, hsame⟩ | ⟨d, -, hd, rfl, hafter⟩
    · exact hsame
    · have hstill := Supervisor.eq_of_edge_eq_nil (hs.hooks_upcoming.symm.trans hnone)
      rw [← hafter] at hstill ⊢
      exact hd.turn.eq_of_isOnline hup (hstill.trans hup)
  · exact supervisor_undergo ho

theorem supervisor_course_of_pulsed {pulses : List Pulse} {os : List Occurrence}
    (h : Beating pulses w) (hs : w.Sound) (hup : w.supervisor.isOnline)
    (hkept : ∀ hook, .edge hook ∉ w.pulsed os) : (w.course os).supervisor = w.supervisor := by
  induction os generalizing w pulses with
  | nil => rfl
  | cons o os ih =>
    have hsame := supervisor_undergo_of_pulses h.tended hs hup fun hook hmem =>
      hkept hook (List.mem_append_left _ hmem)
    have hnext : Beating (pulses ++ w.pulsed [o]) (w.undergo o) := h.course hs [o]
    have hrest := ih hnext (hs.run (run_undergo hs.tidy o)) (hsame ▸ hup) fun hook hmem =>
      hkept hook (List.mem_append_right _ hmem)
    rw [course_cons, hrest, hsame]

/-- A ping is sent only while the connection is up. -/
theorem Beating.isOnline_of_pings {pulses : List Pulse} {sent : Span} {value : String}
    (h : Beating pulses w) (hp : .ping sent value ∈ w.pings o) : w.supervisor.isOnline := by
  obtain ⟨id, phase, -, -, ht, -⟩ := of_mem_pings hp
  exact (h.up (by rw [h.tended id phase (mem_of_task? ht)]; rfl)).1

/-- A measurement refers to an earlier poll of the pinger in the same session. -/
theorem Beating.exists_of_measures {start : World} {past : List Occurrence}
    (h : Beating [] start) (hs : start.Sound) (hm : (start.course past).measures o) :
    ∃ id j name answer earlier before later, o = .go id ∧ (id, j) ∈ (start.course past).jobs ∧
      j.event = .itemState name answer ∧ past = earlier ++ before :: later ∧
      .ping (start.course earlier).now (answer.getD Ping.noValue) ∈
        (start.course earlier).pings before ∧
      (start.course earlier).pulses before =
        [.ping (start.course earlier).now (answer.getD Ping.noValue)] ∧
      ((start.course earlier).undergo before).pulsed later = [] ∧
      ((start.course past).undergo o).ping.measured =
        some ⟨(start.course past).now.nanos - (start.course earlier).now.nanos⟩ ∧
      (start.course past).supervisor = (start.course earlier).supervisor := by
  have hbeating (os : List Occurrence) : Beating (start.pulsed os) (start.course os) :=
    h.course hs os
  have hsound (os : List Occurrence) : (start.course os).Sound :=
    hs.run (run_course hs.tidy os)
  obtain ⟨id, j, sent, name, answer, rfl, hj, -, he, hlast, hping⟩ :=
    (hbeating past).of_measures (hsound past) hm
  obtain ⟨earlier, before, later, rfl, hbefore, hlater⟩ := exists_of_getLast?_pulsed hlast
  obtain ⟨hpulses, hpings⟩ := pulses_of_getLast? hbefore
  obtain ⟨_, _, -, -, -, -, hone, rfl, -⟩ := of_mem_pings hpings
  rw [hone] at hpulses
  refine ⟨id, j, name, answer, earlier, before, later, rfl, hj, he, rfl, hpings, hpulses, hlater,
    by rw [hping], ?_⟩
  -- neither the ping itself nor anything after it is a loss of the connection
  have hkept : ∀ hook, .edge hook ∉ (start.course earlier).pulsed (before :: later) := by
    intro hook
    rw [pulsed, hpulses, hlater]
    simp
  rw [course_append]
  exact supervisor_course_of_pulsed (hbeating earlier) (hsound earlier)
    ((hbeating earlier).isOnline_of_pings hpings) hkept

/-! ## The bridge -/

section

variable (config : Config) (script : Peer.Script) (plugins : List Plugin) (pingStart : Span)

/-- The settings of the pings and `readOnly` stay on every course. -/
theorem settings_course (os : List Occurrence) :
    let w := (launch config script plugins pingStart).course os
    w.pingConfig = config.ping ∧ w.supervisor.view.status.readOnly = config.general.listenOnly := by
  obtain ⟨_, _, _, hlaunch⟩ := launch_spec config script plugins pingStart
  have hview := (view_of_run sound_launch
    (run_course (tidy_launch config script plugins pingStart) os)).2
  intro w
  rw [Supervisor.status, Supervisor.status] at hview
  rw [pingConfig_course, hview, hlaunch]
  exact ⟨rfl, rfl⟩

/-- A poll of the pinger that sends a ping sends the update of its item, or nothing if the bridge
only listens. -/
theorem sends_of_pings {past : List Occurrence} {sent : Span} {value : String}
    (h : .ping sent value ∈ ((launch config script plugins pingStart).course past).pings o) :
    let w := (launch config script plugins pingStart).course past
    w.supervisor.status.state = .online ∧ ∃ session, w.supervisor.view.session = some session ∧
      w.sends o = if config.general.listenOnly then []
        else [session.outgoing (.postUpdate config.ping.item value)] := by
  have hrun := run_course (tidy_launch config script plugins pingStart) past
  have hup := (beating_course config script plugins pingStart past).isOnline_of_pings h
  have hserving := (sound_launch.run hrun).serving hup
  obtain ⟨hping, hread⟩ := settings_course config script plugins pingStart past
  obtain ⟨id, phase, rfl, hid, ht, hb, -, -, rfl⟩ := of_mem_pings h
  intro w
  obtain ⟨session, hsession⟩ := Option.isSome_iff_exists.1 hserving.session
  refine ⟨hserving.state, session, hsession, ?_⟩
  rw [sends_of_beats hid ht hb,
    ClientView.outgoing?_of_isOnline (closed_of_alive hrun hserving.alive) hsession hup rfl, hping,
    hread]
  cases config.general.listenOnly <;> rfl

/-- On every course of the bridge, the last measurement changes only at an occurrence that measures
a round trip. There the callback of the echoes is performed with the state of an item, a missing one
standing for no value, and this is the value of a ping of an earlier occurrence. There are no pulses
in between, the connection is up, and the supervisor is the same as at that occurrence, with the
same session. The time is measured from that occurrence. What was sent at it is the update of the
item with that value, to the server of the session, or nothing if the bridge only listens. -/
theorem posted_of_course (past : List Occurrence) (o : Occurrence) :
    let start := launch config script plugins pingStart
    let w := start.course past
    ((w.undergo o).ping.measured ≠ w.ping.measured → w.measures o) ∧
    (w.measures o → ∃ id j name answer earlier before later session,
      o = .go id ∧ (id, j) ∈ w.jobs ∧ j.event = .itemState name answer ∧
      past = earlier ++ before :: later ∧
      (start.course earlier).pulses before =
        [.ping (start.course earlier).now (answer.getD Ping.noValue)] ∧
      ((start.course earlier).undergo before).pulsed later = [] ∧
      (w.undergo o).ping.measured = some ⟨w.now.nanos - (start.course earlier).now.nanos⟩ ∧
      w.supervisor.status.state = .online ∧ w.supervisor = (start.course earlier).supervisor ∧
      w.supervisor.view.session = some session ∧
      (start.course earlier).sends before = if config.general.listenOnly then []
        else [session.outgoing (.postUpdate config.ping.item (answer.getD Ping.noValue))]) := by
  intro start w
  have hbeating := beating_course config script plugins pingStart past
  have hsound := sound_launch.run (run_course (tidy_launch config script plugins pingStart) past)
  refine ⟨hbeating.measures_of_ne hsound, fun hm => ?_⟩
  obtain ⟨id, j, name, answer, earlier, before, later, ho, hj, he, hpast, hpings, hpulses, hlater,
    hmeasured, hsame⟩ :=
    (beating_launch config script plugins pingStart).exists_of_measures sound_launch hm
  obtain ⟨hup, session, hsession, hsends⟩ :=
    sends_of_pings config script plugins pingStart hpings
  exact ⟨id, j, name, answer, earlier, before, later, session, ho, hj, he, hpast, hpulses, hlater,
    hmeasured, hsame ▸ hup, hsame, hsame ▸ hsession, hsends⟩

end

/-- The measured echo is that of an update that was sent. -/
theorem posted_of_course_demo :
    (pinging.course roundTrip).measures (.go 4) ∧
    (pinging.sent roundTrip).filter (·.method.isMutating) =
      [⟨.put, "http://demo/rest/items/Ping/state", [("Content-Type", "text/plain")],
        some "NULL"⟩] ∧
    ∃ (answer : Option String) (earlier : List Occurrence) (before : Occurrence)
      (later : List Occurrence) (session : Session), roundTrip = earlier ++ before :: later ∧
      ((pinging.course earlier).undergo before).pulsed later = [] ∧
      (pinging.course roundTrip).supervisor.view.session = some session ∧
      (pinging.course earlier).sends before =
        [session.outgoing (.postUpdate "Ping" (answer.getD Ping.noValue))] := by
  have hm : (pinging.course roundTrip).measures (.go 4) := by decide +kernel
  have hpinging : launch { connection := { url := "http://demo" }, ping := { item := "Ping" } }
    demoScript [.ping] ⟨0⟩ = pinging := rfl
  have hcourse := posted_of_course
    { connection := { url := "http://demo" }, ping := { item := "Ping" } } demoScript [.ping] ⟨0⟩
    roundTrip (.go 4)
  rw [hpinging] at hcourse
  obtain ⟨_, _, _, answer, earlier, before, later, session, -, -, -, hpast, -, hlater, -, -, -,
    hsession, hsends⟩ := hcourse.2 hm
  exact ⟨hm, by decide +kernel, answer, earlier, before, later, session, hpast, hlater, hsession,
    hsends⟩

/-- The bridge `pinging`, if it only listens. -/
def listening : World :=
  launch
    { general := { listenOnly := true }, connection := { url := "http://demo" },
      ping := { item := "Ping" } }
    demoScript [.ping] ⟨0⟩

/-- A state that is no echo is measured. The bridge only listens and sends nothing. A missing state
of the item is published just before a ping, and the callback is polled just after it. -/
theorem measures_of_foreign_state :
    let connected : List Occurrence :=
      [.go supervisorId, .go 1, .go 1, .go supervisorId, .go supervisorId]
    let foreign : Occurrence := .step (.publish "items/Ping" (.itemState "Ping" none))
    let unsent := connected ++ [.go 3, foreign, .clock 25]
    let early := connected ++ [foreign, .go 3, .clock 25]
    ((listening.course unsent).measures (.go 4) ∧
      (listening.sent unsent).filter (·.method.isMutating) = []) ∧
    (pinging.course early).measures (.go 4) ∧
      (pinging.sent (connected ++ [foreign])).filter (·.method.isMutating) = [] := by
  decide +kernel

end Bridge.World

end PeerLink
