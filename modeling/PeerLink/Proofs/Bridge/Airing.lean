import PeerLink.Proofs.Bridge.Accounts
import PeerLink.Proofs.Bridge.Sound
import PeerLink.Proofs.Bridge.Stream
import PeerLink.Proofs.Bridge.Workers
/-!
# The events that are published

An event is published from outside, as the echo of a ping, by the reader, by a deed, or as the
failure of a callback. Each accepted callback belongs to a listener that accepts an event published
at the same occurrence. The same induction on the operations of a turn gives the ping and the pinger
after it, so `World.Stems` states both.

## Main definitions

* `World.Airs`: an event is published on a topic at an occurrence.
* `World.Stems`: the world after a turn in which certain events are published.
* `World.Told`: the effect of a hook on the ping and the pinger.
* `World.Tended`: the only pinger is `w.pinger`.

## Main statements

* `World.Tended.undergo`, `World.Tended.takeCommand`: the ping, the pinger and the tasks after an
  occurrence.
* `World.Tended.airs_of_mem_accepts`: callbacks are accepted only for events that are published.
-/

namespace PeerLink

open Transport Connection

/-! ## Events -/

/-- The events that acts publish before one of them stops the reader. -/
def Connection.Feed.aired : List Feed.Act → List (String × Event)
  | [] => []
  | .publish topic e :: rest => (topic, e) :: aired rest
  | .log _ :: rest => aired rest
  | .stop _ :: _ => []

theorem Connection.Feed.aired_append {acts : List Feed.Act} (h : ∀ a ∈ acts, a.GoesOn)
    (more : List Feed.Act) : aired (acts ++ more) = aired acts ++ aired more := by
  induction acts with
  | nil => rfl
  | cons a rest ih =>
    have ih := ih fun b hb => h b (List.mem_cons_of_mem _ hb)
    cases a with
    | log l => exact ih
    | publish topic e => exact congrArg (List.cons (topic, e)) ih
    | stop e => exact (h _ List.mem_cons_self).elim

theorem Connection.Feed.mem_aired_append {acts : List Feed.Act} {e : String × Event}
    (h : e ∈ aired acts) (more : List Feed.Act) : e ∈ aired (acts ++ more) := by
  induction acts with
  | nil => cases h
  | cons a rest ih =>
    cases a with
    | log l => exact ih h
    | publish topic e' =>
      rcases List.mem_cons.1 h with rfl | h
      · exact List.mem_cons_self
      · exact List.mem_cons_of_mem _ (ih h)
    | stop e' => cases h

namespace Bridge

/-- The acts of a reader for the pieces that have arrived. -/
def pieceActs (read : Feed.EventReader) (l : TopicLayout) : Sse.Decoder → List Piece → List Feed.Act
  | _, [] => []
  | d, .chunk bytes :: rest =>
    Feed.acts read l (d.feed bytes).2 ++ pieceActs read l (d.feed bytes).1 rest
  | d, .failure cause :: _ => Feed.acts read l (d.fail cause)
  | d, .ended :: _ => Feed.acts read l d.finish ++ [.stop .closed]

/-- The ping after the deed of a job. -/
def Job.pinged (j : Job) (p : Ping) (now : Span) : Ping :=
  match j.callback.deed with
  | .echo => p.take now j.event
  | _ => p

namespace World

/-- The events that `t` publishes when it takes the pieces that have arrived. -/
def readings (w : World) (t : ReaderTask) : List (String × Event) :=
  Feed.aired (pieceActs w.eventReader t.layout t.decoder (w.arrived t))

/-- The world and the reader after `t` has asked for the stream. -/
def subscribed (w : World) (t : ReaderTask) : World × ReaderTask :=
  let out := Feed.outgoing t.session t.layout
  let asked := { w with script := (w.script.openStream out).2 }.observe out
  match (w.script.openStream out).1 with
  | .ok body =>
    let pieces := body.chunks.map Piece.chunk ++ if body.held then [] else [Piece.ended]
    ({ asked with
        streams := asked.streams ++ [⟨asked.nextStream, pieces⟩]
        nextStream := asked.nextStream + 1 },
      { t with stream := some asked.nextStream })
  | .error _ => (asked, t)

/-- Whether `t` gets the stream at once. -/
def subscribes (w : World) (t : ReaderTask) : Bool :=
  (w.script.openStream (Feed.outgoing t.session t.layout)).1.isOk &&
    (w.subscribed t).1.delayOf (Feed.outgoing t.session t.layout).url = 0

/-- The events that `t` publishes when it is polled. -/
def hears (w : World) (t : ReaderTask) : List (String × Event) :=
  match t.phase with
  | .planned => if w.subscribes t then (w.subscribed t).1.readings (w.subscribed t).2 else []
  | .opening answer => if answer.isOk then w.readings t else []
  | .reading => w.readings t

/-- An event is published on a topic at an occurrence: from outside, as the echo of a ping, by the
reader, by a deed, or as the failure of a callback. -/
inductive Airs (w : World) : Occurrence → String → Event → Prop where
  | outside (topic : String) (e : Event) : Airs w (.step (.publish topic e)) topic e
  | echo : Airs w (.step .echoPing) (Event.itemState w.pingConfig.item w.lastValue).topic
      (.itemState w.pingConfig.item w.lastValue)
  | read {id : Nat} {t : ReaderTask} {topic : String} {e : Event} (hid : id ≠ supervisorId)
      (ht : w.task? id = some (.reader t)) (h : (topic, e) ∈ w.hears t) : Airs w (.go id) topic e
  | deed {id : Nat} {j : Job} {topic : String} {e : Event} (hid : id ≠ supervisorId)
      (ht : w.task? id = some (.job j)) (hp : w.performs j)
      (hd : j.callback.deed = .publish topic e) : Airs w (.go id) topic e
  | failure {id : Nat} {j : Job} {v : World} {f : CallbackFailure} (hid : id ≠ supervisorId)
      (ht : w.task? id = some (.job j)) (hc : j.Concludes w v (some f))
      (he : j.event.isError = false) : Airs w (.go id) Event.errorTopic f.event

/-- Whether a pinger sends a ping when it is polled. -/
def beats (w : World) : PingPhase → Bool
  | .planned => w.pingStart.millisUp = 0
  | .sleeping => true
  | .posting _ => false

/-! ## Turns -/

/-- The invocation `i` with the number `id` was pending in `u`, or it is new and belongs to a
listener that accepts one of `airs`. -/
def Licenses (u : World) (airs : String → Event → Prop) (id : Nat) (i : Invocation) : Prop :=
  (id, i) ∈ u.pending ∨
    u.nextTask ≤ id ∧ ∃ topic, airs topic i.2 ∧
      ∃ l ∈ u.registry.accepting topic i.2, l.callback = i.1

/-- A task that may stand in a world after `u`: jobs are licensed, and the only pinger has the
number `n`. -/
def Suits (u : World) (airs : String → Event → Prop) (n : Option Nat) (id : Nat) : Task → Prop
  | .job j => u.Licenses airs id j.invocation
  | .pinger _ => n = some id
  | .attempt _ | .reader _ | .errand _ => True

/-- From `u` to `w` only events of `airs` are published. The number of the pinger is `n` afterwards,
and the ping is `p`. -/
structure Stems (u : World) (airs : String → Event → Prop) (n : Option Nat) (p : Ping)
    (w : World) : Prop where
  registry : w.registry = u.registry
  plugins : w.plugins = u.plugins
  eventReader : w.eventReader = u.eventReader
  clock : w.clock = u.clock
  nextTask : u.nextTask ≤ w.nextTask
  ping : w.ping = p
  pinger : w.pinger = n
  tasks : ∀ e ∈ w.tasks, u.Suits airs n e.1 e.2

/-- The number of the pinger and the ping after a hook has been called. -/
inductive Told (plugins : List Plugin) (n : Option Nat) (p : Ping) :
    Hook → Option Nat → Ping → Prop where
  | still {hook : Hook} (h : hook = .disconnect → .ping ∉ plugins) : Told plugins n p hook n p
  | starts (id : Nat) (h : .ping ∈ plugins) : Told plugins n p .connect (some id) p.stop
  | stops (h : .ping ∈ plugins) : Told plugins n p .disconnect none p.stop

section

variable {u : World} {airs : String → Event → Prop} {n : Option Nat} {id : Nat}

@[grind =]
theorem suits_pinger {phase : PingPhase} : u.Suits airs n id (.pinger phase) ↔ n = some id := .rfl

@[grind .]
theorem suits_attempt (t : AttemptTask) : u.Suits airs n id (.attempt t) := trivial

@[grind .]
theorem suits_reader (t : ReaderTask) : u.Suits airs n id (.reader t) := trivial

@[grind .]
theorem suits_errand (t : Errand) : u.Suits airs n id (.errand t) := trivial

/-- A task that has not the number of the pinger is no pinger. -/
theorem Suits.of_ne {t : Task} (h : u.Suits airs n id t) (hne : n ≠ some id) (n' : Option Nat) :
    u.Suits airs n' id t := by
  cases t with
  | pinger phase => exact absurd h hne
  | _ => exact h

end

section

variable {plugins more : List Plugin} {n n' n'' : Option Nat} {p p' p'' : Ping} {hook : Hook}

theorem Told.append (h : Told plugins n p hook n' p') (g : Told more n' p' hook n'' p'') :
    Told (plugins ++ more) n p hook n'' p'' := by
  cases h with
  | still hnot =>
    cases g with
    | still hnot' => exact .still fun hd => by simp [hnot hd, hnot' hd]
    | starts id hm => exact .starts id (List.mem_append_right _ hm)
    | stops hm => exact .stops (List.mem_append_right _ hm)
  | starts id hm =>
    have hm := List.mem_append_left more hm
    cases g with
    | still => exact .starts id hm
    | starts id' => exact .starts id' hm
  | stops hm =>
    have hm := List.mem_append_left more hm
    cases g with
    | still => exact .stops hm
    | stops => exact .stops hm

end

theorem openStream_eq (w : World) (id : Nat) (t : ReaderTask) :
    let out := Feed.outgoing t.session t.layout
    let answer := (w.script.openStream out).1.map fun _ => ()
    let ms := (w.subscribed t).1.delayOf out.url
    w.openStream id t =
      if ms = 0 then (w.subscribed t).1.takeStream id (w.subscribed t).2 answer
      else (w.subscribed t).1.sleep id ms
        (.reader { (w.subscribed t).2 with phase := .opening answer }) := by
  unfold openStream subscribed
  cases w.script.openStream (Feed.outgoing t.session t.layout) with
  | mk answer script =>
    cases answer <;>
    · dsimp only
      split
      next hms => exact (if_pos hms).symm
      next hms => exact (if_neg hms).symm

theorem isOk_map {ε α β : Type} (x : Except ε α) (f : α → β) : (x.map f).isOk = x.isOk := by
  cases x <;> rfl

namespace Stems

variable {u w : World} {airs : String → Event → Prop} {n : Option Nat} {p : Ping} {id : Nat}

/-! ## Operations on tasks -/

/-- The fields that `Stems` depends on stay. -/
theorem still {w' : World} (h : Stems u airs n p w) (hr : w'.registry = w.registry)
    (hl : w'.plugins = w.plugins) (he : w'.eventReader = w.eventReader) (hc : w'.clock = w.clock)
    (hn : w'.nextTask = w.nextTask) (hping : w'.ping = w.ping) (hp : w'.pinger = w.pinger)
    (ht : w'.tasks = w.tasks) : Stems u airs n p w' :=
  ⟨hr.trans h.registry, hl.trans h.plugins, he.trans h.eventReader, hc.trans h.clock,
    hn ▸ h.nextTask, hping.trans h.ping, hp.trans h.pinger, ht ▸ h.tasks⟩

@[grind .]
theorem log (h : Stems u airs n p w) (l : LogLine) : Stems u airs n p (w.log l) :=
  h.still rfl rfl rfl rfl rfl rfl rfl rfl

@[grind .]
theorem logJob (h : Stems u airs n p w) (l : LogLine) : Stems u airs n p (w.logJob l) :=
  h.still rfl rfl rfl rfl rfl rfl rfl rfl

@[grind .]
theorem observe (h : Stems u airs n p w) (out : Outgoing) :
    Stems u airs n p (w.observe out) :=
  h.still rfl rfl rfl rfl rfl rfl rfl rfl

@[grind .]
theorem setTask (h : Stems u airs n p w) {t : Task} (ht : u.Suits airs n id t) :
    Stems u airs n p (w.setTask id t) := by
  refine ⟨h.registry, h.plugins, h.eventReader, h.clock, h.nextTask, h.ping, h.pinger, ?_⟩
  intro e he
  obtain ⟨e', he', rfl⟩ := List.mem_map.1 he
  split
  · exact ht
  · exact h.tasks e' he'

@[grind .]
theorem sleep (h : Stems u airs n p w) {t : Task} (ht : u.Suits airs n id t) (ms : Nat) :
    Stems u airs n p (w.sleep id ms t) :=
  (h.setTask ht).still rfl rfl rfl rfl rfl rfl rfl rfl

@[grind .]
theorem wake (h : Stems u airs n p w) (id : Nat) : Stems u airs n p (w.wake id) := by
  obtain ⟨_, heq⟩ := wake_eq w id
  rw [heq]
  exact h.still rfl rfl rfl rfl rfl rfl rfl rfl

@[grind .]
theorem endTask (h : Stems u airs n p w) (id : Nat) : Stems u airs n p (w.endTask id) :=
  ⟨h.registry, h.plugins, h.eventReader, h.clock, h.nextTask, h.ping, h.pinger,
    fun e he => h.tasks e (List.mem_of_mem_filter he)⟩

theorem spawn (h : Stems u airs n p w) {t : Task} (ht : u.Suits airs n w.nextTask t) :
    Stems u airs n p (w.spawn t).1 := by
  refine ⟨h.registry, h.plugins, h.eventReader, h.clock, Nat.le_succ_of_le h.nextTask, h.ping,
    h.pinger, ?_⟩
  intro e he
  rcases List.mem_append.1 he with he | he
  · exact h.tasks e he
  · obtain rfl := List.mem_singleton.1 he
    exact ht

@[grind .]
theorem send (h : Stems u airs n p w) (c : Command) : Stems u airs n p (w.send c).1 := by
  have hqueue : Stems u airs n p { w with commands := w.commands ++ [c] } :=
    h.still rfl rfl rfl rfl rfl rfl rfl rfl
  grind [World.send]

@[grind .]
theorem finishCall (h : Stems u airs n p w) (call : Call) :
    Stems u airs n p (w.finishCall call).1 := by
  grind [World.finishCall]

@[grind .]
theorem begin (h : Stems u airs n p w) (r : Request) : Stems u airs n p (w.begin r).1 := by
  have hsent (script : Peer.Script) : Stems u airs n p { w with script } :=
    h.still rfl rfl rfl rfl rfl rfl rfl rfl
  grind [World.begin]

/-- Publishing an event of `airs` submits jobs that are licensed. -/
@[grind .]
theorem publish (h : Stems u airs n p w) {topic : String} {e : Event} (ha : airs topic e) :
    Stems u airs n p (w.publish topic e).1 := by
  rw [publish_eq]
  refine ⟨h.registry, h.plugins, h.eventReader, h.clock,
    Nat.le_trans h.nextTask (Nat.le_add_right _ _), h.ping, h.pinger, ?_⟩
  intro x hx
  rcases List.mem_append.1 hx with hx | hx
  · exact h.tasks x hx
  · obtain ⟨⟨l, id⟩, hl, rfl⟩ := List.mem_map.1 hx
    have hheard := List.mem_filter.1 (List.fst_mem_of_mem_zipIdx hl)
    have hle := (List.mem_zipIdx hl).1
    refine .inr ⟨Nat.le_trans h.nextTask hle, topic, ha, l, ?_, rfl⟩
    rw [← h.registry]
    exact List.mem_filter.2 ⟨mem_hearing hheard.1, hheard.2⟩

/-! ## Callbacks -/

@[grind .]
theorem deliver (h : Stems u airs n p w) (j : Job) : Stems u airs n p (w.deliver j) := by
  rw [deliver_eq]
  exact h.still rfl rfl rfl rfl rfl rfl rfl rfl

/-- A deed publishes its event, if any, and `echo` changes the ping. -/
theorem perform (h : Stems u airs n p w) {j : Job}
    (hd : ∀ topic e, j.callback.deed = .publish topic e → airs topic e) :
    Stems u airs n (j.pinged p u.now) (w.perform j).1 := by
  unfold World.perform Job.pinged
  cases hdeed : j.callback.deed with
  | succeed | fail | panic => exact h
  | publish topic e => exact h.publish (hd topic e hdeed)
  | echo =>
    have hping : Ping.take w.ping w.now j.event = Ping.take p u.now j.event := by
      rw [World.now, World.now, h.ping, h.clock]
    exact ⟨h.registry, h.plugins, h.eventReader, h.clock, h.nextTask, hping, h.pinger, h.tasks⟩
  | request r => grind

theorem release (h : Stems u airs n p w) : Stems u airs n p w.release := by
  have hfree (free : Nat) (waiting : List Nat) :
      Stems u airs n p { w with executor.free := free, executor.waiting := waiting } :=
    h.still rfl rfl rfl rfl rfl rfl rfl rfl
  unfold World.release
  split
  · exact hfree _ _
  next id _ _ =>
    dsimp only
    split
    next j hj =>
      have hold : u.Suits airs n id (.job j) := h.tasks _ (mem_of_task? hj)
      exact ((hfree _ _).setTask (t := .job { j with phase := .granted }) hold).wake id
    · exact hfree _ _

theorem reportFailure (h : Stems u airs n p w) {j : Job} {f : CallbackFailure}
    (hf : j.event.isError = false → airs Event.errorTopic f.event) :
    Stems u airs n p (w.reportFailure j f) := by
  unfold World.reportFailure
  dsimp only
  obtain ⟨log, hlog⟩ := foldl_logJob f.traceLines
    (w.logJob (.error ("Error in " ++ f.name ++ ": " ++ f.description)))
  have hlogged : Stems u airs n p { w with trace.executorLog := log } :=
    h.still rfl rfl rfl rfl rfl rfl rfl rfl
  rw [hlog]
  split
  · exact hlogged
  next he => exact hlogged.publish (hf (by simpa using he))

theorem endJob (h : Stems u airs n p w) {j : Job} {failure : Option CallbackFailure}
    (hf : ∀ f, failure = some f → j.event.isError = false → airs Event.errorTopic f.event)
    (id : Nat) : Stems u airs n p (w.endJob id j failure) := by
  have hless {v : World} (hv : Stems u airs n p v) (inFlight : Nat) :
      Stems u airs n p (World.endTask { v with executor.inFlight := inFlight } id) :=
    endTask (w := { v with executor.inFlight := inFlight })
      (hv.still rfl rfl rfl rfl rfl rfl rfl rfl) id
  cases failure with
  | none => exact hless h _
  | some f => exact hless (h.reportFailure (hf f rfl)) _

theorem endWork (h : Stems u airs n p w) {j : Job} (hj : u.Licenses airs id j.invocation)
    (failure : Option CallbackFailure) : Stems u airs n p (w.endWork id j failure) := by
  have hend {v : World} (hv : Stems u airs n p v) : Stems u airs n p
      ((v.release.setTask id (.job { j with phase := .returned failure })).wake id) :=
    (hv.release.setTask (t := .job { j with phase := .returned failure }) hj).wake id
  unfold World.endWork
  dsimp only
  split
  · exact hend (h.logJob _)
  · exact hend h

section Jobs

variable {j : Job} (hj : u.Licenses airs id j.invocation)
  (hd : ∀ topic e, j.callback.deed = .publish topic e → airs topic e)

include hj hd

theorem work (h : Stems u airs n p w) : Stems u airs n (j.pinged p u.now) (w.work id j) := by
  have hstarts : Stems u airs n p (if w.executor.slowStart.nanos < instantSpan.nanos then
      w.logJob (.warn ("Starting of " ++ j.callback.name ++ " took too long")) else w) := by
    split
    · exact h.logJob _
    · exact h
  have hdone := (hstarts.deliver j).perform hd
  unfold World.work
  dsimp only
  split
  next heq =>
    rw [heq] at hdone
    exact hdone.endWork hj _
  next heq =>
    rw [heq] at hdone
    exact hdone.sleep (t := .job { j with phase := .asking _ }) hj _

theorem act (h : Stems u airs n p w)
    (hf : ∀ v f, w.perform j = (v, .now (some f)) → j.event.isError = false →
      airs Event.errorTopic f.event) :
    Stems u airs n (j.pinged p u.now) (w.act id j) := by
  have hdone := h.perform hd
  unfold World.act
  split
  next v failure heq =>
    rw [heq] at hdone
    refine hdone.endJob (fun f hsome => ?_) id
    obtain rfl := hsome
    exact hf v f heq
  next heq =>
    rw [heq] at hdone
    exact hdone.sleep (t := .job { j with phase := .asking _ }) hj _

end Jobs

/-- A job publishes the event of its deed when the deed is performed, and its failure when it
ends. -/
theorem pollJob (h : Stems u airs n u.ping u) {j : Job} (hj : u.Licenses airs id j.invocation)
    (hd : u.performs j → ∀ topic e, j.callback.deed = .publish topic e → airs topic e)
    (hf : ∀ v failure, j.Concludes u v failure → ∀ f, failure = some f → j.event.isError = false →
      airs Event.errorTopic f.event) :
    Stems u airs n (if u.performs j then j.pinged u.ping u.now else u.ping)
      (u.pollJob id j) := by
  unfold World.pollJob
  unfold World.performs at hd ⊢
  cases hp : j.phase with
  | submitted =>
    simp only [hp] at hd ⊢
    by_cases ha : j.callback.isAsync
    · by_cases hz : j.callback.delayMs = 0
      · simp only [ha, hz, decide_true, if_true] at hd ⊢
        exact (h.deliver j).act hj (hd trivial) fun v f hv =>
          hf v _ (.atOnce hp ha hz hv) f rfl
      · simp only [ha, hz, decide_false, if_true, if_false]
        exact (h.deliver j).sleep (t := .job { j with phase := .sleeping }) hj _
    · by_cases hz : u.executor.free = 0
      · have hwaits : Stems u airs n u.ping
            { u with executor.waiting := u.executor.waiting ++ [id] } :=
          h.still rfl rfl rfl rfl rfl rfl rfl rfl
        simp only [ha, if_pos hz, Bool.false_eq_true, if_false,
          decide_eq_false (not_not_intro hz)]
        exact hwaits.setTask (t := .job { j with phase := .waiting }) hj
      · have hworks : Stems u airs n u.ping
            { u with executor.free := u.executor.free - 1 } :=
          h.still rfl rfl rfl rfl rfl rfl rfl rfl
        simp only [ha, hz, ne_eq, not_false_eq_true, decide_true, Bool.false_eq_true, if_true,
          if_false] at hd ⊢
        exact hworks.work hj (hd trivial)
  | waiting =>
    simp only [Bool.false_eq_true, if_false]
    exact h
  | granted =>
    simp only [hp] at hd ⊢
    exact h.work hj (hd trivial)
  | sleeping =>
    simp only [hp] at hd ⊢
    exact h.act hj (hd trivial) fun v f hv => hf v _ (.woken hp hv) f rfl
  | asking call =>
    simp only [Bool.false_eq_true, if_false]
    by_cases ha : j.callback.isAsync
    · rw [if_pos ha]
      exact (h.finishCall call).endJob (hf _ _ (.answered hp ha)) id
    · rw [if_neg ha]
      exact (h.finishCall call).endWork hj _
  | returned failure =>
    simp only [Bool.false_eq_true, if_false]
    exact h.endJob (hf _ _ (.returned hp)) id

/-! ## Other tasks -/

section

variable (h : Stems u airs n p w)

include h

theorem afterPing (hn : n = some id) (reply : Reply) :
    Stems u airs n p (w.afterPing id reply) := by
  cases reply <;> grind [World.afterPing]

/-- Sending a ping. -/
theorem beat (hn : n = some id) : Stems u airs n (p.beat u.now).1 (w.beat id) := by
  have hbeat : Ping.beat w.ping w.now = Ping.beat p u.now := by
    rw [World.now, World.now, h.ping, h.clock]
  have hsent : Stems u airs n (p.beat u.now).1 { w with ping := (p.beat u.now).1 } :=
    ⟨h.registry, h.plugins, h.eventReader, h.clock, h.nextTask, rfl, h.pinger, h.tasks⟩
  have hbegun := hsent.begin (.postUpdate w.pingConfig.item (p.beat u.now).2)
  unfold World.beat
  rw [hbeat]
  dsimp only
  split
  next heq =>
    rw [heq] at hbegun
    exact hbegun.afterPing hn _
  next heq =>
    rw [heq] at hbegun
    exact hbegun.sleep (t := .pinger (.posting _)) hn _

@[grind .]
theorem endErrand (id : Nat) (t : Errand) (reply : Reply) :
    Stems u airs n p (w.endErrand id t reply) :=
  endTask (w := { w with trace.finished := w.trace.finished ++ [(t.tag, reply)] })
    (h.still rfl rfl rfl rfl rfl rfl rfl rfl) id

@[grind .]
theorem pollErrand (id : Nat) (t : Errand) : Stems u airs n p (w.pollErrand id t) := by
  grind [World.pollErrand]

@[grind .]
theorem takeRoot (id : Nat) (t : AttemptTask) (uuid : String) (reply : Except Error Response) :
    Stems u airs n p (w.takeRoot id t uuid reply) := by
  unfold World.takeRoot
  dsimp only
  split
  · exact ((h.log _).send _).endTask id
  · exact (h.send _).endTask id

@[grind .]
theorem takeIdentity (id : Nat) (t : AttemptTask) (reply : Except Error Response) :
    Stems u airs n p (w.takeIdentity id t reply) := by
  grind [World.takeIdentity]

@[grind .]
theorem makeAttempt (id : Nat) (t : AttemptTask) :
    Stems u airs n p (w.makeAttempt id t) := by
  grind [World.makeAttempt]

@[grind .]
theorem pollAttempt (id : Nat) (t : AttemptTask) :
    Stems u airs n p (w.pollAttempt id t) := by
  unfold World.pollAttempt
  split
  · split
    · exact h.makeAttempt id t
    · exact h.sleep (t := .attempt _) trivial _
  · exact h.makeAttempt id t
  next call _ => exact (h.finishCall call).takeIdentity id t _
  next uuid call _ => exact (h.finishCall call).takeRoot id t uuid _

@[grind .]
theorem dropStream (t : ReaderTask) : Stems u airs n p (w.dropStream t) := by
  unfold World.dropStream
  split
  · exact h.still rfl rfl rfl rfl rfl rfl rfl rfl
  · exact h

@[grind .]
theorem endReader (id : Nat) (t : ReaderTask) (e : Feed.End) :
    Stems u airs n p (w.endReader id t e) := by
  grind [World.endReader]

end

/-- A pinger that is polled sends a ping or sleeps. -/
theorem pollPinger (h : Stems u airs n u.ping u) (hn : n = some id) (phase : PingPhase) :
    Stems u airs n (if u.beats phase then (u.ping.beat u.now).1 else u.ping)
      (u.pollPinger id phase) := by
  cases phase with
  | planned =>
    by_cases hz : u.pingStart.millisUp = 0
    · simp only [World.pollPinger, beats, hz, decide_true, if_true]
      exact h.beat hn
    · simp only [World.pollPinger, beats, hz, decide_false, Bool.false_eq_true, if_false]
      exact h.sleep (t := .pinger .sleeping) hn _
  | sleeping => exact h.beat hn
  | posting call => exact (h.finishCall call).afterPing hn _

/-! ## The reader -/

theorem takeEvent (h : Stems u airs n p w) {topic : String} {e : Event} (ha : airs topic e) :
    Stems u airs n p (w.takeEvent topic e) :=
  publish (w := { w with items := w.items.apply e })
    (h.still rfl rfl rfl rfl rfl rfl rfl rfl) ha

/-- Acts publish `Feed.aired`. -/
theorem doActs (h : Stems u airs n p w) {acts : List Feed.Act}
    (ha : ∀ e ∈ Feed.aired acts, airs e.1 e.2) : Stems u airs n p (w.doActs acts).1 := by
  fun_induction World.doActs w acts with
  | case1 => exact h
  | case2 w l rest ih => exact ih (h.log l) ha
  | case3 w topic e rest ih =>
    exact ih (h.takeEvent (ha _ List.mem_cons_self)) fun e' he =>
      ha e' (List.mem_cons_of_mem _ he)
  | case4 => exact h

theorem goesOn_of_doActs {acts : List Feed.Act} (h : (w.doActs acts).2 = none) :
    ∀ a ∈ acts, a.GoesOn := by
  fun_induction World.doActs w acts with
  | case1 => exact List.forall_mem_nil _
  | case2 w l rest ih => exact List.forall_mem_cons.2 ⟨trivial, ih h⟩
  | case3 w topic e rest ih => exact List.forall_mem_cons.2 ⟨trivial, ih h⟩
  | case4 => cases h

theorem takePieces (h : Stems u airs n p w) (t : ReaderTask) (pieces : List Piece)
    (ha : ∀ e ∈ Feed.aired (pieceActs u.eventReader t.layout t.decoder pieces), airs e.1 e.2) :
    Stems u airs n p (w.takePieces t pieces).1 := by
  rw [← h.eventReader] at ha
  fun_induction World.takePieces w t pieces with
  | case1 => exact h
  | case2 w t bytes rest decoder items hfeed v hv ih =>
    have hgo := goesOn_of_doActs (congrArg Prod.snd hv)
    have hread := eventReader_doActs w (Feed.acts w.eventReader t.layout items)
    rw [pieceActs, hfeed, Feed.aired_append hgo] at ha
    rw [hv] at hread
    refine ih ?_ fun e he => ?_
    · have hdone := h.doActs fun e he => ha e (List.mem_append_left _ he)
      rwa [hv] at hdone
    · rw [hread] at he
      exact ha e (List.mem_append_right _ he)
  | case3 w t bytes rest decoder items hfeed v e hv =>
    rw [pieceActs, hfeed] at ha
    have hdone := h.doActs fun e he => ha e (Feed.mem_aired_append he _)
    rwa [hv] at hdone
  | case4 w t cause rest v e hv | case5 w t rest v e hv =>
    rw [pieceActs] at ha
    have hdone := h.doActs ha
    rwa [hv] at hdone

/-- Taking the pieces that have arrived publishes `readings`. -/
theorem read (h : Stems u airs n p w) {t : ReaderTask} (id : Nat)
    (ha : ∀ e ∈ w.readings t, airs e.1 e.2) : Stems u airs n p (w.read id t) := by
  have hemptied : Stems u airs n p (w.emptied t) := h.still rfl rfl rfl rfl rfl rfl rfl rfl
  unfold readings at ha
  rw [h.eventReader] at ha
  have htaken := hemptied.takePieces t (w.arrived t) ha
  unfold emptied arrived at htaken
  unfold World.read
  grind

theorem takeStream (h : Stems u airs n p w) {t : ReaderTask} (id : Nat)
    {answer : Except Failure Unit} (ha : answer.isOk → ∀ e ∈ w.readings t, airs e.1 e.2) :
    Stems u airs n p (w.takeStream id t answer) := by
  cases answer with
  | error cause => exact h.endReader id t _
  | ok _ => exact (h.log _).read id (ha rfl)

theorem subscribed (h : Stems u airs n p w) (t : ReaderTask) :
    Stems u airs n p (w.subscribed t).1 := by
  unfold World.subscribed
  dsimp only
  split <;> exact h.still rfl rfl rfl rfl rfl rfl rfl rfl

/-- Asking for the stream publishes events if the reader gets it at once. -/
theorem openStream (h : Stems u airs n p w) {t : ReaderTask} (id : Nat)
    (ha : w.subscribes t → ∀ e ∈ (w.subscribed t).1.readings (w.subscribed t).2, airs e.1 e.2) :
    Stems u airs n p (w.openStream id t) := by
  have hopened := h.subscribed t
  rw [openStream_eq]
  split
  next hms =>
    refine hopened.takeStream id fun hok => ha ?_
    rw [isOk_map] at hok
    simp [subscribes, hok, hms]
  · exact hopened.sleep (t := .reader _) trivial _

/-- Polling a reader publishes `hears`. -/
theorem pollReader (h : Stems u airs n p u) {t : ReaderTask} (id : Nat)
    (ha : ∀ e ∈ u.hears t, airs e.1 e.2) : Stems u airs n p (u.pollReader id t) := by
  unfold hears at ha
  unfold World.pollReader
  cases hp : t.phase with
  | planned =>
    simp only [hp] at ha
    refine h.openStream id fun hs => ?_
    rwa [if_pos hs] at ha
  | opening answer =>
    simp only [hp] at ha
    refine h.takeStream id fun hs => ?_
    rwa [if_pos hs] at ha
  | reading =>
    simp only [hp] at ha
    exact h.read id ha

/-! ## The supervisor -/

section

variable (h : Stems u airs n p w)

include h

/-- After `World.stopPing` there is no pinger. -/
theorem stopPing : Stems u airs none p.stop w.stopPing := by
  have hstop : w.ping.stop = p.stop := by rw [h.ping]
  have hpinger := h.pinger
  unfold World.stopPing
  cases hn : w.pinger with
  | none =>
    refine ⟨h.registry, h.plugins, h.eventReader, h.clock, h.nextTask, hstop, rfl, ?_⟩
    intro e he
    exact (h.tasks e he).of_ne (by simp [← hpinger, hn]) _
  | some id =>
    refine ⟨h.registry, h.plugins, h.eventReader, h.clock, h.nextTask, hstop, rfl, ?_⟩
    intro e he
    obtain ⟨he, hne⟩ := List.mem_filter.1 he
    refine (h.tasks e he).of_ne ?_ _
    rw [← hpinger, hn]
    exact fun heq => of_decide_eq_true hne (Option.some.inj heq).symm

/-- After `World.startPing` there is one pinger. -/
theorem startPing : ∃ id, Stems u airs (some id) p.stop w.startPing := by
  have hstopped := h.stopPing
  refine ⟨w.stopPing.nextTask, hstopped.registry, hstopped.plugins, hstopped.eventReader,
    hstopped.clock, Nat.le_succ_of_le hstopped.nextTask, hstopped.ping, rfl, ?_⟩
  intro e he
  rcases List.mem_append.1 he with he | he
  · exact (hstopped.tasks e he).of_ne (by simp) _
  · obtain rfl := List.mem_singleton.1 he
    rfl

theorem callHook {hook : Hook} (hh : hook ≠ .setup) (q : Plugin) :
    ∃ n' p', Stems u airs n' p' (w.callHook hook q).1 ∧ Told [q] n p hook n' p' := by
  cases q with
  | scripted name failing =>
    exact ⟨n, p, h.still rfl rfl rfl rfl rfl rfl rfl rfl, .still (by simp)⟩
  | ping =>
    unfold World.callHook
    dsimp only
    split
    next hoff => exact ⟨n, p, h, .still fun hd => absurd hd hoff.2⟩
    · cases hook with
      | setup => exact absurd rfl hh
      | connect =>
        obtain ⟨id, hstarted⟩ := h.startPing
        exact ⟨some id, p.stop, hstarted, .starts id (by simp)⟩
      | disconnect => exact ⟨none, p.stop, h.stopPing, .stops (by simp)⟩

theorem notify {hook : Hook} (hh : hook ≠ .setup) :
    ∃ n' p', Stems u airs n' p' (w.notify hook) ∧ Told u.plugins n p hook n' p' := by
  rw [← h.plugins]
  unfold World.notify
  generalize w.plugins = plugins
  induction plugins generalizing w n p with
  | nil => exact ⟨n, p, h, .still (by simp)⟩
  | cons q rest ih =>
    obtain ⟨n', p', hcalled, hfirst⟩ := h.callHook hh q
    have hrest {v : World} (hv : Stems u airs n' p' v) := ih hv
    rw [List.foldl_cons]
    split
    next heq =>
      rw [heq] at hcalled
      obtain ⟨n'', p'', hdone, hothers⟩ := hrest hcalled
      exact ⟨n'', p'', hdone, hfirst.append hothers⟩
    next heq =>
      rw [heq] at hcalled
      obtain ⟨n'', p'', hdone, hothers⟩ := hrest (hcalled.log _)
      exact ⟨n'', p'', hdone, hfirst.append hothers⟩

theorem feed (piece : Piece) : Stems u airs n p (w.feed piece).1 := by
  unfold World.feed
  split
  next id _ _ =>
    dsimp only
    refine Stems.wake (h.still ?_ ?_ ?_ ?_ ?_ ?_ ?_ ?_) id <;> rfl
  · exact h

theorem abort (id : Nat) : Stems u airs n p (w.abort id) := by
  unfold World.abort
  split
  · exact (h.dropStream _).endTask id
  · exact h.endTask id

theorem applyEffect {e : Effect} (he : e.hook? = none) :
    Stems u airs n p (w.applyEffect e) := by
  have helim (o : Option Nat) : Stems u airs n p (o.elim w w.abort) := by
    cases o with
    | none => exact h
    | some id => exact h.abort id
  cases e with
  | notify hook => cases he
  | abortAttempt => exact helim _
  | abortReader => exact helim _
  | startAttempt epoch delay expectSuccess =>
    exact (h.spawn (t := .attempt ⟨epoch, expectSuccess, .planned delay⟩) trivial).still
      rfl rfl rfl rfl rfl rfl rfl rfl
  | startReader epoch session layout bufferSize =>
    exact (h.spawn (t := .reader { epoch, session, layout, decoder := { limit := bufferSize } })
      trivial).still rfl rfl rfl rfl rfl rfl rfl rfl
  | log l => exact h.log l
  | openSession config => exact h.still rfl rfl rfl rfl rfl rfl rfl rfl

theorem applyEffects_of_nil {es : List Effect} (he : Effect.hooks es = []) :
    Stems u airs n p (es.foldl World.applyEffect w) := by
  induction es generalizing w with
  | nil => exact h
  | cons e rest ih =>
    have hnone := List.filterMap_eq_nil_iff.1 he
    exact ih (h.applyEffect (hnone e List.mem_cons_self))
      (List.filterMap_eq_nil_iff.2 fun e he => hnone e (List.mem_cons_of_mem _ he))

theorem applyEffects {es : List Effect} {hook : Hook} (he : Effect.hooks es = [hook])
    (hh : hook ≠ .setup) : ∃ n' p', Stems u airs n' p' (es.foldl World.applyEffect w) ∧
      Told u.plugins n p hook n' p' := by
  obtain ⟨a, e, b, rfl, hbefore, hcalls, hafter⟩ := List.filterMap_eq_cons_iff.1 he
  have hnone : Effect.hooks a = [] := List.filterMap_eq_nil_iff.2 hbefore
  cases e with
  | notify hook' =>
    obtain rfl := Option.some.inj hcalls
    obtain ⟨n', p', hdone, htold⟩ := (h.applyEffects_of_nil hnone).notify hh
    refine ⟨n', p', ?_, htold⟩
    rw [List.foldl_append, List.foldl_cons]
    exact hdone.applyEffects_of_nil hafter
  | _ => cases hcalls

end

end Stems

/-! ## Occurrences -/

/-- The only pinger among the tasks is the one that `pinger` refers to. -/
def Tended (w : World) : Prop := ∀ id phase, (id, .pinger phase) ∈ w.tasks → w.pinger = some id

/-- The ping after an occurrence other than a poll of the supervisor. -/
def pingAfter (w : World) : Occurrence → Ping
  | .go id =>
    match w.task? id with
    | some (.job j) => if w.performs j then j.pinged w.ping w.now else w.ping
    | some (.pinger phase) => if w.beats phase then (w.ping.beat w.now).1 else w.ping
    | _ => w.ping
  | _ => w.ping

section

variable {u : World} {airs : String → Event → Prop} {id : Nat} {o : Occurrence}

theorem licenses_of_mem {j : Job} (h : (id, .job j) ∈ u.tasks) :
    u.Licenses airs id j.invocation :=
  .inl (mem_pending.2 ⟨j, mem_jobs.2 h, rfl⟩)

theorem Tended.suits (h : u.Tended) : ∀ e ∈ u.tasks, u.Suits airs u.pinger e.1 e.2 := by
  rintro ⟨id, t⟩ he
  cases t with
  | job j => exact licenses_of_mem he
  | pinger phase => exact h id phase he
  | _ => trivial

theorem Tended.stems (h : u.Tended) (airs : String → Event → Prop) :
    Stems u airs u.pinger u.ping u :=
  ⟨rfl, rfl, rfl, rfl, Nat.le_refl _, rfl, rfl, h.suits⟩

/-- Polling a task other than the supervisor publishes events of `Airs` only. -/
theorem Tended.poll (h : u.Tended) (hid : id ≠ supervisorId) :
    Stems u (u.Airs (.go id)) u.pinger (u.pingAfter (.go id)) (u.poll id) := by
  have hstill := h.stems (u.Airs (.go id))
  unfold World.poll pingAfter
  rw [if_neg hid]
  dsimp only
  cases ht : u.task? id with
  | none => exact hstill
  | some t =>
    cases t with
    | attempt t => exact hstill.pollAttempt id t
    | reader t => exact hstill.pollReader id fun e he => .read hid ht he
    | job j =>
      exact hstill.pollJob (licenses_of_mem (mem_of_task? ht))
        (fun hp topic e hd => .deed hid ht hp hd)
        fun v failure hc f hf he => .failure hid ht (hf ▸ hc) he
    | pinger phase => exact hstill.pollPinger (h id phase (mem_of_task? ht)) phase
    | errand t => exact hstill.pollErrand id t

/-- The ping, the pinger and the tasks after an occurrence other than a poll of the supervisor. -/
theorem Tended.undergo (h : u.Tended) (ho : o ≠ .go supervisorId) :
    (u.undergo o).ping = u.pingAfter o ∧ (u.undergo o).pinger = u.pinger ∧
      ∀ e ∈ (u.undergo o).tasks, u.Suits (u.Airs o) u.pinger e.1 e.2 := by
  have hstill := h.stems (u.Airs o)
  have hsame {v : World} (hping : v.ping = u.ping) (hpinger : v.pinger = u.pinger)
      (ht : v.tasks = u.tasks) : v.ping = u.ping ∧ v.pinger = u.pinger ∧
        ∀ e ∈ v.tasks, u.Suits (u.Airs o) u.pinger e.1 e.2 :=
    ⟨hping, hpinger, ht ▸ h.suits⟩
  have hgo {v : World} (hv : Stems u (u.Airs o) u.pinger u.ping v) :
      v.ping = u.ping ∧ v.pinger = u.pinger ∧
        ∀ e ∈ v.tasks, u.Suits (u.Airs o) u.pinger e.1 e.2 :=
    ⟨hv.ping, hv.pinger, hv.tasks⟩
  cases o with
  | go id =>
    have hid : id ≠ supervisorId := fun heq => ho (congrArg Occurrence.go heq)
    have hpoll := h.poll hid
    rw [World.undergo, if_neg hid]
    exact ⟨hpoll.ping, hpoll.pinger, hpoll.tasks⟩
  | answer call => exact hgo (hstill.finishCall call)
  | fire time =>
    obtain ⟨_, hfire⟩ := fire_eq u time
    exact hsame (v := u.fire time) (by rw [hfire]) (by rw [hfire]) (by rw [hfire])
  | step s =>
    cases s with
    | publish topic e => exact hgo (hstill.publish (.outside topic e))
    | echoPing => exact hgo (hstill.publish .echo)
    | request r => exact hgo (hstill.begin r)
    | spawn tag r => exact hgo (hstill.spawn trivial)
    | setOffline reason => exact hgo (hstill.send _)
    | configure config => exact hgo (hstill.send _)
    | shutdown => exact hgo (hstill.send _)
    | feed piece => exact hgo (hstill.feed piece)
    | _ => exact hsame rfl rfl rfl
  | clock | order | note => exact hsame rfl rfl rfl

/-- The hooks that the next command calls are `Supervisor.edge` of the states before and after
it. -/
theorem Sound.hooks_upcoming (h : u.Sound) : u.upcoming.flatMap Handled.hooks =
    Supervisor.edge u.supervisor.isOnline u.takeCommand.supervisor.isOnline := by
  rcases h.regular_or (.command u) with ⟨hnone, hsame⟩ | ⟨d, hup, hd, rfl, hafter⟩
  · rw [hnone, hsame]
    cases u.supervisor.isOnline <;> rfl
  · rw [hup, ← hafter, List.flatMap_cons, List.flatMap_nil, List.append_nil]
    exact hd.turn.hooks_eq

/-- A command publishes nothing. It changes the pinger and the ping by the hook that it calls, if
any. -/
theorem Tended.takeCommand (h : u.Tended) (hs : u.Sound) (airs : String → Event → Prop) :
    ∃ n p, Stems u airs n p u.takeCommand ∧
      (u.upcoming.flatMap Handled.hooks = [] ∧ n = u.pinger ∧ p = u.ping ∨
        ∃ hook, u.upcoming.flatMap Handled.hooks = [hook] ∧
          Told u.plugins u.pinger u.ping hook n p) := by
  have hstill := h.stems airs
  have hedge := hs.hooks_upcoming
  cases ha : u.supervisor.alive with
  | false =>
    refine ⟨u.pinger, u.ping, ?_, .inl ⟨by simp [upcoming, ha], rfl, rfl⟩⟩
    simpa [World.takeCommand, ha] using
      (hstill.still rfl rfl rfl rfl rfl rfl rfl rfl : Stems u airs _ _ { u with commands := [] })
  | true =>
    cases hc : u.commands with
    | nil =>
      refine ⟨u.pinger, u.ping, ?_, .inl ⟨by simp [upcoming, hc], rfl, rfl⟩⟩
      simpa [World.takeCommand, ha, hc] using hstill
    | cons c rest =>
      have hhooks : u.upcoming.flatMap Handled.hooks =
          Effect.hooks (u.supervisor.handle u.opened c).2 := by
        simp [upcoming, ha, hc, Handled.hooks, Handled.effects]
      have htaken (supervisor : Supervisor) :
          Stems u airs u.pinger u.ping { u with commands := rest, supervisor } :=
        hstill.still rfl rfl rfl rfl rfl rfl rfl rfl
      rw [takeCommand_eq ha hc, hhooks]
      rw [hhooks] at hedge
      generalize u.supervisor.isOnline = before,
        u.takeCommand.supervisor.isOnline = after at hedge
      cases before <;> cases after
      · exact ⟨_, _, (htaken _).applyEffects_of_nil hedge, .inl ⟨hedge, rfl, rfl⟩⟩
      · obtain ⟨n, p, hdone, htold⟩ := (htaken _).applyEffects hedge (by simp)
        exact ⟨n, p, hdone, .inr ⟨_, hedge, htold⟩⟩
      · obtain ⟨n, p, hdone, htold⟩ := (htaken _).applyEffects hedge (by simp)
        exact ⟨n, p, hdone, .inr ⟨_, hedge, htold⟩⟩
      · exact ⟨_, _, (htaken _).applyEffects_of_nil hedge, .inl ⟨hedge, rfl, rfl⟩⟩

/-- The tasks after an occurrence suit the world before it. -/
theorem Tended.tasks_undergo (h : u.Tended) (hs : u.Sound) (o : Occurrence) :
    ∀ e ∈ (u.undergo o).tasks, u.Suits (u.Airs o) (u.undergo o).pinger e.1 e.2 := by
  by_cases ho : o = .go supervisorId
  · subst ho
    obtain ⟨n, p, hdone, -⟩ := h.takeCommand hs (u.Airs (.go supervisorId))
    rw [undergo_supervisor, hdone.pinger]
    exact hdone.tasks
  · obtain ⟨-, hpinger, htasks⟩ := h.undergo ho
    rw [hpinger]
    exact htasks

theorem Tended.undergo_tended (h : u.Tended) (hs : u.Sound) (o : Occurrence) :
    (u.undergo o).Tended :=
  fun id phase hm => h.tasks_undergo hs o (id, .pinger phase) hm

/-- A callback that is accepted at an occurrence belongs to a listener that accepts an event
published then. -/
theorem Tended.airs_of_mem_accepts (h : u.Tended) (hs : u.Sound) (hc : u.Counted)
    {i : Invocation} (he : (id, i) ∈ u.accepts o) :
    ∃ topic, u.Airs o topic i.2 ∧ ∃ l ∈ u.registry.accepting topic i.2, l.callback = i.1 := by
  obtain ⟨hpending, hle⟩ := List.mem_filter.1 he
  obtain ⟨j, hj, rfl⟩ := mem_pending.1 hpending
  rcases h.tasks_undergo hs o _ (mem_jobs.1 hj) with hold | ⟨-, hnew⟩
  · have hlt := hc.lt_of_mem hold
    have hle : u.nextTask ≤ id := by simpa using hle
    omega
  · exact hnew

end

end World

end Bridge

end PeerLink
