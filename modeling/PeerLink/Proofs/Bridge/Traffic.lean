import PeerLink.Proofs.Bridge.Schedule
/-!
# Requests of an occurrence

The steps with `Step.isPublic` change the listeners or close the executor, and nothing else. Every
other occurrence leaves the listeners and `executor.closed`. All occurrences but a command leave the
supervisor. The requests of an occurrence have been admitted by the view at that instant, unless the
occurrence polls a reader that opens its stream. No occurrence changes `pingConfig`.

## Main definitions

* `ClientView.outgoing?`: the request that is sent for a call, if any.
* `World.Goes`, `World.Sends`: a change of the world that sends a list of requests.
* `World.Talks`: the requests have been admitted, or the only one opens the stream of a reader.
* `Step.isPublic`, `Occurrence.isPublic`: the steps that change the listeners or close the executor.

## Main statements

* `World.talks_undergo`: `World.Talks` for every occurrence but a command and a public step.
* `World.takeCommand_spec`: a command sends no request.
-/

namespace PeerLink

/-! ## The record of the server -/

namespace Peer.Script

open Transport

theorem requests_answer (s : Script) (url : String) : (s.answer url).2.requests = s.requests := by
  unfold answer
  split
  · split <;> rfl
  · rfl

theorem requests_respond (s : Script) (out : Outgoing) :
    (s.respond out).2.requests = s.requests ++ [out] := by
  have h := requests_answer (s.record out) out.url
  unfold respond
  split <;> (next heq => rw [heq] at h; exact h)

theorem requests_openStream (s : Script) (out : Outgoing) :
    (s.openStream out).2.requests = s.requests ++ [out] := by
  have h := requests_answer (s.record out) out.url
  unfold openStream
  split
  next heq => rw [heq] at h; exact h
  next heq => rw [heq] at h; split <;> exact h
  next heq => rw [heq] at h; exact h
  next heq => rw [heq] at h; exact h

end Peer.Script

open Transport Connection

/-- The request that is sent for `r`, if it is admitted and not suppressed. -/
def Connection.ClientView.outgoing? (v : ClientView) (r : Request) : Option Outgoing :=
  match v.admit r with
  | .sent _ out => some out
  | _ => none

namespace Bridge

/-- Whether a step changes the listeners or closes the executor. -/
def Step.isPublic : Step → Bool
  | listen _ _ _ | unlisten _ | unlistenMany _ | unlistenAll | closeExecutor => true
  | _ => false

/-- Whether an occurrence is a public step. -/
def Occurrence.isPublic : Occurrence → Bool
  | step s => s.isPublic
  | _ => false

namespace World

/-- `w'` extends the requests of `w` by `sent`, and it has the supervisor, the listeners,
`executor.closed` and the `pingConfig` of `w`. -/
structure Goes (sent : List Outgoing) (w w' : World) : Prop where
  supervisor : w'.supervisor = w.supervisor
  registry : w'.registry = w.registry
  closed : w'.executor.closed = w.executor.closed
  pingConfig : w'.pingConfig = w.pingConfig
  requests : w'.script.requests = w.script.requests ++ sent

/-- `Goes`, and the view of `w` admits each request of `sent`. -/
structure Sends (sent : List Outgoing) (w w' : World) : Prop extends Goes sent w w' where
  admitted : ∀ out ∈ sent, ∃ r epoch, w.supervisor.view.admit r = .sent epoch out

/-- `Sends` for some list of requests. -/
def Private (w w' : World) : Prop := ∃ sent, Sends sent w w'

/-- `Sends` for some list of requests, or `Goes` for the request of a reader for its stream. -/
inductive Talks (w w' : World) : Prop where
  | calls {sent : List Outgoing} (h : Sends sent w w')
  | streams {e : Nat × ReaderTask} (he : e ∈ w.readers)
      (h : Goes [Feed.outgoing e.2.session e.2.layout] w w')

section

variable {a b : List Outgoing} {u v w : World}

theorem Goes.trans (h : Goes a u v) (g : Goes b v w) : Goes (a ++ b) u w where
  supervisor := g.supervisor.trans h.supervisor
  registry := g.registry.trans h.registry
  closed := g.closed.trans h.closed
  pingConfig := g.pingConfig.trans h.pingConfig
  requests := by rw [g.requests, h.requests, List.append_assoc]

theorem Goes.andThen (h : Goes a u v) (g : Sends [] v w) : Goes a u w := by
  simpa using h.trans g.toGoes

namespace Sends

theorem trans (h : Sends a u v) (g : Sends b v w) : Sends (a ++ b) u w where
  toGoes := h.toGoes.trans g.toGoes
  admitted out ho := by
    rcases List.mem_append.1 ho with ho | ho
    · exact h.admitted out ho
    · exact h.supervisor ▸ g.admitted out ho

/-- A change of other fields sends no request. -/
theorem of_eq (hs : v.supervisor = u.supervisor) (hr : v.registry = u.registry)
    (hc : v.executor.closed = u.executor.closed) (hp : v.pingConfig = u.pingConfig)
    (hq : v.script.requests = u.script.requests) : Sends [] u v :=
  ⟨⟨hs, hr, hc, hp, by simp [hq]⟩, List.forall_mem_nil _⟩

theorem refl (u : World) : Sends [] u u := of_eq rfl rfl rfl rfl rfl

theorem andThen (h : Sends a u v) (g : Sends [] v w) : Sends a u w := by
  simpa using h.trans g

theorem isPrivate (h : Sends a u v) : u.Private v := ⟨a, h⟩

end Sends

theorem Private.trans (h : u.Private v) (g : v.Private w) : u.Private w := by
  obtain ⟨_, h⟩ := h
  obtain ⟨_, g⟩ := g
  exact ⟨_, h.trans g⟩

theorem Private.andThen (h : u.Private v) (g : Sends [] v w) : u.Private w := h.trans g.isPrivate

theorem Private.talks (h : u.Private v) : u.Talks v := by
  obtain ⟨_, h⟩ := h
  exact .calls h

theorem Talks.goes (h : u.Talks v) : ∃ sent, Goes sent u v := by
  cases h with
  | calls h => exact ⟨_, h.toGoes⟩
  | streams he h => exact ⟨_, h⟩

end

/-! ## Operations that send no request -/

section Still

variable {w : World} {id : Nat}

theorem sends_log (w : World) (l : LogLine) : Sends [] w (w.log l) := .of_eq rfl rfl rfl rfl rfl

theorem sends_logJob (w : World) (l : LogLine) : Sends [] w (w.logJob l) :=
  .of_eq rfl rfl rfl rfl rfl

theorem sends_wake (w : World) (id : Nat) : Sends [] w (w.wake id) := by
  unfold wake
  split
  · exact .refl w
  · exact .of_eq rfl rfl rfl rfl rfl

theorem sends_setTask (w : World) (id : Nat) (t : Task) : Sends [] w (w.setTask id t) :=
  .of_eq rfl rfl rfl rfl rfl

theorem sends_endTask (w : World) (id : Nat) : Sends [] w (w.endTask id) :=
  .of_eq rfl rfl rfl rfl rfl

theorem sends_sleep (w : World) (id ms : Nat) (t : Task) : Sends [] w (w.sleep id ms t) :=
  .of_eq rfl rfl rfl rfl rfl

theorem sends_send (w : World) (c : Command) : Sends [] w (w.send c).1 := by
  unfold send
  split
  · have hqueue : Sends [] w { w with commands := w.commands ++ [c] } := .of_eq rfl rfl rfl rfl rfl
    exact hqueue.andThen (sends_wake _ _)
  · exact .refl w

theorem sends_foldl {α : Type} {f : World → α → World} (h : ∀ w a, Sends [] w (f w a))
    (l : List α) (w : World) : Sends [] w (l.foldl f w) := by
  induction l generalizing w with
  | nil => exact .refl w
  | cons a rest ih => exact (h w a).andThen (ih _)

theorem sends_finishCall (w : World) (call : Call) : Sends [] w (w.finishCall call).1 := by
  have hlost (reason : String) := sends_send w (.setOffline (some call.epoch) reason)
  unfold finishCall
  rcases call.request.conclude call.answer with ⟨_, _ | reason, _ | text⟩
  · exact .refl w
  · exact sends_log w _
  · exact hlost reason
  · exact (hlost reason).andThen (sends_log _ _)

theorem sends_publish (w : World) (topic : String) (e : Event) :
    Sends [] w (w.publish topic e).1 := by
  unfold publish
  split
  · exact .refl w
  · exact sends_foldl (fun w (l : Listener) =>
      (.of_eq rfl rfl rfl rfl rfl : Sends [] w (w.submit l.callback e))) _ w

theorem sends_deliver (w : World) (j : Job) : Sends [] w (w.deliver j) := by
  unfold deliver
  split
  · exact .refl w
  · exact .of_eq rfl rfl rfl rfl rfl

theorem sends_release (w : World) : Sends [] w w.release := by
  unfold release
  split
  · exact .of_eq rfl rfl rfl rfl rfl
  next id rest _ =>
    have h : Sends [] w { w with executor.waiting := rest } := .of_eq rfl rfl rfl rfl rfl
    dsimp only
    split
    · exact (h.andThen (sends_setTask _ _ _)).andThen (sends_wake _ _)
    · exact h

theorem sends_reportFailure (w : World) (j : Job) (f : CallbackFailure) :
    Sends [] w (w.reportFailure j f) := by
  have h := (sends_logJob w (.error ("Error in " ++ f.name ++ ": " ++ f.description))).andThen
    (sends_foldl (fun w line => sends_logJob w (.error line)) f.traceLines _)
  unfold reportFailure
  dsimp only
  split
  · exact h
  · exact h.andThen (sends_publish _ _ _)

theorem sends_endJob (w : World) (id : Nat) (j : Job) (failure : Option CallbackFailure) :
    Sends [] w (w.endJob id j failure) := by
  have hend (v : World) :
      Sends [] v ({ v with executor.inFlight := v.executor.inFlight - 1 }.endTask id) :=
    .of_eq rfl rfl rfl rfl rfl
  cases failure with
  | none => exact hend w
  | some f => exact (sends_reportFailure w j f).andThen (hend _)

theorem sends_endWork (w : World) (id : Nat) (j : Job) (failure : Option CallbackFailure) :
    Sends [] w (w.endWork id j failure) := by
  have hend (v : World) :
      Sends [] v ((v.release.setTask id (.job { j with phase := .returned failure })).wake id) :=
    ((sends_release v).andThen (sends_setTask _ _ _)).andThen (sends_wake _ _)
  unfold endWork
  dsimp only
  split
  · exact (sends_logJob w _).andThen (hend _)
  · exact hend w

theorem sends_afterPing (w : World) (id : Nat) (reply : Reply) :
    Sends [] w (w.afterPing id reply) := by
  unfold afterPing
  dsimp only
  split
  · exact sends_sleep w _ _ _
  · split
    · exact sends_endTask w id
    · exact (sends_log w _).andThen (sends_sleep _ _ _ _)

theorem sends_takeRoot (w : World) (id : Nat) (t : AttemptTask) (uuid : String)
    (reply : Except Error Response) : Sends [] w (w.takeRoot id t uuid reply) := by
  have hend (v : World) (c : Command) : Sends [] v ((v.send c).1.endTask id) :=
    (sends_send v c).andThen (sends_endTask _ _)
  unfold takeRoot
  dsimp only
  split
  · exact (sends_log w _).andThen (hend _ _)
  · exact hend w _

end Still

/-! ## The reader -/

section Reader

theorem sends_dropStream (w : World) (t : ReaderTask) : Sends [] w (w.dropStream t) := by
  unfold dropStream
  split
  · exact .of_eq rfl rfl rfl rfl rfl
  · exact .refl w

theorem sends_endReader (w : World) (id : Nat) (t : ReaderTask) (e : Feed.End) :
    Sends [] w (w.endReader id t e) :=
  ((sends_dropStream w t).andThen (sends_send _ _)).andThen (sends_endTask _ _)

theorem sends_takeEvent (w : World) (topic : String) (e : Event) :
    Sends [] w (w.takeEvent topic e) := by
  have hitems : Sends [] w { w with items := w.items.apply e } := .of_eq rfl rfl rfl rfl rfl
  exact hitems.andThen (sends_publish _ topic e)

theorem sends_doActs (w : World) (acts : List Feed.Act) : Sends [] w (w.doActs acts).1 := by
  fun_induction doActs w acts with
  | case1 w => exact .refl w
  | case2 w l rest ih => exact (sends_log w l).andThen ih
  | case3 w topic e rest ih => exact (sends_takeEvent w topic e).andThen ih
  | case4 w e rest => exact .refl w

theorem sends_of_doActs {w w' : World} {acts : List Feed.Act} {e : Option Feed.End}
    (h : w.doActs acts = (w', e)) : Sends [] w w' := by
  simpa only [h] using sends_doActs w acts

theorem sends_takePieces (w : World) (t : ReaderTask) (pieces : List Piece) :
    Sends [] w (w.takePieces t pieces).1 := by
  fun_induction takePieces w t pieces with
  | case1 w t => exact .refl w
  | case2 _ _ _ _ _ _ _ _ h ih => exact (sends_of_doActs h).andThen ih
  | case3 _ _ _ _ _ _ _ _ _ h => exact sends_of_doActs h
  | case4 _ _ _ _ _ _ h => exact sends_of_doActs h
  | case5 _ _ _ _ _ h => exact sends_of_doActs h

theorem sends_pieces (w : World) (id : Nat) (t : ReaderTask) (pieces : List Piece) :
    Sends [] w (match World.takePieces w t pieces with
      | (w, t, some e) => w.endReader id t e
      | (w, t, none) => w.setTask id (.reader { t with phase := .reading })) := by
  have h := sends_takePieces w t pieces
  split
  next heq =>
    rw [heq] at h
    exact h.andThen (sends_endReader _ _ _ _)
  next heq =>
    rw [heq] at h
    exact h.andThen (sends_setTask _ _ _)

theorem sends_read (w : World) (id : Nat) (t : ReaderTask) : Sends [] w (w.read id t) := by
  have hread (streams : List OpenStream) (pieces : List Piece) :=
    Sends.andThen (u := w) (v := { w with streams }) (.of_eq rfl rfl rfl rfl rfl)
      (sends_pieces _ id t pieces)
  exact hread _ _

theorem sends_takeStream (w : World) (id : Nat) (t : ReaderTask) (answer : Except Failure Unit) :
    Sends [] w (w.takeStream id t answer) := by
  unfold takeStream
  split
  · exact sends_endReader w id t _
  · exact (sends_log w _).andThen (sends_read _ id t)

end Reader

/-! ## Requests -/

section Requests

variable {w : World} {id : Nat}

theorem sends_begin (w : World) (r : Request) :
    Sends (w.supervisor.view.outgoing? r).toList w (w.begin r).1 := by
  unfold begin ClientView.outgoing?
  cases ha : w.supervisor.view.admit r with
  | rejected | suppressed => exact .refl w
  | sent epoch out =>
    dsimp only
    have h : Sends [out] w ({ w with script := (w.script.respond out).2 }.observe out) := by
      refine ⟨⟨rfl, rfl, rfl, rfl, w.script.requests_respond out⟩, ?_⟩
      intro o ho
      obtain rfl := List.mem_singleton.1 ho
      exact ⟨r, epoch, ha⟩
    split
    · exact h.andThen (sends_finishCall _ _)
    · exact h

theorem private_begin (w : World) (r : Request) : w.Private (w.begin r).1 :=
  (sends_begin w r).isPrivate

theorem private_of_begin {w w' : World} {r : Request} {begun : Begun}
    (h : w.begin r = (w', begun)) : w.Private w' := by
  simpa only [h] using private_begin w r

end Requests

/-! ## Tasks -/

section Tasks

theorem private_perform (w : World) (j : Job) : w.Private (w.perform j).1 := by
  unfold perform
  dsimp only
  split
  · exact (Sends.refl w).isPrivate
  · exact (Sends.refl w).isPrivate
  · exact (Sends.refl w).isPrivate
  · exact (sends_publish w _ _).isPrivate
  · exact ⟨[], .of_eq rfl rfl rfl rfl rfl⟩
  next r _ =>
    split <;> (next heq => exact private_of_begin heq)

theorem private_of_perform {w w' : World} {j : Job} {done : Done}
    (h : w.perform j = (w', done)) : w.Private w' := by
  simpa only [h] using private_perform w j

theorem private_act (w : World) (id : Nat) (j : Job) : w.Private (w.act id j) := by
  unfold act
  split
  next heq => exact (private_of_perform heq).andThen (sends_endJob _ _ _ _)
  next heq => exact (private_of_perform heq).andThen (sends_sleep _ _ _ _)

/-- The callback of a job on its worker, which returns at once or waits for an answer. -/
theorem private_deed (w : World) (id : Nat) (j : Job) :
    w.Private (match (w.deliver j).perform j with
      | (w, .now failure) => w.endWork id j failure
      | (w, .later call ms) => w.sleep id ms (.job { j with phase := .asking call })) := by
  have h := (sends_deliver w j).isPrivate
  split
  next heq => exact (h.trans (private_of_perform heq)).andThen (sends_endWork _ _ _ _)
  next heq => exact (h.trans (private_of_perform heq)).andThen (sends_sleep _ _ _ _)

theorem private_work (w : World) (id : Nat) (j : Job) : w.Private (w.work id j) := by
  unfold work
  rcases Decidable.em (w.executor.slowStart.nanos < instantSpan.nanos) with h | h
  · simp only [if_pos h]
    exact (sends_logJob w _).isPrivate.trans (private_deed _ id j)
  · simp only [if_neg h]
    exact private_deed w id j

theorem private_pollJob (w : World) (id : Nat) (j : Job) : w.Private (w.pollJob id j) := by
  unfold pollJob
  split
  · split
    · dsimp only
      have h := (sends_deliver w j).isPrivate
      split
      · exact h.trans (private_act _ id j)
      · exact h.andThen (sends_sleep _ _ _ _)
    · split
      · exact ⟨[], .of_eq rfl rfl rfl rfl rfl⟩
      · have h : Sends [] w { w with executor.free := w.executor.free - 1 } :=
          .of_eq rfl rfl rfl rfl rfl
        exact h.isPrivate.trans (private_work _ id j)
  · exact (Sends.refl w).isPrivate
  · exact private_work w id j
  · exact private_act w id j
  next call _ =>
    have h := (sends_finishCall w call).isPrivate
    dsimp only
    split
    · exact h.andThen (sends_endJob _ _ _ _)
    · exact h.andThen (sends_endWork _ _ _ _)
  · exact (sends_endJob w id j _).isPrivate

/-- A beat of the pinging sends the request of the ping, if it is admitted and not suppressed. -/
theorem sends_beat (w : World) (id : Nat) : Sends (w.supervisor.view.outgoing?
    (.postUpdate w.pingConfig.item (w.ping.beat w.now).2)).toList w (w.beat id) := by
  have hping : Sends [] w { w with ping := (w.ping.beat w.now).1 } := .of_eq rfl rfl rfl rfl rfl
  have hbegin := hping.trans
    (sends_begin _ (.postUpdate w.pingConfig.item (w.ping.beat w.now).2))
  unfold beat
  dsimp only
  split
  next heq =>
    rw [heq] at hbegin
    exact hbegin.andThen (sends_afterPing _ _ _)
  next heq =>
    rw [heq] at hbegin
    exact hbegin.andThen (sends_sleep _ _ _ _)

theorem private_pollPinger (w : World) (id : Nat) (phase : PingPhase) :
    w.Private (w.pollPinger id phase) := by
  unfold pollPinger
  split
  · split
    · exact (sends_beat w id).isPrivate
    · exact (sends_sleep w _ _ _).isPrivate
  · exact (sends_beat w id).isPrivate
  · exact (sends_finishCall w _).isPrivate.andThen (sends_afterPing _ _ _)

theorem private_pollErrand (w : World) (id : Nat) (t : Errand) :
    w.Private (w.pollErrand id t) := by
  have hend (v : World) (reply : Reply) : Sends [] v (v.endErrand id t reply) :=
    .of_eq rfl rfl rfl rfl rfl
  unfold pollErrand
  split
  · split
    next heq => exact (private_of_begin heq).andThen (hend _ _)
    next heq => exact (private_of_begin heq).andThen (sends_sleep _ _ _ _)
  · exact (sends_finishCall w _).isPrivate.andThen (hend _ _)

theorem private_takeIdentity (w : World) (id : Nat) (t : AttemptTask)
    (reply : Except Error Response) : w.Private (w.takeIdentity id t reply) := by
  unfold takeIdentity
  split
  · exact ((sends_send w _).andThen (sends_endTask _ _)).isPrivate
  · split
    next heq => exact (private_of_begin heq).andThen (sends_takeRoot _ _ _ _ _)
    next heq => exact (private_of_begin heq).andThen (sends_sleep _ _ _ _)

theorem private_makeAttempt (w : World) (id : Nat) (t : AttemptTask) :
    w.Private (w.makeAttempt id t) := by
  have h := (sends_send w (.attempting t.epoch)).isPrivate
  unfold makeAttempt
  split
  next heq =>
    rw [heq] at h
    exact h.andThen (sends_endTask _ _)
  next heq =>
    rw [heq] at h
    split
    next heq => exact (h.trans (private_of_begin heq)).trans (private_takeIdentity _ _ _ _)
    next heq => exact (h.trans (private_of_begin heq)).andThen (sends_sleep _ _ _ _)

theorem private_pollAttempt (w : World) (id : Nat) (t : AttemptTask) :
    w.Private (w.pollAttempt id t) := by
  unfold pollAttempt
  split
  · split
    · exact private_makeAttempt w id t
    · exact (sends_sleep w _ _ _).isPrivate
  · exact private_makeAttempt w id t
  · exact (sends_finishCall w _).isPrivate.trans (private_takeIdentity _ _ _ _)
  · exact (sends_finishCall w _).isPrivate.andThen (sends_takeRoot _ _ _ _ _)

/-- The stream is answered at once or after a delay. -/
theorem goes_opening {w v : World} {sent : List Outgoing} (h : Goes sent w v) (id : Nat)
    (t : ReaderTask) (answer : Except Failure Unit) (ms : Nat) : Goes sent w (match ms with
      | 0 => v.takeStream id t answer
      | ms => v.sleep id ms (.reader { t with phase := .opening answer })) := by
  split
  · exact h.andThen (sends_takeStream _ _ _ _)
  · exact h.andThen (sends_sleep _ _ _ _)

/-- A reader that opens its stream sends exactly one request. -/
theorem goes_openStream (w : World) (id : Nat) (t : ReaderTask) :
    Goes [Feed.outgoing t.session t.layout] w (w.openStream id t) := by
  have hsent {v : World} {script : Peer.Script} {answer : Except Failure Peer.StreamBody}
      (h : w.script.openStream (Feed.outgoing t.session t.layout) = (answer, script))
      (hs : v.supervisor = w.supervisor) (hr : v.registry = w.registry)
      (hc : v.executor.closed = w.executor.closed) (hp : v.pingConfig = w.pingConfig)
      (hq : v.script.requests = script.requests) :
      Goes [Feed.outgoing t.session t.layout] w v := by
    have hrec := w.script.requests_openStream (Feed.outgoing t.session t.layout)
    rw [h] at hrec
    exact ⟨hs, hr, hc, hp, hq.trans hrec⟩
  unfold openStream
  dsimp only
  cases heq : w.script.openStream (Feed.outgoing t.session t.layout) with
  | mk answer script =>
    cases answer with
    | ok body => refine goes_opening (hsent heq ?_ ?_ ?_ ?_ ?_) _ _ _ _ <;> rfl
    | error cause => refine goes_opening (hsent heq ?_ ?_ ?_ ?_ ?_) _ _ _ _ <;> rfl

theorem talks_pollReader {w : World} {id : Nat} {t : ReaderTask} (h : (id, t) ∈ w.readers) :
    w.Talks (w.pollReader id t) := by
  unfold pollReader
  split
  · exact .streams h (goes_openStream w id t)
  · exact .calls (sends_takeStream w id t _)
  · exact .calls (sends_read w id t)

/-- `Talks` for a poll of a task other than the supervisor. -/
theorem talks_poll (w : World) {id : Nat} (hid : id ≠ supervisorId) : w.Talks (w.poll id) := by
  unfold poll
  rw [if_neg hid]
  split
  · exact (private_pollAttempt w id _).talks
  next t h => exact talks_pollReader (mem_readers.2 (mem_of_task? h))
  · exact (private_pollJob w id _).talks
  · exact (private_pollPinger w id _).talks
  · exact (private_pollErrand w id _).talks
  · exact .calls (.refl w)

end Tasks

/-! ## The effects of the supervisor -/

section Effects

variable {w : World}

theorem sends_stopPing (w : World) : Sends [] w w.stopPing := by
  unfold stopPing
  cases w.pinger <;> exact .of_eq rfl rfl rfl rfl rfl

theorem sends_startPing (w : World) : Sends [] w w.startPing :=
  (sends_stopPing w).andThen (.of_eq rfl rfl rfl rfl rfl)

/-- A hook other than `setup` sends no request and leaves the listeners. -/
theorem sends_callHook (w : World) {hook : Hook} (hh : hook ≠ .setup) (p : Plugin) :
    Sends [] w (w.callHook hook p).1 := by
  cases p with
  | scripted name failing => exact .of_eq rfl rfl rfl rfl rfl
  | ping =>
    rcases Decidable.em (!w.pingConfig.enabled ∧ hook ≠ .disconnect) with h | h
    · simp only [callHook, if_pos h]
      exact .refl w
    · simp only [callHook, if_neg h]
      cases hook with
      | setup => exact absurd rfl hh
      | connect => exact sends_startPing w
      | disconnect => exact sends_stopPing w

theorem sends_notify (w : World) {hook : Hook} (hh : hook ≠ .setup) :
    Sends [] w (w.notify hook) := by
  refine sends_foldl (fun w p => ?_) _ w
  have h := sends_callHook w hh p
  split
  next heq => rwa [heq] at h
  next heq =>
    rw [heq] at h
    exact h.andThen (sends_log _ _)

theorem sends_abort (w : World) (id : Nat) : Sends [] w (w.abort id) := by
  unfold abort
  split
  · exact (sends_dropStream w _).andThen (sends_endTask _ _)
  · exact sends_endTask w id

theorem sends_applyEffect (w : World) {e : Effect} (he : e.hook? ≠ some .setup) :
    Sends [] w (w.applyEffect e) := by
  have helim (o : Option Nat) : Sends [] w (o.elim w w.abort) := by
    cases o with
    | none => exact .refl w
    | some id => exact sends_abort w id
  cases e with
  | abortAttempt => exact helim _
  | abortReader => exact helim _
  | notify hook => exact sends_notify w fun h => he (congrArg some h)
  | log | openSession | startAttempt | startReader => exact .of_eq rfl rfl rfl rfl rfl

theorem sends_applyEffects (w : World) {es : List Effect} (he : .setup ∉ Effect.hooks es) :
    Sends [] w (es.foldl applyEffect w) := by
  induction es generalizing w with
  | nil => exact .refl w
  | cons e rest ih =>
    rw [Effect.hooks_cons, List.mem_append, not_or] at he
    have hfirst := sends_applyEffect w (e := e) fun h => he.1 (by simp [h])
    exact hfirst.andThen (ih _ he.2)

/-- The effects of a command send no request and leave the listeners. -/
theorem sends_takeCommand {c : Command} {rest : List Command} (ha : w.supervisor.alive)
    (hc : w.commands = c :: rest) :
    Sends [] { w with commands := rest, supervisor := (w.supervisor.handle w.opened c).1 }
      w.takeCommand := by
  rw [takeCommand_eq ha hc]
  exact sends_applyEffects _ (Supervisor.setup_not_mem_hooks _ _ _)

end Effects

/-! ## Steps from outside -/

section Steps

theorem sends_fire (w : World) (t : Nat) : Sends [] w (w.fire t) :=
  Sends.andThen (v := { w with clock := t, timers := w.timers.filter (·.1 ≠ t) })
    (.of_eq rfl rfl rfl rfl rfl) (sends_foldl sends_wake _ _)

theorem sends_feed (w : World) (piece : Piece) : Sends [] w (w.feed piece).1 := by
  unfold feed
  split
  next id _ _ =>
    dsimp only
    refine Sends.trans (a := []) (.of_eq ?_ ?_ ?_ ?_ ?_) (sends_wake _ id) <;> rfl
  · exact .refl w

theorem private_enter (w : World) {s : Step} (hs : s.isPublic = false) : w.Private (w.enter s) := by
  cases s with
  | listen | unlisten | unlistenMany | unlistenAll | closeExecutor => cases hs
  | feed piece => exact (sends_feed w piece).isPrivate
  | publish topic e => exact (sends_publish w topic e).isPrivate
  | echoPing => exact (sends_publish w _ _).isPrivate
  | request r => exact private_begin w r
  | setOffline reason => exact (sends_send w _).isPrivate
  | configure config => exact (sends_send w _).isPrivate
  | shutdown => exact (sends_send w _).isPrivate
  | _ => exact ⟨[], .of_eq rfl rfl rfl rfl rfl⟩

/-- `Talks` for every occurrence but a command and a public step. -/
theorem talks_undergo (w : World) {o : Occurrence} (ho : o.isPublic = false)
    (hgo : o ≠ .go supervisorId) : w.Talks (w.undergo o) := by
  cases o with
  | go id =>
    have hid : id ≠ supervisorId := fun h => hgo (congrArg Occurrence.go h)
    simpa only [undergo, if_neg hid] using talks_poll w hid
  | answer call => exact .calls (sends_finishCall w call)
  | fire time => exact .calls (sends_fire w time)
  | step s => exact (private_enter w ho).talks
  | clock | order | note => exact .calls (.of_eq rfl rfl rfl rfl rfl)

/-- A command leaves the listeners, `executor.closed` and the requests sent. -/
theorem takeCommand_spec (w : World) : w.takeCommand.registry = w.registry ∧
    w.takeCommand.executor.closed = w.executor.closed ∧
    w.takeCommand.script.requests = w.script.requests := by
  by_cases ha : w.supervisor.alive
  · cases hc : w.commands with
    | nil => simp [takeCommand, ha, hc]
    | cons c rest =>
      have h := sends_takeCommand ha hc
      exact ⟨h.registry, h.closed, by simpa using h.requests⟩
  · simp [takeCommand, ha]

theorem pingConfig_takeCommand (w : World) : w.takeCommand.pingConfig = w.pingConfig := by
  by_cases ha : w.supervisor.alive
  · cases hc : w.commands with
    | nil => simp [takeCommand, ha, hc]
    | cons c rest => exact (sends_takeCommand ha hc).pingConfig
  · simp [takeCommand, ha]

/-- A public step changes only the listeners and `executor.closed`. -/
theorem undergo_of_isPublic (w : World) {o : Occurrence} (ho : o.isPublic) :
    ∃ registry closed, w.undergo o = { w with registry, executor.closed := closed } := by
  cases o with
  | step s =>
    cases s with
    | listen | unlisten | unlistenMany | unlistenAll | closeExecutor => exact ⟨_, _, rfl⟩
    | _ => cases ho
  | _ => cases ho

/-- `pingConfig` is constant. -/
theorem pingConfig_undergo (w : World) (o : Occurrence) :
    (w.undergo o).pingConfig = w.pingConfig := by
  cases hp : o.isPublic with
  | true =>
    obtain ⟨_, _, h⟩ := undergo_of_isPublic w hp
    rw [h]
  | false =>
    rcases Classical.em (o = .go supervisorId) with rfl | hgo
    · rw [undergo_supervisor]
      exact pingConfig_takeCommand w
    · obtain ⟨_, h⟩ := (talks_undergo w hp hgo).goes
      exact h.pingConfig

/-- An occurrence that is no public step leaves the listeners and `executor.closed`. -/
theorem bus_undergo (w : World) {o : Occurrence} (ho : o.isPublic = false) :
    (w.undergo o).registry = w.registry ∧
      (w.undergo o).executor.closed = w.executor.closed := by
  rcases Classical.em (o = .go supervisorId) with rfl | hgo
  · rw [undergo_supervisor]
    exact ⟨(takeCommand_spec w).1, (takeCommand_spec w).2.1⟩
  · obtain ⟨_, h⟩ := (talks_undergo w ho hgo).goes
    exact ⟨h.registry, h.closed⟩

end Steps

end World

end Bridge

end PeerLink
