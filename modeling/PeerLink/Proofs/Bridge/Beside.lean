import PeerLink.Bridge.Schedule
import PeerLink.Proofs.Bridge.Tasks
import PeerLink.Proofs.Connection.Supervisor
/-!
# Operations beside the connection

Callbacks, pings, requests, the server and the clock change neither the supervisor nor the attempts
and readers. They may send commands of no epoch to the supervisor. This is `World.Beside`. A hook
changes no more, but for the records of the plugins that it calls.

## Main definitions

* `World.Frame`, `World.Beside`: operations that leave the supervisor as it is, and also the
  attempts and readers.
* `World.recorded`: the record of a plugin that is called.

## Main statements

* `World.beside_pollJob`, `World.beside_pollPinger`, `World.beside_pollErrand`: polling a task that
  is neither an attempt nor a reader.
* `World.notify_spec`: calling a hook.
-/

namespace PeerLink.Bridge.World

open Transport Connection

/-- From `w` to `w'` the supervisor takes no command, and the plugins record `called`. -/
structure Frame (called : List String) (w w' : World) : Prop where
  supervisor : w'.supervisor = w.supervisor
  commands : ∃ sent, w'.commands = w.commands ++ sent ∧
    ∀ c ∈ sent, c.Foreign w.supervisor.epoch
  plugins : w'.plugins = w.plugins
  hooks : w'.trace.hooks = w.trace.hooks ++ called
  tidy : w.Tidy → w'.Tidy

/-- From `w` to `w'` also the attempts and readers stay. -/
structure Beside (called : List String) (w w' : World) : Prop extends Frame called w w' where
  attempts : w'.attempts = w.attempts
  readers : w'.readers = w.readers
  attempt : w'.attempt = w.attempt
  reader : w'.reader = w.reader

section

variable {a b : List String} {u v w : World}

theorem Frame.trans (h : Frame a u v) (g : Frame b v w) : Frame (a ++ b) u w where
  supervisor := g.supervisor.trans h.supervisor
  commands := by
    obtain ⟨sent, hs, hf⟩ := h.commands
    obtain ⟨more, hm, hg⟩ := g.commands
    refine ⟨sent ++ more, by simp [hm, hs], fun c hc => ?_⟩
    rcases List.mem_append.1 hc with hc | hc
    · exact hf c hc
    · exact h.supervisor ▸ hg c hc
  plugins := g.plugins.trans h.plugins
  hooks := by rw [g.hooks, h.hooks, List.append_assoc]
  tidy ht := g.tidy (h.tidy ht)

namespace Beside

/-- The fields of the connection stay. -/
theorem of_eq (hs : v.supervisor = u.supervisor) (hc : v.commands = u.commands)
    (ht : v.tasks = u.tasks) (hn : v.nextTask = u.nextTask) (ha : v.attempt = u.attempt)
    (hr : v.reader = u.reader) (hl : v.plugins = u.plugins) (hp : v.pinger = u.pinger)
    (hh : v.trace.hooks = u.trace.hooks) : Beside [] u v where
  supervisor := hs
  commands := ⟨[], by simp [hc]⟩
  plugins := hl
  hooks := by simp [hh]
  tidy h := h.of_sublist (ht ▸ .refl _) hn (fun _ hid => hp ▸ hid) fun id hid => by
    simpa only [Spare, World.attempts, World.readers, ht] using hid
  attempts := by simp [World.attempts, ht]
  readers := by simp [World.readers, ht]
  attempt := ha
  reader := hr

theorem refl (u : World) : Beside [] u u := of_eq rfl rfl rfl rfl rfl rfl rfl rfl rfl

theorem trans (h : Beside a u v) (g : Beside b v w) : Beside (a ++ b) u w where
  toFrame := h.toFrame.trans g.toFrame
  attempts := g.attempts.trans h.attempts
  readers := g.readers.trans h.readers
  attempt := g.attempt.trans h.attempt
  reader := g.reader.trans h.reader

theorem andThen (h : Beside [] u v) (g : Beside [] v w) : Beside [] u w := h.trans g

theorem spare (h : Beside a u v) {id : Nat} : v.Spare id ↔ u.Spare id := by
  simp [Spare, h.attempts, h.readers]

end Beside

end

/-! ## Operations on other tasks -/

section Tasks

variable {w : World} {id : Nat} {t : Task}

theorem beside_log (w : World) (l : LogLine) : Beside [] w (w.log l) :=
  .of_eq rfl rfl rfl rfl rfl rfl rfl rfl rfl

theorem beside_logJob (w : World) (l : LogLine) : Beside [] w (w.logJob l) :=
  .of_eq rfl rfl rfl rfl rfl rfl rfl rfl rfl

theorem beside_wake (w : World) (id : Nat) : Beside [] w (w.wake id) := by
  unfold wake
  split
  · exact .refl w
  · exact .of_eq rfl rfl rfl rfl rfl rfl rfl rfl rfl

theorem beside_send {c : Command} (hc : c.Foreign w.supervisor.epoch) :
    Beside [] w (w.send c).1 := by
  unfold send
  split
  · refine Beside.andThen (v := { w with commands := w.commands ++ [c] }) ?_ (beside_wake _ _)
    exact ⟨⟨rfl, ⟨[c], rfl, by simpa using hc⟩, rfl, by simp,
      fun h => ⟨h.nodup, h.fresh, h.pinger⟩⟩, rfl, rfl, rfl, rfl⟩
  · exact .refl w

theorem beside_spawn (w : World) (ha : t.attempt? = none) (hr : t.reader? = none) :
    Beside [] w (w.spawn t).1 := by
  have hat : (w.spawn t).1.attempts = w.attempts := by
    rw [attempts_spawn, ha]
    exact List.append_nil _
  have hre : (w.spawn t).1.readers = w.readers := by
    rw [readers_spawn, hr]
    exact List.append_nil _
  exact ⟨⟨rfl, ⟨[], by simp [spawn]⟩, rfl, by simp [spawn], fun h => h.spawn t⟩, hat, hre, rfl, rfl⟩

theorem beside_setTask (hs : w.Spare id) (ha : t.attempt? = none) (hr : t.reader? = none) :
    Beside [] w (w.setTask id t) := by
  have hat : (w.setTask id t).attempts = w.attempts := pick_set_of_none ha hs.1
  have hre : (w.setTask id t).readers = w.readers := pick_set_of_none hr hs.2
  refine ⟨⟨rfl, ⟨[], by simp [setTask]⟩, rfl, by simp [setTask], fun h => ?_⟩, hat, hre, rfl, rfl⟩
  refine h.of_sublist (by rw [keys_setTask]) rfl (fun _ hid => hid) fun n hn => ?_
  simpa only [Spare, hat, hre] using hn

theorem beside_sleep (hs : w.Spare id) (ms : Nat) (ha : t.attempt? = none) (hr : t.reader? = none) :
    Beside [] w (w.sleep id ms t) :=
  (beside_setTask hs ha hr).andThen (.of_eq rfl rfl rfl rfl rfl rfl rfl rfl rfl)

theorem beside_endTask (hs : w.Spare id) : Beside [] w (w.endTask id) := by
  have hat : (w.endTask id).attempts = w.attempts := by
    rw [attempts_endTask]
    refine List.filter_eq_self.2 fun e he => ?_
    simpa using fun h : e.1 = id => hs.1 (h ▸ List.mem_map_of_mem he)
  have hre : (w.endTask id).readers = w.readers := by
    rw [readers_endTask]
    refine List.filter_eq_self.2 fun e he => ?_
    simpa using fun h : e.1 = id => hs.2 (h ▸ List.mem_map_of_mem he)
  refine ⟨⟨rfl, ⟨[], by simp [endTask]⟩, rfl, by simp [endTask], fun h => ?_⟩, hat, hre, rfl, rfl⟩
  refine h.of_sublist (List.filter_sublist.map _) rfl (fun _ hid => hid) fun n hn => ?_
  simpa only [Spare, hat, hre] using hn

end Tasks

/-! ## Requests -/

theorem beside_finishCall (w : World) (call : Call) : Beside [] w (w.finishCall call).1 := by
  have hlost (reason : String) : Beside [] w (w.send (.setOffline (some call.epoch) reason)).1 :=
    beside_send trivial
  unfold finishCall
  rcases call.request.conclude call.answer with ⟨_, _ | reason, _ | text⟩
  · exact .refl w
  · exact beside_log w _
  · exact hlost reason
  · exact (hlost reason).andThen (beside_log _ _)

theorem beside_begin (w : World) (r : Request) : Beside [] w (w.begin r).1 := by
  unfold begin
  split
  · exact .refl w
  · exact .refl w
  next epoch out _ =>
    dsimp only
    have h : Beside [] w ({ w with script := (w.script.respond out).2 }.observe out) :=
      .of_eq rfl rfl rfl rfl rfl rfl rfl rfl rfl
    split
    · exact h.andThen (beside_finishCall _ _)
    · exact h

/-! ## Events to callbacks -/

theorem beside_submit (w : World) (callback : Callback) (e : Event) :
    Beside [] w (w.submit callback e) :=
  Beside.andThen (v := { w with executor.inFlight := w.executor.inFlight + 1 })
    (.of_eq rfl rfl rfl rfl rfl rfl rfl rfl rfl) (beside_spawn _ rfl rfl)

theorem beside_foldl {α : Type} {f : World → α → World} (h : ∀ w a, Beside [] w (f w a))
    (l : List α) (w : World) : Beside [] w (l.foldl f w) := by
  induction l generalizing w with
  | nil => exact .refl w
  | cons a rest ih => exact (h w a).andThen (ih _)

theorem beside_publish (w : World) (topic : String) (e : Event) :
    Beside [] w (w.publish topic e).1 := by
  unfold publish
  split
  · exact .refl w
  · exact beside_foldl (fun w (l : Listener) => beside_submit w l.callback e) _ w

theorem beside_deliver (w : World) (j : Job) : Beside [] w (w.deliver j) := by
  unfold deliver
  split
  · exact .refl w
  · exact .of_eq rfl rfl rfl rfl rfl rfl rfl rfl rfl

theorem beside_perform (w : World) (j : Job) : Beside [] w (w.perform j).1 := by
  unfold perform
  dsimp only
  split
  · exact .refl w
  · exact .refl w
  · exact .refl w
  · exact beside_publish w _ _
  · exact .of_eq rfl rfl rfl rfl rfl rfl rfl rfl rfl
  next r _ =>
    have h := beside_begin w r
    split <;> simp_all

theorem beside_reportFailure (w : World) (j : Job) (f : CallbackFailure) :
    Beside [] w (w.reportFailure j f) := by
  unfold reportFailure
  dsimp only
  have h := (beside_logJob w (.error ("Error in " ++ f.name ++ ": " ++ f.description))).andThen
    (beside_foldl (fun w line => beside_logJob w (.error line)) f.traceLines _)
  split
  · exact h
  · exact h.andThen (beside_publish _ _ _)

section Jobs

variable {w : World} {id : Nat}

/-- Releasing a worker changes the phase of a job at most. -/
theorem beside_release (ht : w.Tidy) : Beside [] w w.release := by
  unfold release
  split
  · exact .of_eq rfl rfl rfl rfl rfl rfl rfl rfl rfl
  next id rest _ =>
    dsimp only
    have h : Beside [] w { w with executor.waiting := rest } :=
      .of_eq rfl rfl rfl rfl rfl rfl rfl rfl rfl
    split
    next j hj =>
      have hs := (h.tidy ht).spare (mem_of_task? hj) rfl rfl
      exact (h.andThen (beside_setTask hs rfl rfl)).andThen (beside_wake _ _)
    · exact h

theorem beside_endJob (hs : w.Spare id) (j : Job) (failure : Option CallbackFailure) :
    Beside [] w (w.endJob id j failure) := by
  have hend {w' : World} (h : Beside [] w w') :
      Beside [] w ({ w' with executor.inFlight := w'.executor.inFlight - 1 }.endTask id) := by
    have h : Beside [] w { w' with executor.inFlight := w'.executor.inFlight - 1 } :=
      h.andThen (.of_eq rfl rfl rfl rfl rfl rfl rfl rfl rfl)
    exact h.andThen (beside_endTask (h.spare.2 hs))
  cases failure with
  | none => exact hend (.refl w)
  | some f => exact hend (beside_reportFailure w j f)

theorem beside_endWork (ht : w.Tidy) (hs : w.Spare id) (j : Job)
    (failure : Option CallbackFailure) : Beside [] w (w.endWork id j failure) := by
  have hend {w' : World} (h : Beside [] w w') : Beside [] w
      ((w'.release.setTask id (.job { j with phase := .returned failure })).wake id) := by
    have h := h.andThen (beside_release (h.tidy ht))
    exact (h.andThen (beside_setTask (h.spare.2 hs) rfl rfl)).andThen (beside_wake _ _)
  unfold endWork
  dsimp only
  split
  · exact hend (beside_logJob w _)
  · exact hend (.refl w)

theorem beside_act (hs : w.Spare id) (j : Job) : Beside [] w (w.act id j) := by
  have h := beside_perform w j
  unfold act
  split
  next w' failure heq =>
    rw [heq] at h
    exact h.andThen (beside_endJob (h.spare.2 hs) j failure)
  next w' call ms heq =>
    rw [heq] at h
    exact h.andThen (beside_sleep (h.spare.2 hs) ms rfl rfl)

/-- A job on a worker is done with its deed, or it waits for an answer. -/
theorem beside_deed (ht : w.Tidy) (hs : w.Spare id) (j : Job) :
    Beside [] w (match (w.deliver j).perform j with
      | (w, .now failure) => w.endWork id j failure
      | (w, .later call ms) => w.sleep id ms (.job { j with phase := .asking call })) := by
  have h := (beside_deliver w j).andThen (beside_perform _ j)
  split
  next w' failure heq =>
    rw [heq] at h
    exact h.andThen (beside_endWork (h.tidy ht) (h.spare.2 hs) j failure)
  next w' call ms heq =>
    rw [heq] at h
    exact h.andThen (beside_sleep (h.spare.2 hs) ms rfl rfl)

theorem beside_work (ht : w.Tidy) (hs : w.Spare id) (j : Job) : Beside [] w (w.work id j) := by
  unfold work
  rcases Decidable.em (w.executor.slowStart.nanos < instantSpan.nanos) with h | h
  · simp only [if_pos h]
    have hl := beside_logJob w (.warn ("Starting of " ++ j.callback.name ++ " took too long"))
    exact hl.andThen (beside_deed (hl.tidy ht) (hl.spare.2 hs) j)
  · simp only [if_neg h]
    exact beside_deed ht hs j

/-- Polling a job is beside the connection. -/
theorem beside_pollJob (ht : w.Tidy) (hs : w.Spare id) (j : Job) :
    Beside [] w (w.pollJob id j) := by
  unfold pollJob
  split
  · split
    · dsimp only
      have h := beside_deliver w j
      split
      · exact h.andThen (beside_act (h.spare.2 hs) j)
      · exact h.andThen (beside_sleep (h.spare.2 hs) _ rfl rfl)
    · split
      · have h : Beside [] w { w with executor.waiting := w.executor.waiting ++ [id] } :=
          .of_eq rfl rfl rfl rfl rfl rfl rfl rfl rfl
        exact h.andThen (beside_setTask (h.spare.2 hs) rfl rfl)
      · have h : Beside [] w { w with executor.free := w.executor.free - 1 } :=
          .of_eq rfl rfl rfl rfl rfl rfl rfl rfl rfl
        exact h.andThen (beside_work (h.tidy ht) (h.spare.2 hs) j)
  · exact .refl w
  · exact beside_work ht hs j
  · exact beside_act hs j
  next call _ =>
    dsimp only
    have h := beside_finishCall w call
    split
    · exact h.andThen (beside_endJob (h.spare.2 hs) j _)
    · exact h.andThen (beside_endWork (h.tidy ht) (h.spare.2 hs) j _)
  · exact beside_endJob hs j _

/-! ## Pings and errands -/

theorem beside_afterPing (hs : w.Spare id) (reply : Reply) :
    Beside [] w (w.afterPing id reply) := by
  unfold afterPing
  dsimp only
  split
  · exact beside_sleep hs _ rfl rfl
  next e =>
    split
    · exact beside_endTask hs
    · have h := beside_log w (.error ("Ping to " ++ w.pingConfig.item ++ " failed: " ++ e.message))
      exact h.andThen (beside_sleep (h.spare.2 hs) _ rfl rfl)

theorem beside_beat (hs : w.Spare id) : Beside [] w (w.beat id) := by
  unfold beat
  dsimp only
  have h : Beside [] w { w with ping := (w.ping.beat w.now).1 } :=
    .of_eq rfl rfl rfl rfl rfl rfl rfl rfl rfl
  have h := h.andThen
    (beside_begin _ (.postUpdate w.pingConfig.item (w.ping.beat w.now).2))
  split
  next w' reply heq =>
    rw [heq] at h
    exact h.andThen (beside_afterPing (h.spare.2 hs) reply)
  next w' call ms heq =>
    rw [heq] at h
    exact h.andThen (beside_sleep (h.spare.2 hs) ms rfl rfl)

theorem beside_pollPinger (hs : w.Spare id) (phase : PingPhase) :
    Beside [] w (w.pollPinger id phase) := by
  unfold pollPinger
  split
  · split
    · exact beside_beat hs
    · exact beside_sleep hs _ rfl rfl
  · exact beside_beat hs
  next call =>
    have h := beside_finishCall w call
    exact h.andThen (beside_afterPing (h.spare.2 hs) _)

theorem beside_endErrand (hs : w.Spare id) (t : Errand) (reply : Reply) :
    Beside [] w (w.endErrand id t reply) := by
  have h : Beside [] w { w with trace.finished := w.trace.finished ++ [(t.tag, reply)] } :=
    .of_eq rfl rfl rfl rfl rfl rfl rfl rfl rfl
  exact h.andThen (beside_endTask (h.spare.2 hs))

theorem beside_pollErrand (hs : w.Spare id) (t : Errand) : Beside [] w (w.pollErrand id t) := by
  unfold pollErrand
  split
  · have h := beside_begin w t.request
    split
    next w' reply heq =>
      rw [heq] at h
      exact h.andThen (beside_endErrand (h.spare.2 hs) t reply)
    next w' call ms heq =>
      rw [heq] at h
      exact h.andThen (beside_sleep (h.spare.2 hs) ms rfl rfl)
  next call _ =>
    have h := beside_finishCall w call
    exact h.andThen (beside_endErrand (h.spare.2 hs) t _)

end Jobs

/-! ## Plugins -/

/-- The record of a plugin whose `hook` is called. The plugin of the pings records nothing. -/
def recorded (hook : Hook) : Plugin → Option String
  | .scripted name _ => some (name ++ "." ++ hookName hook)
  | .ping => none

section Plugins

variable {w : World}

theorem beside_stopPing (ht : w.Tidy) : Beside [] w w.stopPing := by
  have hnone (w : World) (ping : Ping) : Beside [] w { w with ping, pinger := none } :=
    ⟨⟨rfl, ⟨[], by simp⟩, rfl, by simp, fun h => ⟨h.nodup, h.fresh, nofun⟩⟩, rfl, rfl, rfl, rfl⟩
  unfold stopPing
  cases hp : w.pinger with
  | none => exact hnone w _
  | some id => exact (beside_endTask (ht.pinger id hp).2).andThen (hnone _ _)

theorem beside_startPing (ht : w.Tidy) : Beside [] w w.startPing := by
  have hstart (w : World) : Beside [] w
      { (w.spawn (.pinger .planned)).1 with pinger := some w.nextTask } := by
    have h := beside_spawn (t := .pinger .planned) w rfl rfl
    refine ⟨⟨h.supervisor, h.commands, h.plugins, h.hooks,
      fun ht => ⟨(h.tidy ht).nodup, (h.tidy ht).fresh, fun id hid => ?_⟩⟩,
      h.attempts, h.readers, h.attempt, h.reader⟩
    -- the number of the pinging was given to no other task
    obtain rfl : w.nextTask = id := Option.some.inj hid
    exact ⟨Nat.lt_succ_self _, h.spare.2 ⟨fun hm => ht.nextTask_not_mem (fst_mem_of_pick hm),
      fun hm => ht.nextTask_not_mem (fst_mem_of_pick hm)⟩⟩
  exact ((beside_stopPing ht).andThen (beside_log _ _)).andThen (hstart _)

/-- Calling a plugin is beside the connection, and is recorded. -/
theorem beside_callHook (ht : w.Tidy) (hook : Hook) (p : Plugin) :
    Beside (recorded hook p).toList w (w.callHook hook p).1 := by
  cases p with
  | scripted name failing =>
    exact ⟨⟨rfl, ⟨[], by simp [callHook]⟩, rfl, rfl, fun h => ⟨h.nodup, h.fresh, h.pinger⟩⟩,
      rfl, rfl, rfl, rfl⟩
  | ping =>
    show Beside [] w _
    rcases Decidable.em (!w.pingConfig.enabled ∧ hook ≠ .disconnect) with h | h
    · simp only [callHook, if_pos h]
      exact .refl w
    · simp only [callHook, if_neg h]
      cases hook with
      | setup => exact .of_eq rfl rfl rfl rfl rfl rfl rfl rfl rfl
      | connect => exact beside_startPing ht
      | disconnect => exact beside_stopPing ht

/-- The same holds if the failure of the plugin is written into the log. -/
theorem beside_logFailure (ht : w.Tidy) (hook : Hook) (p : Plugin) :
    Beside (recorded hook p).toList w (match w.callHook hook p with
      | (w, none) => w
      | (w, some cause) => w.log (.error
        ("Plugin " ++ pluginName p ++ " failed on " ++ hookName hook ++ ": " ++ cause))) := by
  have h := beside_callHook ht hook p
  split
  next w' heq => rwa [heq] at h
  next w' cause heq =>
    rw [heq] at h
    simpa using h.trans (beside_log w' _)

/-- Calling a hook is beside the connection, and is recorded by all plugins in their order, whether
they fail or not. -/
theorem notify_spec (ht : w.Tidy) (hook : Hook) :
    Beside (w.plugins.filterMap (recorded hook)) w (w.notify hook) := by
  unfold notify
  induction w.plugins generalizing w with
  | nil => exact .refl w
  | cons p rest ih =>
    have hcall := beside_logFailure ht hook p
    have hrec : (p :: rest).filterMap (recorded hook) =
        (recorded hook p).toList ++ rest.filterMap (recorded hook) := by
      cases h : recorded hook p <;> simp [h]
    exact hrec ▸ hcall.trans (ih (hcall.tidy ht))

end Plugins

/-! ## Events from the stream -/

theorem beside_dropStream (w : World) (t : ReaderTask) : Beside [] w (w.dropStream t) := by
  unfold dropStream
  split
  · exact .of_eq rfl rfl rfl rfl rfl rfl rfl rfl rfl
  · exact .refl w

theorem beside_takeEvent (w : World) (topic : String) (e : Event) :
    Beside [] w (w.takeEvent topic e) :=
  Beside.andThen (v := { w with items := w.items.apply e })
    (.of_eq rfl rfl rfl rfl rfl rfl rfl rfl rfl) (beside_publish _ topic e)

theorem beside_doActs (w : World) (acts : List Feed.Act) : Beside [] w (w.doActs acts).1 := by
  fun_induction doActs w acts with
  | case1 w => exact .refl w
  | case2 w l rest ih => exact (beside_log w l).andThen ih
  | case3 w topic e rest ih => exact (beside_takeEvent w topic e).andThen ih
  | case4 w e rest => exact .refl w

theorem beside_of_doActs {w w' : World} {acts : List Feed.Act} {e : Option Feed.End}
    (h : w.doActs acts = (w', e)) : Beside [] w w' := by
  simpa only [h] using beside_doActs w acts

theorem beside_takePieces (w : World) (t : ReaderTask) (pieces : List Piece) :
    Beside [] w (w.takePieces t pieces).1 := by
  fun_induction takePieces w t pieces with
  | case1 w t => exact .refl w
  | case2 _ _ _ _ _ _ _ _ h ih => exact (beside_of_doActs h).andThen ih
  | case3 _ _ _ _ _ _ _ _ _ h => exact beside_of_doActs h
  | case4 _ _ _ _ _ _ h => exact beside_of_doActs h
  | case5 _ _ _ _ _ h => exact beside_of_doActs h

/-- `World.takePieces` changes only the decoder of the reader. -/
theorem takePieces_task (w : World) (t : ReaderTask) (pieces : List Piece) :
    ∃ decoder, (w.takePieces t pieces).2.1 = { t with decoder } := by
  fun_induction takePieces w t pieces with
  | case2 _ _ _ _ _ _ _ _ _ ih => exact ih
  | _ => exact ⟨_, rfl⟩

end PeerLink.Bridge.World
