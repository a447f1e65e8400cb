import PeerLink.Bridge.Control
import PeerLink.Proofs.Bridge.Beside
/-!
# The effects of the supervisor

Only effects of the supervisor begin and abort attempts and readers. `World.Holds` lists the
attempts and the readers that there are, all of which are remembered in `attempt` and `reader`, so
that the supervisor can abort them.

## Main definitions

* `World.Holds`: the attempts and the readers that there are.
* `World.records`: the records of the plugins for several hooks.

## Main statements

* `World.frame_applyEffects`, `World.frame_takeCommand`: effects change no other fields.
* `World.Holds.cancel`, `World.Holds.startAttempt`, `World.Holds.startReader`: the attempts and the
  readers after an effect.
-/

namespace PeerLink.Bridge.World

open Transport Connection

variable {w w' : World}

/-- The records of the plugins for `hooks`, one hook after another. -/
def records (w : World) (hooks : List Hook) : List String :=
  hooks.flatMap fun hook => w.plugins.filterMap (recorded hook)

/-! ## Fields that stay -/

theorem frame_endTask (w : World) (id : Nat) : Frame [] w (w.endTask id) where
  supervisor := rfl
  commands := ⟨[], by simp [endTask]⟩
  plugins := rfl
  hooks := by simp [endTask]
  tidy h := by
    refine h.of_sublist (List.filter_sublist.map _) rfl (fun _ hid => hid) fun n hn => ⟨?_, ?_⟩
    · rw [attempts_endTask]
      exact fun hm => hn.1 ((List.filter_sublist.map _).subset hm)
    · rw [readers_endTask]
      exact fun hm => hn.2 ((List.filter_sublist.map _).subset hm)

theorem frame_abort (w : World) (id : Nat) : Frame [] w (w.abort id) := by
  unfold abort
  split
  next t _ => exact (beside_dropStream w t).toFrame.trans (frame_endTask _ id)
  · exact frame_endTask w id

theorem frame_spawn (w : World) (t : Task) (attempt reader : Option Nat) :
    Frame [] w { (w.spawn t).1 with attempt, reader } :=
  ⟨rfl, ⟨[], by simp [spawn]⟩, rfl, by simp [spawn], fun h => ⟨(h.spawn t).nodup, (h.spawn t).fresh,
    (h.spawn t).pinger⟩⟩

theorem beside_openSession (w : World) (config : ConnectionConfig) :
    Beside [] w (w.applyEffect (.openSession config)) :=
  .of_eq rfl rfl rfl rfl rfl rfl rfl rfl rfl

/-- An effect changes only tasks and what is observed. -/
theorem frame_applyEffect (ht : w.Tidy) (e : Effect) :
    Frame (w.records e.hook?.toList) w (w.applyEffect e) := by
  cases e with
  | log l => exact (beside_log w l).toFrame
  | openSession config => exact (beside_openSession w config).toFrame
  | abortAttempt =>
    show Frame [] w (w.attempt.elim w w.abort)
    cases w.attempt with
    | none => exact (Beside.refl w).toFrame
    | some id => exact frame_abort w id
  | abortReader =>
    show Frame [] w (w.reader.elim w w.abort)
    cases w.reader with
    | none => exact (Beside.refl w).toFrame
    | some id => exact frame_abort w id
  | startAttempt epoch delay expectSuccess => exact frame_spawn w _ _ _
  | startReader epoch session layout bufferSize => exact frame_spawn w _ _ _
  | notify hook =>
    have h : w.records [hook] = w.plugins.filterMap (recorded hook) := by simp [records]
    exact h ▸ (notify_spec ht hook).toFrame

theorem frame_applyEffects (ht : w.Tidy) (es : List Effect) :
    Frame (w.records (Effect.hooks es)) w (es.foldl applyEffect w) := by
  induction es generalizing w with
  | nil => exact (Beside.refl w).toFrame
  | cons e rest ih =>
    have h := frame_applyEffect ht e
    have g := h.trans (ih (h.tidy ht))
    simpa [records, h.plugins] using g

theorem takeCommand_eq {c : Command} {rest : List Command} (ha : w.supervisor.alive)
    (hc : w.commands = c :: rest) :
    w.takeCommand = (w.supervisor.handle w.opened c).2.foldl applyEffect
      { w with commands := rest, supervisor := (w.supervisor.handle w.opened c).1 } := by
  unfold takeCommand
  rw [if_pos ha, hc]
  rfl

/-- Taking a command changes `supervisor` and `commands`, and otherwise only tasks and what is
observed. -/
theorem frame_takeCommand {c : Command} {rest : List Command} (ht : w.Tidy)
    (ha : w.supervisor.alive) (hc : w.commands = c :: rest) :
    Frame (w.records (Effect.hooks (w.supervisor.handle w.opened c).2))
      { w with commands := rest, supervisor := (w.supervisor.handle w.opened c).1 }
      w.takeCommand := by
  have h := frame_applyEffects (w := { w with
      commands := rest, supervisor := (w.supervisor.handle w.opened c).1 })
    ⟨ht.nodup, ht.fresh, ht.pinger⟩ (w.supervisor.handle w.opened c).2
  rwa [takeCommand_eq ha hc]

/-! ## Attempts and readers -/

/-- The attempts of `w` are `as` and its readers are `rs`, and all of them are remembered in
`attempt` and `reader`. -/
structure Holds (w : World) (as : List (Nat × AttemptTask)) (rs : List (Nat × ReaderTask)) :
    Prop where
  tidy : w.Tidy
  attempts : w.attempts = as
  readers : w.readers = rs
  attempt : ∀ e ∈ as, w.attempt = some e.1
  reader : ∀ e ∈ rs, w.reader = some e.1

namespace Holds

variable {as : List (Nat × AttemptTask)} {rs : List (Nat × ReaderTask)}

theorem beside {called : List String} (h : w.Holds as rs) (hb : Beside called w w') :
    w'.Holds as rs where
  tidy := hb.tidy h.tidy
  attempts := hb.attempts.trans h.attempts
  readers := hb.readers.trans h.readers
  attempt e he := hb.attempt.trans (h.attempt e he)
  reader e he := hb.reader.trans (h.reader e he)

theorem quiet (h : w.Holds as rs) {e : Effect} (hq : e.isQuiet) :
    (w.applyEffect e).Holds as rs := by
  cases e with
  | log l => exact h.beside (beside_log w l)
  | openSession config => exact h.beside (beside_openSession w config)
  | notify hook => exact h.beside (notify_spec h.tidy hook)
  | _ => cases hq

theorem quietly (h : w.Holds as rs) {es : List Effect} (hq : ∀ e ∈ es, e.isQuiet) :
    (es.foldl applyEffect w).Holds as rs := by
  induction es generalizing w with
  | nil => exact h
  | cons e rest ih =>
    exact ih (h.quiet (hq e List.mem_cons_self)) fun e he => hq e (List.mem_cons_of_mem _ he)

theorem endTask (h : w.Holds as rs) (id : Nat) :
    (w.endTask id).Holds (as.filter (·.1 ≠ id)) (rs.filter (·.1 ≠ id)) where
  tidy := (frame_endTask w id).tidy h.tidy
  attempts := by rw [attempts_endTask, h.attempts]
  readers := by rw [readers_endTask, h.readers]
  attempt e he := h.attempt e (List.mem_of_mem_filter he)
  reader e he := h.reader e (List.mem_of_mem_filter he)

theorem abort (h : w.Holds as rs) (id : Nat) :
    (w.abort id).Holds (as.filter (·.1 ≠ id)) (rs.filter (·.1 ≠ id)) := by
  unfold World.abort
  split
  next t _ => exact (h.beside (beside_dropStream w t)).endTask id
  · exact h.endTask id

theorem abortAttempt (h : w.Holds as rs) :
    ∃ rest, rest.Sublist rs ∧ (w.applyEffect .abortAttempt).Holds [] rest := by
  show ∃ rest, rest.Sublist rs ∧ (w.attempt.elim w w.abort).Holds [] rest
  cases ha : w.attempt with
  | none =>
    have hnil : as = [] := List.eq_nil_iff_forall_not_mem.2 fun e he => by
      simpa [ha] using h.attempt e he
    exact ⟨rs, .refl _, hnil ▸ h⟩
  | some id =>
    have hnil : as.filter (·.1 ≠ id) = [] := List.filter_eq_nil_iff.2 fun e he => by
      simpa using (Option.some.inj (ha.symm.trans (h.attempt e he))).symm
    exact ⟨_, List.filter_sublist, hnil ▸ h.abort id⟩

theorem abortReader (h : w.Holds [] rs) : (w.applyEffect .abortReader).Holds [] [] := by
  show (w.reader.elim w w.abort).Holds [] []
  cases hr : w.reader with
  | none =>
    have hnil : rs = [] := List.eq_nil_iff_forall_not_mem.2 fun e he => by
      simpa [hr] using h.reader e he
    exact hnil ▸ h
  | some id =>
    have hnil : rs.filter (·.1 ≠ id) = [] := List.filter_eq_nil_iff.2 fun e he => by
      simpa using (Option.some.inj (hr.symm.trans (h.reader e he))).symm
    exact hnil ▸ h.abort id

/-- Aborting the attempt and the reader of the supervisor aborts all, if there are none that it does
not own. -/
theorem cancel {s : Supervisor} (h : w.Holds as rs) (ha : s.attempt = none → as = [])
    (hr : s.reader = none → rs = []) : (s.cancelling.foldl applyEffect w).Holds [] [] := by
  have hfirst : ∃ rest, rest.Sublist rs ∧
      ((if s.attempt.isSome then [Effect.abortAttempt] else []).foldl applyEffect w).Holds
        [] rest := by
    cases hs : s.attempt with
    | none => exact ⟨rs, .refl _, ha hs ▸ h⟩
    | some _ => exact h.abortAttempt
  obtain ⟨rest, hrest, hfirst⟩ := hfirst
  rw [Supervisor.cancelling, List.foldl_append]
  cases hs : s.reader with
  | none =>
    obtain rfl := List.sublist_nil.1 (hr hs ▸ hrest)
    exact hfirst
  | some _ => exact hfirst.abortReader

theorem startAttempt (h : w.Holds [] rs) (epoch : Nat) (delay : Span) (expectSuccess : Bool) :
    ∃ id, (w.applyEffect (.startAttempt epoch delay expectSuccess)).Holds
      [(id, ⟨epoch, expectSuccess, .planned delay⟩)] rs := by
  have hf := frame_applyEffect h.tidy (.startAttempt epoch delay expectSuccess)
  refine ⟨w.nextTask, hf.tidy h.tidy, ?_, ?_, ?_, h.reader⟩
  · exact (attempts_spawn w _).trans (by rw [h.attempts]; rfl)
  · exact (readers_spawn w _).trans (by rw [h.readers]; exact List.append_nil _)
  · rintro _ (_ | ⟨_, ⟨⟩⟩)
    rfl

theorem startReader (h : w.Holds as []) (epoch : Nat) (session : Session) (layout : TopicLayout)
    (bufferSize : Nat) :
    ∃ id t, t.epoch = epoch ∧
      (w.applyEffect (.startReader epoch session layout bufferSize)).Holds as [(id, t)] := by
  have hf := frame_applyEffect h.tidy (.startReader epoch session layout bufferSize)
  refine ⟨w.nextTask, { epoch, session, layout, decoder := { limit := bufferSize } }, rfl,
    hf.tidy h.tidy, ?_, ?_, h.attempt, ?_⟩
  · exact (attempts_spawn w _).trans (by rw [h.attempts]; exact List.append_nil _)
  · exact (readers_spawn w _).trans (by rw [h.readers]; rfl)
  · rintro _ (_ | ⟨_, ⟨⟩⟩)
    rfl

end Holds

end PeerLink.Bridge.World
