import Mathlib.Data.List.Nodup
import PeerLink.Bridge.World
/-!
# The tasks of the connection

The attempts and the readers among the tasks of a world, with their numbers. The numbers of the
tasks are pairwise different, so a change of one task leaves the others.

## Main definitions

* `World.attempts`, `World.readers`: the attempts and the readers with their numbers.
* `World.Spare`: a number of neither an attempt nor a reader.
* `World.Tidy`: the numbers are pairwise different and below the next number.
-/

namespace PeerLink.Bridge

open Connection

/-- The attempt of a task, if it is one. -/
def Task.attempt? : Task → Option AttemptTask
  | attempt t => some t
  | _ => none

/-- The reader of a task, if it is one. -/
def Task.reader? : Task → Option ReaderTask
  | reader t => some t
  | _ => none

/-! ## Tasks of one kind -/

section Pick

variable {α : Type} (f : Task → Option α) (l : List (Nat × Task)) {id : Nat}

/-- The tasks on which `f` is defined, with their numbers. -/
def pick : List (Nat × α) := l.filterMap fun e => (f e.2).map (e.1, ·)

variable {f l}

theorem mem_pick {e : Nat × α} : e ∈ pick f l ↔ ∃ t, (e.1, t) ∈ l ∧ f t = some e.2 := by
  obtain ⟨id, a⟩ := e
  simp only [pick, List.mem_filterMap, Option.map_eq_some_iff, Prod.mk.injEq]
  constructor
  · rintro ⟨⟨_, t⟩, hm, _, ht, rfl, rfl⟩
    exact ⟨t, hm, ht⟩
  · rintro ⟨t, hm, ht⟩
    exact ⟨(id, t), hm, a, ht, rfl, rfl⟩

theorem fst_mem_of_pick (h : id ∈ (pick f l).map Prod.fst) : id ∈ l.map Prod.fst := by
  obtain ⟨e, he, rfl⟩ := List.mem_map.1 h
  obtain ⟨t, ht, _⟩ := mem_pick.1 he
  exact List.mem_map_of_mem ht

@[simp] theorem pick_append (a b : List (Nat × Task)) : pick f (a ++ b) = pick f a ++ pick f b :=
  List.filterMap_append

theorem pick_filter (p : Nat → Bool) :
    pick f (l.filter fun e => p e.1) = (pick f l).filter fun e => p e.1 := by
  induction l with
  | nil => rfl
  | cons e rest ih =>
    cases hp : p e.1 <;> cases hf : f e.2 <;> simp_all [pick]

theorem pick_set_of_none {t : Task} (ht : f t = none) (hid : id ∉ (pick f l).map Prod.fst) :
    pick f (l.map fun e => if e.1 = id then (id, t) else e) = pick f l := by
  induction l with
  | nil => rfl
  | cons e rest ih =>
    obtain ⟨n, u⟩ := e
    by_cases hn : n = id
    · subst hn
      cases hu : f u <;> simp_all [pick]
    · cases hu : f u <;> simp_all [pick]

theorem pick_set_of_some {t : Task} {a : α} (ht : f t = some a)
    (hid : ∀ u, (id, u) ∈ l → (f u).isSome) :
    pick f (l.map fun e => if e.1 = id then (id, t) else e) =
      (pick f l).map fun e => if e.1 = id then (id, a) else e := by
  induction l with
  | nil => rfl
  | cons e rest ih =>
    obtain ⟨n, u⟩ := e
    have ih := ih fun u hu => hid u (List.mem_cons_of_mem _ hu)
    by_cases hn : n = id
    · subst hn
      obtain ⟨b, hb⟩ := Option.isSome_iff_exists.1 (hid u List.mem_cons_self)
      simp_all [pick]
    · cases hu : f u <;> simp_all [pick]

end Pick

namespace World

/-- The attempts with their numbers. -/
def attempts (w : World) : List (Nat × AttemptTask) := pick Task.attempt? w.tasks

/-- The readers with their numbers. -/
def readers (w : World) : List (Nat × ReaderTask) := pick Task.reader? w.tasks

/-- `id` is the number of no attempt and of no reader. -/
def Spare (w : World) (id : Nat) : Prop :=
  id ∉ w.attempts.map Prod.fst ∧ id ∉ w.readers.map Prod.fst

/-- The numbers of the tasks are pairwise different and below the next number, and the ping task is
neither an attempt nor a reader. -/
structure Tidy (w : World) : Prop where
  nodup : (w.tasks.map Prod.fst).Nodup
  fresh : ∀ id ∈ w.tasks.map Prod.fst, id < w.nextTask
  pinger : ∀ id, w.pinger = some id → id < w.nextTask ∧ w.Spare id

variable {w : World} {id : Nat}

theorem mem_attempts {t : AttemptTask} : (id, t) ∈ w.attempts ↔ (id, .attempt t) ∈ w.tasks := by
  simp only [attempts, mem_pick]
  constructor
  · rintro ⟨u, hm, hu⟩
    cases u <;> simp_all [Task.attempt?]
  · intro h
    exact ⟨_, h, rfl⟩

theorem mem_readers {t : ReaderTask} : (id, t) ∈ w.readers ↔ (id, .reader t) ∈ w.tasks := by
  simp only [readers, mem_pick]
  constructor
  · rintro ⟨u, hm, hu⟩
    cases u <;> simp_all [Task.reader?]
  · intro h
    exact ⟨_, h, rfl⟩

theorem mem_of_task? {t : Task} (h : w.task? id = some t) : (id, t) ∈ w.tasks := by
  obtain ⟨a, b, h, _⟩ := List.lookup_eq_some_iff.1 h
  simp [h]

namespace Tidy

theorem of_nil (ht : w.tasks = []) (hp : w.pinger = none) : w.Tidy :=
  ⟨by simp [ht], by simp [ht], by simp [hp]⟩

theorem eq_of_mem (h : w.Tidy) {t u : Task} (ht : (id, t) ∈ w.tasks) (hu : (id, u) ∈ w.tasks) :
    t = u :=
  congrArg Prod.snd (List.inj_on_of_nodup_map h.nodup ht hu rfl)

/-- The number of a task that is neither an attempt nor a reader is spare. -/
theorem spare (h : w.Tidy) {t : Task} (ht : (id, t) ∈ w.tasks) (ha : t.attempt? = none)
    (hr : t.reader? = none) : w.Spare id := by
  constructor
  · intro hm
    obtain ⟨⟨_, a⟩, he, rfl⟩ := List.mem_map.1 hm
    rw [h.eq_of_mem ht (mem_attempts.1 he)] at ha
    cases ha
  · intro hm
    obtain ⟨⟨_, r⟩, he, rfl⟩ := List.mem_map.1 hm
    rw [h.eq_of_mem ht (mem_readers.1 he)] at hr
    cases hr

theorem nextTask_not_mem (h : w.Tidy) : w.nextTask ∉ w.tasks.map Prod.fst :=
  fun hm => Nat.lt_irrefl _ (h.fresh _ hm)

theorem of_sublist {w' : World} (h : w.Tidy)
    (hk : (w'.tasks.map Prod.fst).Sublist (w.tasks.map Prod.fst))
    (hn : w'.nextTask = w.nextTask) (hp : ∀ id, w'.pinger = some id → w.pinger = some id)
    (hs : ∀ id, w.Spare id → w'.Spare id) : w'.Tidy where
  nodup := h.nodup.sublist hk
  fresh id hid := hn ▸ h.fresh id (hk.subset hid)
  pinger id hid := by
    obtain ⟨h1, h2⟩ := h.pinger id (hp id hid)
    exact ⟨hn ▸ h1, hs id h2⟩

theorem spawn (h : w.Tidy) (t : Task) : (w.spawn t).1.Tidy where
  nodup := by
    simp only [World.spawn, List.map_append, List.map_cons, List.map_nil]
    simpa using h.nodup.concat h.nextTask_not_mem
  fresh id hid := by
    simp only [World.spawn, List.map_append, List.map_cons, List.map_nil, List.mem_append,
      List.mem_singleton] at hid ⊢
    rcases hid with hid | rfl
    · exact Nat.lt_succ_of_lt (h.fresh id hid)
    · exact Nat.lt_succ_self _
  pinger id hid := by
    obtain ⟨hlt, hs⟩ := h.pinger id hid
    have hne : id ∉ [(w.nextTask, t)].map Prod.fst := by simp; omega
    refine ⟨Nat.lt_succ_of_lt hlt, ?_, ?_⟩
    · simp only [World.spawn, attempts, pick_append, List.map_append, List.mem_append, not_or]
      exact ⟨hs.1, fun hm => hne (fst_mem_of_pick hm)⟩
    · simp only [World.spawn, readers, pick_append, List.map_append, List.mem_append, not_or]
      exact ⟨hs.2, fun hm => hne (fst_mem_of_pick hm)⟩

end Tidy

/-! ## Operations on tasks -/

theorem attempts_spawn (w : World) (t : Task) :
    (w.spawn t).1.attempts = w.attempts ++ (t.attempt?.map (w.nextTask, ·)).toList := by
  cases h : t.attempt? <;> simp [attempts, spawn, pick, h]

theorem readers_spawn (w : World) (t : Task) :
    (w.spawn t).1.readers = w.readers ++ (t.reader?.map (w.nextTask, ·)).toList := by
  cases h : t.reader? <;> simp [readers, spawn, pick, h]

theorem attempts_endTask (w : World) (id : Nat) :
    (w.endTask id).attempts = w.attempts.filter (·.1 ≠ id) := by
  simpa [attempts, endTask] using pick_filter (f := Task.attempt?) (l := w.tasks) (· ≠ id)

theorem readers_endTask (w : World) (id : Nat) :
    (w.endTask id).readers = w.readers.filter (·.1 ≠ id) := by
  simpa [readers, endTask] using pick_filter (f := Task.reader?) (l := w.tasks) (· ≠ id)

theorem keys_set {α : Type} (l : List (Nat × α)) (id : Nat) (a : α) :
    (l.map fun e => if e.1 = id then (id, a) else e).map Prod.fst = l.map Prod.fst := by
  rw [List.map_map]
  refine List.map_congr_left fun e _ => ?_
  by_cases h : e.1 = id <;> simp [h]

theorem keys_setTask (w : World) (id : Nat) (t : Task) :
    (w.setTask id t).tasks.map Prod.fst = w.tasks.map Prod.fst := keys_set _ _ _

theorem attempts_setAttempt {id : Nat} {t u : AttemptTask} (ht : w.Tidy)
    (h : (id, t) ∈ w.attempts) :
    (w.setTask id (.attempt u)).attempts =
      w.attempts.map fun e => if e.1 = id then (id, u) else e :=
  pick_set_of_some rfl fun v hv => by rw [ht.eq_of_mem hv (mem_attempts.1 h)]; rfl

theorem readers_setReader {id : Nat} {t u : ReaderTask} (ht : w.Tidy) (h : (id, t) ∈ w.readers) :
    (w.setTask id (.reader u)).readers =
      w.readers.map fun e => if e.1 = id then (id, u) else e :=
  pick_set_of_some rfl fun v hv => by rw [ht.eq_of_mem hv (mem_readers.1 h)]; rfl

theorem readers_setAttempt {id : Nat} {t u : AttemptTask} (ht : w.Tidy)
    (h : (id, t) ∈ w.attempts) : (w.setTask id (.attempt u)).readers = w.readers := by
  refine pick_set_of_none rfl fun hm => ?_
  obtain ⟨⟨_, r⟩, he, rfl⟩ := List.mem_map.1 hm
  cases ht.eq_of_mem (mem_readers.1 he) (mem_attempts.1 h)

theorem attempts_setReader {id : Nat} {t u : ReaderTask} (ht : w.Tidy)
    (h : (id, t) ∈ w.readers) : (w.setTask id (.reader u)).attempts = w.attempts := by
  refine pick_set_of_none rfl fun hm => ?_
  obtain ⟨⟨_, r⟩, he, rfl⟩ := List.mem_map.1 hm
  cases ht.eq_of_mem (mem_attempts.1 he) (mem_readers.1 h)

theorem Tidy.setAttempt {t : AttemptTask} (ht : w.Tidy) (h : (id, t) ∈ w.attempts)
    (u : AttemptTask) : (w.setTask id (.attempt u)).Tidy := by
  refine ht.of_sublist (by rw [keys_setTask]) rfl (fun _ hid => hid) fun n hn => ⟨?_, ?_⟩
  · rw [attempts_setAttempt ht h, keys_set]
    exact hn.1
  · rw [readers_setAttempt ht h]
    exact hn.2

theorem Tidy.setReader {t : ReaderTask} (ht : w.Tidy) (h : (id, t) ∈ w.readers)
    (u : ReaderTask) : (w.setTask id (.reader u)).Tidy := by
  refine ht.of_sublist (by rw [keys_setTask]) rfl (fun _ hid => hid) fun n hn => ⟨?_, ?_⟩
  · rw [attempts_setReader ht h]
    exact hn.1
  · rw [readers_setReader ht h, keys_set]
    exact hn.2

end World

end PeerLink.Bridge
