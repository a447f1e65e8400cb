import PeerLink.Proofs.Bridge.Launch
import PeerLink.Proofs.Bridge.Traffic
/-!
# The audience of an event

Listeners are added and removed in any order, one by one, several at a time or all of them. The
registry holds those that have been added and that no later occurrence removes. An event is
submitted to the listeners in the registry that accept it.

## Main definitions

* `Occurrence.removes`, `Occurrence.adds?`: the listeners removed and added at an occurrence.
* `Registry.standing`: the listeners that a history leaves.
* `World.issued`: the numbers returned to those who add listeners.
* `World.handedOut`: an event is submitted to several listeners.

## Main statements

* `World.registry_course`: the registry holds `Registry.standing`.
* `World.fanout_of_course`: publishing and removing after any history.
-/

namespace PeerLink

open Connection Bridge

/-! ## Histories -/

namespace Bridge.Occurrence

/-- Whether `o` removes the listener `id`. -/
def removes (o : Occurrence) (id : Nat) : Bool :=
  match o with
  | .step (.unlisten i) => i = id
  | .step (.unlistenMany ids) => ids.contains id
  | .step .unlistenAll => true
  | _ => false

/-- The listener that an occurrence adds with the number `id`, if any. -/
def adds? (id : Nat) : Occurrence → Option Listener
  | .step (.listen pattern filter callback) => some ⟨id, pattern, filter, callback⟩
  | _ => none

/-- Whether an occurrence closes the executor. -/
def closes : Occurrence → Bool
  | .step .closeExecutor => true
  | _ => false

theorem of_not_isPublic {o : Occurrence} (h : o.isPublic = false) (id : Nat) :
    o.removes id = false ∧ o.adds? id = none ∧ o.closes = false := by
  cases o with
  | step s => cases s <;> simp_all [isPublic, Step.isPublic, removes, adds?, closes]
  | _ => exact ⟨rfl, rfl, rfl⟩

theorem id_of_adds? {o : Occurrence} {id : Nat} {l : Listener} (h : o.adds? id = some l) :
    l.id = id := by
  unfold adds? at h
  split at h
  · obtain rfl := Option.some.inj h
    rfl
  · cases h

theorem removes_of_adds? {o : Occurrence} {id : Nat} {l : Listener} (h : o.adds? id = some l)
    (n : Nat) : o.removes n = false := by
  unfold adds? at h
  split at h
  · rfl
  · cases h

end Bridge.Occurrence

namespace Registry

/-- The listeners added with numbers from `next`, each with the occurrences after it. -/
def additions (next : Nat) : List Occurrence → List (Listener × List Occurrence)
  | [] => []
  | o :: os =>
    match o.adds? next with
    | some l => (l, os) :: additions (next + 1) os
    | none => additions next os

/-- The listeners after `os`: those of `r` or added by `os` that no later occurrence removes. -/
def standing (r : Registry) (os : List Occurrence) : List Listener :=
  ((r.listeners.map (·, os) ++ additions r.nextId os).filter
    fun (l, later) => !later.any (·.removes l.id)).map Prod.fst

/-- The registry after `o`. -/
def after (r : Registry) (o : Occurrence) : Registry where
  listeners := r.listeners.filter (!o.removes ·.id) ++ (o.adds? r.nextId).toList
  nextId := r.nextId + (o.adds? r.nextId).toList.length

/-- The listeners of `r` have increasing numbers below `r.nextId`. -/
structure Ordered (r : Registry) : Prop where
  sorted : r.listeners.Pairwise (·.id < ·.id)
  given : ∀ l ∈ r.listeners, l.id < r.nextId

variable {r : Registry} {o : Occurrence}

theorem Ordered.after (h : r.Ordered) (o : Occurrence) : (r.after o).Ordered where
  sorted := by
    unfold Registry.after
    cases ha : o.adds? r.nextId with
    | none => simpa using h.sorted.filter _
    | some l =>
      rw [Option.toList_some, List.pairwise_append]
      refine ⟨h.sorted.filter _, List.pairwise_singleton _ _, ?_⟩
      intro a hm b hb
      obtain rfl := List.mem_singleton.1 hb
      rw [Occurrence.id_of_adds? ha]
      exact h.given a (List.mem_of_mem_filter hm)
  given l hl := by
    unfold Registry.after at hl ⊢
    rcases List.mem_append.1 hl with hl | hl
    · exact Nat.lt_add_right _ (h.given l (List.mem_of_mem_filter hl))
    · cases ha : o.adds? r.nextId with
      | none => simp [ha] at hl
      | some l' =>
        obtain rfl : l = l' := by simpa [ha] using hl
        simp [Occurrence.id_of_adds? ha]

theorem standing_nil (r : Registry) : r.standing [] = r.listeners := by
  simp [standing, additions, List.filter_map, Function.comp_def]

theorem standing_cons (r : Registry) (o : Occurrence) (os : List Occurrence) :
    r.standing (o :: os) = (r.after o).standing os := by
  cases ha : o.adds? r.nextId with
  | none =>
    simp [standing, additions, after, ha, List.filter_map, Function.comp_def, Bool.and_comm]
  | some l =>
    have hnone := Occurrence.removes_of_adds? ha
    simp [standing, additions, after, ha, hnone, List.filter_map, Function.comp_def,
      List.filter_cons]

/-- Listeners are added with consecutive numbers. -/
theorem additions_ids (next : Nat) (os : List Occurrence) :
    (additions next os).map (·.1.id) = List.range' next (additions next os).length := by
  induction os generalizing next with
  | nil => rfl
  | cons o os ih =>
    unfold additions
    split
    next l hl => simp [ih, Occurrence.id_of_adds? hl, List.range'_succ]
    · exact ih next

/-- `Registry.removeMany` returns the number of listeners removed. -/
theorem removeMany_eq (r : Registry) (ids : List Nat) :
    r.removeMany ids = ({ r with listeners := r.listeners.filter fun l => !ids.contains l.id },
      (r.listeners.filter fun l => ids.contains l.id).length) := by
  have h := List.length_eq_length_filter_add (l := r.listeners) fun l => ids.contains l.id
  simp only [removeMany, Prod.mk.injEq, true_and]
  omega

theorem remove_eq (r : Registry) (id : Nat) :
    r.remove id = ({ r with listeners := r.listeners.filter (·.id ≠ id) },
      decide ((r.listeners.filter (·.id = id)).length ≠ 0)) := by
  simp [remove, removeMany_eq]

/-- At most one listener has the number `id`. -/
theorem length_filter_id_le {ls : List Listener} (h : ls.Pairwise (·.id < ·.id)) (id : Nat) :
    (ls.filter (·.id = id)).length ≤ 1 := by
  induction h with
  | nil => exact Nat.zero_le _
  | @cons l ls hl _ ih =>
    by_cases hid : l.id = id
    · subst hid
      have hnone : ls.filter (·.id = l.id) = [] :=
        List.filter_eq_nil_iff.2 fun a ha => by simpa using Nat.ne_of_gt (hl a ha)
      simp [hnone]
    · simpa [hid] using ih

end Registry

namespace Bridge

/-- The number of the listener that an answer contains, if any. -/
def Answer.listener? : Answer → Option Nat
  | .listener id _ => some id
  | _ => Option.none

namespace World

variable {w : World}

/-- The numbers of listeners returned at an occurrence. -/
def issues (w : World) : Occurrence → List Nat
  | .step s => (w.take s).2.listener?.toList
  | _ => []

/-- The numbers of listeners returned on a course, in order. -/
def issued (w : World) : List Occurrence → List Nat
  | [] => []
  | o :: os => w.issues o ++ (w.undergo o).issued os

/-- The world after `e` has been submitted to the listeners `ls`: each has a job of its own, which
is in `ready`. -/
def handedOut (w : World) (ls : List Listener) (e : Event) : World :=
  { w with
    nextTask := w.nextTask + ls.length
    tasks := w.tasks ++ (ls.zipIdx w.nextTask).map fun (l, id) =>
      (id, .job { callback := l.callback, event := e })
    ready := w.ready ++ List.range' w.nextTask ls.length
    executor.inFlight := w.executor.inFlight + ls.length }

/-! ## The registry after a history -/

theorem registry_undergo (w : World) (o : Occurrence) :
    (w.undergo o).registry = w.registry.after o := by
  cases ho : o.isPublic with
  | false =>
    have hnone := Occurrence.of_not_isPublic ho
    simp [(bus_undergo w ho).1, Registry.after, (hnone _).1, (hnone _).2.1]
  | true =>
    cases o with
    | step s =>
      cases s with
      | listen | unlistenMany | unlistenAll | closeExecutor =>
        simp [undergo, enter, take, Registry.add, Registry.removeMany, Registry.clear,
          Registry.after, Occurrence.adds?, Occurrence.removes]
      | unlisten id =>
        simp [undergo, enter, take, Registry.remove, Registry.removeMany, Registry.after,
          Occurrence.adds?, Occurrence.removes, eq_comm]
      | _ => cases ho
    | _ => cases ho

/-- The registry after a course holds `Registry.standing`, in the order of numbers. -/
theorem registry_course (hw : w.registry.Ordered) (os : List Occurrence) :
    (w.course os).registry.listeners = w.registry.standing os ∧ (w.course os).registry.Ordered := by
  induction os generalizing w with
  | nil => exact ⟨(Registry.standing_nil _).symm, hw⟩
  | cons o os ih =>
    rw [Registry.standing_cons, ← registry_undergo]
    exact ih (registry_undergo w o ▸ hw.after o)

theorem closed_undergo (w : World) (o : Occurrence) :
    (w.undergo o).executor.closed = (w.executor.closed || o.closes) := by
  cases ho : o.isPublic with
  | false => simp [(bus_undergo w ho).2, (Occurrence.of_not_isPublic ho 0).2.2]
  | true =>
    cases o with
    | step s =>
      cases s with
      | listen | unlisten | unlistenMany | unlistenAll | closeExecutor =>
        simp [undergo, enter, take, Occurrence.closes]
      | _ => cases ho
    | _ => cases ho

theorem closed_course (w : World) (os : List Occurrence) :
    (w.course os).executor.closed = (w.executor.closed || os.any Occurrence.closes) := by
  induction os generalizing w with
  | nil => simp
  | cons o os ih => rw [course_cons, ih, closed_undergo, List.any_cons, Bool.or_assoc]

/-! ## Numbers -/

theorem issues_eq (w : World) (o : Occurrence) :
    w.issues o = ((o.adds? w.registry.nextId).map Listener.id).toList := by
  cases o with
  | step s => cases s <;> rfl
  | _ => rfl

/-- The numbers returned are those of the listeners added. -/
theorem issued_eq (w : World) (os : List Occurrence) :
    w.issued os = (Registry.additions w.registry.nextId os).map (·.1.id) := by
  induction os generalizing w with
  | nil => rfl
  | cons o os ih =>
    rw [issued, ih, issues_eq, registry_undergo, Registry.additions]
    cases h : o.adds? w.registry.nextId <;> simp [Registry.after, h]

/-- The numbers returned increase, and are above those of the listeners before. -/
theorem increasing_issued (hw : w.registry.Ordered) (os : List Occurrence) :
    (w.registry.listeners.map Listener.id ++ w.issued os).Pairwise (· < ·) := by
  rw [issued_eq, Registry.additions_ids, List.pairwise_append]
  refine ⟨List.pairwise_map.2 hw.sorted, List.pairwise_lt_range', ?_⟩
  intro a ha b hb
  obtain ⟨l, hl, rfl⟩ := List.mem_map.1 ha
  have hgiven := hw.given l hl
  have hfirst := (List.mem_range'_1.1 hb).1
  omega

/-! ## Publishing and removing -/

theorem foldl_submit (ls : List Listener) (w : World) (e : Event) :
    ls.foldl (fun w l => w.submit l.callback e) w = w.handedOut ls e := by
  induction ls generalizing w with
  | nil => simp [handedOut]
  | cons l ls ih =>
    rw [List.foldl_cons, ih]
    simp [handedOut, submit, spawn, List.range'_succ, Nat.add_assoc, Nat.add_comm 1]

theorem publish_of_open (ho : w.executor.closed = false) (topic : String) (e : Event) :
    w.publish topic e =
      (w.handedOut (w.registry.accepting topic e) e, (w.registry.accepting topic e).length) := by
  simp only [publish, ho, Bool.false_eq_true, if_false, foldl_submit]

theorem publish_of_closed (hc : w.executor.closed = true) (topic : String) (e : Event) :
    w.publish topic e = (w, 0) := by
  simp [publish, hc]

/-- After any history, `World.publish` submits the event to the listeners of `Registry.standing`
that accept it, in the order of their numbers, and returns how many these are. If the executor is
closed, there are none. Removing listeners returns how many of them were standing, leaves the
others, and does not change the jobs submitted before. The numbers of listeners increase along the
registry and are never returned twice. -/
theorem fanout_of_course (hw : w.registry.Ordered) (os : List Occurrence) :
    let v := w.course os
    let there := w.registry.standing os
    (∀ topic e, v.publish topic e =
      let heard := there.filter (·.accepts topic e)
      if w.executor.closed || os.any Occurrence.closes then (v, 0)
      else (v.handedOut heard e, heard.length)) ∧
    (∀ id, v.take (.unlisten id) = ({ v with registry.listeners := there.filter (·.id ≠ id) },
      .flag ((there.filter (·.id = id)).length = 1))) ∧
    (∀ ids, v.take (.unlistenMany ids) =
      ({ v with registry.listeners := there.filter fun l => !ids.contains l.id },
        .count (there.filter fun l => ids.contains l.id).length)) ∧
    v.take .unlistenAll = ({ v with registry.listeners := [] }, .none) ∧
    v.registry.listeners = there ∧ there.Pairwise (·.id < ·.id) ∧
    w.issued os = (Registry.additions w.registry.nextId os).map (·.1.id) ∧
    (w.registry.listeners.map Listener.id ++ w.issued os).Pairwise (· < ·) := by
  obtain ⟨hthere, hordered⟩ := registry_course hw os
  rw [← hthere, ← closed_course]
  refine ⟨?_, ?_, ?_, rfl, rfl, hordered.sorted, issued_eq w os, increasing_issued hw os⟩
  · intro topic e
    cases hc : (w.course os).executor.closed with
    | false => exact publish_of_open hc topic e
    | true => exact publish_of_closed hc topic e
  · intro id
    have hone := Registry.length_filter_id_le hordered.sorted id
    have hflag : ((w.course os).registry.listeners.filter (·.id = id)).length ≠ 0 ↔
        ((w.course os).registry.listeners.filter (·.id = id)).length = 1 := by omega
    simp only [take, Registry.remove_eq, hflag]
  · intro ids
    simp only [take, Registry.removeMany_eq]

/-- Three listeners are added, and the first is removed after an event has been submitted to it. -/
def demoHistory : List Occurrence :=
  let listen (topic : String) := Occurrence.step
    (.listen (.ofString topic) .any { name := topic, isAsync := false, deed := .succeed })
  [listen "lamp", listen "*", .step (.publish "lamp" (.itemRemoved "lamp")), .go supervisorId,
    .step (.unlistenMany [1, 7, 1]), listen "door"]

/-- The first listener is removed, and the next event is submitted to the two others. -/
theorem fanout_of_course_demo : demo.registry.Ordered ∧
    (demo.course demoHistory).registry.listeners.map (·.id) = [2, 3] ∧
    ((demo.course demoHistory).publish "lamp" (.itemRemoved "lamp")).2 = 1 ∧
    ((demo.course demoHistory).publish "door" (.itemRemoved "door")).2 = 2 := by
  have hordered : demo.registry.Ordered := ⟨by decide +kernel, by decide +kernel⟩
  obtain ⟨hpublish, -, -, -, hthere, -⟩ := fanout_of_course hordered demoHistory
  refine ⟨hordered, ?_, ?_, ?_⟩
  · rw [hthere]
    decide +kernel
  · rw [hpublish]
    decide +kernel
  · rw [hpublish]
    decide +kernel

end World

end Bridge

end PeerLink
