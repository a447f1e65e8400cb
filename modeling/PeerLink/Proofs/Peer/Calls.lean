import PeerLink.Proofs.Peer.Entries
/-!
# Calls to a scripted server

A scripted server takes a sequence of calls, which script replies, make requests and drop streams.
Its entries are unordered, so they may be permuted before each call. A stream that a request has
opened is dropped at most once.

## Main definitions

* `Call`, `Outcome`: the calls and their outcomes.
* `Script.perform`: a call to a script.
* `Script.Rearranged`: the same entries in another order.
* `Script.Runs`: a sequence of calls with its outcomes and the script after it.
* `held`: the streams that have been opened and not dropped.

## Main statements

* `Script.Runs.requests`: the record of requests.
* `Script.Runs.activeStreams`: `activeStreams` is the number of held streams.
-/

namespace PeerLink.Peer

open Transport

/-- A call to a scripted server. -/
inductive Call where
  | set (key : String) (reply : Reply)
  | push (key : String) (reply : Reply)
  | setDefault (reply : Reply)
  | clear
  | request (out : Outgoing)
  | openStream (out : Outgoing)
  /-- Drops the stream that was opened by the call `number`. -/
  | dropStream (number : Nat)
  deriving DecidableEq

/-- The outcome of a call. -/
inductive Outcome where
  | done
  | response (answer : Except Failure Response)
  | stream (answer : Except Failure StreamBody)

/-- Whether a stream is opened. -/
def Outcome.isStream : Outcome → Bool
  | .stream (.ok _) => true
  | _ => false

namespace Call

/-- The request of a call, if it makes one. -/
def outgoing? : Call → Option Outgoing
  | request out | openStream out => some out
  | _ => none

/-- The reply that a call scripts, if any. -/
def reply? : Call → Option Reply
  | set _ reply | push _ reply | setDefault reply => some reply
  | _ => none

/-- The result of a request for a response, for the reply it is answered from. -/
def asResponse (url : String) : Option Reply → Except Failure Response
  | some (.response r) => .ok r
  | some (.failure cause) => .error cause
  | some (.stream _) => .error (.other "Stream response on non-stream request")
  | none => .error (Script.noAnswer url)

/-- The result of a request for a stream, for the reply it is answered from. -/
def asStream (url : String) : Option Reply → Except Failure StreamBody
  | some (.stream body) => .ok body
  | some (.response r) =>
    if r.isSuccess then .error (.other "Non-stream response on stream request")
    else .error (.serverError r.status (r.text?.getD ""))
  | some (.failure cause) => .error cause
  | none => .error (Script.noAnswer url)

/-- The outcome of a call, for the reply it is answered from. -/
def outcome (reply : Option Reply) : Call → Outcome
  | request out => .response (asResponse out.url reply)
  | openStream out => .stream (asStream out.url reply)
  | _ => .done

end Call

/-- The streams that have been opened and not dropped, by the numbers of their calls. -/
def held (calls : List Call) (outcomes : List Outcome) : List Nat :=
  (List.range outcomes.length).filter fun n =>
    outcomes[n]?.any Outcome.isStream && decide (.dropStream n ∉ calls)

/-- A stream can be dropped only while it is held. -/
def Call.Allowed (calls : List Call) (outcomes : List Outcome) : Call → Prop
  | dropStream n => n ∈ held calls outcomes
  | _ => True

namespace Script

variable {s t : Script} {c : Call} {calls : List Call} {outcomes : List Outcome} {out : Outgoing}

/-! ## One call -/

/-- A call to a script, with its outcome. -/
def perform (s : Script) : Call → Outcome × Script
  | .set key reply => (.done, s.set key reply)
  | .push key reply => (.done, s.push key reply)
  | .setDefault reply => (.done, s.setDefault reply)
  | .clear => (.done, s.clear)
  | .request out => ((s.respond out).map .response id)
  | .openStream out => ((s.openStream out).map .stream id)
  | .dropStream _ => (.done, s.dropStream)

/-- An answer does not depend on the record of requests. -/
theorem answer_record (s : Script) (out : Outgoing) (url : String) :
    (s.record out).answer url = ((s.answer url).1, (s.answer url).2.record out) := by
  unfold answer
  have hwaiting : (s.record out).waitingKeys = s.waitingKeys := rfl
  have hstanding : (s.record out).standing url = s.standing url := rfl
  have hqueued : (s.record out).queued = s.queued := rfl
  rw [hwaiting, hstanding, hqueued]
  split
  · split <;> rfl
  · rfl

/-- An answer removes a queued reply, and changes nothing else. -/
theorem answer_eq (s : Script) (url : String) :
    (s.answer url).2 = { s with queued := (s.answer url).2.queued } := by
  unfold answer
  split
  · split <;> rfl
  · rfl

/-- A request is answered, and it is recorded for every outcome. -/
theorem perform_of_outgoing? (h : c.outgoing? = some out) (s : Script) :
    s.perform c = (c.outcome (s.answer out.url).1,
      { s with
        queued := (s.answer out.url).2.queued
        requests := s.requests ++ [out]
        activeStreams := s.activeStreams +
          if (c.outcome (s.answer out.url).1).isStream then 1 else 0 }) := by
  have hrecord := s.answer_record out out.url
  have hanswer := s.answer_eq out.url
  cases c with
  | request out' =>
    obtain rfl := Option.some.inj h
    rw [perform, respond, hrecord, hanswer]
    match (s.answer out'.url).1 with
    | some (.response r) | some (.failure cause) | some (.stream body) | none => rfl
  | openStream out' =>
    obtain rfl := Option.some.inj h
    rw [perform, openStream, hrecord, hanswer]
    match (s.answer out'.url).1 with
    | some (.response r) =>
      simp only [Call.outcome, Call.asStream]
      split <;> rfl
    | some (.failure cause) | some (.stream body) | none => rfl
  | _ => cases h

theorem requests_perform (s : Script) (c : Call) :
    (s.perform c).2.requests = s.requests ++ c.outgoing?.toList := by
  cases hout : c.outgoing? with
  | some out => rw [perform_of_outgoing? hout]; rfl
  | none =>
    rw [Option.toList_none, List.append_nil]
    cases c <;> first | rfl | cases hout

theorem fst_perform (h : c.outgoing? = none) (s : Script) (reply : Option Reply) :
    (s.perform c).1 = c.outcome reply := by
  cases c <;> first | rfl | cases h

theorem activeStreams_perform (hc : ∀ n, c ≠ .dropStream n) (s : Script) :
    (s.perform c).2.activeStreams =
      s.activeStreams + if (s.perform c).1.isStream then 1 else 0 := by
  cases hout : c.outgoing? with
  | some out => rw [perform_of_outgoing? hout]
  | none => cases c with
    | dropStream n => exact absurd rfl (hc n)
    | request | openStream => cases hout
    | _ => rfl

/-! ## Sequences of calls -/

/-- The same entries in another order. -/
structure Rearranged (s t : Script) : Prop where
  sticky : s.sticky.Perm t.sticky
  queued : s.queued.Perm t.queued
  default? : s.default? = t.default?
  requests : s.requests = t.requests
  activeStreams : s.activeStreams = t.activeStreams

theorem Rearranged.refl (s : Script) : s.Rearranged s :=
  ⟨.refl _, .refl _, rfl, rfl, rfl⟩

/-- A sequence of calls from the empty script on. Before each call the entries may be rearranged. -/
inductive Runs : List Call → List Outcome → Script → Prop
  | start : Runs [] [] {}
  | call {calls : List Call} {outcomes : List Outcome} {s t : Script} {c : Call}
      (h : Runs calls outcomes s) (ht : s.Rearranged t) (hc : c.Allowed calls outcomes) :
      Runs (calls ++ [c]) (outcomes ++ [(t.perform c).1]) (t.perform c).2

namespace Runs

/-- Every request is recorded once, in order, for every outcome. -/
theorem requests (h : Runs calls outcomes s) : s.requests = calls.filterMap Call.outgoing? := by
  induction h with
  | start => rfl
  | call h ht hc ih =>
    rw [requests_perform, ← ht.requests, ih, List.filterMap_append, List.filterMap_cons]
    split <;> simp_all

theorem length_eq (h : Runs calls outcomes s) : outcomes.length = calls.length := by
  induction h with
  | start => rfl
  | call h ht hc ih => simp [ih]

/-- A stream is dropped after it has been opened. -/
theorem lt_of_dropStream (h : Runs calls outcomes s) {n : Nat} (hn : .dropStream n ∈ calls) :
    n < outcomes.length := by
  induction h with
  | start => cases hn
  | call h ht hc ih =>
    rw [List.length_append]
    rcases List.mem_append.1 hn with hn | hn
    · exact Nat.lt_add_right _ (ih hn)
    · obtain rfl := List.mem_singleton.1 hn
      exact Nat.lt_add_right _ (List.mem_range.1 (List.mem_filter.1 hc).1)

/-- The held streams after another call: without the one it drops, and with the one it opens. -/
theorem held_concat (calls : List Call) (outcomes : List Outcome) (c : Call) (o : Outcome) :
    held (calls ++ [c]) (outcomes ++ [o]) =
      (held calls outcomes).filter (fun n => decide (c ≠ .dropStream n)) ++
        if o.isStream = true ∧ .dropStream outcomes.length ∉ calls ++ [c] then [outcomes.length]
        else [] := by
  rw [held, List.length_append, List.length_singleton, List.range_succ, List.filter_append, held,
    List.filter_filter]
  congr 1
  · refine List.filter_congr fun n hn => ?_
    rw [List.getElem?_append_left (List.mem_range.1 hn)]
    simp [eq_comm, Bool.and_comm, Bool.and_assoc]
  · simp [List.filter_cons]

/-- `activeStreams` is the number of held streams. -/
theorem activeStreams (h : Runs calls outcomes s) :
    s.activeStreams = (held calls outcomes).length := by
  induction h with
  | start => rfl
  | @call calls outcomes s t c h ht hc ih =>
    by_cases hdrop : ∃ n, c = .dropStream n
    · obtain ⟨n, rfl⟩ := hdrop
      have hnodup : (held calls outcomes).Nodup := List.nodup_range.filter _
      have herase : (held calls outcomes).filter (fun m =>
          decide (Call.dropStream n ≠ .dropStream m)) = (held calls outcomes).erase n := by
        rw [hnodup.erase_eq_filter]
        exact List.filter_congr fun m _ => by simp [bne, Bool.beq_eq_decide_eq, eq_comm]
      rw [held_concat, herase, if_neg (by simp [perform, Outcome.isStream]), List.append_nil,
        List.length_erase_of_mem hc, ← ih, ht.activeStreams]
      rfl
    · have hother : ∀ n, c ≠ .dropStream n := fun n hn => hdrop ⟨n, hn⟩
      have hkept : (held calls outcomes).filter (fun n => decide (c ≠ .dropStream n)) =
          held calls outcomes := List.filter_eq_self.2 fun n _ => decide_eq_true (hother n)
      have hfresh : Call.dropStream outcomes.length ∉ calls ++ [c] := by
        rw [List.mem_append, List.mem_singleton, not_or]
        exact ⟨fun hn => Nat.lt_irrefl _ (h.lt_of_dropStream hn), (hother _).symm⟩
      rw [activeStreams_perform hother, ← ht.activeStreams, ih, held_concat, hkept,
        List.length_append]
      simp only [hfresh, not_false_eq_true, and_true]
      split <;> rfl

end Runs

end Script

end PeerLink.Peer
