import Mathlib.Data.List.Nodup
import PeerLink.Proofs.Peer.Calls
/-!
# The ledger of a script

A ledger lists the replies of a script in the order of the calls that scripted them, with the
numbers of these calls. A script agrees with a ledger if its entries under each key are those of the
ledger. Then it answers as the ledger does, for every order of its entries.

## Main definitions

* `Source`: the call that an answer comes from.
* `Ledger`: the replies with the numbers of their calls.
* `Ledger.source`, `Ledger.reply?`: the source and the reply for a request.
* `Ledger.Agrees`: a script has the replies of a ledger.

## Main statements

* `Ledger.Agrees.answer`: a script answers as its ledger does.
* `Ledger.Agrees.after`: a call preserves `Ledger.Agrees`.
-/

namespace PeerLink.Peer

open Script

/-- The source of an answer: the number of the call that queued the reply, set it, or made it the
default. -/
inductive Source where
  | queued (number : Nat)
  | sticky (number : Nat)
  | default (number : Nat)
  | nothing
  deriving DecidableEq

/-- A reply that the call `number` has scripted under `key`. -/
structure Entry where
  number : Nat
  key : String
  reply : Reply

/-! ## Entries under the longest key -/

namespace Entry

variable {url key : String} {es : List Entry} {e x : Entry}

/-- The first entry under the longest key that is a prefix of `url`. -/
def best? (url : String) (es : List Entry) : Option Entry :=
  (bestKey url (es.map Entry.key)).bind fun k => es.find? (·.key = k)

theorem key_of_find? (h : es.find? (·.key = key) = some e) : e.key = key := by
  simpa using List.find?_some h

theorem isBest_of_best? (h : best? url es = some e) : IsBest url (es.map Entry.key) e.key := by
  obtain ⟨k, hk, hfind⟩ := Option.bind_eq_some_iff.1 h
  rw [key_of_find? hfind]
  exact bestKey_eq_some_iff.1 hk

theorem find?_of_best? (h : best? url es = some e) : es.find? (·.key = e.key) = some e := by
  obtain ⟨k, hk, hfind⟩ := Option.bind_eq_some_iff.1 h
  rwa [key_of_find? hfind]

theorem mem_of_best? (h : best? url es = some e) : e ∈ es :=
  List.mem_of_find?_eq_some (find?_of_best? h)

theorem isSome_find? : (es.find? (·.key = key)).isSome = true ↔ key ∈ es.map Entry.key := by
  simp [List.find?_isSome]

theorem best?_eq_none_iff : best? url es = none ↔ ∀ e ∈ es, ¬Begins e.key url := by
  have hnone : bestKey url (es.map Entry.key) = none ↔ ∀ e ∈ es, ¬Begins e.key url := by
    rw [bestKey_eq_none_iff, List.forall_mem_map]
  rw [← hnone]
  refine ⟨fun h => ?_, fun h => by rw [best?, h]; rfl⟩
  cases hb : bestKey url (es.map Entry.key) with
  | none => rfl
  | some k =>
    have hsome := isSome_find?.2 (bestKey_eq_some_iff.1 hb).mem
    rw [best?, hb, Option.bind_some] at h
    simp [h] at hsome

/-- The first entry under a key is related to every other one. -/
theorem rel_of_find? {R : Entry → Entry → Prop} (hrefl : ∀ x, R x x) (hR : es.Pairwise R)
    (h : es.find? (·.key = key) = some e) (hx : x ∈ es) (hkey : x.key = key) : R e x := by
  obtain ⟨-, before, after, rfl, hbefore⟩ := List.find?_eq_some_iff_append.1 h
  rcases List.mem_append.1 hx with hx | hx
  · exact absurd hkey (by simpa using hbefore x hx)
  · rcases List.mem_cons.1 hx with rfl | hx
    · exact hrefl x
    · exact (List.pairwise_cons.1 (List.pairwise_append.1 hR).2.1).1 x hx

/-- The entry `best?` has the longest key, and of the entries under this key it is the first. -/
theorem best?_spec {R : Entry → Entry → Prop} (hrefl : ∀ x, R x x) (hR : es.Pairwise R)
    (h : best? url es = some e) : e ∈ es ∧ Begins e.key url ∧
      (∀ x ∈ es, Begins x.key url → x.key.length ≤ e.key.length) ∧
      ∀ x ∈ es, x.key = e.key → R e x := by
  have hbest := isBest_of_best? h
  refine ⟨mem_of_best? h, hbest.begins, fun x hx hbegins => ?_, fun x hx hkey => ?_⟩
  · exact hbest.longest x.key (List.mem_map_of_mem hx) hbegins
  · exact rel_of_find? hrefl hR (find?_of_best? h) hx hkey

end Entry

/-! ## Ledgers -/

/-- The replies of a script, with the numbers of their calls. -/
structure Ledger where
  /-- The queued replies that are unused, the oldest first. -/
  waiting : List Entry := []
  /-- The replies that have been set, the latest first. -/
  standing : List Entry := []
  /-- The default replies with the numbers of their calls, the latest first. -/
  defaults : List (Nat × Reply) := []

namespace Ledger

variable {l : Ledger} {s t : Script} {c : Call} {url key : String} {n : Nat} {e : Entry}

/-- The source of the answer to a request. -/
def source (l : Ledger) (url : String) : Source :=
  match Entry.best? url l.waiting with
  | some e => .queued e.number
  | none => match Entry.best? url l.standing with
    | some e => .sticky e.number
    | none => match l.defaults with
      | e :: _ => .default e.1
      | [] => .nothing

/-- The reply that a request is answered from. -/
def reply? (l : Ledger) (url : String) : Option Reply :=
  match Entry.best? url l.waiting with
  | some e => some e.reply
  | none => match Entry.best? url l.standing with
    | some e => some e.reply
    | none => l.defaults.head?.map Prod.snd

/-- The queued replies after a request. -/
def unused (l : Ledger) (url : String) : List Entry :=
  l.waiting.filter fun e => decide (l.source url ≠ .queued e.number)

/-- The ledger after the `n`th call. -/
def after (l : Ledger) (n : Nat) : Call → Ledger
  | .set key reply => { l with standing := ⟨n, key, reply⟩ :: l.standing }
  | .push key reply => { l with waiting := l.waiting ++ [⟨n, key, reply⟩] }
  | .setDefault reply => { l with defaults := (n, reply) :: l.defaults }
  | .clear => { l with waiting := [], standing := [] }
  | .request out | .openStream out => { l with waiting := l.unused out.url }
  | .dropStream _ => l

/-- The ledger of a list of calls. -/
def ofCalls (calls : List Call) : Ledger :=
  calls.zipIdx.foldl (fun l c => l.after c.2 c.1) {}

theorem ofCalls_concat (calls : List Call) (c : Call) :
    ofCalls (calls ++ [c]) = (ofCalls calls).after calls.length c := by
  simp [ofCalls, List.zipIdx_append]

theorem unused_of_best? (h : Entry.best? url l.waiting = some e) :
    l.unused url = l.waiting.filter fun x => decide (x.number ≠ e.number) := by
  simp [unused, source, h, eq_comm]

theorem unused_of_best?_eq_none (h : Entry.best? url l.waiting = none) :
    l.unused url = l.waiting := by
  refine List.filter_eq_self.2 fun e _ => ?_
  rw [source, h]
  dsimp only
  split
  · rfl
  · split <;> rfl

/-! ## Scripts that agree with a ledger -/

/-- The script has the replies of the ledger, in its order under each key. -/
structure Agrees (s : Script) (l : Ledger) : Prop where
  stickyKeys : (s.sticky.map Prod.fst).Nodup
  queuedKeys : (s.queued.map Prod.fst).Nodup
  sticky : ∀ key, s.sticky.lookup key = (l.standing.find? (·.key = key)).map Entry.reply
  queued : ∀ key,
    (s.queued.lookup key).getD [] = (l.waiting.filter (·.key = key)).map Entry.reply
  default? : s.default? = l.defaults.head?.map Prod.snd

theorem agrees_start : Agrees {} {} := ⟨.nil, .nil, fun _ => rfl, fun _ => rfl, rfl⟩

namespace Agrees

theorem rearranged (h : Agrees s l) (ht : s.Rearranged t) : Agrees t l where
  stickyKeys := (ht.sticky.map _).nodup_iff.1 h.stickyKeys
  queuedKeys := (ht.queued.map _).nodup_iff.1 h.queuedKeys
  sticky key := by rw [← lookup_perm ht.sticky h.stickyKeys, h.sticky]
  queued key := by rw [← lookup_perm ht.queued h.queuedKeys, h.queued]
  default? := ht.default? ▸ h.default?

section Answer

variable (h : Agrees s l)
include h

theorem bestKey_sticky (url : String) :
    bestKey url (s.sticky.map Prod.fst) = bestKey url (l.standing.map Entry.key) :=
  bestKey_congr fun k => by
    rw [mem_keys_iff, h.sticky, Option.isSome_map, Entry.isSome_find?]

theorem mem_waitingKeys (key : String) : key ∈ s.waitingKeys ↔ key ∈ l.waiting.map Entry.key := by
  have hfilter : (l.waiting.filter (·.key = key)).map Entry.reply ≠ [] ↔
      key ∈ l.waiting.map Entry.key := by
    simp [List.filter_eq_nil_iff]
  rw [← hfilter, ← h.queued, waitingKeys, List.mem_map]
  constructor
  · rintro ⟨⟨k, replies⟩, hmem, rfl⟩
    obtain ⟨hmem, hne⟩ := List.mem_filter.1 hmem
    rw [(mem_iff_lookup h.queuedKeys).1 hmem]
    simpa using hne
  · intro hne
    cases hlookup : s.queued.lookup key with
    | none => simp [hlookup] at hne
    | some replies =>
      refine ⟨(key, replies), List.mem_filter.2 ⟨(mem_iff_lookup h.queuedKeys).2 hlookup, ?_⟩, rfl⟩
      simpa [hlookup] using hne

theorem bestKey_waiting (url : String) :
    bestKey url s.waitingKeys = bestKey url (l.waiting.map Entry.key) :=
  bestKey_congr h.mem_waitingKeys

/-- The reply of a script without a queued one. -/
theorem standing_eq (url : String) : s.standing url = match Entry.best? url l.standing with
    | some e => some e.reply
    | none => l.defaults.head?.map Prod.snd := by
  rw [Script.standing, h.bestKey_sticky, Entry.best?]
  cases hb : bestKey url (l.standing.map Entry.key) with
  | none => exact h.default?
  | some key =>
    dsimp only
    rw [h.sticky, Option.bind_some]
    have hsome := Entry.isSome_find?.2 (bestKey_eq_some_iff.1 hb).mem
    obtain ⟨e, he⟩ := Option.isSome_iff_exists.1 hsome
    rw [he]
    rfl

/-- The queue under a key begins with the first entry of the ledger for this key. -/
theorem queued_of_find? (hfind : l.waiting.find? (·.key = key) = some e) :
    ∃ rest, l.waiting.filter (·.key = key) = e :: rest ∧
      s.queued.lookup key = some (e.reply :: rest.map Entry.reply) := by
  rw [← List.head?_filter] at hfind
  obtain ⟨rest, hrest⟩ := List.head?_eq_some_iff.1 hfind
  have hqueue := h.queued key
  rw [hrest, List.map_cons] at hqueue
  refine ⟨rest, hrest, ?_⟩
  cases hlookup : s.queued.lookup key with
  | none => simp [hlookup] at hqueue
  | some replies =>
    rw [hlookup, Option.getD_some] at hqueue
    rw [hqueue]

/-- A script answers as its ledger does, and the queued reply is removed from both. -/
theorem answer (hl : l.waiting.Pairwise (·.number < ·.number)) (url : String) :
    (s.answer url).1 = l.reply? url ∧
      Agrees (s.answer url).2 { l with waiting := l.unused url } := by
  cases hb : Entry.best? url l.waiting with
  | none =>
    have hnone : bestKey url s.waitingKeys = none := by
      rw [h.bestKey_waiting, bestKey_eq_none_iff, List.forall_mem_map]
      exact Entry.best?_eq_none_iff.1 hb
    rw [unused_of_best?_eq_none hb, Script.answer, hnone, reply?, hb]
    exact ⟨h.standing_eq url, h⟩
  | some e =>
    have hbest : bestKey url s.waitingKeys = some e.key := by
      rw [h.bestKey_waiting]
      exact bestKey_eq_some_iff.2 (Entry.isBest_of_best? hb)
    obtain ⟨rest, hrest, hlookup⟩ := h.queued_of_find? (Entry.find?_of_best? hb)
    have hnumber : ∀ x ∈ l.waiting, x.number = e.number → x = e := fun x hx hn =>
      List.inj_on_of_nodup_map ((List.pairwise_map.2 hl).imp Nat.ne_of_lt) hx
        (Entry.mem_of_best? hb) hn
    rw [unused_of_best? hb, Script.answer, hbest, reply?, hb]
    dsimp only
    rw [hlookup]
    refine ⟨rfl, h.stickyKeys, nodup_setEntry h.queuedKeys, h.sticky, fun key => ?_, h.default?⟩
    dsimp only
    rw [lookup_setEntry, List.filter_filter]
    split
    next hkey =>
      -- under this key the first entry goes, and no other has its number
      subst hkey
      have hafter : rest = (e :: rest).filter fun x => decide (x.number ≠ e.number) := by
        have hlt := (List.pairwise_cons.1 (hrest ▸ hl.filter _)).1
        rw [List.filter_cons_of_neg (by simp), eq_comm]
        exact List.filter_eq_self.2 fun x hx => decide_eq_true (Nat.ne_of_gt (hlt x hx))
      rw [Option.getD_some, hafter, ← hrest, List.filter_filter]
      simp only [Bool.and_comm]
    next hkey =>
      rw [h.queued]
      congr 1
      refine List.filter_congr fun x hx => ?_
      by_cases hx' : x.key = key
      · have hne : x.number ≠ e.number := fun hn =>
          hkey (hx' ▸ congrArg Entry.key (hnumber x hx hn))
        simp [hx', hne]
      · simp [hx']

end Answer

/-- A call preserves `Agrees`. -/
theorem after (h : Agrees s l) (hl : l.waiting.Pairwise (·.number < ·.number)) (n : Nat)
    (c : Call) : Agrees (s.perform c).2 (l.after n c) := by
  cases hout : c.outgoing? with
  | some out =>
    have hafter : l.after n c = { l with waiting := l.unused out.url } := by
      cases c <;> cases hout <;> rfl
    have hanswer := (h.answer hl out.url).2
    rw [s.answer_eq] at hanswer
    rw [perform_of_outgoing? hout, hafter]
    exact ⟨hanswer.stickyKeys, hanswer.queuedKeys, hanswer.sticky, hanswer.queued,
      hanswer.default?⟩
  | none =>
    cases c with
    | set key reply =>
      refine ⟨nodup_setEntry h.stickyKeys, h.queuedKeys, fun k => ?_, h.queued, h.default?⟩
      simp only [perform, Script.set, Ledger.after]
      rw [lookup_setEntry, List.find?_cons, h.sticky]
      by_cases hk : k = key
      · simp [hk]
      · simp [hk, Ne.symm hk]
    | push key reply =>
      refine ⟨h.stickyKeys, nodup_setEntry h.queuedKeys, h.sticky, fun k => ?_, h.default?⟩
      simp only [perform, Script.push, Ledger.after]
      rw [lookup_setEntry, List.filter_append, List.map_append, ← h.queued k]
      by_cases hk : k = key
      · simp [hk]
      · simp [hk, Ne.symm hk]
    | setDefault reply => exact ⟨h.stickyKeys, h.queuedKeys, h.sticky, h.queued, rfl⟩
    | clear => exact ⟨.nil, .nil, fun _ => rfl, fun _ => rfl, h.default?⟩
    | dropStream m => exact ⟨h.stickyKeys, h.queuedKeys, h.sticky, h.queued, h.default?⟩
    | _ => cases hout

end Agrees

end Ledger

end PeerLink.Peer
