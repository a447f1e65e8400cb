import PeerLink.Proofs.Peer.Ledger
/-!
# The sources of answers

Every answer of a scripted server comes from a call that scripted a reply, and the calls determine
which one: an unused reply of a queue comes before one that was set, and this before the default. Of
the keys that are prefixes of the address the longest one counts. So the order of the entries has no
effect.

## Main definitions

* `Waiting`, `Standing`, `Fallback`: the replies available to a request.
* `Chosen`: the source of the answer to a request.
* `AnsweredFrom`: every request is answered from its chosen source.
* `sourceAt`: the source of each answer, computed by the ledger.

## Main statements

* `AnsweredFrom.unique`: the calls determine the sources.
* `Ledger.sound_ofCalls`: the ledger lists the available replies.
* `Script.Runs.outcome_eq`: every call of a run is answered from its source.
* `sources_of_calls`: the sources, the outcomes, the record and the streams of every run.
-/

namespace PeerLink.Peer

open Script

/-! ## The available replies -/

section Sources

variable (calls : List Call) (source : Nat → Source) (i n : Nat) (key : String) (reply : Reply)

/-- The reply that the `n`th call has scripted is not cleared before the `i`th. -/
structure Kept : Prop where
  before : n < i
  clear : ∀ k, n < k → k < i → calls[k]? ≠ some .clear

/-- Before the `i`th call, the reply that the `n`th has queued under `key` is unused. -/
structure Waiting : Prop where
  queued : calls[n]? = some (.push key reply)
  kept : Kept calls i n
  unused : ∀ k < i, source k ≠ .queued n

/-- Before the `i`th call, the reply that the `n`th has set for `key` is present. -/
structure Standing : Prop where
  set : calls[n]? = some (.set key reply)
  kept : Kept calls i n

/-- Before the `i`th call, the `n`th has set the default. -/
structure Fallback : Prop where
  set : calls[n]? = some (.setDefault reply)
  before : n < i

/-- The source of the answer to a request that is the `i`th call: the oldest reply in the queue of
the longest key with a queue, else the latest reply set for the longest key, else the latest
default, else none. -/
inductive Chosen (url : String) : Source → Prop
  | queued {n : Nat} {key : String} {reply : Reply}
      (h : Waiting calls source i n key reply) (hkey : Begins key url)
      (longest : ∀ m k r, Waiting calls source i m k r → Begins k url → k.length ≤ key.length)
      (oldest : ∀ m r, Waiting calls source i m key r → n ≤ m) : Chosen url (.queued n)
  | sticky {n : Nat} {key : String} {reply : Reply}
      (hqueue : ∀ m k r, Waiting calls source i m k r → ¬Begins k url)
      (h : Standing calls i n key reply) (hkey : Begins key url)
      (longest : ∀ m k r, Standing calls i m k r → Begins k url → k.length ≤ key.length)
      (latest : ∀ m r, Standing calls i m key r → m ≤ n) : Chosen url (.sticky n)
  | default {n : Nat} {reply : Reply}
      (hqueue : ∀ m k r, Waiting calls source i m k r → ¬Begins k url)
      (hsticky : ∀ m k r, Standing calls i m k r → ¬Begins k url)
      (h : Fallback calls i n reply) (latest : ∀ m r, Fallback calls i m r → m ≤ n) :
      Chosen url (.default n)
  | nothing (hqueue : ∀ m k r, Waiting calls source i m k r → ¬Begins k url)
      (hsticky : ∀ m k r, Standing calls i m k r → ¬Begins k url)
      (hdefault : ∀ m r, ¬Fallback calls i m r) : Chosen url .nothing

end Sources

/-- The reply that a source stands for. -/
def Source.reply? (calls : List Call) : Source → Option Reply
  | queued n | sticky n | default n => calls[n]?.bind Call.reply?
  | nothing => none

section Steps

variable {calls : List Call} {source : Nat → Source} {i n : Nat} {key : String} {reply : Reply}

theorem kept_succ : Kept calls (i + 1) n ↔ (Kept calls i n ∧ calls[i]? ≠ some .clear) ∨ n = i := by
  constructor
  · rintro ⟨hn, hclear⟩
    rcases Nat.lt_succ_iff_lt_or_eq.1 hn with hlt | rfl
    · exact .inl ⟨⟨hlt, fun k hk hki => hclear k hk (Nat.lt_succ_of_lt hki)⟩,
        hclear i hlt (Nat.lt_succ_self i)⟩
    · exact .inr rfl
  · rintro (⟨⟨hn, hclear⟩, hi⟩ | rfl)
    · refine ⟨Nat.lt_succ_of_lt hn, fun k hk hki => ?_⟩
      rcases Nat.lt_succ_iff_lt_or_eq.1 hki with hlt | rfl
      · exact hclear k hk hlt
      · exact hi
    · refine ⟨Nat.lt_succ_self n, fun k hk hki => absurd hk ?_⟩
      exact Nat.not_lt_of_le (Nat.le_of_lt_succ hki)

theorem waiting_succ (hpast : ∀ k < i + 1, source k ≠ .queued i) :
    Waiting calls source (i + 1) n key reply ↔
      (Waiting calls source i n key reply ∧ calls[i]? ≠ some .clear ∧ source i ≠ .queued n) ∨
        (n = i ∧ calls[i]? = some (.push key reply)) := by
  constructor
  · rintro ⟨hqueued, hkept, hunused⟩
    rcases kept_succ.1 hkept with ⟨hkept, hclear⟩ | rfl
    · exact .inl ⟨⟨hqueued, hkept, fun k hk => hunused k (Nat.lt_succ_of_lt hk)⟩, hclear,
        hunused i (Nat.lt_succ_self i)⟩
    · exact .inr ⟨rfl, hqueued⟩
  · rintro (⟨⟨hqueued, hkept, hunused⟩, hclear, hi⟩ | ⟨rfl, hqueued⟩)
    · refine ⟨hqueued, kept_succ.2 (.inl ⟨hkept, hclear⟩), fun k hk => ?_⟩
      rcases Nat.lt_succ_iff_lt_or_eq.1 hk with hlt | rfl
      · exact hunused k hlt
      · exact hi
    · exact ⟨hqueued, kept_succ.2 (.inr rfl), hpast⟩

theorem standing_succ : Standing calls (i + 1) n key reply ↔
    (Standing calls i n key reply ∧ calls[i]? ≠ some .clear) ∨
      (n = i ∧ calls[i]? = some (.set key reply)) := by
  constructor
  · rintro ⟨hset, hkept⟩
    rcases kept_succ.1 hkept with ⟨hkept, hclear⟩ | rfl
    · exact .inl ⟨⟨hset, hkept⟩, hclear⟩
    · exact .inr ⟨rfl, hset⟩
  · rintro (⟨⟨hset, hkept⟩, hclear⟩ | ⟨rfl, hset⟩)
    · exact ⟨hset, kept_succ.2 (.inl ⟨hkept, hclear⟩)⟩
    · exact ⟨hset, kept_succ.2 (.inr rfl)⟩

theorem fallback_succ : Fallback calls (i + 1) n reply ↔
    Fallback calls i n reply ∨ (n = i ∧ calls[i]? = some (.setDefault reply)) := by
  constructor
  · rintro ⟨hset, hn⟩
    rcases Nat.lt_succ_iff_lt_or_eq.1 hn with hlt | rfl
    · exact .inl ⟨hset, hlt⟩
    · exact .inr ⟨rfl, hset⟩
  · rintro (⟨hset, hn⟩ | ⟨rfl, hset⟩)
    · exact ⟨hset, Nat.lt_succ_of_lt hn⟩
    · exact ⟨hset, Nat.lt_succ_self _⟩

end Steps

/-! ## The ledger -/

namespace Ledger

/-- The source of a call, if it makes a request. -/
def sourceOf (l : Ledger) (c : Call) : Source :=
  c.outgoing?.elim .nothing fun out => l.source out.url

/-- The ledger lists the replies available to the `i`th call, in the order of their calls. -/
structure Sound (calls : List Call) (source : Nat → Source) (i : Nat) (l : Ledger) : Prop where
  waiting : ∀ e, e ∈ l.waiting ↔ Waiting calls source i e.number e.key e.reply
  standing : ∀ e, e ∈ l.standing ↔ Standing calls i e.number e.key e.reply
  defaults : ∀ e, e ∈ l.defaults ↔ Fallback calls i e.1 e.2
  oldest : l.waiting.Pairwise (·.number < ·.number)
  latest : l.standing.Pairwise (·.number > ·.number)
  last : l.defaults.Pairwise (·.1 > ·.1)
  /-- A queued reply is used after its call. -/
  past : ∀ k < i, ∀ n, source k = .queued n → n < k

theorem mem_waiting_after {l : Ledger} {c : Call} {n : Nat} {e : Entry} :
    e ∈ (l.after n c).waiting ↔
      (e ∈ l.waiting ∧ c ≠ .clear ∧ l.sourceOf c ≠ .queued e.number) ∨
        (e.number = n ∧ c = .push e.key e.reply) := by
  obtain ⟨number, key, reply⟩ := e
  cases c with
  | push k r => simp [after, sourceOf, Call.outgoing?, @eq_comm _ k, @eq_comm _ r]
  | _ => simp [after, sourceOf, Call.outgoing?, unused]

theorem mem_standing_after {l : Ledger} {c : Call} {n : Nat} {e : Entry} :
    e ∈ (l.after n c).standing ↔
      (e ∈ l.standing ∧ c ≠ .clear) ∨ (e.number = n ∧ c = .set e.key e.reply) := by
  obtain ⟨number, key, reply⟩ := e
  cases c <;> simp [after, eq_comm, or_comm]

theorem mem_defaults_after {l : Ledger} {c : Call} {n : Nat} {e : Nat × Reply} :
    e ∈ (l.after n c).defaults ↔ e ∈ l.defaults ∨ (e.1 = n ∧ c = .setDefault e.2) := by
  obtain ⟨number, reply⟩ := e
  cases c <;> simp [after, eq_comm, or_comm]

theorem exists_of_source {l : Ledger} {url : String} {n : Nat} (h : l.source url = .queued n) :
    ∃ e ∈ l.waiting, e.number = n := by
  unfold source at h
  split at h
  next e he => exact ⟨e, Entry.mem_of_best? he, Source.queued.inj h⟩
  next => split at h <;> (try split at h) <;> cases h

namespace Sound

variable {calls : List Call} {source : Nat → Source} {i : Nat} {l : Ledger} {c : Call}

theorem start (source : Nat → Source) : Sound calls source 0 {} where
  waiting _ := ⟨nofun, fun h => absurd h.kept.before (Nat.not_lt_zero _)⟩
  standing _ := ⟨nofun, fun h => absurd h.kept.before (Nat.not_lt_zero _)⟩
  defaults _ := ⟨nofun, fun h => absurd h.before (Nat.not_lt_zero _)⟩
  oldest := .nil
  latest := .nil
  last := .nil
  past _ hk := absurd hk (Nat.not_lt_zero _)

/-- A call preserves `Sound`. -/
theorem after (h : Sound calls source i l) (hc : calls[i]? = some c)
    (hsource : source i = l.sourceOf c) : Sound calls source (i + 1) (l.after i c) := by
  have hpast : ∀ k < i + 1, ∀ n, source k = .queued n → n < k := by
    intro k hk n hn
    rcases Nat.lt_succ_iff_lt_or_eq.1 hk with hlt | rfl
    · exact h.past k hlt n hn
    · rw [hsource, sourceOf] at hn
      cases hout : c.outgoing? with
      | none => simp [hout] at hn
      | some out =>
        rw [hout] at hn
        obtain ⟨e, he, rfl⟩ := exists_of_source hn
        exact ((h.waiting e).1 he).kept.before
  have hfresh : ∀ k < i + 1, source k ≠ .queued i := fun k hk hi =>
    Nat.not_lt_of_le (Nat.le_of_lt_succ hk) (hpast k hk i hi)
  have hnumber (e : Entry) (he : e ∈ l.waiting) : e.number < i := ((h.waiting e).1 he).kept.before
  refine ⟨fun e => ?_, fun e => ?_, fun e => ?_, ?_, ?_, ?_, hpast⟩
  · rw [mem_waiting_after, waiting_succ hfresh, h.waiting, hc, hsource]
    simp
  · rw [mem_standing_after, standing_succ, h.standing, hc]
    simp
  · rw [mem_defaults_after, fallback_succ, h.defaults, hc]
    simp
  · cases c with
    | push key reply =>
      refine List.pairwise_append.2 ⟨h.oldest, List.pairwise_singleton _ _, fun e he x hx => ?_⟩
      rw [List.mem_singleton.1 hx]
      exact hnumber e he
    | clear => exact .nil
    | request out | openStream out => exact h.oldest.filter _
    | _ => exact h.oldest
  · cases c with
    | set key reply =>
      exact List.pairwise_cons.2 ⟨fun e he => ((h.standing e).1 he).kept.before, h.latest⟩
    | clear => exact .nil
    | _ => exact h.latest
  · cases c with
    | setDefault reply =>
      exact List.pairwise_cons.2 ⟨fun e he => ((h.defaults e).1 he).before, h.last⟩
    | _ => exact h.last

section Choice

variable (h : Sound calls source i l) (url : String)
include h

/-- The source of the ledger is the chosen one. -/
theorem chosen : Chosen calls source i url (l.source url) := by
  have hqueue (hb : Entry.best? url l.waiting = none) (m : Nat) (k : String) (r : Reply)
      (hw : Waiting calls source i m k r) : ¬Begins k url :=
    Entry.best?_eq_none_iff.1 hb ⟨m, k, r⟩ ((h.waiting ⟨m, k, r⟩).2 hw)
  have hsticky (hb : Entry.best? url l.standing = none) (m : Nat) (k : String) (r : Reply)
      (hs : Standing calls i m k r) : ¬Begins k url :=
    Entry.best?_eq_none_iff.1 hb ⟨m, k, r⟩ ((h.standing ⟨m, k, r⟩).2 hs)
  rw [Ledger.source]
  cases hb : Entry.best? url l.waiting with
  | some e =>
    obtain ⟨hmem, hbegins, hlongest, holdest⟩ :=
      Entry.best?_spec (fun x => Nat.le_refl x.number) (h.oldest.imp Nat.le_of_lt) hb
    refine .queued ((h.waiting e).1 hmem) hbegins (fun m k r hw => ?_) fun m r hw => ?_
    · exact hlongest ⟨m, k, r⟩ ((h.waiting ⟨m, k, r⟩).2 hw)
    · exact holdest ⟨m, e.key, r⟩ ((h.waiting ⟨m, e.key, r⟩).2 hw) rfl
  | none =>
    dsimp only
    cases hs : Entry.best? url l.standing with
    | some e =>
      obtain ⟨hmem, hbegins, hlongest, hlatest⟩ :=
        Entry.best?_spec (fun x => Nat.le_refl x.number) (h.latest.imp Nat.le_of_lt) hs
      refine .sticky (hqueue hb) ((h.standing e).1 hmem) hbegins (fun m k r hm => ?_)
        fun m r hm => ?_
      · exact hlongest ⟨m, k, r⟩ ((h.standing ⟨m, k, r⟩).2 hm)
      · exact hlatest ⟨m, e.key, r⟩ ((h.standing ⟨m, e.key, r⟩).2 hm) rfl
    | none =>
      dsimp only
      cases hd : l.defaults with
      | nil =>
        refine .nothing (hqueue hb) (hsticky hs) fun m r hm => ?_
        have := (h.defaults (m, r)).2 hm
        simp [hd] at this
      | cons e rest =>
        refine .default (hqueue hb) (hsticky hs) ((h.defaults e).1 (by simp [hd])) fun m r hm => ?_
        have hlast := h.last
        rw [hd] at hlast
        rcases List.mem_cons.1 (hd ▸ (h.defaults (m, r)).2 hm) with heq | hm
        · exact Nat.le_of_eq (congrArg Prod.fst heq)
        · exact Nat.le_of_lt ((List.pairwise_cons.1 hlast).1 (m, r) hm)

/-- The reply of the ledger is that of its source. -/
theorem reply?_eq : l.reply? url = (l.source url).reply? calls := by
  rw [Ledger.reply?, Ledger.source]
  cases hb : Entry.best? url l.waiting with
  | some e => simp [Source.reply?, ((h.waiting e).1 (Entry.mem_of_best? hb)).queued, Call.reply?]
  | none =>
    dsimp only
    cases hs : Entry.best? url l.standing with
    | some e => simp [Source.reply?, ((h.standing e).1 (Entry.mem_of_best? hs)).set, Call.reply?]
    | none =>
      dsimp only
      cases hd : l.defaults with
      | nil => rfl
      | cons e rest =>
        have hset := ((h.defaults e).1 (by simp [hd])).set
        simp [Source.reply?, hset, Call.reply?]

end Choice

end Sound

end Ledger

/-! ## Every answer -/

section Answers

variable {calls : List Call} {source source' : Nat → Source} {i k n m : Nat} {key url : String}
  {r r' : Reply} {x y : Source}

theorem Waiting.congr (h : Waiting calls source i n key r) (heq : ∀ k < i, source k = source' k) :
    Waiting calls source' i n key r :=
  ⟨h.queued, h.kept, fun k hk => heq k hk ▸ h.unused k hk⟩

/-- A reply that is unused before the `k`th call was unused before each call since it was queued. -/
theorem Waiting.of_le (h : Waiting calls source k n key r) (hi : i ≤ k) (hn : n < i) :
    Waiting calls source i n key r :=
  ⟨h.queued, ⟨hn, fun j hj hji => h.kept.clear j hj (Nat.lt_of_lt_of_le hji hi)⟩,
    fun j hj => h.unused j (Nat.lt_of_lt_of_le hj hi)⟩

/-- The chosen source is unique. -/
theorem Chosen.eq (h : Chosen calls source i url x) (h' : Chosen calls source' i url y)
    (heq : ∀ k < i, source k = source' k) : x = y := by
  have heq' (k : Nat) (hk : k < i) : source' k = source k := (heq k hk).symm
  cases h with
  | queued h hkey longest oldest =>
    cases h' with
    | queued h' hkey' longest' oldest' =>
      obtain rfl := hkey.eq_of_length hkey'
        (Nat.le_antisymm (longest' _ _ _ (h.congr heq) hkey) (longest _ _ _ (h'.congr heq') hkey'))
      rw [Nat.le_antisymm (oldest _ _ (h'.congr heq')) (oldest' _ _ (h.congr heq))]
    | sticky hqueue | default hqueue | nothing hqueue =>
      exact absurd hkey (hqueue _ _ _ (h.congr heq))
  | sticky hqueue h hkey longest latest =>
    cases h' with
    | queued h' hkey' => exact absurd hkey' (hqueue _ _ _ (h'.congr heq'))
    | sticky hqueue' h' hkey' longest' latest' =>
      obtain rfl := hkey.eq_of_length hkey'
        (Nat.le_antisymm (longest' _ _ _ h hkey) (longest _ _ _ h' hkey'))
      rw [Nat.le_antisymm (latest' _ _ h) (latest _ _ h')]
    | default _ hsticky | nothing _ hsticky => exact absurd hkey (hsticky _ _ _ h)
  | default hqueue hsticky h latest =>
    cases h' with
    | queued h' hkey' => exact absurd hkey' (hqueue _ _ _ (h'.congr heq'))
    | sticky _ h' hkey' => exact absurd hkey' (hsticky _ _ _ h')
    | default _ _ h' latest' => rw [Nat.le_antisymm (latest' _ _ h) (latest _ _ h')]
    | nothing _ _ hdefault => exact absurd h (hdefault _ _)
  | nothing hqueue hsticky hdefault =>
    cases h' with
    | queued h' hkey' => exact absurd hkey' (hqueue _ _ _ (h'.congr heq'))
    | sticky _ h' hkey' => exact absurd hkey' (hsticky _ _ _ h')
    | default _ _ h' => exact absurd h' (hdefault _ _)
    | nothing => rfl

/-- Every request is answered from its chosen source. -/
structure AnsweredFrom (calls : List Call) (source : Nat → Source) : Prop where
  request : ∀ i out, calls[i]?.bind Call.outgoing? = some out →
    Chosen calls source i out.url (source i)
  other : ∀ i, calls[i]?.bind Call.outgoing? = none → source i = .nothing

namespace AnsweredFrom

theorem unique (h : AnsweredFrom calls source) (h' : AnsweredFrom calls source') :
    source = source' := by
  funext i
  induction i using Nat.strongRecOn with
  | ind i ih =>
    cases hout : calls[i]?.bind Call.outgoing? with
    | some out => exact (h.request i out hout).eq (h'.request i out hout) ih
    | none => rw [h.other i hout, h'.other i hout]

section Queue

variable (h : AnsweredFrom calls source)
include h

/-- A queued reply that answers is the oldest in its queue. -/
theorem waiting (hi : source i = .queued n) : ∃ key r, Waiting calls source i n key r ∧
    ∀ m r', Waiting calls source i m key r' → n ≤ m := by
  cases hout : calls[i]?.bind Call.outgoing? with
  | none => cases (h.other i hout).symm.trans hi
  | some out =>
    have hchosen := h.request i out hout
    rw [hi] at hchosen
    cases hchosen with
    | queued hw _ _ oldest => exact ⟨_, _, hw, oldest⟩

/-- A queued reply answers at most one request. -/
theorem eq_of_queued (hi : source i = .queued n) (hk : source k = .queued n) : i = k := by
  obtain ⟨_, _, hwi, -⟩ := h.waiting hi
  obtain ⟨_, _, hwk, -⟩ := h.waiting hk
  rcases Nat.lt_trichotomy i k with hlt | heq | hlt
  · exact absurd hi (hwk.unused i hlt)
  · exact heq
  · exact absurd hk (hwi.unused k hlt)

/-- The replies of one queue are used in order. -/
theorem lt_of_queued (hn : calls[n]? = some (.push key r)) (hm : calls[m]? = some (.push key r'))
    (hi : source i = .queued n) (hk : source k = .queued m) (hik : i < k) : n < m := by
  obtain ⟨key', _, hwi, oldest⟩ := h.waiting hi
  obtain ⟨key'', _, hwk, -⟩ := h.waiting hk
  obtain ⟨rfl, -⟩ := Call.push.inj (Option.some.inj (hn.symm.trans hwi.queued))
  obtain ⟨rfl, -⟩ := Call.push.inj (Option.some.inj (hm.symm.trans hwk.queued))
  rcases Nat.lt_or_ge m i with hmi | him
  · -- both were waiting when the first of them was used
    have hle : n ≤ m := oldest m _ (hwk.of_le (Nat.le_of_lt hik) hmi)
    refine Nat.lt_of_le_of_ne hle fun hnm => Nat.ne_of_lt hik ?_
    exact h.eq_of_queued hi (hnm ▸ hk)
  · exact Nat.lt_of_lt_of_le hwi.kept.before him

end Queue

end AnsweredFrom

end Answers

/-! ## Every run -/

/-- The source of the `i`th call. -/
def sourceAt (calls : List Call) (i : Nat) : Source :=
  calls[i]?.elim .nothing (Ledger.ofCalls (calls.take i)).sourceOf

section Runs

variable {calls : List Call} {outcomes : List Outcome} {s : Script} {i : Nat} {c : Call}
  {out : Transport.Outgoing}

/-- The ledger of the first `i` calls is `Sound`. -/
theorem Ledger.sound_ofCalls (hi : i ≤ calls.length) :
    Sound calls (sourceAt calls) i (ofCalls (calls.take i)) := by
  induction i with
  | zero => exact Sound.start _
  | succ i ih =>
    have hget : calls[i]? = some calls[i] := List.getElem?_eq_getElem hi
    have htake : calls.take (i + 1) = calls.take i ++ [calls[i]] := by
      rw [List.take_add_one, hget]
      rfl
    have hlength : (calls.take i).length = i := List.length_take_of_le (Nat.le_of_lt hi)
    rw [htake, ofCalls_concat, hlength]
    exact (ih (Nat.le_of_lt hi)).after hget (by rw [sourceAt, hget]; rfl)

theorem sourceAt_of_outgoing? (hc : calls[i]? = some c) (hout : c.outgoing? = some out) :
    sourceAt calls i = (Ledger.ofCalls (calls.take i)).source out.url := by
  rw [sourceAt, hc, Option.elim_some, Ledger.sourceOf, hout, Option.elim_some]

theorem answeredFrom_sourceAt (calls : List Call) : AnsweredFrom calls (sourceAt calls) where
  request i out h := by
    obtain ⟨c, hc, hout⟩ := Option.bind_eq_some_iff.1 h
    have hi : i < calls.length := (List.getElem?_eq_some_iff.1 hc).1
    have hchosen := (Ledger.sound_ofCalls (Nat.le_of_lt hi)).chosen out.url
    rwa [← sourceAt_of_outgoing? hc hout] at hchosen
  other i h := by
    rw [sourceAt]
    cases hc : calls[i]? with
    | none => rfl
    | some c =>
      rw [hc, Option.bind_some] at h
      rw [Option.elim_some, Ledger.sourceOf, h, Option.elim_none]

namespace Script.Runs

/-- The script of a run agrees with the ledger of its calls. -/
theorem agrees (h : Runs calls outcomes s) : Ledger.Agrees s (Ledger.ofCalls calls) := by
  induction h with
  | start => exact Ledger.agrees_start
  | @call calls _ _ _ c _ ht _ ih =>
    have hsound := Ledger.sound_ofCalls (Nat.le_refl calls.length)
    rw [List.take_length] at hsound
    rw [Ledger.ofCalls_concat]
    exact (ih.rearranged ht).after hsound.oldest calls.length c

/-- Every call of a run is performed by a script that agrees with the ledger of the calls before. -/
theorem exists_perform (h : Runs calls outcomes s) (hc : calls[i]? = some c) :
    ∃ t, Ledger.Agrees t (Ledger.ofCalls (calls.take i)) ∧ outcomes[i]? = some (t.perform c).1 := by
  induction h with
  | start => cases hc
  | @call calls outcomes _ t _ h ht _ ih =>
    rcases Nat.lt_or_ge i calls.length with hi | hi
    · rw [List.getElem?_append_left hi] at hc
      rw [List.take_append_of_le_length (Nat.le_of_lt hi),
        List.getElem?_append_left (h.length_eq ▸ hi)]
      exact ih hc
    · rw [List.getElem?_append_right hi, List.getElem?_singleton] at hc
      obtain ⟨hzero, hc⟩ := Option.ite_none_right_eq_some.1 hc
      obtain rfl := Option.some.inj hc
      obtain rfl : i = calls.length := Nat.le_antisymm (Nat.sub_eq_zero_iff_le.1 hzero) hi
      rw [List.take_left, ← h.length_eq, List.getElem?_concat_length]
      exact ⟨t, h.agrees.rearranged ht, rfl⟩

/-- Every call is answered from its source. -/
theorem outcome_eq (h : Runs calls outcomes s) (hc : calls[i]? = some c) :
    outcomes[i]? = some (c.outcome ((sourceAt calls i).reply? calls)) := by
  obtain ⟨t, hagrees, houtcome⟩ := h.exists_perform hc
  rw [houtcome]
  cases hout : c.outgoing? with
  | none => rw [fst_perform hout]
  | some out =>
    have hi : i < calls.length := (List.getElem?_eq_some_iff.1 hc).1
    have hsound := Ledger.sound_ofCalls (Nat.le_of_lt hi)
    rw [perform_of_outgoing? hout, (hagrees.answer hsound.oldest out.url).1, hsound.reply?_eq,
      sourceAt_of_outgoing? hc hout]

end Script.Runs

end Runs

/-- The calls determine the source of each answer. A queued reply answers at most one request, and
the replies of one queue are used in order. In every run of these calls, for every order of the
entries, each request gets the reply of its source and is recorded once, and `activeStreams` is the
number of held streams. -/
theorem sources_of_calls (calls : List Call) :
    ∃ source : Nat → Source, AnsweredFrom calls source ∧
      (∀ source', AnsweredFrom calls source' → source' = source) ∧
      (∀ i k n, source i = .queued n → source k = .queued n → i = k) ∧
      (∀ i k n m key r r', calls[n]? = some (.push key r) → calls[m]? = some (.push key r') →
        source i = .queued n → source k = .queued m → i < k → n < m) ∧
      ∀ outcomes s, Runs calls outcomes s → outcomes.length = calls.length ∧
        (∀ i (c : Call), calls[i]? = some c →
          outcomes[i]? = some (c.outcome ((source i).reply? calls))) ∧
        s.requests = calls.filterMap Call.outgoing? ∧
        s.activeStreams = (held calls outcomes).length := by
  have h := answeredFrom_sourceAt calls
  refine ⟨sourceAt calls, h, fun source' h' => h'.unique h, fun i k n => h.eq_of_queued,
    fun i k n m key r r' => h.lt_of_queued, fun outcomes s hruns => ?_⟩
  exact ⟨hruns.length_eq, fun i c hc => hruns.outcome_eq hc, hruns.requests,
    hruns.activeStreams⟩

/-- When the queue of the longer key is empty, the queue of the shorter key comes before the reply
that is set for the longer one. -/
theorem sources_of_calls_demo :
    let out : Transport.Outgoing := ⟨.get, "http://a/b/c", [], none⟩
    let calls : List Call := [.setDefault (.failure .cancelled),
      .push "http://a" (.stream ⟨[], true⟩), .push "http://a/b" (.failure (.timeout "late")),
      .set "http://a/b" (.response ⟨200, []⟩), .openStream out, .openStream out, .request out,
      .dropStream 5, .clear, .request out]
    ∃ source outcomes s, AnsweredFrom calls source ∧ Runs calls outcomes s ∧
      [4, 5, 6, 9].map source = [.queued 2, .queued 1, .sticky 3, .default 0] ∧
      outcomes[5]? = some (.stream (.ok ⟨[], true⟩)) ∧ s.requests = [out, out, out, out] ∧
      s.activeStreams = 0 := by
  intro out calls
  obtain ⟨source, h, hunique, -, -, hruns⟩ := sources_of_calls calls
  obtain rfl := hunique _ (answeredFrom_sourceAt calls)
  have h1 := Runs.start.call (c := .setDefault (.failure .cancelled)) (.refl _) trivial
  have h2 := h1.call (c := .push "http://a" (.stream ⟨[], true⟩)) (.refl _) trivial
  have h3 := h2.call (c := .push "http://a/b" (.failure (.timeout "late"))) (.refl _) trivial
  have h4 := h3.call (c := .set "http://a/b" (.response ⟨200, []⟩)) (.refl _) trivial
  -- the queues change places
  have h5 := h4.call (c := .openStream out) (t :=
    { sticky := [("http://a/b", .response ⟨200, []⟩)]
      queued := [("http://a/b", [.failure (.timeout "late")]), ("http://a", [.stream ⟨[], true⟩])]
      default? := some (.failure .cancelled) }) ⟨.refl _, .swap _ _ _, rfl, rfl, rfl⟩ trivial
  have h6 := h5.call (c := .openStream out) (.refl _) trivial
  have h7 := h6.call (c := .request out) (.refl _) trivial
  have h8 := h7.call (c := .dropStream 5) (.refl _) (show 5 ∈ held _ _ by decide)
  have h9 := h8.call (c := .clear) (.refl _) trivial
  have h10 := h9.call (c := .request out) (.refl _) trivial
  obtain ⟨-, houtcome, hrequests, hstreams⟩ := hruns _ _ h10
  have hreply : (sourceAt calls 5).reply? calls = some (.stream ⟨[], true⟩) := by decide
  refine ⟨_, _, _, h, h10, by decide, ?_, hrequests, hstreams.trans (by decide)⟩
  rw [houtcome 5 _ rfl, hreply]
  rfl

end PeerLink.Peer
