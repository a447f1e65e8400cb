import PeerLink.Proofs.Sse.Pulls
/-!
# The polls of a body

A stream of frames proceeds in rounds. A round takes an item from the buffer, or it polls the body.
`FrameStream.next?` ends with the first round that gives an item. At every poll, the decoder is the
one that has taken the earlier chunks as a whole, and so its buffer is within the limit.

## Main definitions

* `Poll`: a poll of the body.
* `Round`: a round of a stream.
* `FrameStream.rounds`, `FrameStream.polls`: the rounds and the polls from a state on.

## Main statements

* `FrameStream.next?_eq_findSome?`: the next item is that of the first round that gives one.
* `FrameStream.polls_eq_pollsDue`: the decoder at every poll.
* `settled_of_polls`: the decoder is settled at every poll, and the body is not polled after its
  end.
-/

namespace PeerLink.Sse

open Text Text.Utf8 Transport

/-- A poll of the body. -/
structure Poll where
  /-- The decoder at the poll. -/
  decoder : Decoder
  /-- The reply of the body, unless it has ended. -/
  reply : Option (Except Failure Bytes)
  deriving DecidableEq

/-- A round of a stream. -/
structure Round where
  /-- The poll of the round, if it polls the body. -/
  poll : Option Poll := none
  /-- The item of the round, if any. -/
  item : Option Item := none
  /-- The stream after the round. -/
  next : FrameStream

/-- The reply of a body to a poll after its last chunk. -/
def Ending.reply : Ending → Option (Except Failure Bytes)
  | .closed => none
  | .failed cause => some (.error cause)

namespace FrameStream

variable {s : FrameStream} {d : Decoder} {body : Body} {r : Round} {p : Poll}

/-! ## Rounds -/

/-- A round that polls the body. -/
def askOnce (d : Decoder) : Body → Round
  | .ok chunk :: body =>
    { poll := some ⟨d, some (.ok chunk)⟩, next := { body, decoder := d.push chunk } }
  | .error cause :: body =>
    { poll := some ⟨d, some (.error cause)⟩, item := some (.transport cause),
      next := { body, decoder := { d with buffer := [] }, finished := true } }
  | [] =>
    { poll := some ⟨d, none⟩, item := d.finish.head?,
      next := { body := [], decoder := { d with buffer := [], pending := {} }, finished := true } }

/-- The next round, if any. It polls the body if the buffer gives no item. -/
def round? (s : FrameStream) : Option Round :=
  match s.decoder.pull with
  | (d, some item) => some { item := some item, next := { s with decoder := d } }
  | (d, none) => if s.finished then none else some (askOnce d s.body)

theorem left_askOnce_lt (d : Decoder) (body : Body) :
    (askOnce d body).next.left + (askOnce d body).next.body.length <
      d.buffer.length + body.size + 1 + body.length := by
  match body with
  | [] => simp [askOnce, left, Body.size]
  | .error cause :: body =>
    simp only [askOnce, left, Body.size, List.length_nil, List.length_cons, if_true]
    omega
  | .ok chunk :: body =>
    have hpush := d.length_push chunk
    simp only [askOnce, left, Body.size, List.length_cons, Bool.false_eq_true, if_false]
    omega

theorem left_round?_lt (h : s.round? = some r) :
    r.next.left + r.next.body.length < s.left + s.body.length := by
  unfold round? at h
  split at h
  next hsome =>
    obtain rfl := Option.some.inj h
    have hpull := Decoder.length_lt_of_pull hsome
    simp only [left]
    omega
  next d hnone =>
    split at h
    · cases h
    next hgoing =>
      obtain rfl := Option.some.inj h
      have hpull := Decoder.length_le_of_pull hnone
      have hask := left_askOnce_lt d s.body
      have hleft : s.left = s.decoder.buffer.length + s.body.size + 1 := by
        rw [left, if_neg hgoing]
      omega

/-- The rounds from `s` on, until the stream has ended. -/
def rounds (s : FrameStream) : List Round :=
  match _h : s.round? with
  | some r => r :: r.next.rounds
  | none => []
termination_by s.left + s.body.length
decreasing_by exact left_round?_lt _h

/-- The polls from `s` on. -/
def polls (s : FrameStream) : List Poll := s.rounds.filterMap Round.poll

/-! ## Items -/

/-- The body is polled again if a chunk gives no item. -/
theorem ask_eq_next? (d : Decoder) (body : Body) :
    ask d body = ((askOnce d body).item.map fun item => (item, (askOnce d body).next)).or
      (askOnce d body).next.next? := by
  match body with
  | .ok chunk :: body => rfl
  | .error cause :: body => rfl
  | [] =>
    have hover : next? ⟨[], { d with buffer := [], pending := {} }, true⟩ = none := by
      rw [next?, Decoder.pull]
      rfl
    simp only [ask, askOnce, hover, Option.or_none]

/-- The next item is that of this round, or else the next one after it. -/
theorem next?_eq_round? (s : FrameStream) : s.next? = s.round?.bind fun r =>
    (r.item.map fun item => (item, r.next)).or r.next.next? := by
  unfold round?
  conv_lhs => unfold next?
  rcases s.decoder.pull with ⟨d, _ | item⟩
  · dsimp only
    split
    · rfl
    · exact ask_eq_next? d s.body
  · rfl

/-- The next item is that of the first round that gives one, and the next state is that of this
round. -/
theorem next?_eq_findSome? (s : FrameStream) :
    s.next? = s.rounds.findSome? fun r => r.item.map fun item => (item, r.next) := by
  fun_induction rounds s with
  | case1 s r h ih =>
    rw [next?_eq_round?, h, Option.bind_some, ih, List.findSome?_cons]
    cases r.item <;> rfl
  | case2 s h => rw [next?_eq_round?, h]; rfl

theorem toList_eq_next? (s : FrameStream) :
    s.toList = s.next?.elim [] fun e => e.1 :: e.2.toList := by
  rw [toList_eq_due, due_eq_next?]
  simp only [toList_eq_due]

/-- The items of a stream are those of its rounds. -/
theorem toList_eq_filterMap (s : FrameStream) : s.toList = s.rounds.filterMap Round.item := by
  fun_induction rounds s with
  | case1 s r h ih =>
    rw [toList_eq_next?, next?_eq_round?, h, Option.bind_some, List.filterMap_cons, ← ih]
    cases r.item with
    | none => exact (toList_eq_next? r.next).symm
    | some item => rfl
  | case2 s h => rw [toList_eq_next?, next?_eq_round?, h]; rfl

/-! ## The decoder at a poll -/

/-- The polls of `body` from the decoder `d` on, which takes whole chunks. -/
def pollsOf (d : Decoder) : Body → List Poll
  | .ok chunk :: body => ⟨d, some (.ok chunk)⟩ :: pollsOf (d.feed chunk).1 body
  | .error cause :: _ => [⟨d, some (.error cause)⟩]
  | [] => [⟨d, none⟩]

/-- The polls still to come. -/
def pollsDue (s : FrameStream) : List Poll :=
  if s.finished then [] else pollsOf s.decoder.drain.1 s.body

theorem pollsOf_eq_askOnce (d : Decoder) (body : Body) :
    pollsOf d body = (askOnce d body).poll.toList ++ (askOnce d body).next.pollsDue := by
  match body with
  | .ok chunk :: body => rfl
  | .error cause :: body => rfl
  | [] => rfl

theorem pollsDue_eq_round? (s : FrameStream) :
    s.pollsDue = s.round?.elim [] fun r => r.poll.toList ++ r.next.pollsDue := by
  unfold round?
  conv_lhs => unfold pollsDue
  rcases hp : s.decoder.pull with ⟨d, _ | item⟩
  · rw [Decoder.drain_of_pull_none hp]
    dsimp only
    split
    · rfl
    · exact pollsOf_eq_askOnce d s.body
  · rw [Decoder.drain_of_pull_some hp]
    rfl

/-- The decoder at every poll is the one that has taken the earlier chunks as a whole. -/
theorem polls_eq_pollsDue (s : FrameStream) : s.polls = s.pollsDue := by
  unfold polls
  fun_induction rounds s with
  | case1 s r h ih =>
    rw [pollsDue_eq_round?, h, Option.elim_some, ← ih, List.filterMap_cons]
    cases r.poll <;> rfl
  | case2 s h => rw [pollsDue_eq_round?, h]; rfl

/-- The replies of a body to its polls. -/
theorem map_reply_pollsOf (d : Decoder) (body : Body) :
    (pollsOf d body).map Poll.reply =
      body.chunks.map (fun chunk => some (.ok chunk)) ++ [body.ending.reply] := by
  induction body generalizing d with
  | nil => rfl
  | cons piece body ih =>
    cases piece with
    | error cause => rfl
    | ok chunk => exact congrArg (some (.ok chunk) :: ·) (ih (d.feed chunk).1)

/-- `Decoder.Settled` holds at every poll. -/
theorem settled_of_mem_pollsOf (h : d.Settled) (hp : p ∈ pollsOf d body) :
    p.decoder.Settled ∧ p.decoder.limit = d.limit := by
  induction body generalizing d with
  | nil =>
    obtain rfl := List.mem_singleton.1 hp
    exact ⟨h, rfl⟩
  | cons piece body ih =>
    cases piece with
    | error cause =>
      obtain rfl := List.mem_singleton.1 hp
      exact ⟨h, rfl⟩
    | ok chunk =>
      rcases List.mem_cons.1 hp with rfl | hp
      · exact ⟨h, rfl⟩
      · rw [← d.limit_feed chunk]
        exact ih (Decoder.settled_feed h chunk) hp

end FrameStream

theorem polls_start (limit : Nat) (body : Body) :
    FrameStream.polls { body, decoder := { limit } } = FrameStream.pollsOf { limit } body := by
  rw [FrameStream.polls_eq_pollsDue, FrameStream.pollsDue, Decoder.drain_of_empty rfl]
  rfl

/-- At every poll the buffer contains no complete line and is within the limit, and it is empty,
like the pending frame, while a line is discarded. The body is polled for each chunk, and once for
its end or its first failure, and not after it. The rounds are those of the stream itself, with
items taken in between. -/
theorem settled_of_polls (limit : Nat) (body : Body) :
    let s : FrameStream := { body, decoder := { limit } }
    (∀ p ∈ s.polls, lf ∉ p.decoder.buffer ∧ p.decoder.buffer.length ≤ limit ∧
      (p.decoder.discarding = true → p.decoder.buffer = [] ∧ p.decoder.pending = {})) ∧
    s.polls.map Poll.reply =
      body.chunks.map (fun chunk => some (.ok chunk)) ++ [body.ending.reply] ∧
    frames limit body = s.rounds.filterMap Round.item ∧
    ∀ t : FrameStream,
      t.next? = t.rounds.findSome? fun r => r.item.map fun item => (item, r.next) := by
  intro s
  have hpolls : s.polls = FrameStream.pollsOf { limit } body := polls_start limit body
  refine ⟨fun p hp => ?_, ?_, s.toList_eq_filterMap, FrameStream.next?_eq_findSome?⟩
  · rw [hpolls] at hp
    obtain ⟨hsettled, hlimit⟩ :=
      FrameStream.settled_of_mem_pollsOf (Decoder.settled_start limit) hp
    exact ⟨hsettled.line, Nat.le_trans hsettled.fits (Nat.le_of_eq hlimit), hsettled.dropped⟩
  · rw [hpolls]
    exact FrameStream.map_reply_pollsOf { limit } body

/-- A line of several chunks is discarded while the body is polled. -/
theorem settled_of_polls_demo :
    let body : Body := [.ok (encode "event: x\ndata: 0123"), .ok (encode "456789"),
      .ok (encode "ABCDEF\ndata: two\n\n"), .error (.io "reset"), .ok (encode "data: never\n\n")]
    let s : FrameStream := { body, decoder := { limit := 10 } }
    let p : Poll :=
      ⟨{ limit := 10, discarding := true }, some (.ok (encode "ABCDEF\ndata: two\n\n"))⟩
    p ∈ s.polls ∧ p.decoder.discarding = true ∧
      p.decoder.buffer = [] ∧ p.decoder.pending = {} ∧ s.polls.length = 4 := by
  intro body s p
  obtain ⟨hkept, hreplies, -⟩ := settled_of_polls 10 body
  have hp : p ∈ s.polls := by
    rw [polls_start 10 body]
    decide +kernel
  obtain ⟨hbuffer, hpending⟩ := (hkept p hp).2.2 rfl
  refine ⟨hp, rfl, hbuffer, hpending, ?_⟩
  rw [← List.length_map Poll.reply, hreplies]
  rfl

end PeerLink.Sse
