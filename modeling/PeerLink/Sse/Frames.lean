import PeerLink.Sse.Decoder
/-!
# The stream of frames

`FrameStream.next?` gives one item at a time. The body is polled only if the buffer gives no item:
it contains no complete line, and the current line is not too long. After its end or its first
failure the body is not polled again.

## Main definitions

* `Body`: the replies of a body to its polls.
* `Decoder.pull`: the next item of the buffer.
* `FrameStream.next?`: the next item of a stream.
* `frames`: all items of a body.
-/

namespace PeerLink.Sse

open Text Text.Utf8 Transport

/-- The replies of a body to its polls until it ends, each a chunk or a failure. -/
abbrev Body := List (Except Failure Bytes)

namespace Body

/-- The chunks before the end or the first failure. -/
def chunks : Body → List Bytes
  | .ok chunk :: body => chunk :: chunks body
  | _ => []

/-- The ending of a body. Replies after its first failure are ignored. -/
def ending : Body → Ending
  | .ok _ :: body => ending body
  | .error cause :: _ => .failed cause
  | [] => .closed

/-- The number of bytes in the chunks of a body. -/
def size : Body → Nat
  | .ok chunk :: body => chunk.length + size body
  | .error _ :: body => size body
  | [] => 0

end Body

/-! ## The buffer -/

namespace Decoder

variable {d d' : Decoder} {line : Bytes}

/-- The first complete line, without its line feed, and the decoder without the line. -/
def popLine? (d : Decoder) : Option (Bytes × Decoder) :=
  match d.buffer.dropWhile (· != lf) with
  | [] => none
  | _ :: rest => some (d.buffer.takeWhile (· != lf), { d with buffer := rest })

theorem of_popLine? (h : d.popLine? = some (line, d')) :
    lf ∉ line ∧ ∃ rest, d.buffer = line ++ lf :: rest ∧ d' = { d with buffer := rest } := by
  unfold popLine? at h
  split at h
  · cases h
  next b rest hdrop =>
    obtain ⟨rfl, rfl⟩ := Prod.mk.inj (Option.some.inj h)
    have hb := List.head?_dropWhile_not (· != lf) d.buffer
    rw [hdrop] at hb
    obtain rfl : b = lf := by simpa using hb
    refine ⟨fun hm => ?_, rest, ?_, rfl⟩
    · simpa using List.all_eq_true.1 (List.all_takeWhile (p := (· != lf))) lf hm
    · rw [← hdrop, List.takeWhile_append_dropWhile]

@[simp] theorem buffer_takeLine (d : Decoder) (line : Bytes) :
    (d.takeLine line).1.buffer = d.buffer := by
  unfold takeLine
  split <;> rfl

/-- Takes complete lines until one gives an item. If none is left, the current line is discarded if
it is too long. -/
def pull (d : Decoder) : Decoder × Option Item :=
  match _h : d.popLine? with
  | some (line, d') =>
    match (d'.takeLine line).2 with
    | item :: _ => ((d'.takeLine line).1, some item)
    | [] => (d'.takeLine line).1.pull
  | none => (d.checkTail.1, d.checkTail.2.head?)
termination_by d.buffer.length
decreasing_by
  obtain ⟨-, rest, hbuffer, rfl⟩ := of_popLine? _h
  rw [buffer_takeLine, hbuffer, List.length_append, List.length_cons]
  exact Nat.lt_add_left _ (Nat.lt_succ_self _)

/-- If the buffer gives an item, it becomes shorter. -/
theorem length_pull (d : Decoder) :
    d.pull.1.buffer.length + d.pull.2.toList.length ≤ d.buffer.length := by
  fun_induction pull d with
  | case1 d line d' h item items hitems =>
    obtain ⟨-, rest, hbuffer, rfl⟩ := of_popLine? h
    simp [hbuffer]
  | case2 d line d' h hnone ih =>
    obtain ⟨-, rest, hbuffer, rfl⟩ := of_popLine? h
    rw [buffer_takeLine] at ih
    rw [hbuffer, List.length_append, List.length_cons]
    dsimp only at ih ⊢
    omega
  | case3 d h =>
    unfold checkTail
    split
    next hlong => exact Nat.lt_of_le_of_lt (Nat.zero_le _) hlong
    · exact Nat.le_refl _

theorem length_lt_of_pull {item : Item} (h : d.pull = (d', some item)) :
    d'.buffer.length < d.buffer.length := by
  simpa [h, Nat.succ_le_iff] using d.length_pull

theorem length_le_of_pull (h : d.pull = (d', none)) : d'.buffer.length ≤ d.buffer.length := by
  simpa [h] using d.length_pull

theorem length_push (d : Decoder) (chunk : Bytes) :
    (d.push chunk).buffer.length ≤ d.buffer.length + chunk.length := by
  unfold push
  split
  · have hdrop := (List.dropWhile_sublist (· != lf) (l := chunk)).length_le
    split
    · exact Nat.le_add_right _ _
    next heq =>
      rw [heq, List.length_cons] at hdrop
      dsimp only
      omega
  · exact Nat.le_of_eq (List.length_append)

end Decoder

/-! ## Polling the body -/

/-- A stream of frames. -/
structure FrameStream where
  body : Body
  decoder : Decoder
  /-- Whether the body has ended or failed. -/
  finished : Bool := false

namespace FrameStream

/-- Polls the body until a chunk or the end gives an item. -/
def ask (d : Decoder) : Body → Option (Item × FrameStream)
  | .ok chunk :: body =>
    match (d.push chunk).pull with
    | (d, some item) => some (item, { body, decoder := d })
    | (d, none) => ask d body
  | .error cause :: body =>
    some (.transport cause, { body, decoder := { d with buffer := [] }, finished := true })
  | [] => d.finish.head?.map fun item =>
    (item, { body := [], decoder := { d with buffer := [], pending := {} }, finished := true })

/-- The next item, if there is one, and the stream after it. -/
def next? (s : FrameStream) : Option (Item × FrameStream) :=
  match s.decoder.pull with
  | (d, some item) => some (item, { s with decoder := d })
  | (d, none) => if s.finished then none else ask d s.body

/-! ## All items -/

/-- A bound on the items left: the bytes in the buffer and in the body, and the end of the body. -/
def left (s : FrameStream) : Nat :=
  s.decoder.buffer.length + s.body.size + if s.finished then 0 else 1

variable {d : Decoder} {body : Body} {item : Item} {s s' : FrameStream}

theorem left_ask_le (h : ask d body = some (item, s')) :
    s'.left ≤ d.buffer.length + body.size := by
  induction body generalizing d with
  | nil =>
    obtain ⟨_, -, heq⟩ := Option.map_eq_some_iff.1 h
    obtain ⟨-, rfl⟩ := Prod.mk.inj heq
    exact Nat.zero_le _
  | cons piece body ih =>
    cases piece with
    | error cause =>
      obtain ⟨-, rfl⟩ := Prod.mk.inj (Option.some.inj h)
      simp [left, Body.size]
    | ok chunk =>
      have hpush := d.length_push chunk
      unfold ask at h
      split at h
      next hsome =>
        obtain ⟨-, rfl⟩ := Prod.mk.inj (Option.some.inj h)
        have hpull := Decoder.length_lt_of_pull hsome
        simp only [left, Body.size, Bool.false_eq_true, if_false]
        omega
      next hnone =>
        have hpull := Decoder.length_le_of_pull hnone
        have hrest := ih h
        simp only [Body.size]
        omega

theorem left_next?_lt (h : s.next? = some (item, s')) : s'.left < s.left := by
  unfold next? at h
  split at h
  next hsome =>
    obtain ⟨-, rfl⟩ := Prod.mk.inj (Option.some.inj h)
    exact Nat.add_lt_add_right (Nat.add_lt_add_right (Decoder.length_lt_of_pull hsome) _) _
  next hnone =>
    split at h
    · cases h
    next hgoing =>
      have hpull := Decoder.length_le_of_pull hnone
      have hask := left_ask_le h
      have hleft : s.left = s.decoder.buffer.length + s.body.size + 1 := by
        rw [left, if_neg hgoing]
      omega

/-- All items of a stream. -/
def toList (s : FrameStream) : List Item :=
  match _h : s.next? with
  | some (item, s') => item :: s'.toList
  | none => []
termination_by s.left
decreasing_by exact left_next?_lt _h

end FrameStream

/-- All items of a body whose lines have at most `limit` bytes. -/
def frames (limit : Nat) (body : Body) : List Item :=
  FrameStream.toList { body, decoder := { limit } }

end PeerLink.Sse
