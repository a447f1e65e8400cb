import PeerLink.Proofs.Sse.Pulls
/-!
# A reference for whole bodies

`reference` is defined on the bytes of a body alone, without a buffer and without a line that is
being discarded. The lines are read in order. A line that is too long is reported, and the pending
frame is lost. Every other line is added to the pending frame. The bytes after the last line feed
are a line at the end of the body, and they are lost at a failure.

## Main definitions

* `legible`: the text of a line, if it is not too long.
* `Pending.read`: the items of a list of lines.
* `reference`: the items of the bytes of a body, for its ending.

## Main statements

* `items_eq_reference`, `frames_eq_reference`: the items of a body without a borderline line are
  those of the reference, for every cut.
-/

namespace PeerLink.Sse

open Text Text.Utf8 Transport

/-! ## The reference -/

/-- The text of a line, if the line has at most `limit` bytes. -/
def legible (limit : Nat) (line : Bytes) : Option String :=
  if limit < line.length then none else some (decodeLossy line)

/-- Reads lines in order. A line that is too long is reported, and the pending frame is lost. -/
def Pending.read (limit : Nat) (p : Pending) : List (Option String) → Pending × List Item
  | [] => (p, [])
  | none :: rest =>
    let (p, more) := read limit {} rest
    (p, .lineTooLong limit :: more)
  | some line :: rest =>
    let (p, frame) := p.feed line
    let (p, more) := read limit p rest
    (p, frame.toList.map .frame ++ more)

/-- The lines that are made of the bytes after the last line feed. At the end of a body they are
read without their carriage returns, and an empty line follows; after a failure they are lost. -/
def tailLines (limit : Nat) (tail : Bytes) : Ending → List (Option String)
  | .closed =>
    (if tail = [] then [] else [(legible limit tail).map (trimEndOf '\r')]) ++ [some ""]
  | .failed _ => if limit < tail.length then [none] else []

/-- The item that the ending adds. -/
def Ending.items : Ending → List Item
  | .closed => []
  | .failed cause => [.transport cause]

/-- The items of the bytes of a body, for its ending. -/
def reference (limit : Nat) (bytes : Bytes) (ending : Ending) : List Item :=
  let lines := (splitLines bytes).1.map fun line => legible limit (dropCr line)
  (Pending.read limit {} (lines ++ tailLines limit (splitLines bytes).2 ending)).2 ++ ending.items

/-! ## Lists of lines -/

theorem Pending.read_append (limit : Nat) (p : Pending) (lines more : List (Option String)) :
    p.read limit (lines ++ more) = (((p.read limit lines).1.read limit more).1,
      (p.read limit lines).2 ++ ((p.read limit lines).1.read limit more).2) := by
  induction lines generalizing p with
  | nil => rfl
  | cons line rest ih =>
    cases line with
    | none => simp only [List.cons_append, read, ih]
    | some text => simp only [List.cons_append, read, ih, List.append_assoc]

/-- Lines that are not too long are fed to the pending frame. -/
theorem Pending.read_map_some (limit : Nat) (p : Pending) (texts : List String) :
    p.read limit (texts.map some) = ((p.feedAll texts).1, (p.feedAll texts).2.map .frame) := by
  induction texts generalizing p with
  | nil => rfl
  | cons text rest ih => simp only [List.map_cons, read, feedAll, ih, List.map_append]

namespace Decoder

variable {d : Decoder}

/-- The decoder takes complete lines as the reference does. -/
theorem takeLines_eq_read (d : Decoder) (lines : List Bytes) :
    d.takeLines lines =
      let read := d.pending.read d.limit (lines.map fun line => legible d.limit (dropCr line))
      ({ d with pending := read.1 }, read.2) := by
  induction lines generalizing d with
  | nil => rfl
  | cons line rest ih =>
    rw [takeLines, List.map_cons, legible]
    rcases Nat.lt_or_ge d.limit (dropCr line).length with hlong | hshort
    · rw [takeLine_of_lt hlong, if_pos hlong]
      simp only [ih, Pending.read, List.singleton_append]
    · rw [takeLine_of_le hshort, if_neg (Nat.not_lt.2 hshort)]
      simp only [ih, Pending.read]

/-- The decoder takes the bytes after the last line feed as the reference does. -/
theorem conclude_checkTail (hd : d.discarding = false) (ending : Ending) :
    d.checkTail.2 ++ d.checkTail.1.conclude ending =
      (d.pending.read d.limit (tailLines d.limit d.buffer ending)).2 ++ ending.items := by
  rcases Nat.lt_or_ge d.limit d.buffer.length with hlong | hshort
  · have hne : d.buffer ≠ [] := fun h => by simp [h] at hlong
    rw [checkTail_of_lt hlong]
    cases ending with
    | closed => simp [tailLines, legible, hlong, hne, Pending.read, conclude, finish, givenUp,
        Pending.feedAll, Pending.feed, Ending.items]
    | failed cause => simp [tailLines, hlong, Pending.read, conclude, fail, Ending.items]
  · rw [checkTail_of_le hshort, List.nil_append]
    cases ending with
    | failed cause => simp [tailLines, Nat.not_lt.2 hshort, Pending.read, conclude, fail,
        Ending.items]
    | closed =>
      have htexts : tailLines d.limit d.buffer .closed = ((if d.buffer.isEmpty || d.discarding
          then [] else [trimEndOf '\r' (decodeLossy d.buffer)]) ++ [""]).map some := by
        cases hbuffer : d.buffer with
        | nil => rfl
        | cons b rest => simpa [tailLines, legible, hd, hbuffer] using hshort
      rw [htexts, Pending.read_map_some, Ending.items, List.append_nil]
      rfl

end Decoder

/-! ## Whole bodies -/

/-- Chunks that sever no line give the items of the reference. -/
theorem items_eq_reference {limit : Nat} {chunks : List Bytes} (h : ¬Severed limit chunks)
    (ending : Ending) : items limit chunks ending = reference limit chunks.flatten ending := by
  have hpush : ({ limit } : Decoder).push chunks.flatten = { limit, buffer := chunks.flatten } :=
    Decoder.push_of_not_discarding rfl _
  rw [items, Decoder.feedAll_eq_feed h, Decoder.feed_eq, hpush]
  dsimp only
  rw [List.append_assoc, Decoder.conclude_checkTail (Decoder.discarding_unload _),
    Decoder.unload, Decoder.takeLines_eq_read, reference, Pending.read_append]
  exact (List.append_assoc _ _ _).symm

/-- The items of a body are those of the reference for its bytes up to its end or its first failure,
for every cut and everything after the failure, if no line is borderline. -/
theorem frames_eq_reference (limit : Nat) (body : Body)
    (h : ∀ line ∈ (splitLines body.chunks.flatten).1, ¬Borderline limit line) :
    frames limit body = reference limit body.chunks.flatten body.ending := by
  have hs : ¬Severed limit body.chunks := by
    intro hs
    obtain ⟨line, hline, hb⟩ := hs.exists_borderline
    exact h line hline hb
  rw [frames_eq_items, items_eq_reference hs]

theorem frames_eq_reference_demo :
    let body : Body := [.ok (encode "event: x\r"), .ok (encode "\ndata: one\r\n\r\ndata: 0123"),
      .ok [], .ok (encode "456789\ndata: two\n"), .ok (encode "\ndata: three"),
      .error (.io "reset"), .ok (encode "data: four\n\n")]
    (∀ line ∈ (splitLines body.chunks.flatten).1, ¬Borderline 10 line) ∧
      frames 10 body = reference 10 body.chunks.flatten body.ending ∧
      frames 10 body = [.frame ⟨some "x", "one"⟩, .lineTooLong 10, .frame ⟨none, "two"⟩,
        .lineTooLong 10, .transport (.io "reset")] := by
  intro body
  have hlines : ∀ line ∈ (splitLines body.chunks.flatten).1, ¬Borderline 10 line := by
    decide +kernel
  have heq := frames_eq_reference 10 body hlines
  refine ⟨hlines, heq, heq.trans ?_⟩
  decide +kernel

end PeerLink.Sse
