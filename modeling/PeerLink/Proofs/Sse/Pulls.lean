import PeerLink.Proofs.Sse.Chunks
import PeerLink.Sse.Frames
/-!
# Items one at a time

`FrameStream.next?` gives one item at a time, and the decoder takes whole chunks. `FrameStream.due`
lists all items that are still to come: those of the bytes in the buffer, and those of the chunks
that the body has not given yet. `FrameStream.next?` takes the items of this list one by one.

## Main definitions

* `FrameStream.due`: the items still to come.

## Main statements

* `FrameStream.toList_eq_due`: the items of a stream are `FrameStream.due`.
* `frames_eq_items`: the items of a body are those of its chunks before its end or its first
  failure.
-/

namespace PeerLink.Sse

open Text Text.Utf8 Transport

/-! ## The buffer -/

namespace Decoder

variable {d d' : Decoder} {line : Bytes} {item : Item}

theorem lf_not_mem_of_popLine? (h : d.popLine? = none) : lf ∉ d.buffer := by
  unfold popLine? at h
  split at h
  next hdrop =>
    intro hm
    obtain ⟨l, rest, hbuffer, hl⟩ := List.eq_append_cons_of_mem hm
    rw [hbuffer, dropWhile_append_of_not_mem hl] at hdrop
    simp at hdrop
  · cases h

/-- `Decoder.drain` takes the first line before the others. -/
theorem drain_line (h : lf ∉ line) (rest : Bytes) :
    { d with buffer := line ++ lf :: rest }.drain =
      (({ d with buffer := rest }.takeLine line).1.drain.1,
        ({ d with buffer := rest }.takeLine line).2 ++
          ({ d with buffer := rest }.takeLine line).1.drain.2) := by
  rw [drain_eq, drain_eq, takeLine_buffer]
  simp only [unload, takeLines_buffer, splitLines_line h, takeLines, List.append_assoc]

theorem length_takeLine_le (d : Decoder) (line : Bytes) : (d.takeLine line).2.length ≤ 1 := by
  unfold takeLine
  split
  · exact Nat.le_refl _
  · dsimp only
    cases (d.pending.feed (decodeLossy (dropCr line))).2 <;> simp

/-- `Decoder.pull` gives the first item of `Decoder.drain`. -/
theorem drain_eq_pull (d : Decoder) : d.drain = match d.pull with
    | (d', some item) => (d'.drain.1, item :: d'.drain.2)
    | (d', none) => (d', []) := by
  fun_induction pull d with
  | case1 d line d' h item items hitems =>
    obtain ⟨hline, rest, hbuffer, rfl⟩ := of_popLine? h
    have hone : items = [] := by
      have := length_takeLine_le { d with buffer := rest } line
      simpa [hitems] using this
    have hd : d = { d with buffer := line ++ lf :: rest } := by rw [← hbuffer]
    rw [hd, drain_line hline, hitems, hone]
    rfl
  | case2 d line d' h hnone ih =>
    obtain ⟨hline, rest, hbuffer, rfl⟩ := of_popLine? h
    have hd : d = { d with buffer := line ++ lf :: rest } := by rw [← hbuffer]
    rw [hd, drain_line hline, hnone, List.nil_append]
    exact ih
  | case3 d h =>
    have hunload : d.unload = (d, []) := by
      rw [unload, splitLines_of_not_mem (lf_not_mem_of_popLine? h)]
      rfl
    rw [drain_eq, hunload, List.nil_append]
    rcases Nat.lt_or_ge d.limit d.buffer.length with hlong | hshort
    · rw [checkTail_of_lt hlong, List.head?_cons]
      dsimp only
      rw [drain_of_settled (settled_givenUp d)]
    · rw [checkTail_of_le hshort]
      rfl

theorem drain_of_pull_some (h : d.pull = (d', some item)) :
    d.drain = (d'.drain.1, item :: d'.drain.2) := by
  rw [drain_eq_pull, h]

theorem drain_of_pull_none (h : d.pull = (d', none)) : d.drain = (d', []) := by
  rw [drain_eq_pull, h]

theorem drain_of_empty (h : d.buffer = []) : d.drain = (d, []) := by
  have hline : lf ∉ d.buffer := h ▸ List.not_mem_nil
  have hunload : d.unload = (d, []) := by
    rw [unload, splitLines_of_not_mem hline]
    rfl
  rw [drain_eq, hunload, checkTail_of_le (h ▸ Nat.zero_le _)]
  rfl

/-- The end of a body completes at most one frame. -/
theorem length_finish_le (d : Decoder) : d.finish.length ≤ 1 := by
  have hcomplete (o : Option Frame) : o.toList.length ≤ 1 := by cases o <;> simp
  have hlast (p : Pending) : (p.feedAll [""]).2 = p.complete.toList := List.append_nil _
  have hrest (p : Pending) (text : String) : (p.feedAll [text, ""]).2.length ≤ 1 := by
    -- a line that completes a frame leaves nothing for the empty line after it
    have hfeed : (p.feed text).2 = none ∨ (p.feed text).1 = {} := by
      unfold Pending.feed
      split <;> simp
    rw [Pending.feedAll]
    dsimp only
    rw [hlast]
    rcases hfeed with hnone | hempty
    · rw [hnone]
      exact hcomplete _
    · rw [hempty]
      have hnothing : ({} : Pending).complete = none := rfl
      rw [hnothing, Option.toList_none, List.append_nil]
      exact hcomplete _
  unfold finish
  rw [List.length_map]
  split
  · rw [List.nil_append, hlast]
    exact hcomplete _
  · exact hrest _ _

theorem finish_eq_head? (d : Decoder) : d.finish = d.finish.head?.toList := by
  have hle := d.length_finish_le
  match hf : d.finish with
  | [] | [_] => rfl
  | _ :: _ :: _ => simp [hf] at hle

end Decoder

/-! ## The items still to come -/

namespace FrameStream

variable {d : Decoder} {body : Body} {item : Item} {s s' : FrameStream}

/-- The items still to come of a body. -/
def dueOf (d : Decoder) (body : Body) : List Item :=
  (d.feedAll body.chunks).2 ++ (d.feedAll body.chunks).1.conclude body.ending

/-- The items still to come. -/
def due (s : FrameStream) : List Item :=
  s.decoder.drain.2 ++ if s.finished then [] else dueOf s.decoder.drain.1 s.body

theorem dueOf_chunk (d : Decoder) (chunk : Bytes) (body : Body) :
    dueOf d (.ok chunk :: body) = (d.feed chunk).2 ++ dueOf (d.feed chunk).1 body := by
  rw [dueOf, Body.chunks, Body.ending, Decoder.feedAll_cons, List.append_assoc]
  rfl

theorem dueOf_eq_ask (d : Decoder) (body : Body) :
    dueOf d body = (ask d body).elim [] fun e => e.1 :: e.2.due := by
  induction body generalizing d with
  | nil =>
    have hover : due ⟨[], { d with buffer := [], pending := {} }, true⟩ = [] := by
      rw [due, Decoder.drain_of_empty rfl]
      rfl
    have hfinish : dueOf d [] = d.finish := rfl
    rw [hfinish, d.finish_eq_head?, ask]
    cases d.finish.head? with
    | none => rfl
    | some item => exact congrArg (item :: ·) hover.symm
  | cons piece body ih =>
    cases piece with
    | error cause =>
      have hover : due ⟨body, { d with buffer := [] }, true⟩ = [] := by
        rw [due, Decoder.drain_of_empty rfl]
        rfl
      rw [ask, Option.elim_some, hover]
      rfl
    | ok chunk =>
      rw [dueOf_chunk, ask, Decoder.feed]
      rcases hp : (d.push chunk).pull with ⟨d', _ | item⟩
      · rw [Decoder.drain_of_pull_none hp]
        exact ih d'
      · rw [Decoder.drain_of_pull_some hp]
        rfl

theorem due_eq_next? (s : FrameStream) :
    s.due = s.next?.elim [] fun e => e.1 :: e.2.due := by
  unfold next?
  rcases hp : s.decoder.pull with ⟨d', _ | item⟩
  · rw [due, Decoder.drain_of_pull_none hp, List.nil_append]
    dsimp only
    split
    · rfl
    · exact dueOf_eq_ask d' s.body
  · rw [due, Decoder.drain_of_pull_some hp]
    rfl

/-- The items of a stream are `FrameStream.due`. -/
theorem toList_eq_due (s : FrameStream) : s.toList = s.due := by
  fun_induction toList s with
  | case1 s item s' h ih => rw [due_eq_next?, h, ih, Option.elim_some]
  | case2 s h => rw [due_eq_next?, h, Option.elim_none]

end FrameStream

/-- The items of a body are those of its chunks before its end or its first failure. -/
theorem frames_eq_items (limit : Nat) (body : Body) :
    frames limit body = items limit body.chunks body.ending := by
  rw [frames, FrameStream.toList_eq_due, FrameStream.due, Decoder.drain_of_empty rfl]
  rfl

end PeerLink.Sse
