import PeerLink.Proofs.Sse.Pulls
/-!
# Bodies that depend on their cut

A severed line is within the limit in one piece, and it is discarded when it is cut off from its
line feed. So a body that severs a line has one more item `tooLong`, and two bodies of the same
bytes that sever no line give the same items.

## Main definitions

* `overlong`: the number of lines that are too long.
* `Body.Carries`: the bytes of a body and its ending.

## Main statements

* `overlong_le_count`: the number of lines reported as too long, with one more for a severed line.
* `frames_eq_frames_iff`: two bodies of the same bytes give the same items iff neither severs a
  line.
-/

namespace PeerLink.Sse

open Text Text.Utf8 Transport

/-! ## The number of lines that are too long -/

/-- Whether an item is `tooLong`. -/
def Item.isTooLong : Item → Bool
  | .lineTooLong _ => true
  | _ => false

/-- The number of lines of `bytes` that are too long, with the bytes after the last line. -/
def overlong (limit : Nat) (bytes : Bytes) : Nat :=
  (splitLines bytes).1.countP (fun line => decide (limit < (dropCr line).length)) +
    if limit < (splitLines bytes).2.length then 1 else 0

section Lines

variable {limit : Nat} {line : Bytes}

/-- A line of more bytes than the limit is within it at its end iff it is borderline. -/
theorem lt_length_dropCr_iff (h : limit < line.length) :
    limit < (dropCr line).length ↔ ¬Borderline limit line := by
  refine ⟨fun hlong hb => ?_, lt_length_dropCr h⟩
  rw [dropCr, if_pos hb.2, List.length_dropLast, hb.1] at hlong
  omega

theorem overlong_append (limit : Nat) (a b : Bytes) :
    overlong limit (a ++ b) + (if limit < (splitLines a).2.length then 1 else 0) =
      overlong limit a + overlong limit ((splitLines a).2 ++ b) := by
  simp only [overlong, splitLines_append a b, List.countP_append]
  omega

theorem overlong_line (h : lf ∉ line) (rest : Bytes) :
    overlong limit (line ++ lf :: rest) =
      (if limit < (dropCr line).length then 1 else 0) + overlong limit rest := by
  simp only [overlong, splitLines_line h, List.countP_cons, decide_eq_true_eq]
  omega

theorem overlong_of_not_mem (h : lf ∉ line) :
    overlong limit line = if limit < line.length then 1 else 0 := by
  rw [overlong, splitLines_of_not_mem h, List.countP_nil, Nat.zero_add]

end Lines

namespace Decoder

variable {d : Decoder} {tail chunk : Bytes}

theorem count_takeLines (d : Decoder) (lines : List Bytes) :
    (d.takeLines lines).2.countP Item.isTooLong =
      lines.countP fun line => decide (d.limit < (dropCr line).length) := by
  have hframe (o : Option Frame) : (o.toList.map Item.frame).countP Item.isTooLong = 0 := by
    cases o <;> rfl
  induction lines generalizing d with
  | nil => rfl
  | cons line rest ih =>
    simp only [takeLines, List.countP_append, ih, limit_takeLine, List.countP_cons,
      decide_eq_true_eq]
    rw [Nat.add_comm]
    congr 1
    unfold takeLine
    split
    · rfl
    · exact hframe _

/-- `Decoder.drain` reports the lines that are too long. -/
theorem count_drain (d : Decoder) :
    d.drain.2.countP Item.isTooLong = overlong d.limit d.buffer := by
  rw [drain_eq, List.countP_append, unload, count_takeLines, overlong]
  congr 1
  unfold checkTail
  dsimp only
  rw [limit_takeLines]
  split <;> rfl

/-! ### The current line -/

/-- The decoder has the bytes `tail` of the current line in its buffer, or it discards them. -/
structure Holding (d : Decoder) (tail : Bytes) : Prop where
  buffer : d.buffer = if d.limit < tail.length then [] else tail
  discarding : d.discarding = decide (d.limit < tail.length)

theorem holding_checkTail (hd : d.discarding = false) : Holding d.checkTail.1 d.buffer := by
  rcases Nat.lt_or_ge d.limit d.buffer.length with hlong | hshort
  · rw [checkTail_of_lt hlong]
    exact ⟨(if_pos hlong).symm, (decide_eq_true hlong).symm⟩
  · rw [checkTail_of_le hshort]
    exact ⟨(if_neg (Nat.not_lt.2 hshort)).symm, by simp [hd, Nat.not_lt.2 hshort]⟩

theorem holding_drain (hd : d.discarding = false) : Holding d.drain.1 (splitLines d.buffer).2 := by
  rw [drain_eq]
  exact holding_checkTail ((discarding_unload d).trans hd)

section

variable (h : Holding d tail)
include h

theorem Holding.feed (ht : lf ∉ tail) (chunk : Bytes) :
    Holding (d.feed chunk).1 (splitLines (tail ++ chunk)).2 := by
  rcases Nat.lt_or_ge d.limit tail.length with hlong | hshort
  · have hd : d.discarding = true := by rw [h.discarding, decide_eq_true hlong]
    have hb : d.buffer = [] := by rw [h.buffer, if_pos hlong]
    by_cases hm : lf ∈ chunk
    · obtain ⟨l, rest, rfl, hl⟩ := List.eq_append_cons_of_mem hm
      have hend : tail ++ (l ++ lf :: rest) = (tail ++ l) ++ lf :: rest := by simp
      rw [Decoder.feed, push_line hd hl, hend, splitLines_line (List.not_mem_append ht hl)]
      exact holding_drain rfl
    · have hall : d.limit < (tail ++ chunk).length := by rw [List.length_append]; omega
      rw [Decoder.feed, push_of_not_mem hd hm, drain_of_empty hb,
        splitLines_of_not_mem (List.not_mem_append ht hm)]
      exact ⟨by rw [hb, if_pos hall], by rw [hd, decide_eq_true hall]⟩
  · have hd : d.discarding = false := by simp [h.discarding, Nat.not_lt.2 hshort]
    have hb : d.buffer = tail := by rw [h.buffer, if_neg (Nat.not_lt.2 hshort)]
    rw [Decoder.feed, push_of_not_discarding hd, hb]
    exact holding_drain hd

/-- A chunk reports the lines that are too long with it. A line that is already discarded is not
reported again. -/
theorem Holding.count_feed (ht : lf ∉ tail) (chunk : Bytes) :
    (d.feed chunk).2.countP Item.isTooLong + (if d.limit < tail.length then 1 else 0) =
      overlong d.limit (tail ++ chunk) +
        if chunk.head? = some lf ∧ Borderline d.limit tail then 1 else 0 := by
  rcases Nat.lt_or_ge d.limit tail.length with hlong | hshort
  · have hd : d.discarding = true := by rw [h.discarding, decide_eq_true hlong]
    have hb : d.buffer = [] := by rw [h.buffer, if_pos hlong]
    rw [if_pos hlong]
    by_cases hm : lf ∈ chunk
    · obtain ⟨l, rest, rfl, hl⟩ := List.eq_append_cons_of_mem hm
      have hend : tail ++ (l ++ lf :: rest) = (tail ++ l) ++ lf :: rest := by simp
      have hsevered : (l ++ lf :: rest).head? = some lf ∧ Borderline d.limit tail ↔
          ¬d.limit < (dropCr (tail ++ l)).length := by
        rw [lt_length_dropCr_iff (by rw [List.length_append]; omega), Decidable.not_not]
        cases l with
        | nil => simp
        | cons b l =>
          refine iff_of_false (fun hs => hl ?_) fun hs => ?_
          · exact Option.some.inj hs.1 ▸ List.mem_cons_self
          · have hlength := hs.1
            rw [List.length_append, List.length_cons] at hlength
            omega
      rw [Decoder.feed, push_line hd hl, count_drain, hend,
        overlong_line (List.not_mem_append ht hl), if_congr hsevered rfl rfl]
      dsimp only
      split <;> omega
    · have hfeed : d.feed chunk = (d, []) := by
        rw [Decoder.feed, push_of_not_mem hd hm, drain_of_empty hb]
      have hnot : ¬(chunk.head? = some lf ∧ Borderline d.limit tail) :=
        fun hsev => hm (List.mem_of_head? hsev.1)
      have hall : d.limit < (tail ++ chunk).length := by rw [List.length_append]; omega
      rw [hfeed, overlong_of_not_mem (List.not_mem_append ht hm), if_pos hall, if_neg hnot]
      rfl
  · have hd : d.discarding = false := by simp [h.discarding, Nat.not_lt.2 hshort]
    have hb : d.buffer = tail := by rw [h.buffer, if_neg (Nat.not_lt.2 hshort)]
    have hnot : ¬(chunk.head? = some lf ∧ Borderline d.limit tail) := by
      rintro ⟨-, hlength, -⟩
      omega
    rw [Decoder.feed, push_of_not_discarding hd, count_drain, hb, if_neg hnot,
      if_neg (Nat.not_lt.2 hshort)]

end

/-! ### Several chunks -/

section

variable {limit : Nat} {chunks : List Bytes}

@[simp] theorem limit_feedAll (d : Decoder) (chunks : List Bytes) :
    (d.feedAll chunks).1.limit = d.limit := by
  induction chunks generalizing d with
  | nil => rfl
  | cons chunk rest ih => rw [feedAll_cons, ih, limit_feed]

theorem holding_feedAll (limit : Nat) (chunks : List Bytes) :
    Holding (({ limit } : Decoder).feedAll chunks).1 (splitLines chunks.flatten).2 := by
  induction chunks using List.reverseRecOn with
  | nil => exact ⟨rfl, rfl⟩
  | append_singleton chunks chunk ih =>
    rw [feedAll_concat, List.flatten_append, List.flatten_singleton, splitLines_append]
    exact ih.feed (lf_not_mem_splitLines _) chunk

/-- Every line that is too long is reported, and a severed line as well. -/
theorem overlong_le_count (limit : Nat) (chunks : List Bytes) :
    overlong limit chunks.flatten ≤
        (({ limit } : Decoder).feedAll chunks).2.countP Item.isTooLong ∧
      (Severed limit chunks → overlong limit chunks.flatten <
        (({ limit } : Decoder).feedAll chunks).2.countP Item.isTooLong) := by
  induction chunks using List.reverseRecOn with
  | nil =>
    refine ⟨Nat.zero_le _, ?_⟩
    rintro ⟨before, chunk, after, heq, -⟩
    simp at heq
  | append_singleton chunks chunk ih =>
    have hcount := (holding_feedAll limit chunks).count_feed (lf_not_mem_splitLines _) chunk
    have happend := overlong_append limit chunks.flatten chunk
    rw [limit_feedAll] at hcount
    dsimp only at hcount
    rw [feedAll_concat, List.flatten_append, List.flatten_singleton, List.countP_append,
      severed_concat]
    refine ⟨by omega, ?_⟩
    rintro (hsevered | hsevered)
    · have := ih.2 hsevered
      omega
    · rw [if_pos hsevered] at hcount
      omega

end

end Decoder

/-! ## Bodies -/

namespace Body

/-- The chunks of `body` concatenate to `bytes`, and it ends with `ending`. -/
def Carries (bytes : Bytes) (ending : Ending) (body : Body) : Prop :=
  body.chunks.flatten = bytes ∧ body.ending = ending

/-- The body of a list of chunks. -/
def ofChunks (chunks : List Bytes) : Ending → Body
  | .closed => chunks.map .ok
  | .failed cause => chunks.map .ok ++ [.error cause]

theorem chunks_ofChunks (chunks : List Bytes) (ending : Ending) :
    (ofChunks chunks ending).chunks = chunks := by
  induction chunks with
  | nil => cases ending <;> rfl
  | cons chunk rest ih => cases ending <;> exact congrArg (chunk :: ·) ih

theorem ending_ofChunks (chunks : List Bytes) (ending : Ending) :
    (ofChunks chunks ending).ending = ending := by
  induction chunks with
  | nil => cases ending <;> rfl
  | cons chunk rest ih => cases ending <;> exact ih

theorem carries_ofChunks (chunks : List Bytes) (ending : Ending) :
    (ofChunks chunks ending).Carries chunks.flatten ending :=
  ⟨by rw [chunks_ofChunks], ending_ofChunks chunks ending⟩

end Body

section Bodies

variable {limit : Nat} {bytes : Bytes} {ending : Ending} {a b body : Body}

/-- A body that severs no line gives the items of its bytes in one chunk. -/
theorem frames_of_not_severed (h : body.Carries bytes ending) (hs : ¬Severed limit body.chunks) :
    frames limit body = items limit [bytes] ending := by
  have hone : ({ limit } : Decoder).feedAll [bytes] = ({ limit } : Decoder).feed bytes :=
    Prod.ext rfl (List.append_nil _)
  rw [frames_eq_items, items, items, Decoder.feedAll_eq_feed hs, h.1, h.2, hone]

/-- The end of a body adds no `tooLong`. -/
theorem count_items (limit : Nat) (chunks : List Bytes) (ending : Ending) :
    (items limit chunks ending).countP Item.isTooLong =
      (({ limit } : Decoder).feedAll chunks).2.countP Item.isTooLong := by
  have hend (d : Decoder) : (d.conclude ending).countP Item.isTooLong = 0 := by
    cases ending with
    | failed cause => rfl
    | closed => simp [Decoder.conclude, Decoder.finish, Item.isTooLong]
  rw [items, List.countP_append, hend, Nat.add_zero]

theorem count_one_piece (limit : Nat) (bytes : Bytes) (ending : Ending) :
    (items limit [bytes] ending).countP Item.isTooLong = overlong limit bytes := by
  rw [count_items, Decoder.feedAll_cons, Decoder.feedAll, List.append_nil, Decoder.feed,
    Decoder.count_drain, Decoder.push_of_not_discarding rfl]
  rfl

/-- A body that severs a line does not give the items of its bytes in one chunk. -/
theorem frames_ne_of_severed (h : body.Carries bytes ending) (hs : Severed limit body.chunks) :
    frames limit body ≠ items limit [bytes] ending := by
  intro heq
  have hcount := congrArg (List.countP Item.isTooLong) heq
  rw [frames_eq_items, count_items, count_one_piece, ← h.1] at hcount
  exact Nat.ne_of_gt ((Decoder.overlong_le_count limit body.chunks).2 hs) hcount

/-- Every borderline line is severed by some body. -/
theorem exists_severed {line : Bytes} (hline : line ∈ (splitLines bytes).1)
    (hb : Borderline limit line) (ending : Ending) :
    ∃ body : Body, body.Carries bytes ending ∧ Severed limit body.chunks := by
  obtain ⟨before, rest, rfl, hbefore⟩ := exists_of_mem_splitLines hline
  refine ⟨.ofChunks [before, lf :: rest] ending, ?_, ?_⟩
  · simpa using Body.carries_ofChunks [before, lf :: rest] ending
  · rw [Body.chunks_ofChunks]
    exact ⟨[before], lf :: rest, [], rfl, rfl, by simpa [hbefore] using hb⟩

/-- A body gives the same items as a body of the same bytes that severs no line iff it severs no
line itself. So all bodies of these bytes give the same items iff no line is borderline: one byte
more than the limit, with a carriage return as the last byte. -/
theorem frames_eq_frames_iff (limit : Nat) (bytes : Bytes) (ending : Ending) :
    (∀ a b : Body, a.Carries bytes ending → b.Carries bytes ending → ¬Severed limit a.chunks →
      (frames limit a = frames limit b ↔ ¬Severed limit b.chunks)) ∧
    ((∀ a b : Body, a.Carries bytes ending → b.Carries bytes ending →
        frames limit a = frames limit b) ↔
      ∀ line ∈ (splitLines bytes).1, ¬Borderline limit line) := by
  have hpair (a b : Body) (ha : a.Carries bytes ending) (hb : b.Carries bytes ending)
      (hs : ¬Severed limit a.chunks) :
      frames limit a = frames limit b ↔ ¬Severed limit b.chunks := by
    rw [frames_of_not_severed ha hs]
    exact ⟨fun heq hsev => frames_ne_of_severed hb hsev heq.symm,
      fun hb' => (frames_of_not_severed hb hb').symm⟩
  refine ⟨hpair, fun hall line hline hborder => ?_, fun hnone a b ha hb => ?_⟩
  · obtain ⟨cut, hcut, hsev⟩ := exists_severed hline hborder ending
    have hwhole : (Body.ofChunks [bytes] ending).Carries bytes ending := by
      simpa using Body.carries_ofChunks [bytes] ending
    have hone : ¬Severed limit (Body.ofChunks [bytes] ending).chunks := by
      rw [Body.chunks_ofChunks]
      exact not_severed_singleton limit bytes
    exact (hpair _ cut hwhole hcut hone).1 (hall _ cut hwhole hcut) hsev
  · have hkept {body : Body} (h : body.Carries bytes ending) : ¬Severed limit body.chunks := by
      intro hsev
      obtain ⟨line, hline, hborder⟩ := hsev.exists_borderline
      exact hnone line (h.1 ▸ hline) hborder
    exact (hpair a b ha hb (hkept ha)).2 (hkept hb)

theorem frames_eq_frames_iff_demo :
    let bytes := encode "data: a\r\n\r\n"
    let pieces : Body := [.ok (encode "data"), .ok [], .ok (encode ": a\r\n\r"), .ok (encode "\n")]
    let cut : Body := [.ok (encode "data: a\r"), .ok (encode "\n\r\n")]
    pieces.Carries bytes .closed ∧ cut.Carries bytes .closed ∧
      ¬Severed 7 pieces.chunks ∧ Severed 7 cut.chunks ∧
      frames 7 [.ok bytes] = frames 7 pieces ∧ frames 7 [.ok bytes] ≠ frames 7 cut := by
  intro bytes pieces cut
  have hwhole : Body.Carries bytes .closed [.ok bytes] := ⟨by decide, rfl⟩
  have hpieces : pieces.Carries bytes .closed := ⟨by decide, rfl⟩
  have hcut : cut.Carries bytes .closed := ⟨by decide, rfl⟩
  have hone : ¬Severed 7 (Body.chunks [.ok bytes]) := not_severed_singleton 7 bytes
  have hkept : ¬Severed 7 pieces.chunks := by decide
  have hsevered : Severed 7 cut.chunks := by decide
  exact ⟨hpieces, hcut, hkept, hsevered,
    ((frames_eq_frames_iff 7 bytes .closed).1 _ _ hwhole hpieces hone).2 hkept,
    fun heq => ((frames_eq_frames_iff 7 bytes .closed).1 _ _ hwhole hcut hone).1 heq hsevered⟩

/-- A line of exactly the limit in one piece is too long if it is cut between its carriage return
and its line feed. -/
theorem frames_ne_of_cut_crlf :
    let whole : Body := [.ok (encode "data: a\r\n\r\n")]
    let cut : Body := [.ok (encode "data: a\r"), .ok (encode "\n\r\n")]
    whole.chunks.flatten = cut.chunks.flatten ∧ whole.ending = cut.ending ∧
      frames 7 whole = [.frame ⟨none, "a"⟩] ∧ frames 7 cut = [.lineTooLong 7] := by
  intro whole cut
  rw [frames_eq_items, frames_eq_items]
  decide +kernel

end Bodies

end PeerLink.Sse
