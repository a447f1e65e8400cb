import Mathlib.Data.List.Induction
import PeerLink.Sse.Decoder
/-!
# Cuts of a body

The decoder splits lines off its buffer in order, so the lines of two chunks are those of the first,
and those of its remaining bytes with the second. Between two chunks the decoder keeps these
remaining bytes, or, if they are more than the limit, only the fact that it discards the line. A
line that is discarded before it ends is also too long at its end, with one exception: a line of one
byte more than the limit whose last byte is a carriage return, since this byte is not counted at the
end.

## Main definitions

* `Borderline`: the lines of this exception.
* `Severed`: a borderline line is cut off from its line feed.
* `Decoder.Settled`: the invariant of a decoder between two chunks.

## Main statements

* `splitLines_append`: the lines of two chunks.
* `Decoder.settled_feed`: a chunk preserves `Decoder.Settled`.
* `Decoder.feedAll_eq_feed`: chunks that sever no line give the items of their concatenation.
-/

namespace PeerLink.Sse

open Text Text.Utf8

/-! ## Lines -/

section Lines

variable {line rest : Bytes} {b : UInt8}

theorem splitLines_lf_cons (bs : Bytes) :
    splitLines (lf :: bs) = ([] :: (splitLines bs).1, (splitLines bs).2) := by
  rw [splitLines, List.foldr_cons, if_pos rfl]
  rfl

theorem splitLines_cons (h : b ≠ lf) (bs : Bytes) :
    splitLines (b :: bs) = match (splitLines bs).1 with
      | [] => ([], b :: (splitLines bs).2)
      | line :: rest => ((b :: line) :: rest, (splitLines bs).2) :=
  if_neg h

/-- Bytes without a line feed complete no line. -/
theorem splitLines_of_not_mem (h : lf ∉ line) : splitLines line = ([], line) := by
  induction line with
  | nil => rfl
  | cons b line ih =>
    obtain ⟨hb, hl⟩ := List.ne_and_not_mem_of_not_mem_cons h
    rw [splitLines_cons hb.symm, ih hl]

theorem splitLines_line (h : lf ∉ line) (rest : Bytes) :
    splitLines (line ++ lf :: rest) = (line :: (splitLines rest).1, (splitLines rest).2) := by
  induction line with
  | nil => exact splitLines_lf_cons rest
  | cons b line ih =>
    obtain ⟨hb, hl⟩ := List.ne_and_not_mem_of_not_mem_cons h
    rw [List.cons_append, splitLines_cons hb.symm, ih hl]

/-- The lines of two chunks are those of the first, and those of its remaining bytes with the
second. -/
theorem splitLines_append (a b : Bytes) :
    splitLines (a ++ b) = ((splitLines a).1 ++ (splitLines ((splitLines a).2 ++ b)).1,
      (splitLines ((splitLines a).2 ++ b)).2) := by
  induction a with
  | nil => rfl
  | cons x xs ih =>
    rw [List.cons_append]
    by_cases hx : x = lf
    · subst hx
      rw [splitLines_lf_cons, splitLines_lf_cons, ih]
      rfl
    · rw [splitLines_cons hx, splitLines_cons hx, ih]
      -- the byte joins the first line, or the last bytes where no line is complete
      cases hl : (splitLines xs).1 with
      | nil => exact (splitLines_cons hx _).symm
      | cons line rest => rfl

/-- The lines with their line feeds and the bytes after the last line are all bytes. -/
theorem flatMap_splitLines (bs : Bytes) :
    (splitLines bs).1.flatMap (· ++ [lf]) ++ (splitLines bs).2 = bs := by
  induction bs with
  | nil => rfl
  | cons b bs ih =>
    by_cases hb : b = lf
    · subst hb
      rw [splitLines_lf_cons]
      simpa using ih
    · rw [splitLines_cons hb]
      cases hl : (splitLines bs).1 <;> simp_all

/-- The bytes after the last line contain no line feed. -/
theorem lf_not_mem_splitLines (bs : Bytes) : lf ∉ (splitLines bs).2 := by
  induction bs with
  | nil => exact List.not_mem_nil
  | cons b bs ih =>
    by_cases hb : b = lf
    · subst hb
      rwa [splitLines_lf_cons]
    · rw [splitLines_cons hb]
      cases (splitLines bs).1 with
      | nil => exact List.not_mem_cons_of_ne_of_not_mem (Ne.symm hb) ih
      | cons line rest => exact ih

theorem mem_of_mem_splitLines {bs : Bytes} (hl : line ∈ (splitLines bs).1) (hb : b ∈ line) :
    b ∈ bs := by
  rw [← flatMap_splitLines bs]
  exact List.mem_append_left _ (List.mem_flatMap.2 ⟨line, hl, List.mem_append_left _ hb⟩)

/-- A line contains no line feed. -/
theorem lf_not_mem_of_mem_splitLines {bs : Bytes} (h : line ∈ (splitLines bs).1) : lf ∉ line := by
  induction bs generalizing line with
  | nil => cases h
  | cons b bs ih =>
    by_cases hb : b = lf
    · subst hb
      rw [splitLines_lf_cons] at h
      rcases List.mem_cons.1 h with rfl | h
      · exact List.not_mem_nil
      · exact ih h
    · rw [splitLines_cons hb] at h
      cases hl : (splitLines bs).1 with
      | nil => simp [hl] at h
      | cons first rest =>
        rw [hl] at h ih
        rcases List.mem_cons.1 h with rfl | h
        · exact List.not_mem_cons_of_ne_of_not_mem (Ne.symm hb) (ih List.mem_cons_self)
        · exact ih (List.mem_cons_of_mem _ h)

/-- `splitLines` gives back lines without line feeds. -/
theorem splitLines_flatMap {lines : List Bytes} {tail : Bytes} (h : ∀ line ∈ lines, lf ∉ line)
    (ht : lf ∉ tail) : splitLines (lines.flatMap (· ++ [lf]) ++ tail) = (lines, tail) := by
  induction lines with
  | nil => exact splitLines_of_not_mem ht
  | cons line lines ih =>
    have hrest := ih fun l hl => h l (List.mem_cons_of_mem _ hl)
    simp only [List.flatMap_cons, List.append_assoc, List.cons_append, List.nil_append]
    rw [splitLines_line (h line List.mem_cons_self), hrest]

/-- A line of `bs` is followed by a line feed in `bs`. -/
theorem exists_of_mem_splitLines {bs : Bytes} (h : line ∈ (splitLines bs).1) :
    ∃ before rest, bs = before ++ lf :: rest ∧ (splitLines before).2 = line := by
  have hlines {l : Bytes} (hl : l ∈ (splitLines bs).1) := lf_not_mem_of_mem_splitLines hl
  obtain ⟨earlier, later, heq⟩ := List.append_of_mem h
  refine ⟨earlier.flatMap (· ++ [lf]) ++ line, later.flatMap (· ++ [lf]) ++ (splitLines bs).2,
    ?_, ?_⟩
  · conv_lhs => rw [← flatMap_splitLines bs, heq]
    simp
  · rw [splitLines_flatMap (fun l hl => hlines (heq ▸ List.mem_append_left _ hl)) (hlines h)]

/-- A line of one byte more than the limit whose last byte is a carriage return. -/
def Borderline (limit : Nat) (line : Bytes) : Prop :=
  line.length = limit + 1 ∧ line.getLast? = some cr

instance (limit : Nat) (line : Bytes) : Decidable (Borderline limit line) :=
  inferInstanceAs (Decidable (_ ∧ _))

/-- A line of more bytes than the limit is too long at its end, unless it is borderline. -/
theorem lt_length_dropCr {limit : Nat} (h : limit < line.length) (hb : ¬Borderline limit line) :
    limit < (dropCr line).length := by
  unfold dropCr
  split
  next hcr =>
    have : line.length ≠ limit + 1 := fun hn => hb ⟨hn, hcr⟩
    rw [List.length_dropLast]
    omega
  · exact h

end Lines

/-! ## Decoding -/

namespace Decoder

variable {d : Decoder} {a b l chunk : Bytes}

theorem takeLine_buffer (d : Decoder) (buffer line : Bytes) :
    { d with buffer }.takeLine line =
      ({ (d.takeLine line).1 with buffer }, (d.takeLine line).2) := by
  unfold takeLine
  split <;> rfl

theorem takeLines_buffer (d : Decoder) (buffer : Bytes) (lines : List Bytes) :
    { d with buffer }.takeLines lines =
      ({ (d.takeLines lines).1 with buffer }, (d.takeLines lines).2) := by
  induction lines generalizing d with
  | nil => rfl
  | cons line rest ih => simp only [takeLines, takeLine_buffer, ih]

@[simp] theorem limit_takeLine (d : Decoder) (line : Bytes) :
    (d.takeLine line).1.limit = d.limit := by
  unfold takeLine
  split <;> rfl

@[simp] theorem limit_takeLines (d : Decoder) (lines : List Bytes) :
    (d.takeLines lines).1.limit = d.limit := by
  induction lines generalizing d with
  | nil => rfl
  | cons line rest ih => simp [takeLines, ih]

@[simp] theorem discarding_takeLine (d : Decoder) (line : Bytes) :
    (d.takeLine line).1.discarding = d.discarding := by
  unfold takeLine
  split <;> rfl

@[simp] theorem discarding_takeLines (d : Decoder) (lines : List Bytes) :
    (d.takeLines lines).1.discarding = d.discarding := by
  induction lines generalizing d with
  | nil => rfl
  | cons line rest ih => simp [takeLines, ih]

theorem takeLines_append (d : Decoder) (lines more : List Bytes) :
    d.takeLines (lines ++ more) = (((d.takeLines lines).1.takeLines more).1,
      (d.takeLines lines).2 ++ ((d.takeLines lines).1.takeLines more).2) := by
  induction lines generalizing d with
  | nil => rfl
  | cons line rest ih => simp only [List.cons_append, takeLines, ih, List.append_assoc]

/-- The invariant of a decoder between two chunks. -/
structure Settled (d : Decoder) : Prop where
  /-- The buffer contains no complete line. -/
  line : lf ∉ d.buffer
  /-- The buffer is within the limit. -/
  fits : d.buffer.length ≤ d.limit
  /-- While a line is discarded, the buffer and the pending frame are empty. -/
  dropped : d.discarding = true → d.buffer = [] ∧ d.pending = {}

theorem settled_start (limit : Nat) : Settled { limit } :=
  ⟨List.not_mem_nil, Nat.zero_le _, nofun⟩

/-! ### One chunk -/

theorem push_of_not_discarding (hd : d.discarding = false) (chunk : Bytes) :
    d.push chunk = { d with buffer := d.buffer ++ chunk } := by
  simp [push, hd]

theorem dropWhile_append_of_not_mem (h : lf ∉ l) (rest : Bytes) :
    (l ++ rest).dropWhile (· != lf) = rest.dropWhile (· != lf) :=
  List.dropWhile_append_of_pos fun b hb => by simpa using ne_of_mem_of_not_mem hb h

theorem push_of_not_mem (hd : d.discarding = true) (h : lf ∉ chunk) : d.push chunk = d := by
  have hdrop : chunk.dropWhile (· != lf) = [] := by
    simpa using dropWhile_append_of_not_mem h []
  simp [push, hd, hdrop]

theorem push_line (hd : d.discarding = true) (h : lf ∉ l) (rest : Bytes) :
    d.push (l ++ lf :: rest) = { d with discarding := false, buffer := rest } := by
  have hdrop : (l ++ lf :: rest).dropWhile (· != lf) = lf :: rest := by
    rw [dropWhile_append_of_not_mem h]
    exact List.dropWhile_cons_of_neg (by simp)
  simp [push, hd, hdrop]

/-- Takes the complete lines and keeps the bytes after them, without the check of the limit. -/
def unload (d : Decoder) : Decoder × List Item :=
  ({ (d.takeLines (splitLines d.buffer).1).1 with buffer := (splitLines d.buffer).2 },
    (d.takeLines (splitLines d.buffer).1).2)

theorem push_nil (d : Decoder) : d.push [] = d := by
  cases hd : d.discarding with
  | false => rw [push_of_not_discarding hd, List.append_nil]
  | true => exact push_of_not_mem hd List.not_mem_nil

theorem drain_eq (d : Decoder) :
    d.drain = (d.unload.1.checkTail.1, d.unload.2 ++ d.unload.1.checkTail.2) := by
  simp only [drain, takeLines_buffer, unload]

theorem drain_of_settled (h : Settled d) : d.drain = (d, []) := by
  rw [drain_eq, unload, splitLines_of_not_mem h.line]
  simp [takeLines, checkTail, Nat.not_lt.2 h.fits]

theorem feed_of_not_mem (h : Settled d) (hd : d.discarding = true) (hl : lf ∉ chunk) :
    d.feed chunk = (d, []) := by
  rw [feed, push_of_not_mem hd hl, drain_of_settled h]

/-! ### Two chunks -/

theorem unload_append (d : Decoder) (bytes : Bytes) :
    { d with buffer := d.buffer ++ bytes }.unload =
      ({ d.unload.1 with buffer := d.unload.1.buffer ++ bytes }.unload.1,
        d.unload.2 ++ { d.unload.1 with buffer := d.unload.1.buffer ++ bytes }.unload.2) := by
  simp only [unload, takeLines_buffer]
  rw [splitLines_append, takeLines_append]

/-- The decoder that discards the current line. -/
def givenUp (d : Decoder) : Decoder := { d with buffer := [], discarding := true, pending := {} }

theorem settled_givenUp (d : Decoder) : Settled d.givenUp :=
  ⟨List.not_mem_nil, Nat.zero_le _, fun _ => ⟨rfl, rfl⟩⟩

theorem checkTail_of_lt (h : d.limit < d.buffer.length) :
    d.checkTail = (d.givenUp, [.lineTooLong d.limit]) :=
  if_pos h

theorem checkTail_of_le (h : d.buffer.length ≤ d.limit) : d.checkTail = (d, []) :=
  if_neg (Nat.not_lt.2 h)

theorem takeLine_of_lt (h : d.limit < (dropCr l).length) :
    d.takeLine l = ({ d with pending := {} }, [.lineTooLong d.limit]) :=
  if_pos h

theorem takeLine_of_le (h : (dropCr l).length ≤ d.limit) :
    d.takeLine l = ({ d with pending := (d.pending.feed (decodeLossy (dropCr l))).1 },
      (d.pending.feed (decodeLossy (dropCr l))).2.toList.map .frame) :=
  if_neg (Nat.not_lt.2 h)

/-- A line that is not borderline is reported once, whether it is discarded before its end or at its
end. -/
theorem feed_givenUp (hd : d.discarding = false) (hl : lf ∉ d.buffer)
    (hlong : d.limit < d.buffer.length)
    (hb : b.head? = some lf → ¬Borderline d.limit d.buffer) :
    d.feed b = ((d.givenUp.feed b).1, .lineTooLong d.limit :: (d.givenUp.feed b).2) := by
  by_cases hm : lf ∈ b
  -- the line ends in `b`: either way `rest` is read with nothing in progress
  · obtain ⟨l, rest, rfl, hlf⟩ := List.eq_append_cons_of_mem hm
    have hsplit := splitLines_line (List.not_mem_append hl hlf) rest
    rw [List.append_assoc] at hsplit
    have hend : d.limit < (dropCr (d.buffer ++ l)).length := by
      refine lt_length_dropCr (by rw [List.length_append]; omega) ?_
      cases l with
      | nil => simpa using hb rfl
      | cons x l =>
        rintro ⟨hlength, -⟩
        rw [List.length_append, List.length_cons] at hlength
        omega
    have hunload : { d with buffer := d.buffer ++ (l ++ lf :: rest) }.unload =
        ({ d with buffer := rest, pending := {} }.unload.1,
          .lineTooLong d.limit :: { d with buffer := rest, pending := {} }.unload.2) := by
      have hlines : { d with buffer := rest, pending := {} }.takeLines (splitLines rest).1 = _ :=
        takeLines_buffer { d with pending := {} } rest _
      rw [unload, unload, takeLines_buffer d, hlines, hsplit, takeLines, takeLine_of_lt hend]
      rfl
    have hrest : d.givenUp.feed (l ++ lf :: rest) =
        { d with buffer := rest, pending := {} }.drain := by
      rw [feed, push_line rfl hlf, givenUp, ← hd]
    rw [hrest, feed, push_of_not_discarding hd, drain_eq, hunload, drain_eq]
    rfl
  -- it goes on: in one piece it is given up only now
  · have hline : lf ∉ d.buffer ++ b := List.not_mem_append hl hm
    have hlt : d.limit < (d.buffer ++ b).length := by rw [List.length_append]; omega
    rw [feed_of_not_mem (settled_givenUp d) rfl hm, feed, push_of_not_discarding hd, drain_eq,
      unload, splitLines_of_not_mem hline]
    exact congrArg (Prod.map id _) (checkTail_of_lt hlt)

/-- The check of the limit does not change the items, unless the line is borderline. -/
theorem feed_checkTail (hd : d.discarding = false) (hl : lf ∉ d.buffer)
    (hb : b.head? = some lf → ¬Borderline d.limit d.buffer) :
    d.feed b = ((d.checkTail.1.feed b).1, d.checkTail.2 ++ (d.checkTail.1.feed b).2) := by
  rcases Nat.lt_or_ge d.limit d.buffer.length with hlong | hshort
  · rw [checkTail_of_lt hlong]
    exact feed_givenUp hd hl hlong hb
  · rw [checkTail_of_le hshort]
    rfl

/-- The first chunk is discarded, or the second chunk is appended to the buffer. -/
theorem push_append (d : Decoder) (a : Bytes) :
    (d.discarding = true ∧ lf ∉ a ∧ ∀ b, d.push (a ++ b) = d.push b) ∨
      (d.push a).discarding = false ∧
        ∀ b, d.push (a ++ b) = { d.push a with buffer := (d.push a).buffer ++ b } := by
  cases hd : d.discarding with
  | false =>
    simp [push_of_not_discarding hd, hd]
  | true =>
    by_cases hm : lf ∈ a
    · obtain ⟨l, rest, rfl, hl⟩ := List.eq_append_cons_of_mem hm
      right
      simp [push_line hd hl]
    · left
      refine ⟨rfl, hm, fun b => ?_⟩
      simp [push, hd, dropWhile_append_of_not_mem hm]

theorem limit_unload_push (d : Decoder) (a : Bytes) : (d.push a).unload.1.limit = d.limit := by
  unfold unload
  rw [limit_takeLines, push]
  split
  · split <;> rfl
  · rfl

theorem limit_checkTail (d : Decoder) : d.checkTail.1.limit = d.limit := by
  unfold checkTail
  split <;> rfl

theorem settled_checkTail (hd : d.discarding = false) (hl : lf ∉ d.buffer) :
    Settled d.checkTail.1 := by
  rcases Nat.lt_or_ge d.limit d.buffer.length with hlong | hshort
  · rw [checkTail_of_lt hlong]
    exact settled_givenUp d
  · rw [checkTail_of_le hshort]
    exact ⟨hl, hshort, fun h => absurd h (by simp [hd])⟩

theorem discarding_unload (d : Decoder) : d.unload.1.discarding = d.discarding :=
  discarding_takeLines d _

theorem feed_eq (d : Decoder) (a : Bytes) :
    d.feed a = ((d.push a).unload.1.checkTail.1,
      (d.push a).unload.2 ++ (d.push a).unload.1.checkTail.2) :=
  drain_eq _

@[simp] theorem limit_feed (d : Decoder) (a : Bytes) : (d.feed a).1.limit = d.limit := by
  rw [feed_eq, limit_checkTail, limit_unload_push]

theorem feedAll_cons (d : Decoder) (chunk : Bytes) (rest : List Bytes) :
    d.feedAll (chunk :: rest) = (((d.feed chunk).1.feedAll rest).1,
      (d.feed chunk).2 ++ ((d.feed chunk).1.feedAll rest).2) :=
  rfl

section

variable (h : Settled d)
include h

theorem settled_feed (a : Bytes) : Settled (d.feed a).1 := by
  rcases d.push_append a with ⟨hd, hm, -⟩ | ⟨hd, -⟩
  · rw [feed_of_not_mem h hd hm]
    exact h
  · rw [feed_eq]
    exact settled_checkTail ((discarding_unload _).trans hd) (lf_not_mem_splitLines _)

/-- Two chunks give the items of their concatenation, unless they sever a borderline line. -/
theorem feed_append
    (hb : b.head? = some lf → ¬Borderline d.limit (splitLines (d.push a).buffer).2) :
    d.feed (a ++ b) = (((d.feed a).1.feed b).1, (d.feed a).2 ++ ((d.feed a).1.feed b).2) := by
  rcases d.push_append a with ⟨hd, hm, hp⟩ | ⟨hd, hp⟩
  · rw [feed_of_not_mem h hd hm, feed, hp]
    rfl
  · have hu : (d.push a).unload.1.discarding = false := (discarding_unload _).trans hd
    have hwhole : d.feed (a ++ b) = (((d.push a).unload.1.feed b).1,
        (d.push a).unload.2 ++ ((d.push a).unload.1.feed b).2) := by
      rw [feed, feed, hp, push_of_not_discarding hu, drain_eq, drain_eq, unload_append,
        List.append_assoc]
    have htail := feed_checkTail (b := b) hu (lf_not_mem_splitLines _) fun hlf => by
      rw [limit_unload_push]
      exact hb hlf
    rw [hwhole, htail, feed_eq d a, List.append_assoc]

end

end Decoder

/-! ## Bodies -/

/-- A borderline line ends where a chunk ends, and the next byte is its line feed. -/
def Severed (limit : Nat) (chunks : List Bytes) : Prop :=
  ∃ before chunk after, chunks = before ++ chunk :: after ∧ chunk.head? = some lf ∧
    Borderline limit (splitLines before.flatten).2

section Bodies

variable {limit : Nat} {chunk : Bytes} {chunks : List Bytes}

theorem severed_concat : Severed limit (chunks ++ [chunk]) ↔
    Severed limit chunks ∨
      chunk.head? = some lf ∧ Borderline limit (splitLines chunks.flatten).2 := by
  constructor
  · rintro ⟨before, c, after, heq, hlf, hline⟩
    rcases List.eq_nil_or_concat after with rfl | ⟨after, last, rfl⟩
    · obtain ⟨rfl, hc⟩ := List.append_inj' heq rfl
      obtain rfl := (List.cons.inj hc).1
      exact .inr ⟨hlf, hline⟩
    · rw [List.concat_eq_append, ← List.cons_append, ← List.append_assoc] at heq
      exact .inl ⟨before, c, after, (List.append_inj' heq rfl).1, hlf, hline⟩
  · rintro (⟨before, c, after, rfl, hlf, hline⟩ | ⟨hlf, hline⟩)
    · exact ⟨before, c, after ++ [chunk], by simp, hlf, hline⟩
    · exact ⟨chunks, chunk, [], rfl, hlf, hline⟩

theorem severed_iff_exists_take : Severed limit chunks ↔
    ∃ n < chunks.length, (chunks[n]?.bind List.head?) = some lf ∧
      Borderline limit (splitLines (chunks.take n).flatten).2 := by
  constructor
  · rintro ⟨before, c, after, rfl, hlf, hline⟩
    exact ⟨before.length, by simp, by simpa using hlf, by simpa using hline⟩
  · rintro ⟨n, hn, hlf, hline⟩
    refine ⟨chunks.take n, chunks[n], chunks.drop (n + 1), ?_, by simpa [hn] using hlf, hline⟩
    rw [List.getElem_cons_drop, List.take_append_drop]

instance (limit : Nat) (chunks : List Bytes) : Decidable (Severed limit chunks) :=
  decidable_of_iff' _ severed_iff_exists_take

/-- A severed line is a borderline line of the body. -/
theorem Severed.exists_borderline (h : Severed limit chunks) :
    ∃ line ∈ (splitLines chunks.flatten).1, Borderline limit line := by
  obtain ⟨before, c, after, rfl, hlf, hline⟩ := h
  obtain ⟨rest, rfl⟩ := List.head?_eq_some_iff.1 hlf
  refine ⟨_, ?_, hline⟩
  rw [List.flatten_append, List.flatten_cons, splitLines_append, List.cons_append,
    splitLines_line (lf_not_mem_splitLines _)]
  exact List.mem_append_right _ List.mem_cons_self

/-- A body of one chunk severs no line. -/
theorem not_severed_singleton (limit : Nat) (chunk : Bytes) : ¬Severed limit [chunk] := by
  rw [← List.nil_append [chunk], severed_concat]
  rintro (⟨before, c, after, heq, -⟩ | ⟨-, hline, -⟩)
  · simp at heq
  · exact absurd hline (Nat.succ_ne_zero limit).symm

namespace Decoder

theorem feedAll_append (d : Decoder) (chunks more : List Bytes) :
    d.feedAll (chunks ++ more) = (((d.feedAll chunks).1.feedAll more).1,
      (d.feedAll chunks).2 ++ ((d.feedAll chunks).1.feedAll more).2) := by
  induction chunks generalizing d with
  | nil => rfl
  | cons chunk rest ih => simp only [List.cons_append, feedAll_cons, ih, List.append_assoc]

theorem feedAll_concat (d : Decoder) (chunks : List Bytes) (chunk : Bytes) :
    d.feedAll (chunks ++ [chunk]) = (((d.feedAll chunks).1.feed chunk).1,
      (d.feedAll chunks).2 ++ ((d.feedAll chunks).1.feed chunk).2) := by
  rw [feedAll_append, feedAll_cons, feedAll, List.append_nil]

/-- Chunks that sever no line give the items of their concatenation. -/
theorem feedAll_eq_feed (h : ¬Severed limit chunks) :
    ({ limit } : Decoder).feedAll chunks = ({ limit } : Decoder).feed chunks.flatten := by
  induction chunks using List.reverseRecOn with
  | nil =>
    rw [List.flatten_nil, feed, push_nil, drain_of_settled (settled_start limit)]
    rfl
  | append_singleton chunks chunk ih =>
    rw [severed_concat, not_or] at h
    have hb : chunk.head? = some lf →
        ¬Borderline limit (splitLines (({ limit } : Decoder).push chunks.flatten).buffer).2 :=
      fun hlf hline => h.2 ⟨hlf, hline⟩
    rw [feedAll_concat, ih h.1, List.flatten_append, List.flatten_singleton,
      feed_append (settled_start limit) hb]

/-- A body without carriage returns gives the same items for every cut. -/
theorem feedAll_eq_feed_of_not_mem (h : cr ∉ chunks.flatten) :
    ({ limit } : Decoder).feedAll chunks = ({ limit } : Decoder).feed chunks.flatten := by
  refine feedAll_eq_feed fun hs => ?_
  obtain ⟨line, hline, hb⟩ := hs.exists_borderline
  exact h (mem_of_mem_splitLines hline (List.mem_of_getLast? hb.2))

end Decoder

end Bodies

end PeerLink.Sse
