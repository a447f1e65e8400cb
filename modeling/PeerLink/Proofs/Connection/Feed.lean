import PeerLink.Connection.Feed
import PeerLink.Peer.Script
import PeerLink.Proofs.Sse.Chunks
import PeerLink.Proofs.Text.Utf8
/-!
# The acts of a reader

A stream of events is sent as three lines for each text. After the three lines the pending frame of
the decoder is empty, whether or not a line is too long. So each text is decoded independently of
the others.

## Main definitions

* `Feed.eventItems`: the items that the decoder gives for a text.
* `Feed.eventOf?`: the topic and the event of a text, if it is an event.
* `Feed.Act.published?`, `Feed.Act.GoesOn`: the event that an act publishes, and whether the reader
  goes on after it.
* `Feed.publications`: the events that a list of acts publishes, each with the table of items.

## Main statements

* `Feed.feedAll_events`: the decoder gives the items of the texts in order, for every cut of the
  bytes.
* `Feed.published_acts`: the events published are those of the texts, in order.
-/

namespace PeerLink.Connection.Feed

open Text.Utf8 Sse Peer

/-! ## The lines of an event -/

/-- The first line of an event. -/
def nameLine : String := "event: message"

/-- The second line of an event. -/
def dataLine (s : String) : String := "data: " ++ s

theorem feed_nameLine (p : Pending) :
    p.feed nameLine = ({ p with event := some "message" }, none) := by
  have h : Line.parse nameLine = .event "message" := by decide
  rw [Pending.feed, h]

theorem feed_dataLine (p : Pending) (s : String) :
    p.feed (dataLine s) = ({ p with data := p.data ++ [s] }, none) := by
  have hs : (dataLine s).toList = "data: ".toList ++ s.toList := String.toList_append
  have h : Line.parse (dataLine s) = .data s := by
    simp [Line.parse, hs, Line.parseChars, Text.dropPrefix?, dropSpace]
  rw [Pending.feed, h]

theorem feed_empty (p : Pending) : p.feed "" = ({}, p.complete) :=
  rfl

theorem eventChunk_eq (s : String) :
    eventChunk s = encode nameLine ++ lf :: (encode (dataLine s) ++ lf :: ([] ++ lf :: [])) := by
  have hname : "event: message\ndata: " = nameLine ++ "\n" ++ "data: " := by decide
  have hend : encode "\n\n" = [lf, lf] := by decide
  have hlf : encode "\n" = [lf] := by decide
  simp [eventChunk, hname, encode_append, hlf, hend, dataLine]

section Lines

variable {s : String}

theorem not_mem_encode {c : Char} {b : UInt8} (hb : b < 0x80) (hc : Char.ofNat b.toNat = c)
    (h : c ∉ s.toList) : b ∉ encode s :=
  fun hm => h (hc ▸ mem_of_mem_encode hb hm)

/-- If a character of one byte is not in a text, its byte is in neither line of the event. -/
theorem not_mem_lines {c : Char} {b : UInt8} (hb : b < 0x80) (hc : Char.ofNat b.toNat = c)
    (hn : c ∉ nameLine.toList) (hd : c ∉ "data: ".toList) (h : c ∉ s.toList) :
    b ∉ encode nameLine ∧ b ∉ encode (dataLine s) := by
  refine ⟨not_mem_encode hb hc hn, not_mem_encode hb hc ?_⟩
  rw [dataLine, String.toList_append]
  exact List.not_mem_append hd h

theorem lf_not_mem_lines (h : '\n' ∉ s.toList) : lf ∉ encode nameLine ∧ lf ∉ encode (dataLine s) :=
  not_mem_lines (by decide) (by decide) (by decide) (by decide) h

theorem cr_not_mem_lines (h : '\r' ∉ s.toList) : cr ∉ encode nameLine ∧ cr ∉ encode (dataLine s) :=
  not_mem_lines (by decide) (by decide) (by decide) (by decide) h

theorem dropCr_of_not_mem {line : Bytes} (h : cr ∉ line) : dropCr line = line :=
  if_neg fun hl => h (List.mem_of_getLast? hl)

/-- A line is fed to the pending frame, unless it is too long. -/
theorem takeLine_encode (d : Decoder) (h : cr ∉ encode s) :
    d.takeLine (encode s) =
      if d.limit < s.utf8ByteSize then ({ d with pending := {} }, [.lineTooLong d.limit])
      else ({ d with pending := (d.pending.feed s).1 },
        (d.pending.feed s).2.toList.map .frame) := by
  rw [Decoder.takeLine, dropCr_of_not_mem h, length_encode, decodeLossy_encode]

/-- The items that the decoder gives for a text. -/
def eventItems (limit : Nat) (s : String) : List Sse.Item :=
  (if limit < nameLine.utf8ByteSize then [.lineTooLong limit] else []) ++
    [if limit < (dataLine s).utf8ByteSize then .lineTooLong limit
      else .frame ⟨if limit < nameLine.utf8ByteSize then none else some "message", s⟩]

/-- After the lines of an event the pending frame is empty. -/
theorem takeLines_event {d : Decoder} (hp : d.pending = {}) (h : '\r' ∉ s.toList) :
    d.takeLines [encode nameLine, encode (dataLine s), []] = (d, eventItems d.limit s) := by
  obtain ⟨hname, hdata⟩ := cr_not_mem_lines h
  have hempty : ([] : Bytes) = encode "" := rfl
  have hd : { d with pending := {} } = d := by rw [← hp]
  simp only [Decoder.takeLines, hempty, takeLine_encode _ hname, takeLine_encode _ hdata]
  rw [takeLine_encode _ List.not_mem_nil]
  -- each of the two lines may be too long, whatever the other is
  by_cases hn : d.limit < nameLine.utf8ByteSize <;>
    by_cases hl : d.limit < (dataLine s).utf8ByteSize <;>
    simp [hn, hl, eventItems, feed_nameLine, feed_dataLine, feed_empty, Pending.complete,
      Pending.isEmpty, Text.join, hd, hp]

end Lines

/-! ## Several events -/

section Events

variable {texts : List String} {chunks : List Bytes}

theorem splitLines_events (h : ∀ s ∈ texts, '\n' ∉ s.toList) :
    splitLines (texts.map eventChunk).flatten =
      (texts.flatMap fun s => [encode nameLine, encode (dataLine s), []], []) := by
  induction texts with
  | nil => rfl
  | cons s rest ih =>
    obtain ⟨hname, hdata⟩ := lf_not_mem_lines (h s List.mem_cons_self)
    have hrest := ih fun t ht => h t (List.mem_cons_of_mem _ ht)
    rw [List.map_cons, List.flatten_cons, eventChunk_eq]
    simp only [List.append_assoc, List.cons_append, List.nil_append]
    rw [splitLines_line hname, splitLines_line hdata, splitLines_lf_cons, hrest]
    rfl

theorem takeLines_events {d : Decoder} (hp : d.pending = {}) (h : ∀ s ∈ texts, '\r' ∉ s.toList) :
    d.takeLines (texts.flatMap fun s => [encode nameLine, encode (dataLine s), []]) =
      (d, texts.flatMap (eventItems d.limit)) := by
  induction texts with
  | nil => rfl
  | cons s rest ih =>
    have hrest := ih fun t ht => h t (List.mem_cons_of_mem _ ht)
    rw [List.flatMap_cons, Decoder.takeLines_append, takeLines_event hp (h s List.mem_cons_self),
      hrest, List.flatMap_cons]

/-- The decoder gives the items of the texts in order, for every cut of the bytes. -/
theorem feedAll_events (limit : Nat) (h : ∀ s ∈ texts, '\n' ∉ s.toList ∧ '\r' ∉ s.toList)
    (hcut : chunks.flatten = (texts.map eventChunk).flatten) :
    ({ limit } : Decoder).feedAll chunks = ({ limit }, texts.flatMap (eventItems limit)) := by
  have hcr : cr ∉ chunks.flatten := by
    rw [hcut]
    intro hm
    obtain ⟨chunk, hc, hm⟩ := List.mem_flatten.1 hm
    obtain ⟨s, hs, rfl⟩ := List.mem_map.1 hc
    obtain ⟨hname, hdata⟩ := cr_not_mem_lines (h s hs).2
    rw [eventChunk_eq] at hm
    simp_all [cr, lf]
  have hlines := takeLines_events (d := { limit }) rfl fun s hs => (h s hs).2
  have hunload : (({ limit } : Decoder).push (texts.map eventChunk).flatten).unload =
      ({ limit }, texts.flatMap (eventItems limit)) := by
    rw [Decoder.push_of_not_discarding rfl, Decoder.unload, Decoder.takeLines_buffer,
      List.nil_append, splitLines_events fun s hs => (h s hs).1, hlines]
  rw [Decoder.feedAll_eq_feed_of_not_mem hcr, hcut, Decoder.feed_eq, hunload,
    Decoder.checkTail_of_le (Nat.zero_le _), List.append_nil]

end Events

/-! ## Publications -/

/-- The topic and the event that an act publishes, if any. -/
def Act.published? : Act → Option (String × Event)
  | .publish topic e => some (topic, e)
  | _ => none

/-- Whether the reader goes on after an act. -/
def Act.GoesOn : Act → Prop
  | .stop _ => False
  | _ => True

/-- The topics and events that `acts` publish until the reader stops, each with the table of items
at that time, if `t` is the table before. -/
def publications (t : ItemTable) : List Act → List (String × Event × ItemTable)
  | [] => []
  | .publish topic e :: rest => (topic, e, t.apply e) :: publications (t.apply e) rest
  | .log _ :: rest => publications t rest
  | .stop _ :: _ => []

/-- The topic and the event of a text. It is `none` if the line is too long, if it is not JSON, or
if it is not an event. -/
def eventOf? (read : EventReader) (l : TopicLayout) (limit : Nat) (s : String) :
    Option (String × Event) :=
  if limit < (dataLine s).utf8ByteSize then none
  else (Json.parse? s).bind fun raw => (read raw l).toOption

section Acts

variable {read : EventReader} {l : TopicLayout} {limit : Nat}

theorem goesOn_takeData (data : String) : ∀ a ∈ takeData read l data, a.GoesOn := by
  unfold takeData
  split
  · simp [Act.GoesOn]
  · split <;> simp [Act.GoesOn]

theorem published_takeData (data : String) :
    (takeData read l data).filterMap Act.published? =
      ((Json.parse? data).bind fun raw => (read raw l).toOption).toList := by
  unfold takeData
  cases Json.parse? data with
  | none => rfl
  | some raw =>
    rcases hr : read raw l with e | ⟨topic, e⟩
    · cases e <;> simp [Act.published?, hr, Except.toOption]
    · simp [Act.published?, hr, Except.toOption]

theorem take_lineTooLong_published (n : Nat) :
    (take read l (.lineTooLong n)).filterMap Act.published? = [] :=
  rfl

theorem published_frame {f : Frame} (hf : f.isKeepalive = false) :
    (take read l (.frame f)).filterMap Act.published? =
      ((Json.parse? f.data).bind fun raw => (read raw l).toOption).toList := by
  have hnone : Json.parse? "" = none := by decide +kernel
  rw [take, hf, Bool.false_or]
  split
  next hempty =>
    rw [String.isEmpty_iff.1 hempty, hnone]
    rfl
  · exact published_takeData f.data

theorem published_eventItems (s : String) :
    (acts read l (eventItems limit s)).filterMap Act.published? =
      (eventOf? read l limit s).toList := by
  have hkeep : (⟨if limit < nameLine.utf8ByteSize then none else some "message", s⟩ :
      Frame).isKeepalive = false := by
    split <;> rfl
  unfold acts eventItems eventOf?
  split <;> split <;> simp_all [take_lineTooLong_published, published_frame]

/-- The events published are those of the texts, in order. -/
theorem published_acts (texts : List String) :
    (acts read l (texts.flatMap (eventItems limit))).filterMap Act.published? =
      texts.filterMap (eventOf? read l limit) := by
  induction texts with
  | nil => rfl
  | cons s rest ih =>
    have happ : acts read l ((s :: rest).flatMap (eventItems limit)) =
        acts read l (eventItems limit s) ++ acts read l (rest.flatMap (eventItems limit)) := by
      rw [List.flatMap_cons, acts, List.flatMap_append]
      rfl
    rw [happ, List.filterMap_append, published_eventItems, ih, List.filterMap_cons]
    cases eventOf? read l limit s <;> rfl

/-- The reader stops only at a failure of the body. -/
theorem goesOn_take {i : Sse.Item} (h : ∀ cause, i ≠ .transport cause) :
    ∀ a ∈ take read l i, a.GoesOn := by
  cases i with
  | frame f =>
    rw [take]
    split
    · exact List.forall_mem_nil _
    · exact goesOn_takeData f.data
  | lineTooLong n => simp [take, Act.GoesOn]
  | transport cause => exact absurd rfl (h cause)

theorem goesOn_acts (read : EventReader) (l : TopicLayout) (limit : Nat) (texts : List String) :
    ∀ a ∈ acts read l (texts.flatMap (eventItems limit)), a.GoesOn := by
  intro a ha
  obtain ⟨i, hi, ha⟩ := List.mem_flatMap.1 ha
  obtain ⟨s, -, hi⟩ := List.mem_flatMap.1 hi
  refine goesOn_take (fun cause hc => ?_) a ha
  subst hc
  unfold eventItems at hi
  split at hi <;> split at hi <;> simp at hi

end Acts

end PeerLink.Connection.Feed
