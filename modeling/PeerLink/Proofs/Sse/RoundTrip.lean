import PeerLink.Proofs.Connection.Feed
import PeerLink.Proofs.Sse.Cuts
import PeerLink.Proofs.Sse.Reference
import PeerLink.Proofs.Text.Pieces
/-!
# Writing and reading frames

A frame is written as its lines, each followed by a line feed or by a carriage return and a line
feed. A frame is writable if its event name has no blanks at its ends, since these are trimmed, and
no line of its data ends with a carriage return, since this would belong to the line end. The lines
of the data may be empty, begin with spaces, or look like fields.

## Main definitions

* `LineEnd`: the two line ends.
* `IsName`, `Frame.Writable`: the frames that can be written.
* `Frame.rows`, `Frame.written`: the bytes of a frame.

## Main statements

* `Pending.feedAll_lines`: feeding the lines of a frame gives the frame.
* `items_written`, `frames_written`: written frames are read back, for every cut of the bytes.
-/

namespace PeerLink.Sse

open Text Text.Utf8 Transport Peer Connection

/-! ## The lines of a frame -/

/-- A name on one line without blanks at its ends. -/
def IsName (s : String) : Prop :=
  '\n' ∉ s.toList ∧ s.toList.head?.any isBlank = false ∧ s.toList.getLast?.any isBlank = false

instance (s : String) : Decidable (IsName s) := inferInstanceAs (Decidable (_ ∧ _ ∧ _))

/-- A frame that is determined by its lines. -/
def Frame.Writable (f : Frame) : Prop :=
  (∀ name ∈ f.event, IsName name) ∧
    ∀ piece ∈ pieces '\n' f.data, piece.toList.getLast? ≠ some '\r'

instance (f : Frame) : Decidable f.Writable := inferInstanceAs (Decidable (_ ∧ _))

theorem Frame.lines_eq (f : Frame) : f.lines = (f.event.map ("event: " ++ ·)).toList ++
    ((pieces '\n' f.data).map ("data: " ++ ·) ++ [""]) := by
  rw [lines, List.append_assoc]
  cases f.event <;> rfl

theorem Line.parse_event {name : String} (h : IsName name) :
    Line.parse ("event: " ++ name) = .event name := by
  have hcs : ("event: " ++ name).toList = "event:".toList ++ ' ' :: name.toList :=
    String.toList_append
  have htrim : trimChars (' ' :: name.toList) = name.toList := by
    have hspace : trimChars (' ' :: name.toList) = trimChars name.toList := rfl
    rw [hspace, trimChars_eq_self h.2.1 h.2.2]
  have hdrop : dropPrefix? "event:".toList ("event:".toList ++ ' ' :: name.toList) =
      some (' ' :: name.toList) :=
    dropPrefix?_eq_some_iff.2 rfl
  rw [Line.parse, hcs, Line.parseChars]
  · rw [hdrop]
    dsimp only
    rw [htrim, String.ofList_toList]
  all_goals simp

namespace Pending

variable {f : Frame}

theorem feedAll_append (p : Pending) (texts more : List String) :
    p.feedAll (texts ++ more) = (((p.feedAll texts).1.feedAll more).1,
      (p.feedAll texts).2 ++ ((p.feedAll texts).1.feedAll more).2) := by
  induction texts generalizing p with
  | nil => rfl
  | cons text rest ih => simp only [List.cons_append, feedAll, ih, List.append_assoc]

theorem feedAll_dataLines (p : Pending) (texts : List String) :
    p.feedAll (texts.map ("data: " ++ ·)) = ({ p with data := p.data ++ texts }, []) := by
  induction texts generalizing p with
  | nil => simp [feedAll]
  | cons text rest ih =>
    have hline : p.feed ("data: " ++ text) = ({ p with data := p.data ++ [text] }, none) :=
      Feed.feed_dataLine p text
    rw [List.map_cons, feedAll, hline]
    dsimp only
    rw [ih]
    simp

/-- Feeding the lines of a frame gives the frame, and the pending frame is empty again. -/
theorem feedAll_lines (hf : f.Writable) : ({} : Pending).feedAll f.lines = ({}, [f]) := by
  have hname : ({} : Pending).feedAll (f.event.map ("event: " ++ ·)).toList =
      ({ event := f.event }, []) := by
    cases hevent : f.event with
    | none => rfl
    | some name =>
      rw [Option.map_some, Option.toList_some, feedAll, feed,
        Line.parse_event (hf.1 name hevent)]
      rfl
  have hcomplete : ({ event := f.event, data := pieces '\n' f.data } : Pending).complete =
      some f := by
    have hdata : (pieces '\n' f.data).isEmpty = false :=
      List.isEmpty_eq_false_iff.2 fun hnil => cutAt_ne_nil _ _ (List.map_eq_nil_iff.1 hnil)
    have hjoin : join "\n" (pieces '\n' f.data) = f.data := join_pieces '\n' f.data
    simp [complete, isEmpty, hdata, hjoin]
  rw [f.lines_eq, feedAll_append, hname, feedAll_append, feedAll_dataLines]
  simp [feedAll, Feed.feed_empty, hcomplete]

/-- Feeding the lines of a list of frames gives the frames. -/
theorem feedAll_flatMap_lines {fs : List Frame} (h : ∀ f ∈ fs, f.Writable) :
    ({} : Pending).feedAll (fs.flatMap Frame.lines) = ({}, fs) := by
  induction fs with
  | nil => rfl
  | cons f rest ih =>
    have hrest := ih fun g hg => h g (List.mem_cons_of_mem _ hg)
    rw [List.flatMap_cons, feedAll_append, feedAll_lines (h f List.mem_cons_self), hrest]
    rfl

end Pending

/-! ## Bytes -/

/-- The two line ends. -/
inductive LineEnd where
  | lf
  | crlf
  deriving DecidableEq, Repr

/-- The bytes of a line end before its line feed. -/
def LineEnd.returns : LineEnd → Bytes
  | .lf => []
  | .crlf => [cr]

/-- The lines of a frame as bytes, without their line feeds. -/
def Frame.rows (e : LineEnd) (f : Frame) : List Bytes :=
  f.lines.map fun line => encode line ++ e.returns

/-- A frame as bytes. -/
def Frame.written (e : LineEnd) (f : Frame) : Bytes := (f.rows e).flatMap (· ++ [lf])

section Bytes

variable {e : LineEnd} {f : Frame} {fs : List Frame} {line : String}

/-- A text of one line that does not end with a carriage return. -/
def IsLine (s : String) : Prop := '\n' ∉ s.toList ∧ s.toList.getLast? ≠ some '\r'

instance (s : String) : Decidable (IsLine s) := inferInstanceAs (Decidable (_ ∧ _))

theorem IsLine.append {s t : String} (hs : IsLine s) (ht : IsLine t) : IsLine (s ++ t) := by
  rw [IsLine, String.toList_append, List.getLast?_append]
  refine ⟨List.not_mem_append hs.1 ht.1, fun hlast => ?_⟩
  rcases Option.or_eq_some_iff.1 hlast with hlast | ⟨-, hlast⟩
  · exact ht.2 hlast
  · exact hs.2 hlast

theorem Frame.Writable.isLine (hf : f.Writable) (h : line ∈ f.lines) : IsLine line := by
  rw [f.lines_eq] at h
  rcases List.mem_append.1 h with hname | hrest
  · obtain ⟨name, hevent, rfl⟩ := Option.map_eq_some_iff.1 (Option.mem_toList.1 hname)
    obtain ⟨hlf, -, hlast⟩ := hf.1 name hevent
    have hcr : name.toList.getLast? ≠ some '\r' := fun hc => by
      rw [hc] at hlast
      exact absurd hlast (by decide)
    exact IsLine.append (by decide) ⟨hlf, hcr⟩
  · rcases List.mem_append.1 hrest with hdata | hend
    · obtain ⟨piece, hpiece, rfl⟩ := List.mem_map.1 hdata
      exact IsLine.append (by decide) ⟨not_mem_of_mem_pieces hpiece, hf.2 piece hpiece⟩
    · rw [List.mem_singleton.1 hend]
      decide

theorem dropCr_row (h : IsLine line) :
    dropCr (encode line ++ e.returns) = encode line := by
  cases e with
  | crlf => simp [dropCr, LineEnd.returns]
  | lf =>
    rw [LineEnd.returns, List.append_nil, dropCr, if_neg]
    exact fun hlast => h.2 (getLast?_of_getLast?_encode (by decide) hlast)

theorem splitLines_written (h : ∀ f ∈ fs, f.Writable) :
    splitLines (fs.flatMap (Frame.written e)) = (fs.flatMap (Frame.rows e), []) := by
  have hrows : fs.flatMap (Frame.written e) = (fs.flatMap (Frame.rows e)).flatMap (· ++ [lf]) := by
    rw [List.flatMap_assoc]
    rfl
  rw [hrows, ← List.append_nil (List.flatMap _ _)]
  refine splitLines_flatMap (fun row hrow => ?_) List.not_mem_nil
  obtain ⟨f, hf, hrow⟩ := List.mem_flatMap.1 hrow
  obtain ⟨line, hline, rfl⟩ := List.mem_map.1 hrow
  refine List.not_mem_append (Feed.not_mem_encode (by decide) (by decide)
    ((h f hf).isLine hline).1) ?_
  cases e <;> decide

/-- The texts of the rows are the lines of the frames. -/
theorem legible_rows {limit : Nat} (h : ∀ f ∈ fs, f.Writable)
    (hlimit : ∀ f ∈ fs, ∀ row ∈ f.rows e, row.length ≤ limit) :
    (fs.flatMap (Frame.rows e)).map (fun row => legible limit (dropCr row)) =
      (fs.flatMap Frame.lines).map some := by
  rw [List.map_flatMap, List.map_flatMap]
  refine List.flatMap_congr fun f hf => ?_
  rw [Frame.rows, List.map_map]
  refine List.map_congr_left fun line hline => ?_
  have hfits := hlimit f hf _ (List.mem_map_of_mem hline)
  rw [List.length_append] at hfits
  rw [Function.comp_apply, dropCr_row ((h f hf).isLine hline), legible,
    if_neg (by omega), decodeLossy_encode]

end Bytes

/-! ## Reading back -/

section RoundTrip

variable {limit : Nat} {e : LineEnd} {fs : List Frame}

/-- If every row is within the limit, no cut severs a line. -/
theorem not_severed_written {chunks : List Bytes} (h : ∀ f ∈ fs, f.Writable)
    (hlimit : ∀ f ∈ fs, ∀ row ∈ f.rows e, row.length ≤ limit)
    (hcut : chunks.flatten = fs.flatMap (Frame.written e)) : ¬Severed limit chunks := by
  intro hs
  obtain ⟨row, hrow, hb⟩ := hs.exists_borderline
  rw [hcut, splitLines_written h] at hrow
  obtain ⟨f, hf, hrow⟩ := List.mem_flatMap.1 hrow
  have := hlimit f hf row hrow
  have := hb.1
  omega

/-- The items of the reference are exactly the frames, before the end of the body. -/
theorem reference_written (h : ∀ f ∈ fs, f.Writable)
    (hlimit : ∀ f ∈ fs, ∀ row ∈ f.rows e, row.length ≤ limit) (ending : Ending) :
    reference limit (fs.flatMap (Frame.written e)) ending = fs.map .frame ++ ending.items := by
  have htail : ((({} : Pending).read limit (tailLines limit [] ending)).2) = [] := by
    cases ending <;> rfl
  rw [reference, splitLines_written h, legible_rows h hlimit, Pending.read_append,
    Pending.read_map_some, Pending.feedAll_flatMap_lines h]
  dsimp only
  rw [htail, List.append_nil]

/-- The items of chunks of written frames are exactly the frames, before the end of the body. -/
theorem items_written {chunks : List Bytes} (h : ∀ f ∈ fs, f.Writable)
    (hlimit : ∀ f ∈ fs, ∀ row ∈ f.rows e, row.length ≤ limit)
    (hcut : chunks.flatten = fs.flatMap (Frame.written e)) (ending : Ending) :
    items limit chunks ending = fs.map .frame ++ ending.items := by
  rw [items_eq_reference (not_severed_written h hlimit hcut), hcut, reference_written h hlimit]

/-- A scripted server sends texts as frames with the event `message`. -/
theorem eventChunk_eq_written {s : String} (h : '\n' ∉ s.toList) :
    eventChunk s = Frame.written .lf ⟨some "message", s⟩ := by
  have hempty : encode "" = [] := rfl
  simp [Frame.written, Frame.rows, LineEnd.returns, Frame.lines_eq, pieces_of_not_mem h,
    Feed.eventChunk_eq, Feed.nameLine, Feed.dataLine, hempty]

/-- For every cut of the bytes, the items of a written list of writable frames are exactly these
frames, if every line with its carriage return is within the limit. Every frame is given before the
end of the body. The events of a scripted server are an instance. -/
theorem frames_written (h : ∀ f ∈ fs, f.Writable)
    (hlimit : ∀ f ∈ fs, ∀ row ∈ f.rows e, row.length ≤ limit) :
    (∀ body : Body, body.Carries (fs.flatMap (Frame.written e)) .closed →
      frames limit body = fs.map .frame) ∧
    (∀ chunks : List Bytes, chunks.flatten = fs.flatMap (Frame.written e) →
      (({ limit } : Decoder).feedAll chunks).2 = fs.map .frame) ∧
    ∀ texts : List String, (∀ s ∈ texts, '\n' ∉ s.toList) → ∃ chunks,
      Reply.events texts = .stream ⟨chunks, true⟩ ∧
        chunks.flatten = (texts.map fun s => ⟨some "message", s⟩).flatMap (Frame.written .lf) := by
  refine ⟨fun body hbody => ?_, fun chunks hcut => ?_, ?_⟩
  · rw [frames_eq_items, items_written h hlimit hbody.1, hbody.2]
    exact List.append_nil _
  -- what comes before a failure of the body has not waited for its end
  · exact List.append_cancel_right (items_written h hlimit hcut (.failed .cancelled))
  · intro texts htexts
    refine ⟨_, rfl, ?_⟩
    rw [List.flatMap_map, List.flatMap_def]
    exact congrArg _ (List.map_congr_left fun s hs => eventChunk_eq_written (htexts s hs))

/-- Every chunk is one byte. -/
theorem frames_written_demo :
    let fs : List Frame := [⟨some "message", "  a\n\n: b"⟩, ⟨none, ""⟩, ⟨some "", "\r€"⟩,
      ⟨none, "data:ü"⟩]
    let bytes := fs.flatMap (Frame.written .crlf)
    let body := Body.ofChunks (bytes.map fun b => [b]) .closed
    (∀ f ∈ fs, f.Writable) ∧ (∀ f ∈ fs, ∀ row ∈ f.rows .crlf, row.length ≤ 15) ∧
      body.Carries bytes .closed ∧ frames 15 body = fs.map .frame := by
  intro fs bytes body
  have hwritable : ∀ f ∈ fs, f.Writable := by decide +kernel
  have hlimit : ∀ f ∈ fs, ∀ row ∈ f.rows .crlf, row.length ≤ 15 := by decide +kernel
  have hbody : body.Carries bytes .closed := by
    have hflatten : (bytes.map fun b => [b]).flatten = bytes := by
      rw [← List.flatMap_def, List.flatMap_singleton']
    exact hflatten ▸ Body.carries_ofChunks (bytes.map fun b => [b]) .closed
  exact ⟨hwritable, hlimit, hbody, (frames_written hwritable hlimit).1 body hbody⟩

end RoundTrip

end PeerLink.Sse
