import PeerLink.Bridge.Reader
import PeerLink.Proofs.Connection.Feed
/-!
# What the reader publishes

`World.doActs` writes lines into the log and takes events, in the order of the acts. `World.log`
commutes with `World.takeEvent`, so the lines may be written after all events have been taken.
`World.takeEvent` applies an event to `items` before it publishes it, and publishing leaves `items`
as they are.

## Main definitions

* `World.takeEvents`: takes several events in turn.
* `World.arrived`, `World.emptied`: the pieces that a reader takes, and the world without them.

## Main statements

* `World.takePieces_chunks`: `World.takePieces` performs the acts for the items of the chunks.
* `World.publications_eq`: `Feed.publications` are the events that are taken, with `items` after
  each.
* `World.publishes_of_takeStream`: the events that a server sends are published.
-/

namespace PeerLink.Bridge.World

open Transport Connection Text.Utf8

/-- Applies events to `items` and publishes them, one after the other. -/
def takeEvents (w : World) (events : List (String × Event)) : World :=
  events.foldl (fun w e => w.takeEvent e.1 e.2) w

/-- The pieces that have arrived on the stream of the reader `t`. -/
def arrived (w : World) (t : ReaderTask) : List Piece :=
  match w.streams.find? fun s => t.stream == some s.id with
  | some s => s.pieces
  | none => []

/-- The world without the pieces that have arrived on the stream of the reader `t`. -/
def emptied (w : World) (t : ReaderTask) : World :=
  { w with
    streams := w.streams.map fun s => if t.stream = some s.id then { s with pieces := [] } else s }

/-- A reader whose stream has opened takes the pieces that have arrived on it. -/
theorem takeStream_ok (w : World) (id : Nat) (t : ReaderTask) :
    w.takeStream id t (.ok ()) =
      match ((w.emptied t).log (.info "Event stream connected")).takePieces t (w.arrived t) with
      | (w, t, some e) => w.endReader id t e
      | (w, t, none) => w.setTask id (.reader { t with phase := .reading }) :=
  rfl

/-! ## Acts -/

section Acts

variable {w : World} {t : ReaderTask} {acts : List Feed.Act}

theorem publish_log (w : World) (l : LogLine) (topic : String) (e : Event) :
    ((w.log l).publish topic e).1 = (w.publish topic e).1.log l := by
  unfold publish
  cases hc : w.executor.closed with
  | true => simp [log, hc]
  | false =>
    simp only [log, hc]
    exact List.foldl_hom (fun w : World => w.log l) fun _ _ => rfl

theorem takeEvent_log (w : World) (l : LogLine) (topic : String) (e : Event) :
    (w.log l).takeEvent topic e = (w.takeEvent topic e).log l :=
  publish_log { w with items := w.items.apply e } l topic e

theorem takeEvents_log (w : World) (l : LogLine) (events : List (String × Event)) :
    (w.log l).takeEvents events = (w.takeEvents events).log l :=
  List.foldl_hom (fun w : World => w.log l) fun w e => takeEvent_log w l e.1 e.2

/-- Publishing leaves the way events are read and the table of items as they are. -/
theorem reads_publish (w : World) (topic : String) (e : Event) :
    (w.publish topic e).1.eventReader = w.eventReader ∧
      (w.publish topic e).1.items = w.items := by
  have hsubmit (listeners : List Listener) (w : World) :
      (listeners.foldl (fun w l => w.submit l.callback e) w).eventReader = w.eventReader ∧
        (listeners.foldl (fun w l => w.submit l.callback e) w).items = w.items := by
    induction listeners generalizing w with
    | nil => exact ⟨rfl, rfl⟩
    | cons l rest ih => exact ih _
  unfold publish
  split
  · exact ⟨rfl, rfl⟩
  · exact hsubmit _ w

theorem items_takeEvent (w : World) (topic : String) (e : Event) :
    (w.takeEvent topic e).items = w.items.apply e :=
  (reads_publish _ topic e).2

theorem items_takeEvents (w : World) (events : List (String × Event)) :
    (w.takeEvents events).items = events.foldl (fun items e => items.apply e.2) w.items :=
  (List.foldl_hom World.items fun w e => (items_takeEvent w e.1 e.2).symm).symm

/-- The event `k` is applied to `items` and published then. -/
theorem takeEvents_take_succ (w : World) {events : List (String × Event)} {k : Nat}
    {e : String × Event} (h : events[k]? = some e) : w.takeEvents (events.take (k + 1)) =
      (w.takeEvents (events.take k)).takeEvent e.1 e.2 := by
  rw [List.take_add_one, h, takeEvents, List.foldl_append]
  rfl

theorem eventReader_doActs (w : World) (acts : List Feed.Act) :
    (w.doActs acts).1.eventReader = w.eventReader := by
  fun_induction doActs w acts with
  | case1 w => rfl
  | case2 w l rest ih => exact ih
  | case3 w topic e rest ih => exact ih.trans (reads_publish _ topic e).1
  | case4 w e rest => rfl

/-- `Feed.publications` are the events that `World.doActs` takes, with `items` after each. -/
theorem publications_eq (w : World) (h : ∀ a ∈ acts, a.GoesOn) :
    Feed.publications w.items acts = (acts.filterMap Feed.Act.published?).mapIdx fun k e =>
      (e.1, e.2, (w.takeEvents ((acts.filterMap Feed.Act.published?).take (k + 1))).items) := by
  induction acts generalizing w with
  | nil => rfl
  | cons a rest ih =>
    have ih := fun w => ih w fun a ha => h a (List.mem_cons_of_mem _ ha)
    cases a with
    | log l => exact ih w
    | publish topic e =>
      rw [Feed.publications, ← items_takeEvent w topic e, ih]
      simp [Feed.Act.published?, List.mapIdx_cons, takeEvents]
    | stop e => exact (h _ List.mem_cons_self).elim

/-- Acts that do not stop the reader take their events in order, and write into the log. -/
theorem doActs_of_goesOn (w : World) (h : ∀ a ∈ acts, a.GoesOn) :
    ∃ lines : List LogLine,
      w.doActs acts =
        (lines.foldl log (w.takeEvents (acts.filterMap Feed.Act.published?)), none) := by
  induction acts generalizing w with
  | nil => exact ⟨[], rfl⟩
  | cons a rest ih =>
    have ih := fun w => ih w fun a ha => h a (List.mem_cons_of_mem _ ha)
    cases a with
    | log l =>
      obtain ⟨lines, hl⟩ := ih (w.log l)
      refine ⟨l :: lines, ?_⟩
      rw [takeEvents_log] at hl
      exact hl
    | publish topic e => exact ih (w.takeEvent topic e)
    | stop e => exact (h _ List.mem_cons_self).elim

theorem doActs_append (w : World) (more : List Feed.Act) (h : ∀ a ∈ acts, a.GoesOn) :
    w.doActs (acts ++ more) = (w.doActs acts).1.doActs more := by
  induction acts generalizing w with
  | nil => rfl
  | cons a rest ih =>
    have ih := fun w => ih w fun a ha => h a (List.mem_cons_of_mem _ ha)
    cases a with
    | log l => exact ih (w.log l)
    | publish topic e => exact ih (w.takeEvent topic e)
    | stop e => exact (h _ List.mem_cons_self).elim

theorem takePieces_chunk (chunk : Bytes) (rest : List Piece)
    (h : ∀ a ∈ Feed.acts w.eventReader t.layout (t.decoder.feed chunk).2, a.GoesOn) :
    w.takePieces t (.chunk chunk :: rest) =
      (w.doActs (Feed.acts w.eventReader t.layout (t.decoder.feed chunk).2)).1.takePieces
        { t with decoder := (t.decoder.feed chunk).1 } rest := by
  obtain ⟨lines, hl⟩ := doActs_of_goesOn w h
  rw [takePieces]
  simp only [hl]

/-- Taking chunks performs the acts for the items that the decoder gives for them. -/
theorem takePieces_chunks (w : World) (t : ReaderTask) (chunks : List Bytes)
    (h : ∀ a ∈ Feed.acts w.eventReader t.layout (t.decoder.feedAll chunks).2, a.GoesOn) :
    w.takePieces t (chunks.map .chunk) =
      ((w.doActs (Feed.acts w.eventReader t.layout (t.decoder.feedAll chunks).2)).1,
        { t with decoder := (t.decoder.feedAll chunks).1 }, none) := by
  induction chunks generalizing w t with
  | nil => rfl
  | cons chunk rest ih =>
    rw [Sse.Decoder.feedAll_cons, Feed.acts, List.flatMap_append] at h ⊢
    have hfirst := fun a ha => h a (List.mem_append_left _ ha)
    have hrest := fun a ha => h a (List.mem_append_right _ ha)
    have hread := eventReader_doActs w (Feed.acts w.eventReader t.layout (t.decoder.feed chunk).2)
    have ih := ih (w.doActs (Feed.acts w.eventReader t.layout (t.decoder.feed chunk).2)).1
      { t with decoder := (t.decoder.feed chunk).1 } (by rw [hread]; exact hrest)
    rw [List.map_cons, takePieces_chunk chunk _ hfirst, ih, doActs_append w _ hfirst, hread]
    rfl

end Acts

/-! ## Events -/

section Events

variable {w : World} {t : ReaderTask} {limit : Nat} {chunks : List Bytes} {texts : List String}

/-- The events among the texts that a server sends are taken in order, however the bytes are cut. -/
theorem takePieces_events (hd : t.decoder = { limit })
    (htexts : ∀ s ∈ texts, '\n' ∉ s.toList ∧ '\r' ∉ s.toList)
    (hcut : chunks.flatten = (texts.map Peer.eventChunk).flatten) :
    ∃ lines : List LogLine, w.takePieces t (chunks.map .chunk) =
      (lines.foldl log
        (w.takeEvents (texts.filterMap (Feed.eventOf? w.eventReader t.layout limit))),
        t, none) := by
  have hitems := Feed.feedAll_events limit htexts hcut
  rw [← hd] at hitems
  have hgo := Feed.goesOn_acts w.eventReader t.layout limit texts
  obtain ⟨lines, hl⟩ := doActs_of_goesOn w hgo
  refine ⟨lines, ?_⟩
  rw [takePieces_chunks w t chunks (by rw [hitems]; exact hgo), hitems, hl, Feed.published_acts]

/-- A reader whose stream has opened takes `events`, those of the texts that are events, each once
and in order, whatever the cut. It writes lines about other texts into the log at most, and goes on
reading. Each event is published from a world whose table of items is `w.items` with all events so
far applied, this one included. -/
theorem publishes_of_takeStream (id : Nat) (hd : t.decoder = { limit })
    (harrived : w.arrived t = chunks.map .chunk)
    (htexts : ∀ s ∈ texts, '\n' ∉ s.toList ∧ '\r' ∉ s.toList)
    (hcut : chunks.flatten = (texts.map Peer.eventChunk).flatten) :
    let events := texts.filterMap (Feed.eventOf? w.eventReader t.layout limit)
    (∃ lines : List LogLine, w.takeStream id t (.ok ()) =
      (lines.foldl log ((w.emptied t).takeEvents events)).setTask id
        (.reader { t with phase := .reading })) ∧
    (Feed.publications w.items (Feed.acts w.eventReader t.layout (t.decoder.feedAll chunks).2) =
      events.mapIdx fun k e =>
        (e.1, e.2, (events.take (k + 1)).foldl (fun items e => items.apply e.2) w.items)) ∧
    ∀ k topic e, events[k]? = some (topic, e) →
      let v := (w.emptied t).takeEvents (events.take k)
      let applied := { v with items := v.items.apply e }
      (w.emptied t).takeEvents (events.take (k + 1)) = (applied.publish topic e).1 ∧
      applied.items = (events.take (k + 1)).foldl (fun items e => items.apply e.2) w.items := by
  have hgo := Feed.goesOn_acts w.eventReader t.layout limit texts
  have hitems := Feed.feedAll_events limit htexts hcut
  refine ⟨?_, ?_, fun k topic e he => ?_⟩
  · obtain ⟨lines, hl⟩ := takePieces_events
      (w := (w.emptied t).log (.info "Event stream connected")) hd htexts hcut
    rw [takeEvents_log] at hl
    refine ⟨.info "Event stream connected" :: lines, ?_⟩
    rw [takeStream_ok, harrived, hl]
    rfl
  · simp only [hd, hitems, publications_eq w hgo, Feed.published_acts, items_takeEvents]
  · have hnext := takeEvents_take_succ (w.emptied t) he
    refine ⟨hnext, ?_⟩
    rw [← items_takeEvent _ topic e, ← hnext, items_takeEvents]
    rfl

end Events

/-! ## A small stream -/

/-- Two items are removed. Between these texts are one that is no JSON, an empty one, one that is no
event, and one whose line is too long. -/
def demoTexts : List String :=
  ["\x7b\"topic\":\"openhab/items/Tür/\",\"type\":\"ItemRemovedEvent\",\"payload\":\"\"\x7d",
    "no JSON", "", "[1]",
    "\x7b\"topic\":\"openhab/items/Long name/\",\"type\":\"ItemRemovedEvent\",\"payload\":\"\"\x7d",
    "\x7b\"topic\":\"openhab/items/A/\",\"type\":\"ItemRemovedEvent\",\"payload\":\"\"\x7d"]

/-- A chunk for every byte, so that lines and characters are cut wherever they can be. -/
def demoChunks : List Bytes := (demoTexts.map Peer.eventChunk).flatten.map fun b => [b]

/-- A reader of lines of 80 bytes. -/
def demoReader : ReaderTask where
  epoch := 1
  session := ⟨"http://demo"⟩
  layout := .current
  decoder := { limit := 80 }
  stream := some 1

/-- A world in which three items are known, and all these chunks have arrived. -/
def demoStream : World where
  supervisor := .initial {} false
  executor := .ofConfig {}
  items := ⟨[{ name := "A" }, { name := "Long name" }, { name := "Tür" }]⟩
  streams := [⟨1, demoChunks.map .chunk⟩]

/-- The two events are published, each with the table of items as it is then. -/
theorem publishes_of_takeStream_demo :
    demoReader.decoder = { limit := 80 } ∧
    demoStream.arrived demoReader = demoChunks.map .chunk ∧
    (∀ s ∈ demoTexts, '\n' ∉ s.toList ∧ '\r' ∉ s.toList) ∧
    demoChunks.flatten = (demoTexts.map Peer.eventChunk).flatten ∧
    (∃ lines : List LogLine, demoStream.takeStream 1 demoReader (.ok ()) =
      (lines.foldl log ((demoStream.emptied demoReader).takeEvents
        [("items/Tür", .itemRemoved "Tür"), ("items/A", .itemRemoved "A")])).setTask 1
        (.reader { demoReader with phase := .reading })) ∧
    Feed.publications demoStream.items
      (Feed.acts demoStream.eventReader .current (demoReader.decoder.feedAll demoChunks).2) =
      [("items/Tür", .itemRemoved "Tür", ⟨[{ name := "A" }, { name := "Long name" }]⟩),
        ("items/A", .itemRemoved "A", ⟨[{ name := "Long name" }]⟩)] := by
  have hd : demoReader.decoder = { limit := 80 } := rfl
  have harrived : demoStream.arrived demoReader = demoChunks.map .chunk := by
    simp [arrived, demoStream, demoReader]
  have htexts : ∀ s ∈ demoTexts, '\n' ∉ s.toList ∧ '\r' ∉ s.toList := by decide +kernel
  have hcut : demoChunks.flatten = (demoTexts.map Peer.eventChunk).flatten := by
    simp [demoChunks, ← List.flatMap_def]
  have hevents : demoTexts.filterMap (Feed.eventOf? Event.decode .current 80) =
      [("items/Tür", .itemRemoved "Tür"), ("items/A", .itemRemoved "A")] := by decide +kernel
  have hread : demoStream.eventReader = Event.decode := rfl
  have hlayout : demoReader.layout = .current := rfl
  have h := publishes_of_takeStream 1 hd harrived htexts hcut
  rw [hread, hlayout] at h
  simp only [hevents] at h
  refine ⟨hd, harrived, htexts, hcut, h.1, h.2.1.trans ?_⟩
  decide +kernel

end PeerLink.Bridge.World
