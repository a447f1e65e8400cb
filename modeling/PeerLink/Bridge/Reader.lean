import PeerLink.Bridge.Dispatch
/-!
# The reader of events

The reader opens the stream of events and takes the pieces that arrive on it, until the stream ends
or the reader is aborted.

## Main definitions

* `World.takeEvent`: applies an event to the table of items and publishes it.
* `World.takePieces`: takes the pieces that have arrived.
* `World.pollReader`: polls the reader.
-/

namespace PeerLink.Bridge.World

open Transport Connection

/-- Drops the stream of a reader. -/
def dropStream (w : World) (t : ReaderTask) : World :=
  match t.stream with
  | some stream =>
    { w with
      streams := w.streams.filter (·.id ≠ stream)
      script := w.script.dropStream }
  | none => w

/-- Ends a reader and sends the reason to the supervisor. -/
def endReader (w : World) (id : Nat) (t : ReaderTask) (e : Feed.End) : World :=
  ((w.dropStream t).send (.streamEnded t.epoch e)).1.endTask id

/-- Applies an event to the table of items and then publishes it. -/
def takeEvent (w : World) (topic : String) (e : Event) : World :=
  ({ w with items := w.items.apply e }.publish topic e).1

/-- Performs the acts of a reader, and gives the reason why it stops, if it does. -/
def doActs (w : World) : List Feed.Act → World × Option Feed.End
  | [] => (w, none)
  | .log l :: rest => (w.log l).doActs rest
  | .publish topic e :: rest => (w.takeEvent topic e).doActs rest
  | .stop e :: _ => (w, some e)

/-- Takes the pieces that have arrived on the stream. -/
def takePieces (w : World) (t : ReaderTask) : List Piece → World × ReaderTask × Option Feed.End
  | [] => (w, t, none)
  | .chunk bytes :: rest =>
    let (decoder, items) := t.decoder.feed bytes
    match w.doActs (Feed.acts w.eventReader t.layout items) with
    | (w, none) => w.takePieces { t with decoder } rest
    | (w, some e) => (w, { t with decoder }, some e)
  | .failure cause :: _ =>
    let (w, e) := w.doActs (Feed.acts w.eventReader t.layout (t.decoder.fail cause))
    (w, t, e)
  | .ended :: _ =>
    let (w, e) :=
      w.doActs (Feed.acts w.eventReader t.layout t.decoder.finish ++ [.stop .closed])
    (w, t, e)

/-- Reads all pieces that have arrived. -/
def read (w : World) (id : Nat) (t : ReaderTask) : World :=
  let pieces := match w.streams.find? fun s => t.stream == some s.id with
    | some s => s.pieces
    | none => []
  let streams := w.streams.map fun s =>
    if t.stream = some s.id then { s with pieces := [] } else s
  let w := { w with streams }
  match w.takePieces t pieces with
  | (w, t, some e) => w.endReader id t e
  | (w, t, none) => w.setTask id (.reader { t with phase := .reading })

/-- Takes the answer to the request for the stream. -/
def takeStream (w : World) (id : Nat) (t : ReaderTask) (answer : Except Failure Unit) : World :=
  match answer with
  | .error cause => w.endReader id t (.failed cause)
  | .ok () => (w.log (.info "Event stream connected")).read id t

/-- Requests the stream. -/
def openStream (w : World) (id : Nat) (t : ReaderTask) : World :=
  let out := Feed.outgoing t.session t.layout
  let (answer, script) := w.script.openStream out
  let w := { w with script }.observe out
  let (w, t) := match answer with
    | .ok body =>
      let pieces := body.chunks.map Piece.chunk ++ if body.held then [] else [Piece.ended]
      let opened : OpenStream := ⟨w.nextStream, pieces⟩
      ({ w with streams := w.streams ++ [opened], nextStream := w.nextStream + 1 },
        { t with stream := some w.nextStream })
    | .error _ => (w, t)
  let answer := answer.map fun _ => ()
  match w.delayOf out.url with
  | 0 => w.takeStream id t answer
  | ms => w.sleep id ms (.reader { t with phase := .opening answer })

/-- Polls the reader. -/
def pollReader (w : World) (id : Nat) (t : ReaderTask) : World :=
  match t.phase with
  | .planned => w.openStream id t
  | .opening answer => w.takeStream id t answer
  | .reading => w.read id t

end PeerLink.Bridge.World
