import PeerLink.Sse.Line
/-!
# Frames of an event stream

Lines add up to a frame until an empty line ends it.

## Main definitions

* `Frame`: an event name, if one was given, and the data.
* `Pending`: the frame in progress.
* `Pending.feed`: one more line, which may complete a frame.
* `Frame.lines`: the lines that a frame is written as.
-/

namespace PeerLink.Sse

open Text

/-- A complete frame. -/
structure Frame where
  event : Option String
  data : String
  deriving DecidableEq, Repr

/-- Whether the frame only shows that the server is alive. -/
def Frame.isKeepalive (f : Frame) : Bool :=
  f.event == some "alive" || f.event == some "ping"

/-- The lines that a frame is written as: its event, if it has one, a line for each piece of its
data, and an empty line. -/
def Frame.lines (f : Frame) : List String :=
  (match f.event with
    | some name => ["event: " ++ name]
    | none => []) ++ (pieces '\n' f.data).map ("data: " ++ ·) ++ [""]

/-- The frame in progress: the event named last, and the pieces of data in order. -/
structure Pending where
  event : Option String := none
  data : List String := []
  deriving DecidableEq, Repr

namespace Pending

/-- Whether there is nothing to make a frame of. -/
def isEmpty (p : Pending) : Bool := p.event.isNone && p.data.isEmpty

/-- The frame that an empty line completes, if there is anything in progress. -/
def complete (p : Pending) : Option Frame :=
  if p.isEmpty then none else some ⟨p.event, join "\n" p.data⟩

/-- Takes one more line, given without its end; an empty one may complete a frame. -/
def feed (p : Pending) (line : String) : Pending × Option Frame :=
  match Line.parse line with
  | .event name => ({ p with event := some name }, none)
  | .data piece => ({ p with data := p.data ++ [piece] }, none)
  | .comment _ => (p, none)
  | .empty => ({}, p.complete)

/-- Takes lines in turn and gives the frames that they complete. -/
def feedAll (p : Pending) : List String → Pending × List Frame
  | [] => (p, [])
  | line :: rest =>
    let (p, frame) := p.feed line
    let (p, frames) := p.feedAll rest
    (p, frame.toList ++ frames)

end Pending

end PeerLink.Sse
