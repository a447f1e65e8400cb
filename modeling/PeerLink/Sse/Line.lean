import PeerLink.Text.Blank
import PeerLink.Text.Cut
/-!
# Lines of an event stream

A server-sent event stream is made of lines. A line names the event of the frame in progress, adds a
piece of data to it, ends it, or is a comment.

## Main definitions

* `Line`: the four kinds of line.
* `Line.parse`: the kind of a line, given without its end.
-/

namespace PeerLink.Sse

open Text

/-- A line of the stream by its meaning. -/
inductive Line where
  /-- The name of the event. -/
  | event (name : String)
  /-- A piece of the data. -/
  | data (piece : String)
  /-- The end of a frame. -/
  | empty
  /-- A comment, or a field that is not used. -/
  | comment (text : String)
  deriving DecidableEq, Repr

/-- The characters without one space in front. -/
def dropSpace : List Char → List Char
  | ' ' :: cs => cs
  | cs => cs

/-- The kind of the line with these characters. -/
def Line.parseChars (cs : List Char) : Line :=
  match cs with
  | [] => .empty
  | ':' :: rest => .comment (String.ofList (trimChars rest))
  | _ =>
    match dropPrefix? "event:".toList cs with
    | some rest => .event (String.ofList (trimChars rest))
    | none => match dropPrefix? "data:".toList cs with
      | some rest => .data (String.ofList (dropSpace rest))
      | none => .comment (String.ofList cs)

/-- The kind of a line, given without its end. -/
def Line.parse (s : String) : Line := Line.parseChars s.toList

end PeerLink.Sse
