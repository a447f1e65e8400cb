import PeerLink.Sse.Frame
import PeerLink.Text.Utf8
import PeerLink.Transport.Failure
/-!
# The decoder

A body arrives in chunks with arbitrary cuts. The decoder has the bytes of the current line in its
buffer, at most `limit` of them, and the pending frame. A longer line is discarded together with the
pending frame, and it is reported once.

## Main definitions

* `Decoder`: the state between two chunks.
* `Decoder.feed`: takes a chunk.
* `Decoder.finish`, `Decoder.fail`: the two endings of a body.
* `Decoder.items`: all items of a body.
-/

namespace PeerLink.Sse

open Text Text.Utf8 Transport

/-- An item that the decoder gives. -/
inductive Item where
  /-- A complete frame. -/
  | frame (f : Frame)
  /-- A line of more than `limit` bytes has been discarded. -/
  | lineTooLong (limit : Nat)
  /-- The body has failed. This is the last item. -/
  | transport (cause : Failure)
  deriving DecidableEq, Repr

/-- The ending of a body. -/
inductive Ending where
  | closed
  | failed (cause : Failure)
  deriving DecidableEq, Repr

/-- The byte that ends a line. -/
def lf : UInt8 := 10

/-- The byte that may precede the line feed. -/
def cr : UInt8 := 13

/-- The complete lines of some bytes, without their line feeds, and the bytes after the last. -/
def splitLines (bs : Bytes) : List Bytes × Bytes :=
  bs.foldr (fun b cut =>
    if b = lf then ([] :: cut.1, cut.2)
    else match cut.1 with
      | [] => ([], b :: cut.2)
      | line :: rest => ((b :: line) :: rest, cut.2)) ([], [])

/-- A line without one carriage return at its end. -/
def dropCr (line : Bytes) : Bytes :=
  if line.getLast? = some cr then line.dropLast else line

/-- The state of the decoder between two chunks. -/
structure Decoder where
  /-- The maximal number of bytes of a line. -/
  limit : Nat
  /-- The bytes of the current line. -/
  buffer : Bytes := []
  /-- Whether the current line is being discarded. -/
  discarding : Bool := false
  /-- The pending frame. -/
  pending : Pending := {}
  deriving DecidableEq, Repr

namespace Decoder

/-- Takes a complete line. -/
def takeLine (d : Decoder) (line : Bytes) : Decoder × List Item :=
  if d.limit < (dropCr line).length then
    ({ d with pending := {} }, [.lineTooLong d.limit])
  else
    let (pending, frame) := d.pending.feed (decodeLossy (dropCr line))
    ({ d with pending }, frame.toList.map .frame)

/-- Takes complete lines in order. -/
def takeLines (d : Decoder) : List Bytes → Decoder × List Item
  | [] => (d, [])
  | line :: rest =>
    let (d, items) := d.takeLine line
    let (d, more) := d.takeLines rest
    (d, items ++ more)

/-- Discards the current line if it is too long. -/
def checkTail (d : Decoder) : Decoder × List Item :=
  if d.limit < d.buffer.length then
    ({ d with buffer := [], discarding := true, pending := {} }, [.lineTooLong d.limit])
  else (d, [])

/-- Appends a chunk to the buffer. While a line is being discarded, only the bytes after its line
feed are appended. -/
def push (d : Decoder) (chunk : Bytes) : Decoder :=
  if d.discarding then
    match chunk.dropWhile (· != lf) with
    | [] => d
    | _ :: rest => { d with discarding := false, buffer := rest }
  else { d with buffer := d.buffer ++ chunk }

/-- Takes all lines that are complete. -/
def drain (d : Decoder) : Decoder × List Item :=
  let (lines, tail) := splitLines d.buffer
  let (d, items) := { d with buffer := tail }.takeLines lines
  let (d, more) := d.checkTail
  (d, items ++ more)

/-- Takes a chunk of the body. -/
def feed (d : Decoder) (chunk : Bytes) : Decoder × List Item :=
  (d.push chunk).drain

/-- The end of the body. The current line, without its carriage returns, and an empty line are taken
as complete lines. -/
def finish (d : Decoder) : List Item :=
  let rest := if d.buffer.isEmpty || d.discarding then []
    else [trimEndOf '\r' (decodeLossy d.buffer)]
  (d.pending.feedAll (rest ++ [""])).2.map .frame

/-- A failure of the body. It is reported, and the pending frame is lost. -/
def fail (_ : Decoder) (cause : Failure) : List Item := [.transport cause]

/-- The given ending of the body. -/
def conclude (d : Decoder) : Ending → List Item
  | .closed => d.finish
  | .failed cause => d.fail cause

/-- Takes chunks in order. -/
def feedAll (d : Decoder) : List Bytes → Decoder × List Item
  | [] => (d, [])
  | chunk :: rest =>
    let (d, items) := d.feed chunk
    let (d, more) := d.feedAll rest
    (d, items ++ more)

end Decoder

/-- All items of a body, for lines of at most `limit` bytes. -/
def items (limit : Nat) (chunks : List Bytes) (ending : Ending) : List Item :=
  let (d, given) := ({ limit } : Decoder).feedAll chunks
  given ++ d.conclude ending

end PeerLink.Sse
