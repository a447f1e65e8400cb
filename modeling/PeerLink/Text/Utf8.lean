/-!
# Text as bytes

UTF-8 read one byte at a time. A sequence that is not UTF-8 ends before the first byte that cannot
continue it, and stands for one replacement character when the reader forgives it.

## Main definitions

* `encode`: the bytes of a text.
* `decode?`: the text of bytes that are UTF-8 throughout.
* `decodeLossy`: the text of any bytes, with U+FFFD for each broken sequence.
-/

namespace PeerLink.Text.Utf8

/-- A byte string. -/
abbrev Bytes := List UInt8

/-- The bytes of a text. -/
def encode (s : String) : Bytes :=
  s.toList.flatMap String.utf8EncodeChar

/-- A character in progress: its bits so far, the least and the greatest byte that may follow, and
how many bytes must. -/
structure Started where
  bits : Nat
  low : UInt8
  high : UInt8
  more : Nat
  deriving DecidableEq, Repr

/-- The character in progress after the lead byte `b`, if it is one. -/
def Started.ofLead (b : UInt8) : Option Started :=
  let n := b.toNat
  if b < 0xC2 then none
  else if b < 0xE0 then some ⟨n % 32, 0x80, 0xBF, 1⟩
  else if b = 0xE0 then some ⟨n % 16, 0xA0, 0xBF, 2⟩
  else if b = 0xED then some ⟨n % 16, 0x80, 0x9F, 2⟩
  else if b < 0xF0 then some ⟨n % 16, 0x80, 0xBF, 2⟩
  else if b = 0xF0 then some ⟨n % 8, 0x90, 0xBF, 3⟩
  else if b < 0xF4 then some ⟨n % 8, 0x80, 0xBF, 3⟩
  else if b = 0xF4 then some ⟨n % 8, 0x80, 0x8F, 3⟩
  else none

/-- What has been read: the characters, last first, with `none` for each broken sequence, and the
character in progress. -/
structure Reading where
  done : List (Option Char) := []
  started : Option Started := none

namespace Reading

/-- Takes a byte that does not continue a character. -/
def begin (r : Reading) (b : UInt8) : Reading :=
  if b < 0x80 then { done := some (Char.ofNat b.toNat) :: r.done }
  else match Started.ofLead b with
    | some s => { r with started := some s }
    | none => { done := none :: r.done }

/-- Takes a byte. -/
def step (r : Reading) (b : UInt8) : Reading :=
  match r.started with
  | none => r.begin b
  | some s =>
    if s.low ≤ b ∧ b ≤ s.high then
      let bits := s.bits * 64 + b.toNat % 64
      if s.more ≤ 1 then { done := some (Char.ofNat bits) :: r.done }
      else { r with started := some ⟨bits, 0x80, 0xBF, s.more - 1⟩ }
    else ({ done := none :: r.done } : Reading).begin b

/-- The characters read, with `none` also for a character that was not completed. -/
def result (r : Reading) : List (Option Char) :=
  (if r.started.isSome then none :: r.done else r.done).reverse

end Reading

/-- The characters of some bytes, with `none` for each broken sequence. -/
def chars (bs : Bytes) : List (Option Char) :=
  (bs.foldl Reading.step {}).result

/-- The text of bytes that are UTF-8 throughout. -/
def decode? (bs : Bytes) : Option String :=
  ((chars bs).mapM id).map String.ofList

/-- What stands for a broken sequence. -/
def replacement : Char := '\uFFFD'

/-- The text of any bytes, with U+FFFD for each broken sequence. -/
def decodeLossy (bs : Bytes) : String :=
  String.ofList ((chars bs).map (·.getD replacement))

end PeerLink.Text.Utf8
