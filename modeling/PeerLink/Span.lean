import PeerLink.Number.Binary64
/-!
# Spans of time

A span is a whole number of nanoseconds. Growing it goes through seconds as floating point numbers,
with one rounding for each operation.

## Main definitions

* `Span`: spans and their units.
* `Span.grow?`: a span times a factor, unless it gets too long.
-/

namespace PeerLink

open Number

/-- A span of time in nanoseconds. -/
structure Span where
  nanos : Nat
  deriving DecidableEq, Repr, Inhabited

namespace Span

/-- The nanoseconds of a second. -/
def second : Nat := 1000000000

/-- The nanoseconds of a millisecond. -/
def milli : Nat := 1000000

/-- A span of whole milliseconds. -/
def ofMillis (ms : Nat) : Span := ⟨ms * milli⟩

/-- A span of whole seconds. -/
def ofSeconds (s : Nat) : Span := ⟨s * second⟩

/-- The whole milliseconds that cover a span. -/
def millisUp (d : Span) : Nat := (d.nanos + (milli - 1)) / milli

/-- The number of seconds that a span must stay below. -/
def limit : Nat := twoPow 64

/-- The span in seconds: the whole seconds and the part below, each rounded, and their sum. -/
def seconds (d : Span) : Binary64 :=
  (Binary64.ofNat (d.nanos / second)).add
    ((Binary64.ofNat (d.nanos % second)).div (Binary64.ofNat second))

/-- The span nearest to a number of seconds, ties to the even nanosecond; none if the number is
negative, too large or no number. -/
def ofSeconds? : Binary64 → Option Span
  | .finite negative m e =>
    if negative && 0 < m then none
    else
      let (a, b) := Binary64.scale (m * second) 1 e
      let d := roundHalfEven a b
      if d < limit * second then some ⟨d⟩ else none
  | _ => none

/-- A span times a factor, unless it gets too long. -/
def grow? (d : Span) (factor : Binary64) : Option Span :=
  ofSeconds? (factor.mul d.seconds)

/-- The shorter of two spans. -/
def min (a b : Span) : Span := ⟨Nat.min a.nanos b.nanos⟩

/-- The longer of two spans. -/
def max (a b : Span) : Span := ⟨Nat.max a.nanos b.nanos⟩

end Span

end PeerLink
