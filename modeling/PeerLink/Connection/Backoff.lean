import PeerLink.Config.Basic
/-!
# Growing delays between attempts

## Main definitions

* `Backoff`: the delay before the next attempt, and how it grows.
* `Backoff.next?`: takes the delay and grows it.
* `Backoff.reset`: back to the first delay.
-/

namespace PeerLink.Connection

open Number

/-- The delay before the next attempt, and how it grows. -/
structure Backoff where
  current : Span
  min : Span
  max : Span
  factor : Binary64
  deriving DecidableEq, Repr

namespace Backoff

/-- A timer at its first delay. The maximum is at least the minimum, and a factor below one or NaN
is replaced by one. -/
def new (min max : Span) (factor : Binary64) : Backoff where
  current := min
  min := min
  max := max.max min
  factor := if factor = .nan ∨ factor.ltNat 1 then .ofNat 1 else factor

/-- The timer of a configuration. -/
def ofConfig (c : ConnectionConfig) : Backoff := new c.minBackoff c.maxBackoff c.backoffFactor

/-- Takes the delay and grows it up to the maximum. It is `none` if growing overflows. -/
def next? (b : Backoff) : Option (Span × Backoff) :=
  (b.current.grow? b.factor).map fun grown => (b.current, { b with current := grown.min b.max })

/-- Resets the timer to the first delay. -/
def reset (b : Backoff) : Backoff := { b with current := b.min }

end Backoff

end PeerLink.Connection
