import PeerLink.Number.Binary64
/-!
# Shortest decimals

A finite number is written with the fewest digits that read back as it: on the coarsest decimal grid
that has a point among the reals rounding to it, the point nearest to it.

## Main definitions

* `Shortest.digits`: the point, as an integer and a power of ten.
* `Notation64`: where positional notation ends.
* `Notation64.write`: a number in such a notation.
-/

namespace PeerLink.Number

namespace Shortest

/-- The reals that round to `m · 2 ^ q`, and that number itself, in units of `2 ^ (q - 2)`: the two
ends, the middle, and whether the ends belong to it. -/
structure Interval where
  low : Nat
  middle : Nat
  high : Nat
  closed : Bool

/-- The interval of a nonzero number. Below a power of two the neighbours lie half as far apart. -/
def interval (m : Nat) (q : Int) : Interval where
  low := if m = twoPow 52 ∧ Binary64.minExponent < q then 4 * m - 1 else 4 * m - 2
  middle := 4 * m
  high := 4 * m + 2
  closed := m % 2 = 0

/-- `10 ^ k` in units of `2 ^ (q - 2)`, as a quotient. -/
def unit (q k : Int) : Nat × Nat :=
  let (a, b) := Binary64.scale 1 1 (2 - q)
  if 0 ≤ k then (a * Nat.pow 10 k.toNat, b) else (a, b * Nat.pow 10 (-k).toNat)

/-- Whether `c · 10 ^ k` lies in the interval, for `10 ^ k = a / b`. -/
def hits (i : Interval) (a b c : Nat) : Bool :=
  if i.closed then i.low * b ≤ c * a && c * a ≤ i.high * b
  else i.low * b < c * a && c * a < i.high * b

/-- The multiple of `a / b` nearest to the middle among its two neighbours, if one lies in the
interval; of two as near, the even one. -/
def nearest (i : Interval) (a b : Nat) : Option Nat :=
  let c := i.middle * b / a
  let below := decide (0 < c) && hits i a b c
  let above := hits i a b (c + 1)
  if below && above then
    let r := i.middle * b % a
    if 2 * r < a then some c
    else if a < 2 * r then some (c + 1)
    else some (if c % 2 = 0 then c else c + 1)
  else if below then some c
  else if above then some (c + 1)
  else none

/-- The first hit on the grids of `10 ^ k`, `10 ^ (k - 1)`, …, for `steps` grids. -/
def search (i : Interval) (q : Int) : (steps : Nat) → (k : Int) → Nat × Int
  | 0, k => (i.middle, k)
  | steps + 1, k =>
    let (a, b) := unit q k
    match nearest i a b with
    | some c => (c, k)
    | none => search i q steps (k - 1)

/-- The shortest decimal of a nonzero number `m · 2 ^ q`: an integer `c` and a power `k` with
`c · 10 ^ k` reading back as the number. -/
def digits (m : Nat) (q : Int) : Nat × Int := search (interval m q) q 640 309

end Shortest

/-- How a finite number is written. -/
structure Notation64 where
  /-- The smallest decimal exponent written positionally. -/
  low : Int
  /-- The largest decimal exponent written positionally. -/
  high : Int
  deriving Repr

namespace Notation64

/-- The digits of a natural number. -/
def digitsOf (n : Nat) : List Char := (toString n).toList

/-- An exponent, always with a sign. -/
def exponent (e : Int) : List Char := 'e' :: (if e < 0 then '-' else '+') :: digitsOf e.natAbs

/-- A point after the first digit, if more follow. -/
def pointed : List Char → List Char
  | [] => []
  | [d] => [d]
  | d :: ds => d :: '.' :: ds

/-- The decimal `c · 10 ^ k` for `c` with the digits `ds`. -/
def place (n : Notation64) (ds : List Char) (k : Int) : List Char :=
  let e := k + ds.length - 1
  if n.low ≤ e ∧ e ≤ n.high then
    if 0 ≤ k then ds ++ List.replicate k.toNat '0' ++ ['.', '0']
    else if 0 ≤ e then
      ds.take (e.toNat + 1) ++ '.' :: ds.drop (e.toNat + 1)
    else '0' :: '.' :: (List.replicate ((-e).toNat - 1) '0' ++ ds)
  else pointed ds ++ exponent e

/-- The shortest text of a finite number, with a point or an exponent in it; `null` stands for a
number that is not finite. -/
def write (n : Notation64) : Binary64 → String
  | .finite s m q =>
    let sign := if s then ['-'] else []
    if m = 0 then String.ofList (sign ++ ['0', '.', '0'])
    else
      let (c, k) := Shortest.digits m q
      String.ofList (sign ++ n.place (digitsOf c) k)
  | _ => "null"

end Notation64

end PeerLink.Number
