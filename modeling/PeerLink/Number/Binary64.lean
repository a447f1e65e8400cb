/-!
# Binary floating point with 53 bits

The numbers of the binary64 format as integers, so that every operation is exact arithmetic followed
by one rounding to nearest, ties to the even significand.

## Main definitions

* `Binary64`: the numbers of the format.
* `roundHalfEven`: the integer nearest to a quotient.
* `Binary64.ofRatio`: the number nearest to a quotient.
* `Binary64.add`, `Binary64.mul`, `Binary64.div`: arithmetic.
* `Binary64.toBits`, `Binary64.ofBits`: the interchange encoding.
-/

namespace PeerLink.Number

/-- A power of two. -/
def twoPow (n : Nat) : Nat := Nat.pow 2 n

/-- The integer nearest to `num / den`; of two, the even one. -/
def roundHalfEven (num den : Nat) : Nat :=
  let q := num / den
  let r := num % den
  if 2 * r < den then q
  else if den < 2 * r then q + 1
  else if q % 2 = 0 then q else q + 1

/-- A number of the format. A finite one is `significand · 2 ^ exponent`, less than `2 ^ 53` times
the power, with the smallest exponent that the format allows when it is below `2 ^ 52`. -/
inductive Binary64 where
  | nan
  | infinite (negative : Bool)
  | finite (negative : Bool) (significand : Nat) (exponent : Int)
  deriving DecidableEq, Repr

namespace Binary64

/-- The smallest exponent of a finite number. -/
def minExponent : Int := -1074

/-- The largest exponent of a finite number. -/
def maxExponent : Int := 971

/-- `num · 2 ^ shift` as a quotient of natural numbers. -/
def scale (num den : Nat) (shift : Int) : Nat × Nat :=
  if 0 ≤ shift then (num * twoPow shift.toNat, den) else (num, den * twoPow (-shift).toNat)

/-- The exponent of the largest power of two that is at most `num / den`. -/
def floorLog2 (num den : Nat) : Int :=
  let e : Int := (Nat.log2 num : Int) - (Nat.log2 den : Int)
  let (a, b) := scale num den (-e)
  if b ≤ a then e else e - 1

/-- Zero, with a sign. -/
def zero (negative : Bool) : Binary64 := finite negative 0 minExponent

/-- The number nearest to `num / den`, of two the one with the even significand; beyond the largest
finite number, infinity. -/
def ofRatio (negative : Bool) (num den : Nat) : Binary64 :=
  if num = 0 then zero negative
  else
    let exponent := max (floorLog2 num den - 52) minExponent
    let (a, b) := scale num den (-exponent)
    let significand := roundHalfEven a b
    let (significand, exponent) :=
      if significand = twoPow 53 then (twoPow 52, exponent + 1) else (significand, exponent)
    if maxExponent < exponent then infinite negative else finite negative significand exponent

/-- The number nearest to `num · 2 ^ shift / den`. -/
def ofScaled (negative : Bool) (num den : Nat) (shift : Int) : Binary64 :=
  let (a, b) := scale num den shift
  ofRatio negative a b

/-- The number nearest to a natural number. -/
def ofNat (n : Nat) : Binary64 := ofRatio false n 1

/-- The number with the other sign. -/
def neg : Binary64 → Binary64
  | nan => nan
  | infinite s => infinite (!s)
  | finite s m e => finite (!s) m e

/-- Whether the number is infinite. -/
def isInfinite : Binary64 → Bool
  | infinite _ => true
  | _ => false

/-- Whether the number is zero, of either sign. -/
def isZero : Binary64 → Bool
  | finite _ m _ => m = 0
  | _ => false

/-- Whether the number has a minus sign. -/
def sign : Binary64 → Bool
  | nan => false
  | infinite s => s
  | finite s _ _ => s

/-! ## Arithmetic -/

/-- The product. -/
def mul : Binary64 → Binary64 → Binary64
  | nan, _ => nan
  | _, nan => nan
  | infinite s, y => if y.isZero then nan else infinite (s != y.sign)
  | x, infinite t => if x.isZero then nan else infinite (x.sign != t)
  | finite s m e, finite t n f => ofScaled (s != t) (m * n) 1 (e + f)

/-- The quotient. -/
def div : Binary64 → Binary64 → Binary64
  | nan, _ => nan
  | _, nan => nan
  | infinite s, finite t _ _ => infinite (s != t)
  | infinite _, infinite _ => nan
  | finite s _ _, infinite t => zero (s != t)
  | finite s m e, finite t n f =>
    if n = 0 then (if m = 0 then nan else infinite (s != t)) else ofScaled (s != t) m n (e - f)

/-- The sum of two numbers without a minus sign. -/
def add : Binary64 → Binary64 → Binary64
  | nan, _ => nan
  | _, nan => nan
  | infinite s, _ => infinite s
  | _, infinite t => infinite t
  | finite _ m e, finite _ n f =>
    let low := min e f
    ofScaled false (m * twoPow (e - low).toNat + n * twoPow (f - low).toNat) 1 low

/-- Whether the number is less than the natural number `n`; NaN is not. -/
def ltNat (x : Binary64) (n : Nat) : Bool :=
  match x with
  | nan => false
  | infinite s => s
  | finite s m e =>
    let (a, b) := scale m 1 e
    if s then 0 < m || 0 < n else a < n * b

/-! ## Interchange encoding -/

/-- The 64 bits of the number; NaN has the quiet pattern without a sign. -/
def toBits : Binary64 → UInt64
  | nan => 0x7FF8000000000000
  | infinite s => signBit s + 0x7FF0000000000000
  | finite s m e =>
    let biased : Nat := if m < twoPow 52 then 0 else (e - minExponent + 1).toNat
    signBit s + UInt64.ofNat (biased * twoPow 52 + m % twoPow 52)
where
  /-- The bit of a sign. -/
  signBit (s : Bool) : UInt64 := if s then 0x8000000000000000 else 0

/-- The number with these 64 bits. -/
def ofBits (bits : UInt64) : Binary64 :=
  let n : Nat := bits.toNat
  let negative := decide (twoPow 63 ≤ n)
  let biased : Nat := n / twoPow 52 % twoPow 11
  let fraction : Nat := n % twoPow 52
  if biased = 2047 then (if fraction = 0 then infinite negative else nan)
  else if biased = 0 then finite negative fraction minExponent
  else finite negative (twoPow 52 + fraction) ((biased : Int) - 1 + minExponent)

end Binary64

end PeerLink.Number
