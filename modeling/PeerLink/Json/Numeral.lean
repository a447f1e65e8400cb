import PeerLink.Json.Value
/-!
# Numbers as they are written

A numeral without point and exponent is an integer as long as it fits 64 bits. Any other is a
floating point number: its digits are taken into a 64-bit integer while they fit, and that integer,
rounded, is multiplied or divided by a power of ten.

## Main definitions

* `Numeral`: the parts of a number as written.
* `Numeral.scan`: the numeral at the start of some characters.
* `Numeral.value?`: its number, unless it is out of range.
-/

namespace PeerLink.Json

open PeerLink.Number

/-- The parts of a number as written, digits as their values. -/
structure Numeral where
  negative : Bool
  whole : List Nat
  /-- The digits after the point, if there is one. -/
  fraction : Option (List Nat)
  /-- Whether the exponent has a minus sign, and its digits. -/
  exponent : Option (Bool × List Nat)
  deriving DecidableEq, Repr

namespace Numeral

/-! ## Scanning -/

/-- The digits at the start of some characters, and what follows them. -/
def digits (cs : List Char) : List Nat × List Char :=
  ((cs.takeWhile Char.isDigit).map (fun c => c.toNat - 48), cs.dropWhile Char.isDigit)

/-- The part after the whole digits up to the exponent. -/
def scanFraction : List Char → Option (Option (List Nat) × List Char)
  | '.' :: cs =>
    match digits cs with
    | ([], _) => none
    | (ds, rest) => some (some ds, rest)
  | cs => some (none, cs)

/-- The sign of an exponent, and what follows it. -/
def scanSign : List Char → Bool × List Char
  | '+' :: cs => (false, cs)
  | '-' :: cs => (true, cs)
  | cs => (false, cs)

/-- The exponent. -/
def scanExponent : List Char → Option (Option (Bool × List Nat) × List Char)
  | [] => some (none, [])
  | c :: cs =>
    if c = 'e' ∨ c = 'E' then
      let (negative, cs) := scanSign cs
      match digits cs with
      | ([], _) => none
      | (ds, rest) => some (some (negative, ds), rest)
    else some (none, c :: cs)

/-- The numeral with the given whole digits, before some characters. -/
def scanTail (negative : Bool) (whole : List Nat) (cs : List Char) :
    Option (Numeral × List Char) := do
  let (fraction, cs) ← scanFraction cs
  let (exponent, cs) ← scanExponent cs
  some (⟨negative, whole, fraction, exponent⟩, cs)

/-- The numeral at the start of some characters after its sign, and what follows it. The whole part
has no zero in front of other digits; a point and an exponent need digits. -/
def scan (negative : Bool) (cs : List Char) : Option (Numeral × List Char) :=
  match digits cs with
  | ([], _) => none
  | (0 :: _ :: _, _) => none
  | (whole, cs) => scanTail negative whole cs

theorem length_digits (cs : List Char) :
    (digits cs).1.length + (digits cs).2.length = cs.length := by
  simp only [digits, List.length_map]
  rw [← List.length_append, List.takeWhile_append_dropWhile]

theorem length_scanFraction_le {cs : List Char} {r : Option (List Nat) × List Char}
    (h : scanFraction cs = some r) : r.2.length ≤ cs.length := by
  unfold scanFraction at h
  split at h
  · rename_i rest
    have := length_digits rest
    split at h
    · cases h
    · simp_all only [Option.some.injEq]
      subst h
      simp only [List.length_cons]
      omega
  · simp_all only [Option.some.injEq]
    subst h
    simp

theorem length_scanSign_le (cs : List Char) : (scanSign cs).2.length ≤ cs.length := by
  unfold scanSign
  split <;> simp

theorem length_scanExponent_le {cs : List Char} {r : Option (Bool × List Nat) × List Char}
    (h : scanExponent cs = some r) : r.2.length ≤ cs.length := by
  unfold scanExponent at h
  split at h
  · simp_all only [Option.some.injEq]
    subst h
    simp
  · rename_i c rest
    split at h
    · have := length_scanSign_le rest
      have := length_digits (scanSign rest).2
      simp only at h
      split at h
      · cases h
      · simp_all only [Option.some.injEq]
        subst h
        simp only [List.length_cons]
        omega
    · simp_all only [Option.some.injEq]
      subst h
      simp

theorem length_scanTail_le {negative : Bool} {whole : List Nat} {cs : List Char}
    {r : Numeral × List Char} (h : scanTail negative whole cs = some r) :
    r.2.length ≤ cs.length := by
  simp only [scanTail, Option.bind_eq_bind, Option.bind_eq_some_iff] at h
  obtain ⟨f, hf, e, he, h⟩ := h
  have := length_scanFraction_le hf
  have := length_scanExponent_le he
  simp only [Option.some.injEq] at h
  subst h
  simp only
  omega

/-- A numeral takes at least one character. -/
theorem length_scan_lt {negative : Bool} {cs : List Char} {r : Numeral × List Char}
    (h : scan negative cs = some r) : r.2.length < cs.length := by
  have hd := length_digits cs
  unfold scan at h
  generalize digits cs = d at h hd
  split at h
  · cases h
  · cases h
  · rename_i whole rest hne _
    have := length_scanTail_le h
    cases whole with
    | nil => exact (hne rfl).elim
    | cons x xs => simp only [List.length_cons] at hd; omega

/-! ## Value -/

/-- The largest integer of 64 bits. -/
def maxWord : Nat := twoPow 64 - 1

/-- Adds whole digits to an integer while they fit, then counts the rest. -/
def takeWhole : (significand : Nat) → List Nat → Nat × Nat
  | m, [] => (m, 0)
  | m, d :: ds => if maxWord < m * 10 + d then (m, ds.length + 1) else takeWhole (m * 10 + d) ds

/-- Adds digits after the point to an integer while they fit, and counts those taken. -/
def takeFraction : (significand : Nat) → List Nat → Nat × Nat
  | m, [] => (m, 0)
  | m, d :: ds =>
    if maxWord < m * 10 + d then (m, 0)
    else
      let (m, taken) := takeFraction (m * 10 + d) ds
      (m, taken + 1)

/-- `10 ^ e` as a floating point number. -/
def pow10 (e : Nat) : Binary64 := .ofNat (Nat.pow 10 e)

/-- The largest power of ten that is a floating point number. -/
def maxPow10 : Nat := 308

/-- The number divided by `10 ^ e`, in steps of at most `10 ^ 308`. -/
def scaleDown (x : Binary64) (e : Nat) : Binary64 :=
  if e ≤ maxPow10 then x.div (pow10 e)
  else if x.isZero then x
  else scaleDown (x.div (pow10 maxPow10)) (e - maxPow10)
termination_by e
decreasing_by simp [maxPow10] at *; omega

/-- `m · 10 ^ e` by one rounding of `m` and one for each step of scaling; `none` when it is too
large. -/
def scaled (m : Nat) (e : Int) : Option Binary64 :=
  let x := Binary64.ofNat m
  if e < 0 then some (scaleDown x e.natAbs)
  else if e ≤ maxPow10 then
    let y := x.mul (pow10 e.toNat)
    if y.isInfinite then none else some y
  else if x.isZero then some x else none

/-- The largest exponent that is read digit by digit. -/
def maxExponent : Nat := twoPow 31 - 1

/-- The exponent that `ds` spell, unless it is beyond the largest. -/
def exponentOf (ds : List Nat) : Option Nat :=
  let e := ds.foldl (fun e d => min (e * 10 + d) (maxExponent + 1)) 0
  if maxExponent < e then none else some e

/-- The absolute value of a numeral as a floating point number. -/
def magnitude (n : Numeral) : Option Binary64 :=
  let (m, dropped) := takeWhole 0 n.whole
  let (m, taken) := takeFraction m (n.fraction.getD [])
  let e : Int := (dropped : Int) - (taken : Int)
  match n.exponent with
  | none => scaled m e
  | some (negative, ds) =>
    match exponentOf ds with
    | some x => scaled m (if negative then e - x else e + x)
    | none => if m = 0 ∨ negative then some (.zero false) else none

/-- The number of a numeral, unless it is out of range. A zero with a minus sign, and an integer
that does not fit 64 bits, are floating point numbers. -/
def value? (n : Numeral) : Option Json.Number :=
  let float := n.magnitude.map fun x => .float (if n.negative then x.neg else x)
  match n.fraction, n.exponent with
  | none, none =>
    let (m, dropped) := takeWhole 0 n.whole
    if dropped ≠ 0 then float
    else if !n.negative then some (.int m)
    else if 1 ≤ m ∧ m ≤ twoPow 63 then some (.int (-m))
    else float
  | _, _ => float

end Numeral

end PeerLink.Json
