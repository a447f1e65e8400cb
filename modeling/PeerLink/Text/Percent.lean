import PeerLink.Text.Utf8
/-!
# Percent encoding

Texts inside addresses: every byte but a letter or digit of ASCII and `-`, `_`, `.`, `~` is written
as a percent sign and two hexadecimal digits.

## Main definitions

* `Percent.encode`: a text inside an address.
* `Percent.decode?`: the text of what is written so.
-/

namespace PeerLink.Text.Percent

open Utf8

/-- Whether a byte is written as the character itself. -/
def isPlain (b : UInt8) : Bool :=
  let n := b.toNat
  (48 ≤ n && n ≤ 57) || (65 ≤ n && n ≤ 90) || (97 ≤ n && n ≤ 122) ||
    n == 45 || n == 46 || n == 95 || n == 126

/-- The upper-case digit of a number below 16. -/
def digit (n : Nat) : Char :=
  if n < 10 then Char.ofNat (48 + n) else Char.ofNat (55 + n)

/-- How a byte is written. -/
def encodeByte (b : UInt8) : List Char :=
  if isPlain b then [Char.ofNat b.toNat]
  else ['%', digit (b.toNat / 16), digit (b.toNat % 16)]

/-- A text inside an address. -/
def encode (s : String) : String :=
  String.ofList ((Utf8.encode s).flatMap encodeByte)

/-- The value of an upper-case digit. -/
def digitValue? (c : Char) : Option Nat :=
  let n := c.toNat
  if 48 ≤ n ∧ n ≤ 57 then some (n - 48)
  else if 65 ≤ n ∧ n ≤ 70 then some (n - 55)
  else none

/-- The bytes of what is written in an address. -/
def decodeBytes? : List Char → Option Bytes
  | [] => some []
  | '%' :: a :: b :: cs => do
    return UInt8.ofNat ((← digitValue? a) * 16 + (← digitValue? b)) :: (← decodeBytes? cs)
  | c :: cs => do
    if c = '%' ∨ 128 ≤ c.toNat then none
    return UInt8.ofNat c.toNat :: (← decodeBytes? cs)

/-- The text of what is written in an address. -/
def decode? (s : String) : Option String :=
  (decodeBytes? s.toList).bind Utf8.decode?

end PeerLink.Text.Percent
