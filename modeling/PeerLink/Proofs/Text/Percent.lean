import PeerLink.Proofs.Text.Utf8
import PeerLink.Text.Percent
/-!
# Percent-encoding

Decoding an encoded text gives back the text, and an encoded text contains no separator of an
address.

## Main statements

* `decode?_encode`: decoding is a left inverse of encoding.
* `encode_injective`: encoding is injective.
* `not_mem_encode`: an encoded text contains no separator.
-/

namespace PeerLink.Text.Percent

open Utf8

/-- The separators of an address. -/
def separators : List Char := ['/', '?', '#', '&', '=']

/-! ## A byte -/

theorem digitValue?_digit : ∀ n < 16, digitValue? (digit n) = some n := by
  decide

theorem digit_not_mem_separators : ∀ n < 16, digit n ∉ separators := by
  decide

/-- A plain byte is neither that of a separator nor that of `%`. -/
theorem range_of_isPlain {b : UInt8} (h : isPlain b) :
    b.toNat < 128 ∧ b.toNat ∉ ('%' :: separators).map Char.toNat := by
  have hnums : ('%' :: separators).map Char.toNat = [37, 47, 63, 35, 38, 61] := rfl
  rw [hnums]
  simp only [isPlain, Bool.or_eq_true, Bool.and_eq_true, decide_eq_true_eq, beq_iff_eq] at h
  simp only [List.mem_cons, List.not_mem_nil, or_false]
  omega

/-- The code of the character of a plain byte is the byte. -/
theorem toNat_of_isPlain {b : UInt8} (h : isPlain b) : (Char.ofNat b.toNat).toNat = b.toNat := by
  have hvalid : b.toNat.isValidChar := .inl (by have := (range_of_isPlain h).1; omega)
  rw [Char.ofNat, dif_pos hvalid]
  rfl

/-- The character of a plain byte is neither a separator nor `%`. -/
theorem not_mem_of_isPlain {b : UInt8} (h : isPlain b) :
    Char.ofNat b.toNat ∉ '%' :: separators := by
  intro hmem
  have hnum := List.mem_map_of_mem hmem (f := Char.toNat)
  rw [toNat_of_isPlain h] at hnum
  exact (range_of_isPlain h).2 hnum

theorem separators_not_mem_encodeByte (b : UInt8) {c : Char} (hc : c ∈ separators) :
    c ∉ encodeByte b := by
  have hlt : b.toNat < 256 := b.toNat_lt
  intro hmem
  unfold encodeByte at hmem
  split at hmem
  next hplain =>
    rw [List.mem_singleton.1 hmem] at hc
    exact not_mem_of_isPlain hplain (List.mem_cons_of_mem _ hc)
  next =>
    simp only [List.mem_cons, List.not_mem_nil, or_false] at hmem
    obtain rfl | rfl | rfl := hmem
    · exact absurd hc (by decide)
    · exact digit_not_mem_separators _ (by omega) hc
    · exact digit_not_mem_separators _ (by omega) hc

/-- An ASCII character other than `%` is decoded to its code. -/
theorem decodeBytes?_cons {c : Char} (hne : c ≠ '%') (hascii : c.toNat < 128) (cs : List Char) :
    decodeBytes? (c :: cs) = (decodeBytes? cs).map (UInt8.ofNat c.toNat :: ·) := by
  rw [decodeBytes?.eq_3 _ _ fun _ _ _ h => absurd h hne]
  simp only [hne, Nat.not_le.2 hascii, or_self, if_false]
  exact Option.map_eq_bind.symm

/-- Decoding an encoded byte gives back the byte. -/
theorem decodeBytes?_encodeByte (b : UInt8) (cs : List Char) :
    decodeBytes? (encodeByte b ++ cs) = (decodeBytes? cs).map (b :: ·) := by
  have hlt : b.toNat < 256 := b.toNat_lt
  unfold encodeByte
  split
  next hplain =>
    have hne : Char.ofNat b.toNat ≠ '%' :=
      fun h => not_mem_of_isPlain hplain (h ▸ List.mem_cons_self)
    have hascii : (Char.ofNat b.toNat).toNat < 128 := by
      rw [toNat_of_isPlain hplain]
      exact (range_of_isPlain hplain).1
    rw [List.singleton_append, decodeBytes?_cons hne hascii, toNat_of_isPlain hplain,
      UInt8.ofNat_toNat]
  next =>
    have hbyte : UInt8.ofNat (b.toNat / 16 * 16 + b.toNat % 16) = b := by
      rw [Nat.div_add_mod', UInt8.ofNat_toNat]
    simp only [List.cons_append, List.nil_append, decodeBytes?]
    rw [digitValue?_digit _ (by omega), digitValue?_digit _ (by omega)]
    simp only [Option.bind_eq_bind, Option.bind_some, hbyte]
    exact Option.map_eq_bind.symm

/-! ## Texts -/

theorem decodeBytes?_flatMap (bs : Bytes) : decodeBytes? (bs.flatMap encodeByte) = some bs := by
  induction bs with
  | nil => rfl
  | cons b bs ih => rw [List.flatMap_cons, decodeBytes?_encodeByte, ih, Option.map_some]

/-- Decoding an encoded text gives back the text. -/
theorem decode?_encode (s : String) : decode? (encode s) = some s := by
  rw [decode?, encode, String.toList_ofList, decodeBytes?_flatMap, Option.bind_some,
    Utf8.decode?_encode]

theorem encode_injective : Function.Injective encode := fun s t h =>
  Option.some.inj (by rw [← decode?_encode s, h, decode?_encode])

/-- An encoded text contains no separator. -/
theorem not_mem_encode {c : Char} (h : c ∈ separators) (s : String) : c ∉ (encode s).toList := by
  rw [encode, String.toList_ofList, List.mem_flatMap]
  rintro ⟨b, -, hb⟩
  exact separators_not_mem_encodeByte b h hb

end PeerLink.Text.Percent
