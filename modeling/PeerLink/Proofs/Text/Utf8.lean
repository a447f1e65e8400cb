import Mathlib.Data.List.Basic
import PeerLink.Text.Utf8
/-!
# Decoding of encoded text

Decoding the UTF-8 bytes of a text gives back the text. The conditions on lead bytes are checked for
each of them. The rest is arithmetic on the six bits of a continuation byte.

## Main statements

* `decodeLossy_encode`, `decode?_encode`: decoding is a left inverse of encoding.
* `length_encode`: the number of bytes.
* `mem_of_mem_encode`: a byte below 128 is that of its character.
-/

namespace PeerLink.Text.Utf8

/-! ## Lead bytes -/

theorem ofLead_two : ∀ n < 32, 2 ≤ n →
    Started.ofLead (UInt8.ofNat (n + 0xC0)) = some ⟨n, 0x80, 0xBF, 1⟩ := by
  decide

theorem ofLead_three : ∀ n < 16, Started.ofLead (UInt8.ofNat (n + 0xE0)) =
    some ⟨n, if n = 0 then 0xA0 else 0x80, if n = 13 then 0x9F else 0xBF, 2⟩ := by
  decide

theorem ofLead_four : ∀ n < 5, Started.ofLead (UInt8.ofNat (n + 0xF0)) =
    some ⟨n, if n = 0 then 0x90 else 0x80, if n = 4 then 0x8F else 0xBF, 3⟩ := by
  decide

theorem toNat_ofNat_of_lt {n : Nat} (h : n < 256) : (UInt8.ofNat n).toNat = n := by
  simp [Nat.mod_eq_of_lt h]

namespace Reading

variable {done : List (Option Char)}

theorem step_lead {n : Nat} {s : Started} (hn : 128 ≤ n) (hlt : n < 256)
    (hs : Started.ofLead (UInt8.ofNat n) = some s) :
    step ⟨done, none⟩ (UInt8.ofNat n) = ⟨done, some s⟩ := by
  have hb : ¬UInt8.ofNat n < 0x80 := by
    rw [UInt8.lt_iff_toNat_lt, toNat_ofNat_of_lt hlt]
    exact Nat.not_lt.2 hn
  simp only [step, begin, if_neg hb, hs]

/-- A continuation byte within the bounds of its lead byte. -/
theorem step_more {m : Nat} {s : Started} (hm : m < 64) (hlow : s.low.toNat ≤ m + 128)
    (hhigh : m + 128 ≤ s.high.toNat) :
    step ⟨done, some s⟩ (UInt8.ofNat (m + 0x80)) =
      if s.more ≤ 1 then ⟨some (Char.ofNat (s.bits * 64 + m)) :: done, none⟩
      else ⟨done, some ⟨s.bits * 64 + m, 0x80, 0xBF, s.more - 1⟩⟩ := by
  have hb : (UInt8.ofNat (m + 0x80)).toNat = m + 128 := toNat_ofNat_of_lt (by omega)
  have hin : s.low ≤ UInt8.ofNat (m + 0x80) ∧ UInt8.ofNat (m + 0x80) ≤ s.high := by
    rw [UInt8.le_iff_toNat_le, UInt8.le_iff_toNat_le, hb]
    exact ⟨hlow, hhigh⟩
  have hbits : (UInt8.ofNat (m + 0x80)).toNat % 64 = m := by omega
  simp only [step, if_pos hin, hbits]

theorem step_next {m bits more : Nat} (hm : m < 64) :
    step ⟨done, some ⟨bits, 0x80, 0xBF, more⟩⟩ (UInt8.ofNat (m + 0x80)) =
      if more ≤ 1 then ⟨some (Char.ofNat (bits * 64 + m)) :: done, none⟩
      else ⟨done, some ⟨bits * 64 + m, 0x80, 0xBF, more - 1⟩⟩ :=
  step_more hm (by simp) (by simp; omega)

section Bytes

variable {v : Nat}

theorem foldl_step_one (h : v < 128) :
    [UInt8.ofNat v].foldl step ⟨done, none⟩ = ⟨some (Char.ofNat v) :: done, none⟩ := by
  have hb : UInt8.ofNat v < 0x80 := by
    rw [UInt8.lt_iff_toNat_lt, toNat_ofNat_of_lt (by omega)]
    exact h
  simp only [List.foldl_cons, List.foldl_nil, step, begin, if_pos hb]
  rw [toNat_ofNat_of_lt (by omega)]

theorem foldl_step_two (hlow : 128 ≤ v) (hhigh : v < 2048) :
    [UInt8.ofNat (v / 64 % 32 + 0xC0), UInt8.ofNat (v % 64 + 0x80)].foldl step ⟨done, none⟩ =
      ⟨some (Char.ofNat v) :: done, none⟩ := by
  have hs := ofLead_two (v / 64 % 32) (by omega) (by omega)
  have hv : v / 64 % 32 * 64 + v % 64 = v := by omega
  simp only [List.foldl_cons, List.foldl_nil]
  rw [step_lead (by omega) (by omega) hs, step_next (by omega), if_pos (by decide), hv]

/-- The lead bytes E0 and ED exclude overlong forms and the surrogates. -/
theorem foldl_step_three (hlow : 2048 ≤ v) (hhigh : v < 65536) (h : v < 0xD800 ∨ 0xDFFF < v) :
    [UInt8.ofNat (v / 4096 % 16 + 0xE0), UInt8.ofNat (v / 64 % 64 + 0x80),
        UInt8.ofNat (v % 64 + 0x80)].foldl step ⟨done, none⟩ =
      ⟨some (Char.ofNat v) :: done, none⟩ := by
  have hs := ofLead_three (v / 4096 % 16) (by omega)
  have hv : (v / 4096 % 16 * 64 + v / 64 % 64) * 64 + v % 64 = v := by omega
  simp only [List.foldl_cons, List.foldl_nil]
  rw [step_lead (by omega) (by omega) hs, step_more (by omega) ?_ ?_, if_neg (by simp)]
  · simp only [Nat.reduceSub]
    rw [step_next (by omega), if_pos (by decide), hv]
  · dsimp only
    split
    · simp only [UInt8.reduceToNat]; omega
    · simp only [UInt8.reduceToNat]; omega
  · dsimp only
    split
    · simp only [UInt8.reduceToNat]; omega
    · simp only [UInt8.reduceToNat]; omega

/-- The lead bytes F0 and F4 exclude overlong forms and numbers above the last code point. -/
theorem foldl_step_four (hlow : 65536 ≤ v) (hhigh : v < 0x110000) :
    [UInt8.ofNat (v / 262144 % 8 + 0xF0), UInt8.ofNat (v / 4096 % 64 + 0x80),
        UInt8.ofNat (v / 64 % 64 + 0x80), UInt8.ofNat (v % 64 + 0x80)].foldl step ⟨done, none⟩ =
      ⟨some (Char.ofNat v) :: done, none⟩ := by
  have hs := ofLead_four (v / 262144 % 8) (by omega)
  have hv : ((v / 262144 % 8 * 64 + v / 4096 % 64) * 64 + v / 64 % 64) * 64 + v % 64 = v := by
    omega
  simp only [List.foldl_cons, List.foldl_nil]
  rw [step_lead (by omega) (by omega) hs, step_more (by omega) ?_ ?_, if_neg (by simp)]
  · simp only [Nat.reduceSub]
    rw [step_next (by omega), if_neg (by decide)]
    simp only [Nat.reduceSub]
    rw [step_next (by omega), if_pos (by decide), hv]
  · dsimp only
    split
    · simp only [UInt8.reduceToNat]; omega
    · simp only [UInt8.reduceToNat]; omega
  · dsimp only
    split
    · simp only [UInt8.reduceToNat]; omega
    · simp only [UInt8.reduceToNat]; omega

end Bytes

/-- The bytes of a character are decoded to the character. -/
theorem foldl_step_utf8EncodeChar (c : Char) :
    (String.utf8EncodeChar c).foldl step ⟨done, none⟩ = ⟨some c :: done, none⟩ := by
  have hc : Char.ofNat c.val.toNat = c := Char.ofNat_toNat c
  have hvalid : c.val.toNat < 0xD800 ∨ 0xDFFF < c.val.toNat ∧ c.val.toNat < 0x110000 := c.valid
  unfold String.utf8EncodeChar
  generalize c.val.toNat = v at hc hvalid ⊢
  subst hc
  dsimp only
  split
  · exact foldl_step_one (by omega)
  split
  · exact foldl_step_two (by omega) (by omega)
  split
  · exact foldl_step_three (by omega) (by omega) (by omega)
  · exact foldl_step_four (by omega) (by omega)

theorem foldl_step_encode (cs : List Char) (done : List (Option Char)) :
    (cs.flatMap String.utf8EncodeChar).foldl step ⟨done, none⟩ =
      ⟨(cs.map some).reverse ++ done, none⟩ := by
  induction cs generalizing done with
  | nil => rfl
  | cons c cs ih =>
    rw [List.flatMap_cons, List.foldl_append, foldl_step_utf8EncodeChar, ih]
    simp

end Reading

/-! ## Texts -/

theorem chars_encode (s : String) : chars (encode s) = s.toList.map some := by
  unfold chars encode
  rw [Reading.foldl_step_encode]
  simp [Reading.result]

theorem decodeLossy_encode (s : String) : decodeLossy (encode s) = s := by
  rw [decodeLossy, chars_encode, List.map_map]
  simp [Function.comp_def]

theorem decode?_encode (s : String) : decode? (encode s) = some s := by
  have hall (cs : List Char) : (cs.map some).mapM id = some cs := by
    induction cs with
    | nil => rfl
    | cons c cs ih => simp [ih]
  rw [decode?, chars_encode, hall, Option.map_some, String.ofList_toList]

theorem encode_append (s t : String) : encode (s ++ t) = encode s ++ encode t := by
  simp [encode]

theorem length_encode (s : String) : (encode s).length = s.utf8ByteSize := by
  rw [← String.size_toByteArray, ← String.utf8Encode_toList]
  exact List.size_toByteArray.symm

theorem mem_utf8EncodeChar {c : Char} {b : UInt8} (hb : b < 0x80)
    (h : b ∈ String.utf8EncodeChar c) : Char.ofNat b.toNat = c := by
  have hc : Char.ofNat c.val.toNat = c := Char.ofNat_toNat c
  rw [UInt8.lt_iff_toNat_lt] at hb
  have hb : b.toNat < 128 := hb
  unfold String.utf8EncodeChar at h
  generalize c.val.toNat = v at hc h
  dsimp only at h
  have hhigh {n : Nat} (hn : 128 ≤ n) (hlt : n < 256) : b ≠ UInt8.ofNat n := fun he => by
    rw [he, toNat_ofNat_of_lt hlt] at hb
    omega
  split at h
  next hv =>
    rw [List.mem_singleton.1 h, toNat_ofNat_of_lt (by omega), hc]
  -- all bytes of a longer character are above 127
  split at h
  · simp only [List.mem_cons, List.not_mem_nil, or_false] at h
    rcases h with h | h <;> exact absurd h (hhigh (by omega) (by omega))
  split at h
  · simp only [List.mem_cons, List.not_mem_nil, or_false] at h
    rcases h with h | h | h <;> exact absurd h (hhigh (by omega) (by omega))
  · simp only [List.mem_cons, List.not_mem_nil, or_false] at h
    rcases h with h | h | h | h <;> exact absurd h (hhigh (by omega) (by omega))

/-- A byte below 128 is that of its character. -/
theorem mem_of_mem_encode {s : String} {b : UInt8} (hb : b < 0x80) (h : b ∈ encode s) :
    Char.ofNat b.toNat ∈ s.toList := by
  obtain ⟨c, hc, hm⟩ := List.mem_flatMap.1 h
  exact mem_utf8EncodeChar hb hm ▸ hc

/-- If the last byte is below 128, it is that of the last character. -/
theorem getLast?_of_getLast?_encode {s : String} {b : UInt8} (hb : b < 0x80)
    (h : (encode s).getLast? = some b) : s.toList.getLast? = some (Char.ofNat b.toNat) := by
  unfold encode at h
  rcases List.eq_nil_or_concat s.toList with hnil | ⟨cs, c, hcs⟩
  · simp [hnil] at h
  · rw [hcs, List.concat_eq_append, List.flatMap_append, List.flatMap_singleton,
      List.getLast?_append_of_ne_nil _ (by simp)] at h
    rw [hcs, List.concat_eq_append, List.getLast?_concat,
      mem_utf8EncodeChar hb (List.mem_of_getLast? h)]

end PeerLink.Text.Utf8
