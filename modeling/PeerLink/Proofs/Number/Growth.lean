import PeerLink.Proofs.Number.Rounding
import PeerLink.Span
/-!
# Growing a span

A span is grown through floating point seconds, with five roundings and a final rounding to
nanoseconds. Each of these is monotone, and so is growing. A span can exceed its rounded seconds,
but it is less than the next number of the format. A factor above one gives at least this number, so
the span does not shrink. A factor of one can give one nanosecond less, if more than half a
nanosecond is lost.

## Main definitions

* `Span.secs`: the rounded seconds of a span.
* `Span.grownNanos`: the nanoseconds of a grown span.

## Main statements

* `Span.grow?_eq`: growing as a function of rational numbers.
* `Span.secs_mono`, `Span.grownNanos_mono`: monotonicity in the span and in the factor.
* `Span.le_grownNanos_of_one_lt`: a span does not shrink by a factor above one.
* `Span.le_grownNanos_of_lt`: a short span does not shrink by a factor of one.
-/

namespace PeerLink

open Number Binary64

namespace Span

/-- The seconds of a number of nanoseconds. The whole seconds and the fraction are rounded, and then
their sum. -/
def secs (nanos : Nat) : ℚ :=
  rounded (rounded (nanos / second : Nat) + rounded ((nanos % second : Nat) / second))

theorem reads_seconds (d : Span) : Reads d.seconds (secs d.nanos) := by
  have hsecond : Reads (ofNat second) second := by
    have h := reads_ofNat second
    rwa [(representable_natCast (by decide)).rounded_eq] at h
  have hpart : Reads (ofNat (d.nanos % second)) (d.nanos % second : Nat) := by
    have h := reads_ofNat (d.nanos % second)
    have hlt := Nat.mod_lt d.nanos (show 0 < second by decide)
    rwa [(representable_natCast (hlt.le.trans (by decide))).rounded_eq] at h
  have hsmall (n : Nat) (hn : n ≤ 2 ^ 53) : (n : ℚ) < 2 ^ (1024 : ℤ) := by
    calc (n : ℚ) ≤ 2 ^ 53 := by exact_mod_cast hn
      _ = 2 ^ (53 : ℤ) := by norm_cast
      _ < 2 ^ (1024 : ℤ) := zpow_lt_zpow_right₀ (by norm_num) (by norm_num)
  have hlt := Nat.mod_lt d.nanos (show 0 < second by decide)
  have hquot := hpart.div hsecond (hsmall _ (hlt.le.trans (by decide))) (hsmall _ (by decide))
    (by norm_num [second])
  exact (reads_ofNat _).add hquot (rounded_nonneg _) (rounded_nonneg _)

/-- `ofSeconds?` gives the nearest number of nanoseconds, if it is within the range. -/
theorem ofSeconds?_eq {x : Binary64} {q : ℚ} (h : Reads x q) :
    ofSeconds? x = if nearest (q * second) < limit * second then some ⟨nearest (q * second)⟩
      else none := by
  match x, h with
  | .finite false m e, ⟨hm, _⟩ =>
    have hnear := scale_eq_nearest (m * second) one_pos e
    have hprod : ((m * second : Nat) : ℚ) / (1 : Nat) * 2 ^ e = q * second := by
      rw [← hm]
      push_cast
      ring
    rw [hprod] at hnear
    rw [← hnear]
    rfl
  | .infinite false, hq =>
    have hlarge : limit * second ≤ nearest (q * second) := by
      have hle : ((limit * second : Nat) : ℚ) ≤ q * second := by
        rw [Nat.cast_mul]
        refine mul_le_mul_of_nonneg_right (le_trans ?_ hq) (Nat.cast_nonneg _)
        calc (limit : ℚ) = 2 ^ (64 : ℤ) := by norm_num [limit, twoPow]
          _ ≤ 2 ^ (1024 : ℤ) := zpow_le_zpow_right₀ (by norm_num) (by norm_num)
      have h := nearest_mono (Nat.cast_nonneg _) hle
      rwa [nearest_natCast] at h
    rw [if_neg (not_lt.2 hlarge)]
    rfl

/-- The nanoseconds of a span that is grown by a factor. -/
def grownNanos (factor : ℚ) (nanos : Nat) : Nat := nearest (rounded (factor * secs nanos) * second)

/-- Growing by a factor of at least one as a function of rational numbers. -/
theorem grow?_eq (d : Span) {m : Nat} {e : ℤ} (hf : 1 ≤ (m : ℚ) * 2 ^ e) :
    d.grow? (.finite false m e) = if grownNanos (m * 2 ^ e) d.nanos < limit * second
      then some ⟨grownNanos (m * 2 ^ e) d.nanos⟩ else none :=
  ofSeconds?_eq (Reads.mul hf d.reads_seconds)

/-! ## Monotonicity -/

/-- The rounded fraction is less than one second. -/
theorem rounded_part_lt (n : Nat) : rounded ((n % second : Nat) / second) < 1 := by
  have hlt : n % second < second := Nat.mod_lt n (by decide)
  have hpart : ((n % second : Nat) : ℚ) / second ≤ (2 ^ 53 - 1 : Nat) * 2 ^ (-53 : ℤ) := by
    have hle : ((n % second : Nat) : ℚ) ≤ 999999999 := by
      exact_mod_cast (show n % second ≤ 999999999 by unfold second at hlt ⊢; omega)
    rw [div_le_iff₀ (by norm_num [second])]
    exact hle.trans (by norm_num [second])
  have hrep : Representable ((2 ^ 53 - 1 : Nat) * 2 ^ (-53 : ℤ)) :=
    representable_of_le (by norm_num) (by decide)
  calc rounded ((n % second : Nat) / second) ≤ (2 ^ 53 - 1 : Nat) * 2 ^ (-53 : ℤ) :=
        hrep.rounded_le (by positivity) hpart
    _ < 1 := by norm_num

/-- The rounded seconds of a span below `k` seconds are at most the rounded `k`. -/
theorem secs_le_of_lt {n k : Nat} (h : n / second < k) : secs n ≤ rounded k := by
  have hpart := rounded_part_lt n
  have hpos := rounded_nonneg ((n % second : Nat) / second)
  rw [secs]
  generalize rounded ((n % second : Nat) / second) = part at hpart hpos ⊢
  generalize n / second = s at h ⊢
  have hk : (s : ℚ) + 1 ≤ k := by exact_mod_cast h
  rcases Nat.le_total s (2 ^ 53) with hs | hs
  · rw [(representable_natCast hs).rounded_eq]
    exact rounded_mono (by positivity) (by linarith)
  · have hs : (2 : ℚ) ^ ((53 : ℕ) : ℤ) ≤ s := by
      rw [zpow_natCast]
      exact_mod_cast hs
    have hs0 : (0 : ℚ) < s := (two_zpow_pos 53).trans_le hs
    have hlog : 53 ≤ Int.log 2 (s : ℚ) := (Int.zpow_le_iff_le_log one_lt_two hs0).1 hs
    have hgrid : 1 ≤ grid s := le_max_of_le_left (by omega)
    obtain ⟨m, e, he, hlow, hhigh, heq⟩ := exists_significand hs0 (lt_of_lt_of_le (by decide) hgrid)
    have hhalf : (1 : ℚ) ≤ 2 ^ e / 2 := by
      have hpow := zpow_le_zpow_right₀ (one_le_two (α := ℚ)) (hgrid.trans he)
      norm_num at hpow
      linarith
    rw [heq, rounded_add_of_lt hlow hhigh (le_trans (by decide) (hgrid.trans he)) hpos
      (hpart.trans_le hhalf), ← heq]
    exact rounded_mono hs0.le (by linarith)

theorem secs_mono {n n' : Nat} (h : n ≤ n') : secs n ≤ secs n' := by
  have hnonneg (n : Nat) : 0 ≤ (rounded (n : ℚ)) := rounded_nonneg _
  rcases (Nat.div_le_div_right (c := second) h).lt_or_eq with hlt | heq
  · calc secs n ≤ rounded (n' / second : Nat) := secs_le_of_lt hlt
      _ = rounded (rounded (n' / second : Nat)) := (rounded_rounded (Nat.cast_nonneg _)).symm
      _ ≤ secs n' := rounded_mono (rounded_nonneg _) (le_add_of_nonneg_right (rounded_nonneg _))
  · have hmod : n % second ≤ n' % second := by
      have hdiv := Nat.div_add_mod n second
      have hdiv' := Nat.div_add_mod n' second
      rw [heq] at hdiv
      omega
    have hmod : ((n % second : Nat) : ℚ) / second ≤ (n' % second : Nat) / second := by gcongr
    rw [secs, secs, heq]
    refine rounded_mono (add_nonneg (rounded_nonneg _) (rounded_nonneg _)) ?_
    gcongr
    exact rounded_mono (by positivity) hmod

theorem grownNanos_mono {f f' : ℚ} {n n' : Nat} (hf : 0 ≤ f) (h : f ≤ f') (hn : n ≤ n') :
    grownNanos f n ≤ grownNanos f' n' := by
  have hsecs (n : Nat) : 0 ≤ secs n := rounded_nonneg _
  have hprod : f * secs n ≤ f' * secs n' :=
    mul_le_mul h (secs_mono hn) (hsecs n) (hf.trans h)
  refine nearest_mono (mul_nonneg (rounded_nonneg _) (Nat.cast_nonneg _)) ?_
  have hrounded := rounded_mono (mul_nonneg hf (hsecs n)) hprod
  exact mul_le_mul_of_nonneg_right hrounded (Nat.cast_nonneg _)

/-! ## Losses -/

theorem part_lt_one (n : Nat) : ((n % second : Nat) : ℚ) / second < 1 := by
  rw [div_lt_one (by norm_num [second])]
  exact_mod_cast Nat.mod_lt n (show 0 < second by decide)

theorem div_second (n : Nat) :
    (n : ℚ) / second = (n / second : Nat) + ((n % second : Nat) : ℚ) / second := by
  have hsecond : (second : ℚ) ≠ 0 := by norm_num [second]
  have hdiv : ((n / second : Nat) : ℚ) * second + (n % second : Nat) = n := by
    exact_mod_cast Nat.div_add_mod' n second
  rw [← hdiv, add_div, mul_div_cancel_right₀ _ hsecond]

/-- The fractional part of a number of the format is a number of the format. -/
theorem representable_sub_natCast {z : ℚ} (hz : Representable z) {s : Nat} (hlow : s < z)
    (hhigh : z < s + 1) : Representable s ∧ Representable (z - s) := by
  obtain ⟨m, e, hm, he, rfl⟩ := hz
  rcases le_or_gt 0 e with hint | hneg
  · -- a whole number does not lie between two neighbours
    obtain ⟨k, rfl⟩ := Int.eq_ofNat_of_zero_le hint
    have hlow : s < m * 2 ^ k := by exact_mod_cast hlow
    have hhigh : m * 2 ^ k < s + 1 := by exact_mod_cast hhigh
    omega
  · obtain ⟨k, hk⟩ : ∃ k : Nat, e = -k := ⟨(-e).toNat, by omega⟩
    have hpow : (2 : ℚ) ^ e = (2 ^ k)⁻¹ := by rw [hk, zpow_neg, zpow_natCast]
    rw [hpow, ← div_eq_mul_inv, lt_div_iff₀ (by positivity)] at hlow
    have hscaled : s * 2 ^ k < m := by exact_mod_cast hlow
    have hs : s ≤ s * 2 ^ k := Nat.le_mul_of_pos_right s (Nat.two_pow_pos k)
    refine ⟨representable_natCast (by omega), m - s * 2 ^ k, e, by omega, he, ?_⟩
    rw [Nat.cast_sub hscaled.le, hpow]
    push_cast
    field_simp

/-- A number of the format below the seconds is at most the rounded seconds. -/
theorem le_secs {n : Nat} {z : ℚ} (hz : Representable z) (h : z ≤ (n : ℚ) / second) :
    z ≤ secs n := by
  have hround := rounded_nonneg ((n % second : Nat) / second)
  have hlt := part_lt_one n
  rw [div_second] at h
  rw [secs]
  generalize ((n % second : Nat) : ℚ) / second = part at *
  generalize n / second = s at h ⊢
  rcases le_or_gt z s with hle | hgt
  · have hpos : 0 ≤ z := hz.nonneg
    have hwhole := hz.le_rounded hpos hle
    exact hz.le_rounded hpos (by linarith)
  · obtain ⟨hs, hrest⟩ := representable_sub_natCast hz hgt (by linarith)
    have hbelow := hrest.le_rounded (y := part) (by linarith) (by linarith)
    rw [hs.rounded_eq]
    exact hz.le_rounded hz.nonneg (by linarith)

theorem representable_secs (n : Nat) : Representable (secs n) :=
  representable_rounded (add_nonneg (rounded_nonneg _) (rounded_nonneg _))

/-- The rounded seconds of a positive span have a full significand. -/
theorem exists_secs {n : Nat} (hn : 0 < n) :
    ∃ (k : Nat) (g : ℤ), minExponent ≤ g ∧ 2 ^ 52 ≤ k ∧ k < 2 ^ 53 ∧ secs n = k * 2 ^ g := by
  have hlow : (2 : ℚ) ^ (-30 : ℤ) ≤ secs n := by
    refine le_secs (representable_two_zpow (by decide)) ?_
    have hone : (1 : ℚ) ≤ n := by exact_mod_cast hn
    rw [le_div_iff₀ (by norm_num [second])]
    exact le_trans (by norm_num [second]) hone
  have hgrid : minExponent < grid (secs n) := by
    refine lt_of_lt_of_le ?_ (grid_mono (two_zpow_pos _) hlow)
    have hlog : Int.log 2 ((2 : ℚ) ^ (-30 : ℤ)) = -30 := log_two_eq le_rfl (by norm_num)
    rw [grid, hlog]
    decide
  obtain ⟨k, g, hg, hk, hk', heq⟩ := exists_significand ((two_zpow_pos _).trans_le hlow) hgrid
  rw [(representable_secs n).rounded_eq] at heq
  exact ⟨k, g, hgrid.le.trans hg, hk, hk', heq⟩

/-- A factor above one exceeds one by at least the unit of the format. -/
theorem add_le_of_one_lt {m : Nat} {e : ℤ} (hm : m < 2 ^ 53) (h : 1 < (m : ℚ) * 2 ^ e) :
    1 + 2 ^ (-52 : ℤ) ≤ (m : ℚ) * 2 ^ e := by
  rcases le_or_gt 0 e with hint | hneg
  · obtain ⟨k, rfl⟩ := Int.eq_ofNat_of_zero_le hint
    have h : 1 < m * 2 ^ k := by exact_mod_cast h
    have h : (2 : ℚ) ≤ m * 2 ^ k := by exact_mod_cast h
    rw [zpow_natCast]
    exact le_trans (by norm_num) h
  · obtain ⟨k, hk⟩ : ∃ k : Nat, e = -k := ⟨(-e).toNat, by omega⟩
    have hpow : (2 : ℚ) ^ e = (2 ^ k)⁻¹ := by rw [hk, zpow_neg, zpow_natCast]
    have hlt : 2 ^ k < m := by
      rw [hpow, ← div_eq_mul_inv, one_lt_div (by positivity)] at h
      exact_mod_cast h
    have hk52 : k ≤ 52 := by
      have := (Nat.pow_lt_pow_iff_right (a := 2) (by norm_num)).1 (hlt.trans hm)
      omega
    have hinv : (2 : ℚ) ^ (-52 : ℤ) ≤ 2 ^ e := zpow_le_zpow_right₀ (by norm_num) (by omega)
    have hsucc : ((2 : ℚ) ^ k + 1) * 2 ^ e ≤ m * 2 ^ e :=
      mul_le_mul_of_nonneg_right (by exact_mod_cast hlt) (two_zpow_pos e).le
    have hone : (2 : ℚ) ^ k * 2 ^ e = 1 := by rw [hpow]; field_simp
    linarith

/-- A factor above one gives at least the next number of the format, which exceeds the span. -/
theorem le_grownNanos_of_one_lt {m : Nat} {e : ℤ} (hm : m < 2 ^ 53) (h : 1 < (m : ℚ) * 2 ^ e)
    (n : Nat) : n ≤ grownNanos (m * 2 ^ e) n := by
  rcases Nat.eq_zero_or_pos n with rfl | hn
  · exact Nat.zero_le _
  obtain ⟨k, g, hg, hk, hk', hsecs⟩ := exists_secs hn
  have hpow := two_zpow_pos g
  have hnext : Representable ((k + 1 : Nat) * 2 ^ g) := representable_of_le (by omega) hg
  have hk : (2 : ℚ) ^ 52 ≤ k := by exact_mod_cast hk
  have hgain : ((k + 1 : Nat) : ℚ) * 2 ^ g ≤ m * 2 ^ e * secs n := by
    calc ((k + 1 : Nat) : ℚ) * 2 ^ g ≤ (1 + 2 ^ (-52 : ℤ)) * (k * 2 ^ g) := by
          rw [← mul_assoc]
          refine mul_le_mul_of_nonneg_right ?_ hpow.le
          push_cast
          norm_num
          linarith
      _ ≤ m * 2 ^ e * secs n := by
          rw [hsecs]
          exact mul_le_mul_of_nonneg_right (add_le_of_one_lt hm h) (by positivity)
  have hless : (n : ℚ) / second < (k + 1 : Nat) * 2 ^ g := by
    by_contra hge
    have hle := le_secs hnext (not_lt.1 hge)
    rw [hsecs] at hle
    push_cast at hle
    linarith
  have hup := hnext.le_rounded (by positivity) hgain
  have hsecond : (0 : ℚ) < second := by norm_num [second]
  have hnear := nearest_mono (Nat.cast_nonneg n) ((div_le_iff₀ hsecond).1 (hless.le.trans hup))
  rwa [nearest_natCast] at hnear

/-- Below `2 ^ 23` seconds less than half a nanosecond is lost. -/
theorem sub_half_lt_secs {n : Nat} (hn : n < 2 ^ 23 * second) :
    (n : ℚ) - 1 / 2 < secs n * second := by
  have hwhole : n / second < 2 ^ 23 := Nat.div_lt_of_lt_mul (by rwa [Nat.mul_comm] at hn)
  have hexact : Representable (n / second : Nat) := representable_natCast (by omega)
  have hnonneg : (0 : ℚ) ≤ ((n % second : Nat) : ℚ) / second := by positivity
  have hround := rounded_nonneg ((n % second : Nat) / second)
  have hpart : ((n % second : Nat) : ℚ) / second ≤
      rounded ((n % second : Nat) / second) + 2 ^ (-54 : ℤ) := by
    rcases hnonneg.eq_or_lt with hzero | hpos
    · rw [← hzero, rounded_zero]
      norm_num
    · have hgrid := grid_le_of_lt (e := -53) (by decide) hpos (by simpa using part_lt_one n)
      have hstep := zpow_le_zpow_right₀ (one_le_two (α := ℚ)) hgrid
      have hnear := le_rounded_add hpos.le
      norm_num at hstep hnear ⊢
      linarith
  have hsum : ((n / second : Nat) : ℚ) + rounded ((n % second : Nat) / second) ≤
      secs n + 2 ^ (-31 : ℤ) := by
    have hbelow := rounded_part_lt n
    have hlt : ((n / second : Nat) : ℚ) + 1 ≤ 2 ^ 23 := by exact_mod_cast hwhole
    rw [secs, hexact.rounded_eq]
    generalize rounded ((n % second : Nat) / second) = part at *
    have hs : 0 ≤ ((n / second : Nat) : ℚ) + part := by positivity
    rcases hs.eq_or_lt with hzero | hpos
    · rw [← hzero, rounded_zero]
      norm_num
    · have hgrid := grid_le_of_lt (e := -30) (by decide) hpos (by norm_num; linarith)
      have hstep := zpow_le_zpow_right₀ (one_le_two (α := ℚ)) hgrid
      have hnear := le_rounded_add hpos.le
      norm_num at hstep hnear ⊢
      linarith
  have hn : (n : ℚ) / second ≤ secs n + (2 ^ (-31 : ℤ) + 2 ^ (-54 : ℤ)) := by
    rw [div_second]
    linarith
  rw [div_le_iff₀ (by norm_num [second])] at hn
  norm_num [second] at hn ⊢
  linarith

/-- A span below `2 ^ 23` seconds does not shrink by a factor of at least one. -/
theorem le_grownNanos_of_lt {f : ℚ} (hf : 1 ≤ f) {n : Nat} (hn : n < 2 ^ 23 * second) :
    n ≤ grownNanos f n := by
  have hsecs : 0 ≤ secs n := rounded_nonneg _
  have hgain : secs n ≤ rounded (f * secs n) :=
    (representable_secs n).le_rounded hsecs (le_mul_of_one_le_left hsecs hf)
  have hlost := sub_half_lt_secs hn
  have hnear := (nearest_spec (mul_nonneg (rounded_nonneg (f * secs n)) (Nat.cast_nonneg second))).2
  have hsecond : secs n * second ≤ rounded (f * secs n) * second := by gcongr
  have hlt : (n : ℚ) < grownNanos f n + 1 := by
    rw [grownNanos]
    linarith
  have hlt : n < grownNanos f n + 1 := by exact_mod_cast hlt
  omega

end Span

end PeerLink
