import PeerLink.Number.Binary64
import Mathlib.Data.Int.Log
import Mathlib.Data.Rat.Floor
import Mathlib.Tactic.Linarith
import Mathlib.Tactic.Positivity
import Mathlib.Tactic.Ring
/-!
# Rounding as a function of rational numbers

Every operation of the format rounds the exact result once, so its result is a function of the exact
one. Rounding takes the nearest integer on a grid, which becomes coarser at each power of two. It is
monotone, since the powers of two are on the grids on both sides.

## Main definitions

* `nearest`: the integer nearest to a rational number, with ties to even.
* `grid`, `rounded`: the exponent of the grid at `x`, and the nearest number on it.
* `Representable`: the numbers on their own grid.
* `Reads`: a number of the format and the rational number that it represents, or infinity.

## Main statements

* `rounded_mono`: rounding is monotone.
* `ofRatio_eq`, `reads_ofRatio`: the rounded quotient.
* `Reads.add`, `Reads.mul`, `Reads.div`: arithmetic.
-/

namespace PeerLink.Number

/-! ## The nearest integer -/

/-- The rounded quotient is within a half of the quotient, and it is even at a tie. -/
theorem roundHalfEven_spec (a : Nat) {b : Nat} (hb : 0 < b) {r : Nat} (hr : r = roundHalfEven a b) :
    2 * (r * b) ≤ 2 * a + b ∧ 2 * a ≤ 2 * (r * b) + b ∧
      (2 * (r * b) = 2 * a + b → r % 2 = 0) ∧ (2 * a = 2 * (r * b) + b → r % 2 = 0) := by
  have hdiv := Nat.div_add_mod' a b
  have hmod := Nat.mod_lt a hb
  have hsucc : (a / b + 1) * b = a / b * b + b := Nat.succ_mul _ _
  dsimp only [roundHalfEven] at hr
  split at hr
  · subst hr; omega
  · split at hr
    · subst hr; omega
    · split at hr <;> subst hr <;> omega

/-- Rounding a quotient is monotone. -/
theorem roundHalfEven_mono {a b c d : Nat} (hb : 0 < b) (hd : 0 < d) (h : a * d ≤ c * b) :
    roundHalfEven a b ≤ roundHalfEven c d := by
  obtain ⟨hlow, -, htie, -⟩ := roundHalfEven_spec a hb rfl
  obtain ⟨-, hhigh, -, htie'⟩ := roundHalfEven_spec c hd rfl
  generalize roundHalfEven a b = r at *
  generalize roundHalfEven c d = r' at *
  by_contra hlt
  -- otherwise both quotients are the half between `r'` and `r`, and both integers are even
  have hlow : 2 * r * (b * d) ≤ 2 * (a * d) + b * d := by nlinarith
  have hhigh : 2 * (c * b) ≤ 2 * r' * (b * d) + b * d := by nlinarith
  have hbd : 0 < b * d := Nat.mul_pos hb hd
  have hr : r = r' + 1 := by nlinarith
  subst hr
  have hup : 2 * (c * b) = (2 * r' + 1) * (b * d) := by nlinarith
  have hdown : 2 * (a * d) = (2 * r' + 1) * (b * d) := by nlinarith
  have heven := htie (Nat.eq_of_mul_eq_mul_right hd (by linarith))
  have heven' := htie' (Nat.eq_of_mul_eq_mul_right hb (by linarith))
  omega

/-- The integer nearest to a nonnegative rational number, with ties to even. -/
def nearest (q : ℚ) : Nat := roundHalfEven q.num.toNat q.den

theorem num_mul_eq {a b : Nat} (hb : 0 < b) :
    ((a : ℚ) / b).num.toNat * b = a * ((a : ℚ) / b).den := by
  have hpos : (0 : ℚ) ≤ (a : ℚ) / b := by positivity
  have hnum : (((a : ℚ) / b).num.toNat : ℤ) = ((a : ℚ) / b).num :=
    Int.toNat_of_nonneg (Rat.num_nonneg.2 hpos)
  have hden : ((a : ℚ) / b).den ≠ 0 := Rat.den_nz _
  have heq : ((((a : ℚ) / b).num.toNat : ℤ) : ℚ) / ((a : ℚ) / b).den = (a : ℚ) / b := by
    rw [hnum, Rat.num_div_den]
  rw [div_eq_div_iff (by positivity) (by positivity)] at heq
  exact_mod_cast heq

theorem roundHalfEven_eq_nearest (a : Nat) {b : Nat} (hb : 0 < b) :
    roundHalfEven a b = nearest ((a : ℚ) / b) := by
  have h := num_mul_eq (a := a) hb
  have hden := ((a : ℚ) / b).den_pos
  exact Nat.le_antisymm (roundHalfEven_mono hb hden h.ge) (roundHalfEven_mono hden hb h.le)

theorem nearest_mono {p q : ℚ} (hp : 0 ≤ p) (h : p ≤ q) : nearest p ≤ nearest q := by
  refine roundHalfEven_mono p.den_pos q.den_pos ?_
  have hcross := (Rat.le_iff p q).1 h
  have hnum := Rat.num_nonneg.2 hp
  have hnum' := Rat.num_nonneg.2 (hp.trans h)
  zify
  rw [Int.toNat_of_nonneg hnum, Int.toNat_of_nonneg hnum']
  exact hcross

/-- `nearest q` is within a half of `q`. -/
theorem nearest_spec {q : ℚ} (hq : 0 ≤ q) :
    (nearest q : ℚ) ≤ q + 1 / 2 ∧ q ≤ nearest q + 1 / 2 := by
  obtain ⟨hlow, hhigh, -⟩ := roundHalfEven_spec q.num.toNat q.den_pos rfl
  have hnum : (q.num.toNat : ℚ) = q * q.den := by
    have hcast : ((q.num.toNat : ℤ) : ℚ) = (q.num : ℚ) := by
      rw [Int.toNat_of_nonneg (Rat.num_nonneg.2 hq)]
    rw [Rat.mul_den_eq_num, ← hcast]
    rfl
  have hden : (0 : ℚ) < q.den := by exact_mod_cast q.den_pos
  change 2 * (nearest q * q.den) ≤ _ at hlow
  change _ ≤ 2 * (nearest q * q.den) + _ at hhigh
  have hlow : (2 : ℚ) * (nearest q * q.den) ≤ 2 * q.num.toNat + q.den := by exact_mod_cast hlow
  have hhigh : (2 : ℚ) * q.num.toNat ≤ 2 * (nearest q * q.den) + q.den := by exact_mod_cast hhigh
  rw [hnum] at hlow hhigh
  constructor <;> nlinarith

/-- A number within less than a half of an integer is rounded to it. -/
theorem nearest_eq {q : ℚ} {n : Nat} (hq : 0 ≤ q) (hlow : (n : ℚ) - 1 / 2 < q)
    (hhigh : q < n + 1 / 2) : nearest q = n := by
  obtain ⟨h, h'⟩ := nearest_spec hq
  have hle : (nearest q : ℚ) < n + 1 := by linarith
  have hge : (n : ℚ) < nearest q + 1 := by linarith
  have hle : nearest q < n + 1 := by exact_mod_cast hle
  have hge : n < nearest q + 1 := by exact_mod_cast hge
  omega

@[simp] theorem nearest_natCast (n : Nat) : nearest n = n :=
  nearest_eq (Nat.cast_nonneg n) (by linarith) (by linarith)

/-! ## Quotients with a power of two -/

namespace Binary64

theorem scale_spec (num : Nat) {den : Nat} (hden : 0 < den) (shift : Int) :
    0 < (scale num den shift).2 ∧
      ((scale num den shift).1 : ℚ) / (scale num den shift).2 = num / den * 2 ^ shift := by
  have hpow (n : Nat) : (twoPow n : ℚ) = 2 ^ n := by simp [twoPow]
  have hpos (n : Nat) : 0 < twoPow n := Nat.two_pow_pos n
  unfold scale
  split
  next h =>
    refine ⟨hden, ?_⟩
    have hshift : (2 : ℚ) ^ shift = 2 ^ shift.toNat := by
      rw [← zpow_natCast, Int.toNat_of_nonneg h]
    push_cast
    rw [hpow, hshift]
    ring
  next h =>
    refine ⟨Nat.mul_pos hden (hpos _), ?_⟩
    have hshift : (2 : ℚ) ^ shift = (2 ^ (-shift).toNat)⁻¹ := by
      rw [← zpow_natCast, Int.toNat_of_nonneg (by omega), zpow_neg, inv_inv]
    push_cast
    rw [hpow, hshift]
    field_simp

theorem scale_eq_nearest (num : Nat) {den : Nat} (hden : 0 < den) (shift : Int) :
    roundHalfEven (scale num den shift).1 (scale num den shift).2 =
      nearest (num / den * 2 ^ shift) := by
  obtain ⟨hpos, heq⟩ := scale_spec num hden shift
  rw [roundHalfEven_eq_nearest _ hpos, heq]

/-- The binary logarithm of a number between two powers of two. -/
theorem log_two_eq {x : ℚ} {e : ℤ} (hlow : (2 : ℚ) ^ e ≤ x) (hhigh : x < 2 ^ (e + 1)) :
    Int.log 2 x = e := by
  have hx : 0 < x := (zpow_pos (by norm_num) e).trans_le hlow
  have hle := (Int.zpow_le_iff_le_log one_lt_two hx).1 (by exact_mod_cast hlow)
  have hlt := (Int.lt_zpow_iff_log_lt one_lt_two hx).1 (by exact_mod_cast hhigh)
  omega

theorem log2_bounds {n : Nat} (hn : n ≠ 0) :
    (2 : ℚ) ^ (n.log2 : ℤ) ≤ n ∧ (n : ℚ) < 2 ^ ((n.log2 : ℤ) + 1) := by
  have hlow := Nat.log2_self_le hn
  have hhigh := Nat.lt_log2_self (n := n)
  rw [← Nat.cast_succ, zpow_natCast, zpow_natCast]
  exact ⟨by exact_mod_cast hlow, by exact_mod_cast hhigh⟩

theorem floorLog2_eq {num den : Nat} (hnum : num ≠ 0) (hden : 0 < den) :
    floorLog2 num den = Int.log 2 ((num : ℚ) / den) := by
  obtain ⟨hnumlow, hnumhigh⟩ := log2_bounds hnum
  obtain ⟨hdenlow, hdenhigh⟩ := log2_bounds hden.ne'
  have hdenpos : (0 : ℚ) < den := by exact_mod_cast hden
  have hpow (e : ℤ) : (0 : ℚ) < 2 ^ e := zpow_pos (by norm_num) e
  have hadd (e f : ℤ) : (2 : ℚ) ^ (e + f) = 2 ^ e * 2 ^ f := zpow_add₀ (by norm_num) e f
  have hfloor : floorLog2 num den = if (2 : ℚ) ^ ((num.log2 : ℤ) - den.log2) ≤ num / den
      then (num.log2 : ℤ) - den.log2 else (num.log2 : ℤ) - den.log2 - 1 := by
    obtain ⟨hpos, heq⟩ := scale_spec num hden (-((num.log2 : ℤ) - den.log2))
    have hpos : (0 : ℚ) < (scale num den (-((num.log2 : ℤ) - den.log2))).2 := by exact_mod_cast hpos
    have hdef : floorLog2 num den = if (scale num den (-((num.log2 : ℤ) - den.log2))).2 ≤
        (scale num den (-((num.log2 : ℤ) - den.log2))).1
      then (num.log2 : ℤ) - den.log2 else (num.log2 : ℤ) - den.log2 - 1 := rfl
    rw [hdef]
    refine if_congr ?_ rfl rfl
    rw [← Nat.cast_le (α := ℚ), ← one_le_div hpos, heq, zpow_neg, ← div_eq_mul_inv,
      one_le_div (hpow _)]
  generalize hn : (num.log2 : ℤ) = n at *
  generalize hd : (den.log2 : ℤ) = d at *
  rw [hfloor]
  split
  next h =>
    refine (log_two_eq h ((div_lt_iff₀ hdenpos).2 ?_)).symm
    calc (num : ℚ) < 2 ^ (n + 1) := hnumhigh
      _ = 2 ^ (n - d + 1) * 2 ^ d := by rw [← hadd]; congr 1; ring
      _ ≤ 2 ^ (n - d + 1) * den := mul_le_mul_of_nonneg_left hdenlow (hpow _).le
  next h =>
    refine (log_two_eq ((le_div_iff₀ hdenpos).2 ?_) ?_).symm
    · calc (2 : ℚ) ^ (n - d - 1) * den ≤ 2 ^ (n - d - 1) * 2 ^ (d + 1) :=
          mul_le_mul_of_nonneg_left hdenhigh.le (hpow _).le
        _ = 2 ^ n := by rw [← hadd]; congr 1; ring
        _ ≤ num := hnumlow
    · rw [sub_add_cancel]
      exact not_le.1 h

/-! ## Rounding to the grid -/

/-- The exponent of the grid at `x`. -/
def grid (x : ℚ) : ℤ := max (Int.log 2 x - 52) minExponent

/-- The number on the grid nearest to `x`, with ties to even. There is no upper bound. -/
def rounded (x : ℚ) : ℚ := nearest (x / 2 ^ grid x) * 2 ^ grid x

/-- A number on its own grid. There is no upper bound. -/
def Representable (x : ℚ) : Prop :=
  ∃ (m : Nat) (e : ℤ), m < 2 ^ 53 ∧ minExponent ≤ e ∧ x = m * 2 ^ e

section

variable {x y : ℚ} {e : ℤ}

theorem two_zpow_pos (e : ℤ) : (0 : ℚ) < 2 ^ e := zpow_pos (by norm_num) e

theorem two_zpow_add (e f : ℤ) : (2 : ℚ) ^ (e + f) = 2 ^ e * 2 ^ f :=
  zpow_add₀ (by norm_num) e f

theorem div_grid_lt (x : ℚ) : x / 2 ^ grid x < 2 ^ 53 := by
  rw [div_lt_iff₀ (two_zpow_pos _)]
  have hgrid : Int.log 2 x + 1 ≤ 53 + grid x := by
    have := le_max_left (Int.log 2 x - 52) minExponent
    unfold grid
    omega
  calc x < 2 ^ (Int.log 2 x + 1) := by exact_mod_cast Int.lt_zpow_succ_log_self one_lt_two x
    _ ≤ 2 ^ (53 + grid x) := zpow_le_zpow_right₀ (by norm_num) hgrid
    _ = 2 ^ 53 * 2 ^ grid x := by rw [two_zpow_add]; norm_cast

/-- Above the smallest exponent the significand is full. -/
theorem le_div_grid (hx : 0 < x) (h : minExponent < grid x) : 2 ^ 52 ≤ x / 2 ^ grid x := by
  rw [le_div_iff₀ (two_zpow_pos _)]
  have hgrid : 52 + grid x = Int.log 2 x := by
    unfold grid at h ⊢
    omega
  calc (2 : ℚ) ^ 52 * 2 ^ grid x = 2 ^ (52 + grid x) := by rw [two_zpow_add]; norm_cast
    _ = 2 ^ Int.log 2 x := by rw [hgrid]
    _ ≤ x := by exact_mod_cast Int.zpow_log_le_self one_lt_two hx

theorem grid_mono (hx : 0 < x) (h : x ≤ y) : grid x ≤ grid y :=
  max_le_max_right _ (Int.sub_le_sub_right (Int.log_mono_right hx h) 52)

theorem minExponent_le_grid (x : ℚ) : minExponent ≤ grid x := le_max_right _ _

theorem nearest_grid_le (hx : 0 < x) : nearest (x / 2 ^ grid x) ≤ 2 ^ 53 := by
  have hpos : 0 ≤ x / 2 ^ grid x := (div_pos hx (two_zpow_pos _)).le
  have h := nearest_mono hpos (div_grid_lt x).le
  have hnat : nearest (2 ^ 53 : ℚ) = 2 ^ 53 := by exact_mod_cast nearest_natCast (2 ^ 53)
  rwa [hnat] at h

theorem le_nearest_grid (hx : 0 < x) (h : minExponent < grid x) :
    2 ^ 52 ≤ nearest (x / 2 ^ grid x) := by
  have h := nearest_mono (by positivity) (le_div_grid hx h)
  have hnat : nearest (2 ^ 52 : ℚ) = 2 ^ 52 := by exact_mod_cast nearest_natCast (2 ^ 52)
  rwa [hnat] at h

@[simp] theorem rounded_zero : rounded 0 = 0 := by
  have hzero : nearest 0 = 0 := by exact_mod_cast nearest_natCast 0
  simp [rounded, hzero]

theorem rounded_nonneg (x : ℚ) : 0 ≤ rounded x :=
  mul_nonneg (Nat.cast_nonneg _) (two_zpow_pos _).le

/-- Rounding is monotone. Where the grid changes, a power of two is between the two numbers. -/
theorem rounded_mono (hx : 0 ≤ x) (h : x ≤ y) : rounded x ≤ rounded y := by
  rcases hx.eq_or_lt with rfl | hx
  · simpa using rounded_nonneg y
  have hy : 0 < y := hx.trans_le h
  rcases (grid_mono hx h).eq_or_lt with heq | hlt
  · have hdiv : x / 2 ^ grid y ≤ y / 2 ^ grid y := div_le_div_of_nonneg_right h (two_zpow_pos _).le
    have hnear := nearest_mono (div_pos hx (two_zpow_pos _)).le hdiv
    rw [rounded, rounded, heq]
    exact mul_le_mul_of_nonneg_right (by exact_mod_cast hnear) (two_zpow_pos _).le
  · have hlow : (nearest (x / 2 ^ grid x) : ℚ) ≤ 2 ^ 53 := by exact_mod_cast nearest_grid_le hx
    have hhigh : (2 : ℚ) ^ 52 ≤ nearest (y / 2 ^ grid y) := by
      exact_mod_cast le_nearest_grid hy ((minExponent_le_grid x).trans_lt hlt)
    have hexp : 53 + grid x ≤ 52 + grid y := by omega
    calc rounded x ≤ 2 ^ 53 * 2 ^ grid x := mul_le_mul_of_nonneg_right hlow (two_zpow_pos _).le
      _ = 2 ^ (53 + grid x) := by rw [two_zpow_add]; norm_cast
      _ ≤ 2 ^ (52 + grid y) := zpow_le_zpow_right₀ (by norm_num) hexp
      _ = 2 ^ 52 * 2 ^ grid y := by rw [two_zpow_add]; norm_cast
      _ ≤ rounded y := mul_le_mul_of_nonneg_right hhigh (two_zpow_pos _).le

/-- The exponent of the grid below `2 ^ (53 + e)` is at most `e`. -/
theorem grid_le_of_lt (he : minExponent ≤ e) (hpos : 0 < x) (h : x < 2 ^ (53 + e)) :
    grid x ≤ e := by
  refine max_le ?_ he
  have hlog := (Int.lt_zpow_iff_log_lt (b := 2) one_lt_two hpos).1 (by exact_mod_cast h)
  omega

theorem grid_le {m : Nat} (hm : m < 2 ^ 53) (he : minExponent ≤ e) (hpos : 0 < (m : ℚ) * 2 ^ e) :
    grid (m * 2 ^ e) ≤ e := by
  refine grid_le_of_lt he hpos ?_
  have hm : (m : ℚ) < 2 ^ 53 := by exact_mod_cast hm
  rw [two_zpow_add]
  exact mul_lt_mul_of_pos_right (by exact_mod_cast hm) (two_zpow_pos e)

/-- Rounding subtracts at most half of the step of the grid. -/
theorem le_rounded_add (hx : 0 ≤ x) : x ≤ rounded x + 2 ^ grid x / 2 := by
  have hpow := two_zpow_pos (grid x)
  have h := (nearest_spec (div_nonneg hx hpow.le)).2
  rw [div_le_iff₀ hpow] at h
  rw [rounded]
  linarith

/-- A representable number is rounded to itself. -/
theorem Representable.rounded_eq (h : Representable x) : rounded x = x := by
  obtain ⟨m, e, hm, he, rfl⟩ := h
  rcases Nat.eq_zero_or_pos m with rfl | hpos
  · simp
  have hx : 0 < (m : ℚ) * 2 ^ e := mul_pos (by exact_mod_cast hpos) (two_zpow_pos e)
  have hgrid := grid_le hm he hx
  rw [rounded]
  generalize grid (m * 2 ^ e) = g at hgrid ⊢
  obtain ⟨k, rfl⟩ := Int.le.dest hgrid
  have hdiv : (m : ℚ) * 2 ^ (g + k) / 2 ^ g = (m * 2 ^ k : Nat) := by
    rw [two_zpow_add, zpow_natCast, Nat.cast_mul, Nat.cast_pow, mul_comm ((2 : ℚ) ^ g), ← mul_assoc]
    exact mul_div_cancel_right₀ _ (two_zpow_pos g).ne'
  rw [hdiv, nearest_natCast, ← hdiv]
  exact div_mul_cancel₀ _ (two_zpow_pos g).ne'

theorem representable_of_le {m : Nat} (hm : m ≤ 2 ^ 53) (he : minExponent ≤ e) :
    Representable (m * 2 ^ e) := by
  rcases hm.lt_or_eq with hlt | rfl
  · exact ⟨m, e, hlt, he, rfl⟩
  · refine ⟨2 ^ 52, e + 1, by norm_num, by omega, ?_⟩
    rw [two_zpow_add]
    push_cast
    ring

theorem Representable.nonneg (h : Representable x) : 0 ≤ x := by
  obtain ⟨m, e, -, -, rfl⟩ := h
  exact mul_nonneg (Nat.cast_nonneg _) (two_zpow_pos e).le

theorem representable_rounded (hx : 0 ≤ x) : Representable (rounded x) := by
  rcases hx.eq_or_lt with rfl | hx
  · exact ⟨0, minExponent, by norm_num, le_rfl, by simp⟩
  · exact representable_of_le (nearest_grid_le hx) (minExponent_le_grid x)

theorem rounded_rounded (hx : 0 ≤ x) : rounded (rounded x) = rounded x :=
  (representable_rounded hx).rounded_eq

/-- A representable upper bound of a number is an upper bound of the rounded number. -/
theorem Representable.rounded_le (hy : Representable y) (hx : 0 ≤ x) (h : x ≤ y) :
    rounded x ≤ y :=
  hy.rounded_eq ▸ rounded_mono hx h

theorem Representable.le_rounded (hx : Representable x) (hpos : 0 ≤ x) (h : x ≤ y) :
    x ≤ rounded y := by
  have hmono := rounded_mono hpos h
  rwa [hx.rounded_eq] at hmono

theorem representable_natCast {n : Nat} (hn : n ≤ 2 ^ 53) : Representable n := by
  simpa using representable_of_le (e := 0) hn (by decide)

theorem representable_two_zpow (he : minExponent ≤ e) : Representable (2 ^ e) := by
  simpa using representable_of_le (m := 1) (by norm_num) he

/-- A rounded number above the smallest exponent has a full significand. -/
theorem exists_significand (hx : 0 < x) (h : minExponent < grid x) :
    ∃ (m : Nat) (e : ℤ), grid x ≤ e ∧ 2 ^ 52 ≤ m ∧ m < 2 ^ 53 ∧ rounded x = m * 2 ^ e := by
  rcases (nearest_grid_le hx).lt_or_eq with hlt | heq
  · exact ⟨_, _, le_rfl, le_nearest_grid hx h, hlt, rfl⟩
  · refine ⟨2 ^ 52, grid x + 1, by omega, le_rfl, by norm_num, ?_⟩
    rw [rounded, heq, two_zpow_add]
    push_cast
    ring

/-- Adding less than half of the step of the grid is lost. -/
theorem rounded_add_of_lt {m : Nat} {d : ℚ} (hlow : 2 ^ 52 ≤ m) (hhigh : m < 2 ^ 53)
    (he : minExponent ≤ e) (hd : 0 ≤ d) (hlt : d < 2 ^ e / 2) :
    rounded (m * 2 ^ e + d) = m * 2 ^ e := by
  have hpow := two_zpow_pos e
  have hlow : (2 : ℚ) ^ 52 ≤ m := by exact_mod_cast hlow
  have hhigh : (m : ℚ) + 1 ≤ 2 ^ 53 := by exact_mod_cast hhigh
  have hlog : Int.log 2 (m * 2 ^ e + d) = 52 + e := by
    refine log_two_eq ?_ ?_
    · calc (2 : ℚ) ^ (52 + e) = 2 ^ 52 * 2 ^ e := by rw [two_zpow_add]; norm_cast
        _ ≤ m * 2 ^ e + d := by nlinarith
    · calc (m : ℚ) * 2 ^ e + d < (m + 1) * 2 ^ e := by linarith
        _ ≤ 2 ^ 53 * 2 ^ e := mul_le_mul_of_nonneg_right hhigh hpow.le
        _ = 2 ^ (52 + e + 1) := by rw [two_zpow_add, two_zpow_add]; ring
  have hgrid : grid (m * 2 ^ e + d) = e := by
    rw [grid, hlog]
    omega
  have hdiv : ((m : ℚ) * 2 ^ e + d) / 2 ^ e = m + d / 2 ^ e := by
    rw [add_div, mul_div_cancel_right₀ _ hpow.ne']
  have hhalf : d / 2 ^ e < 1 / 2 := by
    rw [div_lt_iff₀ hpow]
    linarith
  have hnonneg : 0 ≤ d / 2 ^ e := div_nonneg hd hpow.le
  rw [rounded, hgrid, hdiv, nearest_eq (n := m) (by linarith) (by linarith) (by linarith)]

end

/-! ## Arithmetic -/

/-- The number of the format is `q`, or it is infinite and `q` is at least `2 ^ 1024`. -/
def Reads : Binary64 → ℚ → Prop
  | finite false m e, q => m * 2 ^ e = q ∧ q < 2 ^ (1024 : ℤ)
  | infinite false, q => 2 ^ (1024 : ℤ) ≤ q
  | _, _ => False

/-- `ofRatio` is the rounded quotient. A significand that is rounded up to `2 ^ 53` has the next
exponent. -/
theorem ofRatio_eq (negative : Bool) {num den : Nat} (hnum : num ≠ 0) (hden : 0 < den) :
    let g := grid ((num : ℚ) / den)
    let r := nearest (num / den / 2 ^ g)
    ofRatio negative num den =
      if r = 2 ^ 53 then
        if maxExponent < g + 1 then infinite negative else finite negative (2 ^ 52) (g + 1)
      else if maxExponent < g then infinite negative else finite negative r g := by
  intro g r
  have hnear : roundHalfEven (scale num den (-g)).1 (scale num den (-g)).2 = r := by
    rw [scale_eq_nearest num hden, zpow_neg, ← div_eq_mul_inv]
  have hdef : ofRatio negative num den =
      let exponent := max (floorLog2 num den - 52) minExponent
      let r := roundHalfEven (scale num den (-exponent)).1 (scale num den (-exponent)).2
      let carried := if r = twoPow 53 then (twoPow 52, exponent + 1) else (r, exponent)
      if maxExponent < carried.2 then infinite negative
      else finite negative carried.1 carried.2 := if_neg hnum
  have hgrid : max (floorLog2 num den - 52) minExponent = g := by
    rw [floorLog2_eq hnum hden]
    rfl
  have hpow (n : Nat) : twoPow n = 2 ^ n := rfl
  simp only [hdef, hgrid, hnear, hpow]
  by_cases hr : r = 2 ^ 53
  · rw [if_pos hr, if_pos hr]
  · rw [if_neg hr, if_neg hr]

theorem reads_ofRatio (num : Nat) {den : Nat} (hden : 0 < den) :
    Reads (ofRatio false num den) (rounded (num / den)) := by
  rcases Nat.eq_zero_or_pos num with rfl | hnum
  · simp [ofRatio, zero, Reads]
  have hx : (0 : ℚ) < num / den := by positivity
  have hle := nearest_grid_le hx
  have hge := le_nearest_grid hx
  rw [ofRatio_eq false hnum.ne' hden, rounded]
  generalize nearest (num / den / 2 ^ grid ((num : ℚ) / den)) = r at *
  generalize grid ((num : ℚ) / den) = g at *
  have hlarge {e : ℤ} (he : 972 ≤ e) : (2 : ℚ) ^ (1024 : ℤ) ≤ 2 ^ 52 * 2 ^ e := by
    rw [← zpow_natCast (2 : ℚ) 52, ← two_zpow_add]
    exact zpow_le_zpow_right₀ (by norm_num) (by omega)
  have hsmall {e : ℤ} (he : e ≤ 971) : (2 : ℚ) ^ 53 * 2 ^ e ≤ 2 ^ (1024 : ℤ) := by
    rw [← zpow_natCast (2 : ℚ) 53, ← two_zpow_add]
    exact zpow_le_zpow_right₀ (by norm_num) (by omega)
  have hcarry : (2 : ℚ) ^ 53 * 2 ^ g = 2 ^ 52 * 2 ^ (g + 1) := by rw [two_zpow_add]; ring
  unfold maxExponent
  split
  next hr =>
    rw [hr, Nat.cast_pow, Nat.cast_ofNat, hcarry]
    split
    next hg => exact hlarge (by omega)
    next hg =>
      refine ⟨by rw [Nat.cast_pow, Nat.cast_ofNat], ?_⟩
      calc (2 : ℚ) ^ 52 * 2 ^ (g + 1) < 2 ^ 53 * 2 ^ (g + 1) :=
            mul_lt_mul_of_pos_right (by norm_num) (two_zpow_pos _)
        _ ≤ 2 ^ (1024 : ℤ) := hsmall (by omega)
  next hr =>
    split
    next hg =>
      have hge : (2 : ℚ) ^ 52 ≤ r := by exact_mod_cast hge (by unfold minExponent; omega)
      exact (hlarge (by omega)).trans (mul_le_mul_of_nonneg_right hge (two_zpow_pos _).le)
    next hg =>
      refine ⟨rfl, ?_⟩
      have hlt : (r : ℚ) < 2 ^ 53 := by exact_mod_cast hle.lt_of_ne hr
      calc (r : ℚ) * 2 ^ g < 2 ^ 53 * 2 ^ g := mul_lt_mul_of_pos_right hlt (two_zpow_pos _)
        _ ≤ 2 ^ (1024 : ℤ) := hsmall (by omega)

theorem reads_ofScaled (num : Nat) {den : Nat} (hden : 0 < den) (shift : Int) :
    Reads (ofScaled false num den shift) (rounded (num / den * 2 ^ shift)) := by
  obtain ⟨hpos, heq⟩ := scale_spec num hden shift
  have h := reads_ofRatio (scale num den shift).1 hpos
  rwa [heq] at h

theorem reads_ofNat (n : Nat) : Reads (ofNat n) (rounded n) := by
  simpa [ofNat] using reads_ofRatio n one_pos

section

variable {x y : Binary64} {p q : ℚ}

/-- From `2 ^ 1024` on the rounded number is at least `2 ^ 1024`. -/
theorem le_rounded_of_overflow (h : (2 : ℚ) ^ (1024 : ℤ) ≤ p) : 2 ^ (1024 : ℤ) ≤ rounded p :=
  (representable_two_zpow (by decide)).le_rounded (two_zpow_pos _).le h

theorem Reads.add (hx : Reads x p) (hy : Reads y q) (hp : 0 ≤ p) (hq : 0 ≤ q) :
    Reads (x.add y) (rounded (p + q)) := by
  match x, y, hx, hy with
  | infinite false, finite false _ _, hx, _ | infinite false, infinite false, hx, _ =>
    exact le_rounded_of_overflow (hx.trans (by linarith))
  | finite false _ _, infinite false, _, hy =>
    exact le_rounded_of_overflow (hy.trans (by linarith))
  | finite false m e, finite false n f, ⟨hm, _⟩, ⟨hn, _⟩ =>
    have h := reads_ofScaled (m * twoPow (e - min e f).toNat + n * twoPow (f - min e f).toNat)
      one_pos (min e f)
    have hshift (k : Nat) {g : Int} (hg : min e f ≤ g) :
        ((k * twoPow (g - min e f).toNat : Nat) : ℚ) * 2 ^ min e f = k * 2 ^ g := by
      have hsum : (2 : ℚ) ^ g = 2 ^ ((g - min e f).toNat : ℤ) * 2 ^ min e f := by
        rw [← two_zpow_add, Int.toNat_of_nonneg (by omega), sub_add_cancel]
      rw [hsum, zpow_natCast, Nat.cast_mul, mul_assoc]
      simp [twoPow]
    rw [Nat.cast_add, Nat.cast_one, div_one, add_mul, hshift m (by omega), hshift n (by omega), hm,
      hn] at h
    exact h

/-- The product with a number of at least one is the rounded product. -/
theorem Reads.mul {m : Nat} {e : ℤ} (hx : 1 ≤ (m : ℚ) * 2 ^ e) (hy : Reads y q) :
    Reads ((finite false m e).mul y) (rounded (m * 2 ^ e * q)) := by
  match y, hy with
  | finite false n f, ⟨hn, _⟩ =>
    have h := reads_ofScaled (m * n) one_pos (e + f)
    have hprod : (m * n : Nat) / (1 : Nat) * (2 : ℚ) ^ (e + f) = m * 2 ^ e * q := by
      rw [← hn, two_zpow_add]
      push_cast
      ring
    rwa [hprod] at h
  | infinite false, hy =>
    have hm : m ≠ 0 := by
      rintro rfl
      norm_num at hx
    have hinf : (finite false m e).mul (infinite false) = infinite false := by
      simp [Binary64.mul, isZero, hm, sign]
    rw [hinf]
    refine le_rounded_of_overflow (hy.trans ?_)
    exact le_mul_of_one_le_left ((two_zpow_pos _).le.trans hy) hx

theorem Reads.div (hx : Reads x p) (hy : Reads y q) (hp : p < 2 ^ (1024 : ℤ))
    (hq : q < 2 ^ (1024 : ℤ)) (hpos : 0 < q) : Reads (x.div y) (rounded (p / q)) := by
  match x, y, hx, hy with
  | infinite false, _, hx, _ => exact absurd hp (not_lt.2 hx)
  | finite false _ _, infinite false, _, hy => exact absurd hq (not_lt.2 hy)
  | finite false m e, finite false n f, ⟨hm, _⟩, ⟨hn, _⟩ =>
    have hzero : n ≠ 0 := by
      rintro rfl
      simp [← hn] at hpos
    have h := reads_ofScaled m (Nat.pos_of_ne_zero hzero) (e - f)
    have hquot : (m : ℚ) / n * 2 ^ (e - f) = p / q := by
      rw [← hm, ← hn, zpow_sub₀ (by norm_num)]
      field_simp
    rw [hquot] at h
    simpa [Binary64.div, hzero] using h

end

end Binary64

end PeerLink.Number
