import PeerLink.Proofs.Config.Ranges
import PeerLink.Proofs.Connection.Pace
import PeerLink.Proofs.Number.Growth
/-!
# Delays that do not overflow

A delay is grown before it is cut at the maximum, so growing can overflow although no delay exceeds
the maximum. A timer lasts if no list of uses overflows. It suffices that the maximum can be grown,
since growing is monotone.

## Main definitions

* `Backoff.Use`, `Backoff.uses?`: the uses of a timer.
* `ConnectionConfig.Lasts`: the delays of a configuration do not end.

## Main statements

* `Backoff.isSome_uses_iff`: no list of uses overflows iff the delays do not end.
* `ConnectionConfig.lasts_of_grow?`: the delays do not end if the maximum can be grown.
* `ConnectionConfig.isSome_grow?_of_ltNat`: the maximum can be grown for every factor below one
  thousand.
-/

namespace PeerLink

open Number Binary64

/-! ## Factors -/

namespace Number.Binary64

theorem ltNat_eq_false_iff {m : Nat} {e : Int} {n : Nat} :
    (finite false m e).ltNat n = false ↔ (n : ℚ) ≤ m * 2 ^ e := by
  obtain ⟨hpos, heq⟩ := scale_spec m one_pos e
  have hpos : (0 : ℚ) < (scale m 1 e).2 := by exact_mod_cast hpos
  rw [Nat.cast_one, div_one] at heq
  rw [← heq, le_div_iff₀ hpos]
  simp only [ltNat, Bool.false_eq_true, if_false, decide_eq_false_iff_not, Nat.not_lt]
  norm_cast

/-- A canonical number below one thousand is at most the predecessor of one thousand in the
format. -/
theorem le_of_ltNat {m : Nat} {e : Int} (hc : (finite false m e).Canonical)
    (h : (finite false m e).ltNat 1000) :
    (m : ℚ) * 2 ^ e ≤ (1000 * 2 ^ 43 - 1 : Nat) * 2 ^ (-43 : ℤ) := by
  have hlt : (m : ℚ) * 2 ^ e < 1000 := by
    by_contra hge
    rw [ltNat_eq_false_iff.2 (by exact_mod_cast not_lt.1 hge)] at h
    cases h
  have hm : (m : ℚ) < 2 ^ 53 := by exact_mod_cast hc.1
  rcases lt_or_ge e (-43) with he | he
  · have hpow : (2 : ℚ) ^ e ≤ 2 ^ (-44 : ℤ) := zpow_le_zpow_right₀ (by norm_num) (by omega)
    calc (m : ℚ) * 2 ^ e ≤ 2 ^ 53 * 2 ^ (-44 : ℤ) :=
          mul_le_mul hm.le hpow (two_zpow_pos e).le (by positivity)
      _ ≤ (1000 * 2 ^ 43 - 1 : Nat) * 2 ^ (-43 : ℤ) := by norm_num
  · -- from there on it is a whole number of the last place of the numbers below one thousand
    obtain ⟨k, rfl⟩ : ∃ k : Nat, e = k + -43 := ⟨(e + 43).toNat, by omega⟩
    rw [two_zpow_add, zpow_natCast, ← mul_assoc] at hlt ⊢
    have hlt : (m : ℚ) * 2 ^ k < (1000 * 2 ^ 43 : Nat) := by
      rw [← lt_div_iff₀ (two_zpow_pos _)] at hlt
      exact hlt.trans_eq (by norm_num)
    have hlt : m * 2 ^ k < 1000 * 2 ^ 43 := by exact_mod_cast hlt
    gcongr
    exact_mod_cast Nat.le_sub_one_of_lt hlt

end Number.Binary64

namespace Span

theorem grow?_infinite (d : Span) : d.grow? (.infinite false) = none := by
  unfold grow?
  cases d.seconds with
  | nan | infinite => rfl
  | finite s m e =>
    simp only [mul]
    split <;> rfl

/-- If a span can be grown by a factor, every smaller span can be grown by every smaller factor. -/
theorem isSome_grow?_of_le {d d' : Span} {m m' : Nat} {e e' : Int} (hd : d.nanos ≤ d'.nanos)
    (hf : 1 ≤ (m : ℚ) * 2 ^ e) (hle : (m : ℚ) * 2 ^ e ≤ m' * 2 ^ e')
    (h : (d'.grow? (.finite false m' e')).isSome) : (d.grow? (.finite false m e)).isSome := by
  rw [grow?_eq d' (hf.trans hle)] at h
  rw [grow?_eq d hf]
  have hmono := grownNanos_mono (by linarith) hle hd
  split at h
  next hlt => rw [if_pos (hmono.trans_lt hlt)]; rfl
  · cases h

end Span

namespace Connection

namespace Backoff

variable {c : ConnectionConfig} {n : Nat} {b : Backoff}

/-- `Backoff.new` makes the factor at least one. -/
theorem factor_new (min max : Span) (factor : Binary64) :
    (new min max factor).factor = .infinite false ∨
      ∃ (m : Nat) (e : ℤ), (new min max factor).factor = .finite false m e ∧
        1 ≤ (m : ℚ) * 2 ^ e := by
  have hone : ofNat 1 = .finite false (2 ^ 52) (-52) := by decide
  rw [new]
  dsimp only
  split
  · exact .inr ⟨2 ^ 52, -52, hone, by norm_num⟩
  next hfactor =>
    obtain ⟨hnan, hlt⟩ := not_or.1 hfactor
    cases factor with
    | nan => exact absurd rfl hnan
    | infinite negative =>
      cases negative with
      | true => exact absurd rfl hlt
      | false => exact .inl rfl
    | finite negative m e =>
      cases negative with
      | true => simp [ltNat] at hlt
      | false =>
        rw [Bool.not_eq_true, ltNat_eq_false_iff] at hlt
        exact .inr ⟨m, e, rfl, by exact_mod_cast hlt⟩

theorem factor_cases (c : ConnectionConfig) : (ofConfig c).factor = .infinite false ∨
    ∃ (m : Nat) (e : ℤ), (ofConfig c).factor = .finite false m e ∧ 1 ≤ (m : ℚ) * 2 ^ e :=
  factor_new _ _ _

theorem le_max_of_term? {delay : Span} (h : term? c n = some delay) :
    delay.nanos ≤ (ofConfig c).max.nanos := by
  cases n with
  | zero =>
    obtain rfl := Option.some.inj h
    exact Nat.le_max_right _ _
  | succ n =>
    simp only [term?, Option.bind_eq_some_iff, Option.map_eq_some_iff] at h
    obtain ⟨shorter, -, longer, -, rfl⟩ := h
    exact Nat.min_le_right _ _

/-! ## Uses of a timer -/

/-- A use of a timer. -/
inductive Use where
  | draw
  | rewind

/-- The timer after a use, if no delay overflows. -/
def use? (b : Backoff) : Use → Option Backoff
  | .draw => b.next?.map Prod.snd
  | .rewind => some b.reset

/-- The timer after a list of uses, if no delay overflows. -/
def uses? (b : Backoff) (us : List Use) : Option Backoff := us.foldlM use? b

end Backoff

end Connection

open Connection

/-- The delays of the configuration do not end. -/
def ConnectionConfig.Lasts (c : ConnectionConfig) : Prop := ∀ n, (Backoff.term? c n).isSome

namespace Connection.Backoff

variable {c : ConnectionConfig} {n : Nat} {b : Backoff}

/-- A timer at the delay `n` can be drawn from iff there is a delay after `n`. -/
theorem StandsAt.isSome_next? (h : StandsAt c n b) :
    b.next?.isSome ↔ (term? c (n + 1)).isSome := by
  rw [term?, h.current, Option.bind_some, Option.isSome_map, next?, Option.isSome_map, h.factor]

/-- If the delays do not end, no list of uses overflows. -/
theorem StandsAt.isSome_uses? (h : StandsAt c n b) (hc : c.Lasts) (us : List Use) :
    (b.uses? us).isSome := by
  induction us generalizing n b with
  | nil => rfl
  | cons u us ih =>
    cases u with
    | rewind => exact ih h.reset
    | draw =>
      obtain ⟨⟨delay, grown⟩, hnext⟩ := Option.isSome_iff_exists.1 (h.isSome_next?.2 (hc (n + 1)))
      have hdraw : b.use? .draw = some grown := by simp [use?, hnext]
      rw [uses?, List.foldlM_cons, hdraw]
      exact ih (h.next hnext).2

/-- If `k` delays can be drawn, the configuration has them. -/
theorem StandsAt.isSome_term? (h : StandsAt c n b) {k : Nat}
    (hk : (b.uses? (List.replicate k .draw)).isSome) : (term? c (n + k)).isSome := by
  induction k generalizing n b with
  | zero => simp [h.current]
  | succ k ih =>
    rw [List.replicate_succ, uses?, List.foldlM_cons] at hk
    cases hnext : b.next? with
    | none => simp [use?, hnext] at hk
    | some next =>
      obtain ⟨delay, grown⟩ := next
      have hdraw : b.use? .draw = some grown := by simp [use?, hnext]
      rw [hdraw] at hk
      have hterm := ih (h.next hnext).2 hk
      rwa [Nat.add_right_comm] at hterm

/-- No list of uses overflows iff the delays do not end. -/
theorem isSome_uses_iff (c : ConnectionConfig) :
    (∀ us, ((ofConfig c).uses? us).isSome) ↔ c.Lasts := by
  constructor
  · intro h n
    have hterm := (StandsAt.ofConfig c).isSome_term? (h (List.replicate n .draw))
    rwa [Nat.zero_add] at hterm
  · exact fun hc us => (StandsAt.ofConfig c).isSome_uses? hc us

/-- `b` is the timer of a configuration whose delays do not end. -/
def Endures (b : Backoff) : Prop := ∃ (c : ConnectionConfig) (n : Nat), c.Lasts ∧ StandsAt c n b

theorem endures_ofConfig (hc : c.Lasts) : (ofConfig c).Endures := ⟨c, 0, hc, .ofConfig c⟩

namespace Endures

theorem reset (h : b.Endures) : b.reset.Endures := by
  obtain ⟨c, n, hc, hb⟩ := h
  exact ⟨c, 0, hc, hb.reset⟩

theorem isSome_next? (h : b.Endures) : b.next?.isSome := by
  obtain ⟨c, n, hc, hb⟩ := h
  exact hb.isSome_next?.2 (hc (n + 1))

theorem draw (h : b.Endures) : b.draw.2.Endures := by
  obtain ⟨c, n, hc, hb⟩ := h
  exact ⟨c, _, hc, (StandsAt.draw hb rfl).2⟩

end Endures

end Connection.Backoff

namespace ConnectionConfig

variable {c : ConnectionConfig}

/-- The delays do not end if the maximum can be grown. -/
theorem lasts_of_grow? (h : ((Backoff.ofConfig c).max.grow? (Backoff.ofConfig c).factor).isSome) :
    c.Lasts := by
  intro n
  induction n with
  | zero => rfl
  | succ n ih =>
    obtain ⟨delay, hdelay⟩ := Option.isSome_iff_exists.1 ih
    have hle := Backoff.le_max_of_term? hdelay
    rw [Backoff.term?, hdelay, Option.bind_some, Option.isSome_map]
    rcases Backoff.factor_cases c with hf | ⟨m, e, hf, hone⟩
    · rw [hf, Span.grow?_infinite] at h
      cases h
    · rw [hf] at h ⊢
      exact Span.isSome_grow?_of_le hle hone le_rfl h

/-- For a factor below one thousand the maximum can be grown. -/
theorem isSome_grow?_of_ltNat {c : Config} (hvalid : c.validate = .ok ())
    (hrange : c.connection.InRange) (hlt : c.connection.backoffFactor.ltNat 1000) :
    (c.connection.maxBackoff.grow? c.connection.backoffFactor).isSome := by
  obtain ⟨-, hfactor⟩ := Backoff.ofConfig_of_validate hvalid
  have hlast : ((⟨(2 ^ 64 - 1) * Span.milli⟩ : Span).grow?
      (.finite false (1000 * 2 ^ 43 - 1) (-43))).isSome := by decide +kernel
  have hmax : c.connection.maxBackoff.nanos ≤ (2 ^ 64 - 1) * Span.milli :=
    Nat.mul_le_mul_right _ (Nat.le_sub_one_of_lt hrange.1)
  rcases Backoff.factor_cases c.connection with hf | ⟨m, e, hf, hone⟩
  · rw [← hfactor, hf] at hlt
    cases hlt
  · rw [hfactor] at hf
    rw [hf] at hlt ⊢
    have hcanonical := hf ▸ hrange.2
    exact Span.isSome_grow?_of_le hmax hone (le_of_ltNat hcanonical hlt) hlast

end ConnectionConfig

end PeerLink
