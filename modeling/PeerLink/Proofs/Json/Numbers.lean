import Mathlib.Tactic.IntervalCases
import PeerLink.Json.Shape
import PeerLink.Proofs.Json.Compact
/-!
# The texts of numbers

The text of an integer consists of its decimal digits. The text of a floating point number consists
of the digits of its shortest decimal, with a point or an exponent. Both are spellings of a number.
An integer of 64 bits is read back, and a floating point number is read back if `Binary64` reads its
text.

## Main definitions

* `Numeral.IsFractional`: a numeral with a point or an exponent.

## Main statements

* `Number.readsBack_int`: an integer is read back.
* `Number.readsBack_float`: a floating point number is read back, if its text is read as the number.
-/

namespace PeerLink.Json

open PeerLink.Number

/-! ## Digits -/

/-- The number of the digits of `m` followed by `ds`. -/
def spelled (m : Nat) (ds : List Nat) : Nat := ds.foldl (fun m d => m * 10 + d) m

theorem le_spelled (m : Nat) (ds : List Nat) : m ≤ spelled m ds := by
  induction ds generalizing m with
  | nil => exact le_rfl
  | cons d ds ih => exact (by omega : m ≤ m * 10 + d).trans (ih _)

theorem digitChar_eq {d : Nat} (h : d < 10) : Nat.digitChar d = Char.ofNat (48 + d) := by
  interval_cases d <;> rfl

/-- The decimal digits of a natural number. -/
theorem exists_toDigits (n : Nat) : ∃ ds, Nat.toDigits 10 n = digitChars ds ∧ AreDigits ds ∧
    (∀ rest, ds = 0 :: rest → n = 0 ∧ rest = []) ∧ spelled 0 ds = n := by
  induction n using Nat.strongRecOn with
  | ind n ih =>
    rw [Nat.toDigits_eq_if (by decide)]
    split
    next h =>
      refine ⟨[n], ?_, ⟨by simp, by simpa using h⟩, by simp_all, by simp [spelled]⟩
      rw [digitChar_eq h]
      rfl
    next h =>
      obtain ⟨ds, hds, ⟨hne, hdigits⟩, hzero, hvalue⟩ := ih (n / 10) (by omega)
      have hmod : n % 10 < 10 := Nat.mod_lt _ (by decide)
      refine ⟨ds ++ [n % 10], ?_, ⟨by simp, ?_⟩, fun rest heq => ?_, ?_⟩
      · rw [hds, digitChar_eq hmod, digitChars, digitChars, List.map_append]
        rfl
      · simpa [or_imp, forall_and, hmod] using hdigits
      · obtain ⟨d, ds, rfl⟩ := List.exists_cons_of_ne_nil hne
        obtain ⟨rfl, -⟩ := List.cons.inj heq
        have := (hzero ds rfl).1
        omega
      · rw [spelled, List.foldl_append, show ds.foldl _ 0 = n / 10 from hvalue]
        simp only [List.foldl_cons, List.foldl_nil]
        omega

theorem digitsOf_eq (n : Nat) : Notation64.digitsOf n = Nat.toDigits 10 n := by
  simp [Notation64.digitsOf]

namespace Numeral

/-- The whole digits are taken as an integer if it fits 64 bits. -/
theorem takeWhole_eq {m : Nat} {ds : List Nat} (h : spelled m ds ≤ maxWord) :
    takeWhole m ds = (spelled m ds, 0) := by
  induction ds generalizing m with
  | nil => rfl
  | cons d ds ih =>
    have hle : m * 10 + d ≤ maxWord := (le_spelled _ ds).trans h
    rw [takeWhole, if_neg (Nat.not_lt.2 hle)]
    exact ih h

/-- The numeral has a point or an exponent. -/
def IsFractional (n : Numeral) : Prop := n.fraction.isSome ∨ n.exponent.isSome

/-- A numeral with a point or an exponent is not an integer. -/
theorem value?_of_isFractional {n : Numeral} (h : n.IsFractional) {v : Json.Number}
    (hv : n.value? = some v) : ∃ x, v = .float x := by
  have hvalue : n.value? = n.magnitude.map fun x => .float (if n.negative then x.neg else x) := by
    unfold value?
    obtain ⟨negative, whole, fraction, exponent⟩ := n
    cases fraction <;> cases exponent <;> first | rfl | simp [IsFractional] at h
  rw [hvalue] at hv
  obtain ⟨x, -, rfl⟩ := Option.map_eq_some_iff.1 hv
  exact ⟨_, rfl⟩

end Numeral

/-- An integer of 64 bits is read back. -/
theorem Number.readsBack_int {n : Nat} (h : n < 2 ^ 64) : (Json.Number.int n).ReadsBack := by
  obtain ⟨ds, hds, hdigits, hzero, hvalue⟩ := exists_toDigits n
  have htext : (Json.Number.int n).compact.toList = digitChars ds := by
    rw [← hds, ← digitsOf_eq]
    rfl
  have hwritten : Numeral.Written ⟨false, ds, none, none⟩ ([] ++ digitChars ds ++ [] ++ []) :=
    .mk hdigits (fun rest h => (hzero rest h).2) .absent .absent
  have hfits : spelled 0 ds ≤ Numeral.maxWord := by
    rw [hvalue]
    exact Nat.le_sub_one_of_lt h
  refine ⟨_, by simpa [htext] using hwritten, ?_⟩
  simp [Numeral.value?, Numeral.takeWhole_eq hfits, hvalue]

/-! ## Shortest decimals -/

/-- A grid point in an interval of positive numbers is positive. -/
theorem pos_of_nearest {i : Shortest.Interval} {a b c : Nat} (h : Shortest.nearest i a b = some c) :
    0 < c := by
  unfold Shortest.nearest at h
  grind

theorem pos_search {i : Shortest.Interval} (hi : 0 < i.middle) (q : Int) (steps : Nat) (k : Int) :
    0 < (Shortest.search i q steps k).1 := by
  induction steps generalizing k with
  | zero => exact hi
  | succ steps ih =>
    unfold Shortest.search
    dsimp only
    split
    next c hc => exact pos_of_nearest hc
    next => exact ih (k - 1)

/-- The digits of a nonzero number are not zero. -/
theorem pos_digits {m : Nat} (hm : m ≠ 0) (q : Int) : 0 < (Shortest.digits m q).1 := by
  have hmiddle : 0 < (Shortest.interval m q).middle := by
    simp only [Shortest.interval]
    omega
  rw [Shortest.digits]
  exact pos_search hmiddle q _ _

theorem areDigits_zero : AreDigits [0] := ⟨List.cons_ne_nil _ _, by simp⟩

theorem areDigits_append {ds es : List Nat} (hds : ∀ d ∈ ds, d < 10) (hes : AreDigits es) :
    AreDigits (ds ++ es) :=
  ⟨List.append_ne_nil_of_right_ne_nil ds hes.1, List.forall_mem_append.2 ⟨hds, hes.2⟩⟩

theorem digitChars_append (ds es : List Nat) :
    digitChars (ds ++ es) = digitChars ds ++ digitChars es := List.map_append

theorem digitChars_zeros (n : Nat) : digitChars (List.replicate n 0) = List.replicate n '0' :=
  List.map_replicate

theorem exists_exponent (e : Int) :
    ∃ exponent, Numeral.ExponentWritten (some exponent) (Notation64.exponent e) := by
  obtain ⟨ds, hds, hdigits, -⟩ := exists_toDigits e.natAbs
  rw [Notation64.exponent, digitsOf_eq, hds]
  split_ifs
  · exact ⟨_, .minus (.inl rfl) hdigits⟩
  · exact ⟨_, .plus (.inl rfl) hdigits⟩

namespace Numeral

variable {whole ds : List Nat} (negative : Bool)

/-- `cs` is a spelling of a numeral with a point or an exponent. -/
def FractionalWritten (cs : List Char) : Prop := ∃ n : Numeral, n.IsFractional ∧ n.Written cs

theorem fractionalWritten_point (hwhole : AreDigits whole)
    (hzero : ∀ rest, whole = 0 :: rest → rest = []) (hds : AreDigits ds) :
    FractionalWritten ((if negative then ['-'] else []) ++
      (digitChars whole ++ '.' :: digitChars ds)) := by
  have hwritten : Written ⟨negative, whole, some ds, none⟩ _ :=
    .mk hwhole hzero (.point hds) .absent
  exact ⟨_, .inl rfl, by simpa using hwritten⟩

theorem fractionalWritten_exponent (hwhole : AreDigits whole)
    (hzero : ∀ rest, whole = 0 :: rest → rest = []) {fraction : Option (List Nat)} {fs : List Char}
    (hfs : FractionWritten fraction fs) (e : Int) :
    FractionalWritten ((if negative then ['-'] else []) ++
      (digitChars whole ++ fs ++ Notation64.exponent e)) := by
  obtain ⟨exponent, hes⟩ := exists_exponent e
  have hwritten : Written ⟨negative, whole, fraction, some exponent⟩ _ := .mk hwhole hzero hfs hes
  exact ⟨_, .inr rfl, by simpa using hwritten⟩

/-- `place` gives a spelling of a numeral with a point or an exponent. -/
theorem fractionalWritten_place (n : Notation64) (hds : AreDigits ds)
    (hzero : ∀ rest, ds ≠ 0 :: rest) (k : Int) :
    FractionalWritten ((if negative then ['-'] else []) ++ n.place (digitChars ds) k) := by
  have hlength : (digitChars ds).length = ds.length := List.length_map _
  have hpos : 0 < ds.length := List.length_pos_iff.2 hds.1
  unfold Notation64.place
  dsimp only
  rw [hlength]
  by_cases hrange : n.low ≤ k + ds.length - 1 ∧ k + ds.length - 1 ≤ n.high
  · rw [if_pos hrange]
    by_cases hk : 0 ≤ k
    · -- no digit stands behind the point
      have hwhole : AreDigits (ds ++ List.replicate k.toNat 0) :=
        ⟨List.append_ne_nil_of_left_ne_nil hds.1 _, List.forall_mem_append.2 ⟨hds.2, by simp⟩⟩
      have hpoint := fractionalWritten_point negative hwhole ?_ areDigits_zero
      · rw [digitChars_append, digitChars_zeros] at hpoint
        rwa [if_pos hk]
      · rintro rest heq
        obtain ⟨d, ds, rfl⟩ := List.exists_cons_of_ne_nil hds.1
        exact absurd ((List.cons.inj heq).1 ▸ rfl) (hzero ds)
    rw [if_neg hk]
    by_cases he : 0 ≤ k + ds.length - 1
    · -- the point stands among the digits
      rw [if_pos he]
      have hlt : (k + ds.length - 1).toNat + 1 < ds.length := by omega
      generalize (k + ds.length - 1).toNat = j at hlt ⊢
      have hwhole : AreDigits (ds.take (j + 1)) :=
        ⟨List.ne_nil_of_length_pos (by rw [List.length_take]; omega),
          fun d hd => hds.2 d (List.mem_of_mem_take hd)⟩
      have hrest : AreDigits (ds.drop (j + 1)) :=
        ⟨List.ne_nil_of_length_pos (by rw [List.length_drop]; omega),
          fun d hd => hds.2 d (List.mem_of_mem_drop hd)⟩
      have hpoint := fractionalWritten_point negative hwhole ?_ hrest
      · rwa [digitChars, digitChars, List.map_take, List.map_drop] at hpoint
      · rintro rest heq
        obtain ⟨d, ds, rfl⟩ := List.exists_cons_of_ne_nil hds.1
        exact absurd ((List.cons.inj heq).1 ▸ rfl) (hzero ds)
    · -- the point stands before all digits
      rw [if_neg he]
      have hrest : AreDigits (List.replicate ((-(k + ds.length - 1)).toNat - 1) 0 ++ ds) :=
        areDigits_append (by simp) hds
      have hpoint := fractionalWritten_point negative areDigits_zero
        (fun rest h => (List.cons.inj h).2.symm) hrest
      rwa [digitChars_append, digitChars_zeros] at hpoint
  · rw [if_neg hrange]
    obtain ⟨d, rest, rfl⟩ := List.exists_cons_of_ne_nil hds.1
    have hwhole : AreDigits [d] := ⟨by simp, by simpa using hds.2 d List.mem_cons_self⟩
    have htail : ∀ more, [d] = 0 :: more → more = [] := fun more h => (List.cons.inj h).2.symm
    cases rest with
    | nil => exact fractionalWritten_exponent negative hwhole htail .absent _
    | cons d' rest =>
      have hrest : AreDigits (d' :: rest) :=
        ⟨by simp, fun x hx => hds.2 x (List.mem_cons_of_mem _ hx)⟩
      exact fractionalWritten_exponent negative hwhole htail (.point hrest) _

/-- The text of a finite number is a spelling of a numeral with a point or an exponent. -/
theorem fractionalWritten_write (n : Notation64) (m : Nat) (q : Int) :
    FractionalWritten (n.write (.finite negative m q)).toList := by
  rw [Notation64.write]
  have hpos (hm : m ≠ 0) := pos_digits hm q
  -- what the digits are does not matter, and their computation is not to be unfolded
  generalize Shortest.digits m q = decimal at hpos ⊢
  by_cases hm : m = 0
  · rw [if_pos hm, String.toList_ofList]
    exact fractionalWritten_point negative areDigits_zero
      (fun rest h => (List.cons.inj h).2.symm) areDigits_zero
  · obtain ⟨c, k⟩ := decimal
    obtain ⟨ds, hds, hdigits, hzero, -⟩ := exists_toDigits c
    rw [if_neg hm, String.toList_ofList, digitsOf_eq, hds]
    refine fractionalWritten_place negative n hdigits (fun rest h => ?_) k
    exact (hpos hm).ne' (hzero rest h).1

end Numeral

/-- A finite number is read back if its text is read as the number. -/
theorem Number.readsBack_float {x : Binary64} (hfinite : ∃ s m q, x = .finite s m q)
    (h : readText Reader.float (Json.Number.float x).compact = .ok x) :
    (Json.Number.float x).ReadsBack := by
  obtain ⟨s, m, q, rfl⟩ := hfinite
  obtain ⟨n, hn, hwritten⟩ := Numeral.fractionalWritten_write s notation64 m q
  refine ⟨n, hwritten, ?_⟩
  have hspells : (Draft.number n.value?).Spells (Json.Number.float (.finite s m q)).compact :=
    padded_self ⟨n, hwritten, rfl⟩
  rw [hspells.readText] at h
  cases hv : n.value? with
  | none =>
    rw [hv] at h
    cases h
  | some v =>
    obtain ⟨x, rfl⟩ := Numeral.value?_of_isFractional hn hv
    rw [hv] at h
    cases h
    rfl

end PeerLink.Json
