import PeerLink.Config.File
import PeerLink.Proofs.Number.Rounding
/-!
# The numbers of a configuration file

The numbers of a parsed document are integers of 64 bits and canonical floating point numbers. So
the settings that are read from any file are of this form.

## Main definitions

* `Binary64.Canonical`: a canonical number of the format.
* `Json.Number.Fits`, `Json.Draft.Fits`: the numbers of parsed documents.
* `Json.Reader.Gives`: a reader whose results for such documents have a property.
* `ConnectionConfig.InRange`: the numbers of the delays are in range.

## Main statements

* `Config.ranges_of_ofFile`: the settings read from a file are in range and valid.
-/

namespace PeerLink

open Number

/-! ## Numbers of the format -/

namespace Number.Binary64

/-- A canonical number of the format. -/
def Canonical : Binary64 → Prop
  | finite _ m e => m < 2 ^ 53 ∧ minExponent ≤ e ∧ e ≤ maxExponent
  | _ => True

theorem canonical_zero (negative : Bool) : (zero negative).Canonical := by
  simp [zero, Canonical, minExponent, maxExponent]

theorem canonical_ofRatio (negative : Bool) (num : Nat) {den : Nat} (hden : 0 < den) :
    (ofRatio negative num den).Canonical := by
  rcases Nat.eq_zero_or_pos num with rfl | hnum
  · simpa [ofRatio] using canonical_zero negative
  have hx : (0 : ℚ) < num / den := by positivity
  have hle := nearest_grid_le hx
  have hmin := minExponent_le_grid ((num : ℚ) / den)
  rw [ofRatio_eq negative hnum.ne' hden]
  generalize nearest (num / den / 2 ^ grid ((num : ℚ) / den)) = r at *
  generalize grid ((num : ℚ) / den) = g at *
  split
  · split
    · trivial
    · exact ⟨by norm_num, by omega, by omega⟩
  · split
    · trivial
    · exact ⟨by omega, hmin, by omega⟩

theorem canonical_ofNat (n : Nat) : (ofNat n).Canonical := canonical_ofRatio _ _ one_pos

theorem canonical_ofScaled (negative : Bool) (num : Nat) {den : Nat} (hden : 0 < den)
    (shift : Int) : (ofScaled negative num den shift).Canonical :=
  canonical_ofRatio negative _ (scale_spec num hden shift).1

theorem canonical_neg {x : Binary64} (h : x.Canonical) : x.neg.Canonical := by
  cases x <;> exact h

theorem canonical_mul (x y : Binary64) : (x.mul y).Canonical := by
  unfold mul
  split
  · trivial
  · trivial
  · split <;> trivial
  · split <;> trivial
  · exact canonical_ofScaled _ _ one_pos _

theorem canonical_div (x y : Binary64) : (x.div y).Canonical := by
  unfold div
  split
  · trivial
  · trivial
  · trivial
  · trivial
  · exact canonical_zero _
  · split
    · split <;> trivial
    next hn => exact canonical_ofScaled _ _ (Nat.pos_of_ne_zero hn) _

end Number.Binary64

open Binary64

/-! ## Numbers of a document -/

namespace Json

/-- The numbers of parsed documents. -/
def Number.Fits : Json.Number → Prop
  | .int n => n < 2 ^ 64
  | .float x => x.Canonical

namespace Numeral

theorem canonical_scaleDown {x : Binary64} (h : x.Canonical) (e : Nat) :
    (scaleDown x e).Canonical := by
  fun_induction scaleDown x e with
  | case1 => exact canonical_div _ _
  | case2 => exact h
  | case3 x e he hz ih => exact ih (canonical_div _ _)

theorem canonical_scaled {m : Nat} {e : Int} {x : Binary64} (h : scaled m e = some x) :
    x.Canonical := by
  have hm := canonical_ofNat m
  unfold scaled at h
  dsimp only at h
  split at h
  · obtain rfl := Option.some.inj h
    exact canonical_scaleDown hm _
  · split at h
    · split at h
      · cases h
      · obtain rfl := Option.some.inj h
        exact canonical_mul _ _
    · split at h
      · obtain rfl := Option.some.inj h
        exact hm
      · cases h

theorem canonical_magnitude {n : Numeral} {x : Binary64} (h : n.magnitude = some x) :
    x.Canonical := by
  unfold magnitude at h
  dsimp only at h
  split at h
  · exact canonical_scaled h
  · split at h
    · exact canonical_scaled h
    · split at h
      · obtain rfl := Option.some.inj h
        exact canonical_zero _
      · cases h

theorem takeWhole_le {m : Nat} (hm : m ≤ maxWord) (ds : List Nat) :
    (takeWhole m ds).1 ≤ maxWord := by
  induction ds generalizing m with
  | nil => exact hm
  | cons d ds ih =>
    unfold takeWhole
    split
    · exact hm
    next h => exact ih (Nat.not_lt.1 h)

theorem fits_value? {n : Numeral} {v : Json.Number} (h : n.value? = some v) : v.Fits := by
  have hfloat {v : Json.Number}
      (h : (n.magnitude.map fun x => Number.float (if n.negative then x.neg else x)) = some v) :
      v.Fits := by
    obtain ⟨x, hx, rfl⟩ := Option.map_eq_some_iff.1 h
    have hc := canonical_magnitude hx
    show (if n.negative then x.neg else x).Canonical
    split
    · exact canonical_neg hc
    · exact hc
  have hle := takeWhole_le (m := 0) (Nat.zero_le _) n.whole
  have hword : maxWord < 2 ^ 64 := by decide
  unfold value? at h
  dsimp only at h
  split at h
  · split at h
    · exact hfloat h
    · split at h
      · obtain rfl := Option.some.inj h
        show ((takeWhole 0 n.whole).1 : ℤ) < 2 ^ 64
        exact_mod_cast hle.trans_lt hword
      · split at h
        · obtain rfl := Option.some.inj h
          show -((takeWhole 0 n.whole).1 : ℤ) < 2 ^ 64
          omega
        · exact hfloat h
  · exact hfloat h

end Numeral

/-- If the token is a number, the number fits. -/
def Token.Fits (t : Token) : Prop := ∀ n, t = .number (some n) → n.Fits

theorem Token.fits_next (c : Char) (cs : List Char) : (Token.next c cs).1.Fits := by
  have hword (w : List Char) (t : Token) (cs : List Char) (h : t.Fits) : (word w t cs).1.Fits := by
    unfold word
    split
    · exact h
    · rintro n ⟨⟩
  have hnumeral (negative : Bool) (cs : List Char) : (numeral negative cs).1.Fits := by
    intro n hn
    unfold numeral at hn
    split at hn
    next heq => exact Numeral.fits_value? (Token.number.inj hn)
    · cases hn
  unfold next
  split
  case h_7 | h_8 | h_9 => exact hword _ _ _ (by rintro n ⟨⟩)
  case h_10 | h_12 => exact hnumeral _ _
  case h_11 => split <;> rintro n ⟨⟩
  all_goals rintro n ⟨⟩

/-- The numbers of the tokens fit. -/
def TokensFit (ts : List Token) : Prop := ∀ t ∈ ts, t.Fits

@[simp]
theorem tokensFit_nil : TokensFit [] := List.forall_mem_nil _

@[simp]
theorem tokensFit_cons {t : Token} {ts : List Token} :
    TokensFit (t :: ts) ↔ t.Fits ∧ TokensFit ts :=
  List.forall_mem_cons

theorem tokensFit_tokens (cs : List Char) : TokensFit (tokens cs) := by
  fun_induction tokens cs with
  | case1 => exact tokensFit_nil
  | case2 c cs hs ih => exact ih
  | case3 c cs hs hlen hj => exact tokensFit_cons.2 ⟨by rintro n ⟨⟩, tokensFit_nil⟩
  | case4 c cs hs hlen hj ih => exact tokensFit_cons.2 ⟨Token.fits_next c cs, ih⟩

/-! ## Drafts -/

namespace Draft

mutual

/-- The numbers of the draft fit. -/
def Fits : Draft → Prop
  | number n => ∀ v, n = some v → v.Fits
  | array items _ => AllFit items
  | object members _ => MembersFit members
  | broken | null | bool _ | text _ => True

/-- All items fit. -/
def AllFit : List Draft → Prop
  | [] => True
  | d :: rest => Fits d ∧ AllFit rest

/-- All values of the members fit. -/
def MembersFit : List (Option String × Draft) → Prop
  | [] => True
  | (_, d) :: rest => Fits d ∧ MembersFit rest

end

/-- If the numbers of the tokens fit, those of the parsed document do. -/
theorem fits_take :
    (∀ (fuel : Nat) (ts : List Token), TokensFit ts →
      (take fuel ts).1.Fits ∧ TokensFit (take fuel ts).2) ∧
    (∀ (fuel : Nat) (ts : List Token), TokensFit ts →
      MembersFit (takeMembers fuel ts).1 ∧ TokensFit (takeMembers fuel ts).2.2) ∧
    (∀ (fuel : Nat) (ts : List Token), TokensFit ts →
      AllFit (takeItems fuel ts).1 ∧ TokensFit (takeItems fuel ts).2.2) := by
  apply take.mutual_induct
  case case6 | case8 =>
    intro fuel ts hopen rest closed ts' heq ih hts
    rw [take]
    · simp_all [Fits]
    · exact hopen
  all_goals
    intros
    simp_all [take, takeItems, takeMembers, Fits, AllFit, MembersFit, Token.Fits]

theorem fits_ofTokens (s : String) : (ofTokens (tokens s.toList)).1.Fits :=
  (fits_take.1 _ _ (tokensFit_tokens _)).1

end Draft

/-! ## Readers -/

namespace Reader

variable {α σ : Type}

/-- The results of `read` for documents whose numbers fit satisfy `p`. -/
def Gives (read : Reader α) (p : α → Prop) : Prop := ∀ d x, d.Fits → read d = .ok x → p x

theorem gives_natural (expected : String) : (natural expected).Gives (· < 2 ^ 64) := by
  intro d n hd h
  unfold natural at h
  split at h
  next v =>
    split at h
    · cases h
    · obtain rfl := Except.ok.inj h
      have hv : v < 2 ^ 64 := hd _ rfl
      show v.toNat < 2 ^ 64
      omega
  · cases h

theorem gives_float : float.Gives Binary64.Canonical := by
  intro d x hd h
  unfold float at h
  split at h
  · obtain rfl := Except.ok.inj h
    exact hd _ rfl
  · obtain rfl := Except.ok.inj h
    split
    · exact canonical_neg (canonical_ofNat _)
    · exact canonical_ofNat _
  · cases h

end Reader

namespace RecordShape

variable {α σ : Type} {p : σ → Prop}

/-- Setting the field from a document whose numbers fit preserves `p`. -/
def Keeps (p : σ → Prop) (f : Field σ) : Prop :=
  ∀ d s s', d.Fits → p s → f.fill d s = .ok s' → p s'

theorem keeps_field {q : α → Prop} {read : Reader α} (name : String) (required : Bool)
    {set : α → σ → σ} (hread : read.Gives q) (hset : ∀ v s, q v → p s → p (set v s)) :
    Keeps p (field name required read set) := by
  intro d s s' hd hs h
  rw [field] at h
  cases hv : read d with
  | error m => simp [hv, Except.map] at h
  | ok v =>
    simp only [hv, Except.map, Except.ok.injEq] at h
    exact h ▸ hset v s (hread d v hd hv) hs

theorem keeps_takeMembers {l : RecordShape σ} (hl : ∀ f ∈ l.fields, Keeps p f) (closed : Bool)
    {seen : List String} {s s' : σ} {members : List (Option String × Draft)}
    (hm : Draft.MembersFit members) (hs : p s)
    (h : l.takeMembers closed seen s members = .ok s') : p s' := by
  fun_induction l.takeMembers closed seen s members with
  | case1 | case2 | case4 | case6 | case7 => cases h
  | case3 => exact Except.ok.inj h ▸ hs
  | case5 seen s key d rest hf hw ih => exact ih hm.2 hs h
  | case8 seen s key d rest f hf hseen ih =>
    cases hfill : f.fill d s with
    | error m => simp [hfill, bind, Except.bind] at h
    | ok s₁ =>
      simp only [hfill, bind, Except.bind] at h
      exact ih s₁ hm.2 (hl f (List.mem_of_find?_eq_some hf) d s s₁ hm.1 hs hfill) h

theorem keeps_takeItems {l : RecordShape σ} {closed : Bool} {surplus : Mismatch} {index : Nat}
    {fs : List (Field σ)} (hfs : ∀ f ∈ fs, Keeps p f) {s s' : σ} {ds : List Draft}
    (hds : Draft.AllFit ds) (hs : p s)
    (h : l.takeItems closed surplus index s fs ds = .ok s') : p s' := by
  fun_induction l.takeItems closed surplus index s fs ds with
  | case1 => exact Except.ok.inj h ▸ hs
  | case2 | case3 | case5 | case6 => cases h
  | case4 index s f fs d ds ih =>
    cases hfill : f.fill d s with
    | error m => simp [hfill, bind, Except.bind] at h
    | ok s₁ =>
      simp only [hfill, bind, Except.bind] at h
      obtain ⟨hf, hfs⟩ := List.forall_mem_cons.1 hfs
      exact ih s₁ hfs hds.2 (hf d s s₁ hds.1 hs hfill) h
  | case7 index s f fs hc hr ih => exact ih (List.forall_mem_cons.1 hfs).2 hds hs h

/-- A property of the blank record that all fields preserve holds of every record that is read. -/
theorem gives_record {l : RecordShape σ} (hblank : p l.blank) (hl : ∀ f ∈ l.fields, Keeps p f)
    (surplus : Nat → Mismatch) : (Reader.record l surplus).Gives p := by
  intro d s hd h
  unfold Reader.record at h
  split at h
  · exact keeps_takeMembers hl _ hd hblank h
  · exact keeps_takeItems hl hd hblank h
  · cases h

end RecordShape

end Json

open Json RecordShape

/-! ## Settings -/

/-- The range of the settings that determine the delays. -/
def ConnectionConfig.InRange (c : ConnectionConfig) : Prop :=
  c.maxBackoffMs < 2 ^ 64 ∧ c.backoffFactor.Canonical

theorem ConnectionConfig.inRange_default : ({} : ConnectionConfig).InRange := by
  refine ⟨by decide, ?_⟩
  show twoPow 52 < 2 ^ 53 ∧ minExponent ≤ -51 ∧ -51 ≤ maxExponent
  decide

theorem ConnectionConfig.keeps_inRange :
    ∀ f ∈ ConnectionConfig.shape.fields, Keeps ConnectionConfig.InRange f := by
  have hother {α : Type} (name : String) (read : Reader α)
      (set : α → ConnectionConfig → ConnectionConfig)
      (hset : ∀ v s, (set v s).maxBackoffMs = s.maxBackoffMs ∧
        (set v s).backoffFactor = s.backoffFactor) :
      Keeps InRange (field name false read set) := by
    refine keeps_field name false (q := fun _ => True) (fun _ _ _ _ => trivial) ?_
    intro v s _ hs
    obtain ⟨hmax, hfactor⟩ := hset v s
    exact ⟨hmax ▸ hs.1, hfactor ▸ hs.2⟩
  simp only [shape, List.forall_mem_cons]
  refine ⟨hother _ _ _ fun _ _ => ⟨rfl, rfl⟩, hother _ _ _ fun _ _ => ⟨rfl, rfl⟩,
    hother _ _ _ fun _ _ => ⟨rfl, rfl⟩, hother _ _ _ fun _ _ => ⟨rfl, rfl⟩,
    hother _ _ _ fun _ _ => ⟨rfl, rfl⟩, hother _ _ _ fun _ _ => ⟨rfl, rfl⟩,
    keeps_field _ _ (Reader.gives_natural _) fun v s hv hs => ⟨hv, hs.2⟩,
    keeps_field _ _ Reader.gives_float fun v s hv hs => ⟨hs.1, hv⟩,
    hother _ _ _ fun _ _ => ⟨rfl, rfl⟩, List.forall_mem_nil _⟩

theorem Config.gives_reader : Config.reader.Gives fun c => c.connection.InRange := by
  have hother {α : Type} (name : String) (read : Reader α) (set : α → Config → Config)
      (hset : ∀ v s, (set v s).connection = s.connection) :
      Keeps (fun c : Config => c.connection.InRange) (field name false read set) :=
    keeps_field name false (q := fun _ => True) (fun _ _ _ _ => trivial) fun v s _ hs =>
      hset v s ▸ hs
  have hconnection : (Reader.recordText ConnectionConfig.shape).Gives ConnectionConfig.InRange :=
    gives_record ConnectionConfig.inRange_default ConnectionConfig.keeps_inRange _
  have hblank : Config.shape.blank.connection.InRange := ConnectionConfig.inRange_default
  unfold Config.reader Reader.recordText
  refine gives_record hblank ?_ _
  simp only [shape, List.forall_mem_cons]
  exact ⟨keeps_field _ _ hconnection fun v s hv _ => hv,
    hother _ _ _ fun _ _ => rfl, hother _ _ _ fun _ _ => rfl, hother _ _ _ fun _ _ => rfl,
    List.forall_mem_nil _⟩

/-- A configuration read from a file is valid, and its numbers are in range. -/
theorem Config.ranges_of_ofFile {path : String} {content : FileContent} {c : Config}
    (h : Config.ofFile path content = .ok c) : c.validate = .ok () ∧ c.connection.InRange := by
  obtain ⟨text, htext⟩ : ∃ text, Config.ofText path text = .ok c := by
    unfold Config.ofFile at h
    split at h
    · cases h
    · cases h
    · split at h
      · cases h
      next text _ => exact ⟨text, h⟩
  unfold Config.ofText at htext
  split at htext
  · cases htext
  next c' hread =>
    cases hvalid : c'.validate with
    | error e => simp [hvalid, Except.mapError, Except.map] at htext
    | ok u =>
      simp only [hvalid, Except.mapError, Except.map, Except.ok.injEq] at htext
      subst htext
      refine ⟨hvalid, Config.gives_reader _ _ (Draft.fits_ofTokens text) ?_⟩
      unfold readText at hread
      dsimp only at hread
      split at hread
      next hc _ => exact hc.trans hread
      · cases hread
      · cases hread

end PeerLink
