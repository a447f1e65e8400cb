import PeerLink.Proofs.Connection.Endurance
/-!
# The order of delays

`Backoff.stretches?` cuts the delays that a timer gives at its resets. Each stretch begins with the
minimum, and each later delay of it is the one before grown by the factor, up to the maximum.
Growing is monotone, so a stretch ascends if its second delay is at least its first. The second
delay can be smaller: a delay is grown through floating point seconds, which can lose a nanosecond,
and a factor of one does not make up for it.

## Main definitions

* `Backoff.stretches?`: the delays that a list of uses gives, by stretches.
* `Backoff.Follows`: a delay is the one before it, grown.

## Main statements

* `Backoff.isStretch_of_stretches?`: each list of `Backoff.stretches?` is a stretch.
* `Backoff.IsStretch.le_max`, `Backoff.IsStretch.ascends`: the bound and the order of a stretch.
* `Backoff.delays_of_new`: the delays of every timer and every list of uses, with the condition
  under which no delay is less than the minimum.
-/

namespace PeerLink

open Number Binary64

/-- Growing is monotone. -/
theorem Span.grow?_mono {f : Binary64}
    (hf : f = .infinite false ∨ ∃ (m : Nat) (e : ℤ), f = .finite false m e ∧ 1 ≤ (m : ℚ) * 2 ^ e)
    {d d' g g' : Span} (hd : d.nanos ≤ d'.nanos) (hg : d.grow? f = some g)
    (hg' : d'.grow? f = some g') : g.nanos ≤ g'.nanos := by
  rcases hf with rfl | ⟨m, e, rfl, hone⟩
  · rw [Span.grow?_infinite] at hg
    cases hg
  · rw [Span.grow?_eq d hone, Option.ite_none_right_eq_some, Option.some.injEq] at hg
    rw [Span.grow?_eq d' hone, Option.ite_none_right_eq_some, Option.some.injEq] at hg'
    obtain ⟨-, rfl⟩ := hg
    obtain ⟨-, rfl⟩ := hg'
    exact Span.grownNanos_mono (by linarith) le_rfl hd

namespace Connection.Backoff

variable {b : Backoff}

/-- The delays that the uses draw: those before the first reset, and those of each stretch after a
reset. It is `none` if a delay overflows. -/
def stretches? (b : Backoff) : List Use → Option (List Span × List (List Span))
  | [] => some ([], [])
  | .draw :: us => b.next?.bind fun (delay, grown) =>
      (grown.stretches? us).map fun (first, later) => (delay :: first, later)
  | .rewind :: us => (b.reset.stretches? us).map fun (first, later) => ([], first :: later)

theorem stretches?_draw {delay : Span} {grown : Backoff} (h : b.next? = some (delay, grown))
    (us : List Use) : b.stretches? (.draw :: us) =
      (grown.stretches? us).map fun (first, later) => (delay :: first, later) := by
  rw [stretches?, h]
  rfl

/-- The delay `d'` is `d` grown, up to the maximum. -/
def Follows (b : Backoff) (d d' : Span) : Prop :=
  ∃ grown, d.grow? b.factor = some grown ∧ d' = grown.min b.max

/-- The delays `ds` begin with `start`, and each follows the one before. -/
structure IsStretch (b : Backoff) (start : Span) (ds : List Span) : Prop where
  head : ∀ d ∈ ds.head?, d = start
  follows : ds.IsChain b.Follows

/-- The delays before the first reset begin with the current one, and each stretch after a reset
begins with the minimum. -/
theorem isStretch_of_stretches? {us : List Use} {first : List Span} {later : List (List Span)}
    (h : b.stretches? us = some (first, later)) :
    b.IsStretch b.current first ∧ ∀ ds ∈ later, b.IsStretch b.min ds := by
  induction us generalizing b first later with
  | nil =>
    obtain ⟨rfl, rfl⟩ := Prod.mk.inj (Option.some.inj h)
    exact ⟨⟨by simp, .nil⟩, List.forall_mem_nil _⟩
  | cons u us ih =>
    cases u with
    | rewind =>
      obtain ⟨⟨now, rest⟩, hrest, heq⟩ := Option.map_eq_some_iff.1 h
      obtain ⟨rfl, rfl⟩ := Prod.mk.inj heq
      obtain ⟨hnow, hlater⟩ := ih hrest
      exact ⟨⟨by simp, .nil⟩, List.forall_mem_cons.2 ⟨⟨hnow.head, hnow.follows⟩,
        fun ds hds => ⟨(hlater ds hds).head, (hlater ds hds).follows⟩⟩⟩
    | draw =>
      obtain ⟨⟨delay, grown⟩, hnext, h⟩ := Option.bind_eq_some_iff.1 h
      obtain ⟨⟨rest, rest'⟩, hrest, heq⟩ := Option.map_eq_some_iff.1 h
      obtain ⟨rfl, rfl⟩ := Prod.mk.inj heq
      obtain ⟨longer, hgrow, heq⟩ := Option.map_eq_some_iff.1 hnext
      obtain ⟨rfl, rfl⟩ := Prod.mk.inj heq
      obtain ⟨hnow, hlater⟩ := ih hrest
      refine ⟨⟨by simp, hnow.follows.cons fun d hd => ⟨longer, hgrow, hnow.head d hd⟩⟩, ?_⟩
      exact fun ds hds => ⟨(hlater ds hds).head, (hlater ds hds).follows⟩

namespace IsStretch

variable {start d : Span} {ds : List Span}

theorem tail {d' : Span} (h : b.IsStretch start (d :: d' :: ds)) :
    d = start ∧ b.Follows d d' ∧ b.IsStretch d' (d' :: ds) := by
  obtain ⟨hfollows, hrest⟩ := List.isChain_cons_cons.1 h.follows
  exact ⟨h.head d rfl, hfollows, ⟨by simp, hrest⟩⟩

/-- No delay exceeds the maximum. -/
theorem le_max (h : b.IsStretch start ds) (hstart : start.nanos ≤ b.max.nanos) :
    ∀ d ∈ ds, d.nanos ≤ b.max.nanos := by
  induction ds generalizing start with
  | nil => exact List.forall_mem_nil _
  | cons d ds ih =>
    cases ds with
    | nil => exact List.forall_mem_singleton.2 (h.head d rfl ▸ hstart)
    | cons d' ds =>
      obtain ⟨rfl, ⟨grown, -, rfl⟩, hrest⟩ := h.tail
      exact List.forall_mem_cons.2 ⟨hstart, ih hrest (Nat.min_le_right _ _)⟩

/-- If the first delay is at most its growth, the stretch ascends. -/
theorem ascends
    (hf : b.factor = .infinite false ∨
      ∃ (m : Nat) (e : ℤ), b.factor = .finite false m e ∧ 1 ≤ (m : ℚ) * 2 ^ e)
    (h : b.IsStretch start ds) (hstart : start.nanos ≤ b.max.nanos)
    (hgrow : ∀ grown, start.grow? b.factor = some grown → start.nanos ≤ grown.nanos) :
    ds.Pairwise (·.nanos ≤ ·.nanos) ∧ ∀ d ∈ ds, start.nanos ≤ d.nanos := by
  induction ds generalizing start with
  | nil => exact ⟨.nil, List.forall_mem_nil _⟩
  | cons d ds ih =>
    cases ds with
    | nil =>
      obtain rfl := h.head d rfl
      exact ⟨List.pairwise_singleton _ _, List.forall_mem_singleton.2 le_rfl⟩
    | cons d' ds =>
      obtain ⟨rfl, ⟨grown, hgrown, rfl⟩, hrest⟩ := h.tail
      have hle : d.nanos ≤ (grown.min b.max).nanos := Nat.le_min.2 ⟨hgrow grown hgrown, hstart⟩
      -- the second delay is grown to no less than the first one, which is no less than itself
      obtain ⟨hpairs, hlow⟩ := ih hrest (Nat.min_le_right _ _) fun longer hlonger =>
        (Nat.min_le_left _ _).trans (Span.grow?_mono hf hle hgrown hlonger)
      have hlow : ∀ d' ∈ grown.min b.max :: ds, d.nanos ≤ d'.nanos := fun d' hd' =>
        hle.trans (hlow d' hd')
      exact ⟨.cons hlow hpairs, List.forall_mem_cons.2 ⟨le_rfl, hlow⟩⟩

end IsStretch

/-- If the minimum is greater than its growth, the growth is the second delay. -/
theorem stretches?_of_grow? {min max grown : Span} {factor : Binary64}
    (hgrow : min.grow? (new min max factor).factor = some grown)
    (hlt : grown.nanos < min.nanos) :
    ∃ d, (new min max factor).stretches? [.draw, .draw] = some ([min, d], []) ∧
      d.nanos < min.nanos := by
  have hshorter : (grown.min (max.max min)).nanos < min.nanos :=
    (Nat.min_le_left _ _).trans_lt hlt
  obtain ⟨again, hagain⟩ : ∃ again, (grown.min (max.max min)).grow? (new min max factor).factor =
      some again := by
    rcases factor_new min max factor with hf | ⟨m, e, hf, hone⟩
    · rw [hf, Span.grow?_infinite] at hgrow
      cases hgrow
    · rw [hf] at hgrow ⊢
      refine Option.isSome_iff_exists.1 (Span.isSome_grow?_of_le hshorter.le hone le_rfl ?_)
      rw [hgrow]
      rfl
  refine ⟨grown.min (max.max min), ?_, hshorter⟩
  have hfirst : (new min max factor).next? =
      some (min, { new min max factor with current := grown.min (max.max min) }) := by
    rw [next?, show (new min max factor).current.grow? _ = _ from hgrow]
    rfl
  have hsecond : ({ new min max factor with current := grown.min (max.max min) } : Backoff).next? =
      some (grown.min (max.max min),
        { new min max factor with current := again.min (max.max min) }) := by
    rw [next?, show (grown.min (max.max min)).grow? (new min max factor).factor = _ from hagain]
    rfl
  rw [stretches?_draw hfirst, stretches?_draw hsecond, stretches?, Option.map_some, Option.map_some]

/-- `Backoff.new` keeps a factor above one. -/
theorem factor_new_of_one_lt (min max : Span) {factor : Binary64} (hc : factor.Canonical) {q : ℚ}
    (hq : Reads factor q) (hlt : 1 < q) :
    (new min max factor).factor = .infinite false ∨ ∃ (m : Nat) (e : ℤ),
      (new min max factor).factor = .finite false m e ∧ m < 2 ^ 53 ∧ 1 < (m : ℚ) * 2 ^ e := by
  match factor, hq with
  | .infinite false, _ => exact .inl rfl
  | .finite false m e, ⟨hq, _⟩ =>
    rw [← hq] at hlt
    have hone : (finite false m e).ltNat 1 = false := ltNat_eq_false_iff.2 (by simpa using hlt.le)
    exact .inr ⟨m, e, by simp [new, hone], hc.1, hlt⟩

/-- For every list of uses in which no delay overflows: each stretch begins with the minimum, each
later delay is the one before grown by the factor, and none exceeds the maximum. Every stretch
ascends from the minimum iff the minimum is at most its growth. This holds for every factor above
one, and for every other factor if the minimum is less than `2 ^ 23` seconds. -/
theorem delays_of_new (min max : Span) (factor : Binary64) :
    let b := new min max factor
    (∀ us first later, b.stretches? us = some (first, later) → ∀ ds ∈ first :: later,
      (∀ d ∈ ds.head?, d = min) ∧ ds.IsChain b.Follows ∧
        ∀ d ∈ ds, d.nanos ≤ (max.max min).nanos) ∧
    ((∀ us first later, b.stretches? us = some (first, later) → ∀ ds ∈ first :: later,
      ds.Pairwise (·.nanos ≤ ·.nanos) ∧ ∀ d ∈ ds, min.nanos ≤ d.nanos) ↔
        ∀ grown, min.grow? b.factor = some grown → min.nanos ≤ grown.nanos) ∧
    ((min.nanos < 2 ^ 23 * Span.second ∨ factor.Canonical ∧ ∃ q, Reads factor q ∧ 1 < q) →
      ∀ grown, min.grow? b.factor = some grown → min.nanos ≤ grown.nanos) := by
  intro b
  have hmin : min.nanos ≤ b.max.nanos := Nat.le_max_right _ _
  have hstretch {us : List Use} {first : List Span} {later : List (List Span)}
      (h : b.stretches? us = some (first, later)) : ∀ ds ∈ first :: later, b.IsStretch min ds :=
    List.forall_mem_cons.2 (isStretch_of_stretches? h)
  refine ⟨fun us first later h ds hds => ?_, ⟨fun h grown hgrow => ?_, ?_⟩, ?_⟩
  · have hds := hstretch h ds hds
    exact ⟨hds.head, hds.follows, hds.le_max hmin⟩
  · by_contra hlt
    obtain ⟨d, hdraws, hd⟩ := stretches?_of_grow? hgrow (not_le.1 hlt)
    have hle := (h _ _ _ hdraws _ List.mem_cons_self).2 d (by simp)
    exact absurd hd (not_lt.2 hle)
  · exact fun hgrow us first later h ds hds =>
      (hstretch h ds hds).ascends (factor_new min max factor) hmin hgrow
  · rintro hcase grown hgrow
    have hnanos {m : Nat} {e : ℤ} (hf : b.factor = .finite false m e) (hone : 1 ≤ (m : ℚ) * 2 ^ e) :
        grown.nanos = Span.grownNanos (m * 2 ^ e) min.nanos := by
      rw [hf, Span.grow?_eq min hone, Option.ite_none_right_eq_some, Option.some.injEq] at hgrow
      rw [← hgrow.2]
    have hnone (hf : b.factor = .infinite false) : False := by
      rw [hf, Span.grow?_infinite] at hgrow
      cases hgrow
    rcases hcase with hshort | ⟨hcanonical, q, hq, hlt⟩
    · rcases factor_new min max factor with hf | ⟨m, e, hf, hone⟩
      · exact (hnone hf).elim
      · rw [hnanos hf hone]
        exact Span.le_grownNanos_of_lt hone hshort
    · rcases factor_new_of_one_lt min max hcanonical hq hlt with hf | ⟨m, e, hf, hm, hone⟩
      · exact (hnone hf).elim
      · rw [hnanos hf hone.le]
        exact Span.le_grownNanos_of_one_lt hm hone min.nanos

/-- The second delay is twice the first, and after a reset the minimum is drawn again. -/
theorem delays_of_new_demo :
    let b := new (.ofSeconds 1) (.ofSeconds 8) (.ofNat 2)
    b.stretches? [.draw, .draw, .rewind, .draw] =
      some ([.ofSeconds 1, .ofSeconds 2], [[.ofSeconds 1]]) ∧
    [Span.ofSeconds 1, .ofSeconds 2].Pairwise (·.nanos ≤ ·.nanos) := by
  intro b
  have hdraws : b.stretches? [.draw, .draw, .rewind, .draw] =
      some ([.ofSeconds 1, .ofSeconds 2], [[.ofSeconds 1]]) := by decide +kernel
  have htwo : Reads (ofNat 2) 2 := by
    have h := reads_ofNat 2
    rwa [(representable_natCast (by decide)).rounded_eq] at h
  obtain ⟨-, hascends, hgrow⟩ := delays_of_new (.ofSeconds 1) (.ofSeconds 8) (.ofNat 2)
  have hgrow := hgrow (.inr ⟨canonical_ofNat 2, 2, htwo, by norm_num⟩)
  exact ⟨hdraws, (hascends.2 hgrow _ _ _ hdraws _ List.mem_cons_self).1⟩

/-- A factor of one, with a minimum and a maximum of 8388608.006 seconds. -/
def steady : ConnectionConfig :=
  { url := "http://demo", minBackoffMs := 8388608006, maxBackoffMs := 8388608006,
    backoffFactor := .ofNat 1 }

/-- The configuration is valid, and the second delay is a nanosecond less than the minimum. -/
theorem dwindles_of_factor_one :
    Config.validate { connection := steady } = .ok () ∧
    (ofConfig steady).min.nanos = 8388608006000000 ∧
    (ofConfig steady).stretches? [.draw, .draw] =
      some ([⟨8388608006000000⟩, ⟨8388608005999999⟩], []) ∧
    ¬∀ us first later, (ofConfig steady).stretches? us = some (first, later) →
      ∀ ds ∈ first :: later, ds.Pairwise (·.nanos ≤ ·.nanos) ∧
        ∀ d ∈ ds, (ofConfig steady).min.nanos ≤ d.nanos := by
  have hdraws : (ofConfig steady).stretches? [.draw, .draw] =
      some ([⟨8388608006000000⟩, ⟨8388608005999999⟩], []) := by decide +kernel
  refine ⟨by decide +kernel, by decide +kernel, hdraws, fun h => ?_⟩
  have hle := (h _ _ _ hdraws _ List.mem_cons_self).2 ⟨8388608005999999⟩ (by simp)
  exact absurd hle (by decide +kernel)

end Connection.Backoff

end PeerLink
