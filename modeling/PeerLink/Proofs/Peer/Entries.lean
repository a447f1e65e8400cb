import Mathlib.Data.List.Induction
import PeerLink.Peer.Script
/-!
# The entries of a script

The replies of a script are stored under keys, which are prefixes of addresses, in no particular
order. No key occurs twice. Of the keys that are prefixes of an address the longest is used, and it
is unique, since prefixes of equal length are equal.

## Main definitions

* `Script.Begins`: a key is a prefix of an address.
* `Script.IsBest`: the longest key that is a prefix of an address.

## Main statements

* `Script.bestKey_eq_some_iff`: `Script.bestKey` is the longest key.
* `Script.bestKey_congr`: it does not depend on the order of the keys.
-/

namespace PeerLink.Peer.Script

/-! ## Entries -/

section Entries

variable {α : Type} {key k : String} {value : α} {es es' : List (String × α)}

theorem lookup_cons_eq_ite (name : String) (v : α) (es : List (String × α)) (k : String) :
    ((name, v) :: es).lookup k = if k = name then some v else es.lookup k := by
  rw [List.lookup_cons]
  split
  next h => rw [if_pos (beq_iff_eq.1 h)]
  next h => rw [if_neg (beq_eq_false_iff_ne.1 h)]

theorem lookup_setEntry (key k : String) (value : α) (es : List (String × α)) :
    (setEntry key value es).lookup k = if k = key then some value else es.lookup k := by
  induction es with
  | nil => exact lookup_cons_eq_ite key value [] k
  | cons e rest ih =>
    obtain ⟨name, v⟩ := e
    rw [setEntry, lookup_cons_eq_ite]
    split
    next hname =>
      subst hname
      rw [lookup_cons_eq_ite]
      split <;> rfl
    next hname =>
      rw [lookup_cons_eq_ite, ih]
      split
      next hk => rw [if_neg (hk ▸ hname)]
      · rfl

theorem mem_keys_iff : k ∈ es.map Prod.fst ↔ (es.lookup k).isSome = true := by
  rw [List.lookup_isSome_iff, List.mem_map]
  exact exists_congr fun e => and_congr_right fun _ => by rw [beq_iff_eq, eq_comm]

theorem mem_keys_setEntry : k ∈ (setEntry key value es).map Prod.fst ↔
    k = key ∨ k ∈ es.map Prod.fst := by
  rw [mem_keys_iff, mem_keys_iff, lookup_setEntry]
  split <;> simp_all

/-- No key occurs twice. -/
theorem nodup_setEntry (h : (es.map Prod.fst).Nodup) :
    ((setEntry key value es).map Prod.fst).Nodup := by
  induction es with
  | nil => simp [setEntry]
  | cons e rest ih =>
    obtain ⟨hname, hrest⟩ := List.nodup_cons.1 h
    rw [setEntry]
    split
    next heq => exact heq ▸ h
    next hne =>
      refine List.nodup_cons.2 ⟨fun hm => ?_, ih hrest⟩
      exact (mem_keys_setEntry.1 hm).elim hne hname

/-- If no key occurs twice, looking up the key of an entry gives its value. -/
theorem mem_iff_lookup (h : (es.map Prod.fst).Nodup) :
    (key, value) ∈ es ↔ es.lookup key = some value := by
  induction es with
  | nil => simp
  | cons e rest ih =>
    obtain ⟨name, v⟩ := e
    obtain ⟨hname, hrest⟩ := List.nodup_cons.1 h
    rw [lookup_cons_eq_ite, List.mem_cons, ih hrest]
    split
    next hk =>
      subst hk
      have hnot : rest.lookup key ≠ some value := fun hv =>
        hname (mem_keys_iff.2 (Option.isSome_of_eq_some hv))
      simp [hnot, eq_comm]
    next hk => simp [hk]

theorem lookup_perm (hperm : es.Perm es') (h : (es.map Prod.fst).Nodup) (k : String) :
    es.lookup k = es'.lookup k :=
  Option.ext fun value => by
    rw [← mem_iff_lookup h, ← mem_iff_lookup ((hperm.map _).nodup_iff.1 h), hperm.mem_iff]

end Entries

/-! ## The longest prefix -/

section BestKey

variable {url key k : String} {keys keys' : List String}

/-- The key is a prefix of the address. -/
def Begins (key url : String) : Prop := key.toList <+: url.toList

theorem beginsWith_iff : Text.beginsWith key url = true ↔ Begins key url := by
  simp only [Text.beginsWith, Option.isSome_iff_exists, Text.dropPrefix?_eq_some_iff]
  exact ⟨fun ⟨rest, h⟩ => ⟨rest, h.symm⟩, fun ⟨rest, h⟩ => ⟨rest, h.symm⟩⟩

/-- Two prefixes of an address of equal length are equal. -/
theorem Begins.eq_of_length (h : Begins key url) (h' : Begins k url)
    (hlength : key.length = k.length) : key = k := by
  rw [← String.length_toList, ← String.length_toList] at hlength
  have hstart := List.prefix_of_prefix_length_le h h' (Nat.le_of_eq hlength)
  exact String.toList_inj.1 (hstart.eq_of_length hlength)

/-- `key` is the longest of `keys` that is a prefix of `url`. -/
structure IsBest (url : String) (keys : List String) (key : String) : Prop where
  mem : key ∈ keys
  begins : Begins key url
  longest : ∀ k ∈ keys, Begins k url → k.length ≤ key.length

theorem IsBest.eq (h : IsBest url keys key) (h' : IsBest url keys k) : key = k :=
  h.begins.eq_of_length h'.begins
    (Nat.le_antisymm (h'.longest key h.mem h.begins) (h.longest k h'.mem h'.begins))

theorem bestKey_concat (url : String) (keys : List String) (k : String) :
    bestKey url (keys ++ [k]) = if Text.beginsWith k url then
      match bestKey url keys with
      | some b => if b.length ≤ k.length then some k else some b
      | none => some k
    else bestKey url keys := by
  rw [bestKey, List.foldl_append]
  simp only [List.foldl_cons, List.foldl_nil]
  rw [← bestKey]
  split
  · cases bestKey url keys <;> rfl
  · rfl

theorem isBest_concat : IsBest url (keys ++ [k]) key ↔
    (IsBest url keys key ∧ (Begins k url → k.length ≤ key.length)) ∨
      (key = k ∧ Begins k url ∧ ∀ x ∈ keys, Begins x url → x.length ≤ k.length) := by
  constructor
  · rintro ⟨hmem, hbegins, hlongest⟩
    have hkeys : ∀ x ∈ keys, Begins x url → x.length ≤ key.length := fun x hx =>
      hlongest x (List.mem_append_left _ hx)
    rcases List.mem_append.1 hmem with hm | hm
    · exact .inl ⟨⟨hm, hbegins, hkeys⟩, hlongest k (by simp)⟩
    · obtain rfl := List.mem_singleton.1 hm
      exact .inr ⟨rfl, hbegins, hkeys⟩
  · rintro (⟨⟨hmem, hbegins, hlongest⟩, hk⟩ | ⟨rfl, hbegins, hlongest⟩)
    · refine ⟨List.mem_append_left _ hmem, hbegins, ?_⟩
      simpa [or_imp, forall_and] using ⟨hlongest, hk⟩
    · refine ⟨List.mem_append_right _ (List.mem_singleton_self _), hbegins, ?_⟩
      simpa [or_imp, forall_and] using hlongest

/-- `bestKey` is the longest key that is a prefix of the address, if there is one. -/
theorem bestKey_spec (url : String) (keys : List String) : match bestKey url keys with
    | some key => IsBest url keys key
    | none => ∀ k ∈ keys, ¬Begins k url := by
  induction keys using List.reverseRecOn with
  | nil => exact nofun
  | append_singleton keys k ih =>
    rw [bestKey_concat]
    by_cases hk : Begins k url
    · rw [if_pos (beginsWith_iff.2 hk)]
      cases hb : bestKey url keys with
      | none =>
        rw [hb] at ih
        exact isBest_concat.2 (.inr ⟨rfl, hk, fun x hx h => absurd h (ih x hx)⟩)
      | some b =>
        rw [hb] at ih
        by_cases hle : b.length ≤ k.length
        · have hlongest : ∀ x ∈ keys, Begins x url → x.length ≤ k.length := fun x hx h =>
            Nat.le_trans (ih.longest x hx h) hle
          simpa [hle] using isBest_concat.2 (.inr ⟨rfl, hk, hlongest⟩)
        · simpa [hle] using isBest_concat.2 (.inl ⟨ih, fun _ => Nat.le_of_not_le hle⟩)
    · rw [if_neg (mt beginsWith_iff.1 hk)]
      cases hb : bestKey url keys with
      | none =>
        rw [hb] at ih
        simpa [or_imp, forall_and] using ⟨ih, hk⟩
      | some b =>
        rw [hb] at ih
        exact isBest_concat.2 (.inl ⟨ih, fun h => absurd h hk⟩)

theorem bestKey_eq_some_iff : bestKey url keys = some key ↔ IsBest url keys key := by
  have hspec := bestKey_spec url keys
  constructor
  · intro h
    rwa [h] at hspec
  · intro h
    cases hb : bestKey url keys with
    | none =>
      rw [hb] at hspec
      exact absurd h.begins (hspec key h.mem)
    | some b =>
      rw [hb] at hspec
      rw [h.eq hspec]

theorem bestKey_eq_none_iff : bestKey url keys = none ↔ ∀ k ∈ keys, ¬Begins k url := by
  have hspec := bestKey_spec url keys
  constructor
  · intro h
    rwa [h] at hspec
  · intro h
    cases hb : bestKey url keys with
    | none => rfl
    | some b =>
      rw [hb] at hspec
      exact absurd hspec.begins (h b hspec.mem)

/-- `bestKey` depends only on the set of keys. -/
theorem bestKey_congr (h : ∀ k, k ∈ keys ↔ k ∈ keys') : bestKey url keys = bestKey url keys' :=
  Option.ext fun key => by
    rw [bestKey_eq_some_iff, bestKey_eq_some_iff]
    exact ⟨fun hb => ⟨(h key).1 hb.mem, hb.begins, fun k hk => hb.longest k ((h k).2 hk)⟩,
      fun hb => ⟨(h key).2 hb.mem, hb.begins, fun k hk => hb.longest k ((h k).1 hk)⟩⟩

end BestKey

end PeerLink.Peer.Script
