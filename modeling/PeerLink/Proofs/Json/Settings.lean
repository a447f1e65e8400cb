import PeerLink.Proofs.Json.Compact
import PeerLink.Proofs.Json.Records
/-!
# Records with default values

If no field of a record is required, an object needs to name only the fields that differ from the
blank record. The fields may be in any order, with unknown members among them. A field that is not
named has the value of the blank.

## Main definitions

* `Place`: a field of a record with its reader and its writer.
* `Settings`: the fields of a record.
* `Settings.Names`: a document that names the fields that differ from the blank.

## Main statements

* `Settings.read_of_names`: the record read from such a document.
* `Settings.names_json`: the object of all fields is such a document.
-/

namespace PeerLink.Json

/-! ## Places -/

/-- A field of a record, with its reader and its writer. -/
structure Place (σ : Type) where
  {Value : Type}
  name : String
  get : σ → Value
  set : Value → σ → σ
  read : Reader Value
  json : Value → Json
  /-- The documents of a value. -/
  Is : Value → Draft → Prop
  get_set : ∀ v s, get (set v s) = v
  read_eq : ∀ v d, d.isWhole = true → Is v d → read d = .ok v
  is_json : ∀ v, Is v (json v).draft

namespace Place

variable {σ : Type}

/-- The field of a place. -/
def field (p : Place σ) : Field σ := RecordShape.field p.name false p.read p.set

/-- Two places have different names, and their setters do not interfere. -/
@[mk_iff] structure Apart (p q : Place σ) : Prop where
  name : p.name ≠ q.name
  get_set : ∀ v s, q.get (p.set v s) = q.get s
  set_get : ∀ v s, p.get (q.set v s) = p.get s

theorem Apart.symm {p q : Place σ} (h : p.Apart q) : q.Apart p :=
  ⟨h.name.symm, h.set_get, h.get_set⟩

instance : Std.Symm (Apart : Place σ → Place σ → Prop) := ⟨fun _ _ => Apart.symm⟩

theorem fill_field (p : Place σ) {v : p.Value} {d : Draft} (hd : d.isWhole = true) (h : p.Is v d)
    (s : σ) : p.field.fill d s = .ok (p.set v s) := by
  show (p.read d).map _ = _
  rw [p.read_eq v d hd h]
  rfl

/-! ## Members for a place -/

/-- The members name the place at most once, with the value of `c`, and they do so if this value
differs from the blank. -/
@[mk_iff] structure Named (p : Place σ) (c blank : σ) (members : List (String × Draft)) : Prop where
  once : (members.map Prod.fst).count p.name ≤ 1
  given : ∀ d, (p.name, d) ∈ members → p.Is (p.get c) d
  named : p.get c ≠ p.get blank → p.name ∈ members.map Prod.fst

/-- The state of a place during reading: it has been named and is not named again, or it has not
been named yet. -/
inductive Stage (p : Place σ) (c blank : σ) (seen : List String) (s : σ)
    (members : List (String × Draft)) : Prop
  | past (hseen : p.name ∈ seen) (hget : p.get s = p.get c) (hmem : p.name ∉ members.map Prod.fst)
  | ahead (hseen : p.name ∉ seen) (hget : p.get s = p.get blank) (hnamed : p.Named c blank members)

namespace Stage

variable {p : Place σ} {c blank s s' : σ} {seen seen' : List String} {key : String} {d : Draft}
  {members : List (String × Draft)}

theorem get_eq (h : p.Stage c blank seen s []) : p.get s = p.get c := by
  cases h with
  | past _ hget => exact hget
  | ahead _ hget hnamed =>
    rw [hget]
    by_contra hne
    exact List.not_mem_nil (hnamed.named (Ne.symm hne))

/-- A member of another name preserves `Stage`. -/
theorem pass (h : p.Stage c blank seen s ((key, d) :: members)) (hne : p.name ≠ key)
    (hseen : p.name ∈ seen' ↔ p.name ∈ seen) (hget : p.get s' = p.get s) :
    p.Stage c blank seen' s' members := by
  cases h with
  | past hin heq hmem =>
    exact .past (hseen.2 hin) (hget.trans heq) fun h => hmem (List.mem_cons_of_mem _ h)
  | ahead hout heq hnamed =>
    refine .ahead (mt hseen.1 hout) (hget.trans heq)
      ⟨?_, fun d hd => hnamed.given d (List.mem_cons_of_mem _ hd), fun h => ?_⟩
    · have honce := hnamed.once
      rwa [List.map_cons, List.count_cons_of_ne (Ne.symm hne)] at honce
    · exact (List.mem_cons.1 (hnamed.named h)).resolve_left hne

/-- A member for the place has its value, and no later member names the place. -/
theorem take (h : p.Stage c blank seen s ((p.name, d) :: members)) : p.name ∉ seen ∧
    p.Is (p.get c) d ∧ p.Stage c blank (p.name :: seen) (p.set (p.get c) s) members := by
  cases h with
  | past _ _ hmem => exact absurd List.mem_cons_self hmem
  | ahead hout _ hnamed =>
    refine ⟨hout, hnamed.given d List.mem_cons_self, .past List.mem_cons_self (p.get_set _ _) ?_⟩
    have honce := hnamed.once
    rw [List.map_cons, List.count_cons_self] at honce
    exact List.count_eq_zero.1 (by omega)

end Stage

end Place

/-- The places of a record. -/
structure Settings {σ : Type} (l : RecordShape σ) where
  places : List (Place σ)
  fields_eq : l.fields = places.map Place.field
  apart : places.Pairwise Place.Apart
  ext : ∀ s s' : σ, (∀ p ∈ places, p.get s = p.get s') → s = s'

namespace Settings

variable {σ : Type} {l : RecordShape σ} {S : Settings l} {c : σ}

/-- `d` is an object that names fields of `c` with their values, each at most once, in any order and
among unknown members, and at least the fields in which `c` differs from the blank. -/
def Names (S : Settings l) (c : σ) (d : Draft) : Prop :=
  ∃ members, d = .object (keyed members) true ∧ ∀ p ∈ S.places, p.Named c l.blank members

/-- A field is looked up by the name of its place. -/
theorem find?_fields (S : Settings l) (key : String) :
    l.fields.find? (·.name == key) = (S.places.find? (·.name == key)).map Place.field := by
  rw [S.fields_eq, List.find?_map]
  rfl

/-- No field is missing. -/
theorem missing?_eq_none (S : Settings l) (seen : List String) : l.missing? seen = none := by
  rw [RecordShape.missing?, S.fields_eq, Option.map_eq_none_iff, List.find?_eq_none]
  rintro f hf
  obtain ⟨p, -, rfl⟩ := List.mem_map.1 hf
  simp [Place.field, RecordShape.field]

/-- Reading the members gives the record, if every place is at a `Stage`. -/
theorem takeMembers_of_stage {members : List (String × Draft)} {seen : List String} {s : σ}
    (h : ∀ p ∈ S.places, p.Stage c l.blank seen s members)
    (hwhole : ∀ m ∈ members, m.2.isWhole = true) :
    l.takeMembers true seen s (keyed members) = .ok c := by
  induction members generalizing seen s with
  | nil =>
    have heq : s = c := S.ext s c fun p hp => (h p hp).get_eq
    rw [keyed, List.map_nil, RecordShape.takeMembers, S.missing?_eq_none, heq]
    rfl
  | cons m members ih =>
    obtain ⟨key, d⟩ := m
    obtain ⟨hd, hrest⟩ := List.forall_mem_cons.1 hwhole
    have hfield := S.find?_fields key
    cases hfind : S.places.find? (·.name == key) with
    | none =>
      rw [hfind] at hfield
      refine (RecordShape.takeMembers_unknown hfield).2 ⟨hd, ih (fun p hp => ?_) hrest⟩
      have hne : p.name ≠ key := by simpa using List.find?_eq_none.1 hfind p hp
      exact (h p hp).pass hne Iff.rfl rfl
    | some p =>
      rw [hfind] at hfield
      have hp : p ∈ S.places := List.mem_of_find?_eq_some hfind
      obtain rfl : p.name = key := by simpa using List.find?_some hfind
      obtain ⟨hseen, his, hpast⟩ := (h p hp).take
      refine (RecordShape.takeMembers_known hfield).2
        ⟨hseen, bind_eq_ok.2 ⟨_, p.fill_field hd his s, ih (fun q hq => ?_) hrest⟩⟩
      by_cases hqp : q = p
      · exact hqp ▸ hpast
      · have hapart := S.apart.forall hp hq (Ne.symm hqp)
        have hne : q.name ≠ p.name := hapart.name.symm
        exact (h q hq).pass hne (by simp [hne]) (hapart.get_set _ _)

/-- A document that names the fields that differ from the blank is read as the record. -/
theorem read_of_names {d : Draft} (h : S.Names c d) (hd : d.isWhole = true) :
    Reader.recordText l d = .ok c := by
  obtain ⟨members, rfl, hnamed⟩ := h
  exact takeMembers_of_stage (fun p hp => .ahead List.not_mem_nil rfl (hnamed p hp))
    (membersWhole_keyed hd)

/-! ## Writing -/

theorem memberDrafts_eq (members : List (String × Json)) :
    memberDrafts members = keyed (members.map fun m => (m.1, m.2.draft)) := by
  induction members with
  | nil => rfl
  | cons m members ih =>
    rw [memberDrafts, ih]
    rfl

/-- The object of all fields of a record. It is irreducible, since evaluating it sorts the
fields. -/
@[irreducible] def json (S : Settings l) (c : σ) : Json :=
  .ofMembers (S.places.map fun p => (p.name, p.json (p.get c)))

theorem nodup_keys (S : Settings l) (c : σ) :
    ((S.places.map fun p => (p.name, p.json (p.get c))).map Prod.fst).Nodup := by
  rw [List.map_map]
  exact List.pairwise_map.2 (S.apart.imp Place.Apart.name)

/-- The object of all fields names every field with its value. -/
theorem names_json (S : Settings l) (c : σ) : S.Names c (S.json c).draft := by
  obtain ⟨sorted, hjson, hperm⟩ := ofMembers_perm (S.nodup_keys c)
  have hkeys : (sorted.map fun m => (m.1, m.2.draft)).map Prod.fst = sorted.map Prod.fst := by
    rw [List.map_map]
    rfl
  refine ⟨sorted.map fun m => (m.1, m.2.draft), ?_, fun p hp => ⟨?_, fun d hd => ?_, fun _ => ?_⟩⟩
  · rw [json, hjson, draft, memberDrafts_eq]
  · rw [hkeys]
    exact List.nodup_iff_count.1 ((hperm.map Prod.fst).nodup_iff.2 (S.nodup_keys c)) _
  · obtain ⟨⟨key, v⟩, hm, heq⟩ := List.mem_map.1 hd
    obtain ⟨rfl, rfl⟩ := Prod.mk.inj heq
    obtain ⟨q, hq, heq⟩ := List.mem_map.1 (hperm.mem_iff.1 hm)
    obtain ⟨hname, rfl⟩ := Prod.mk.inj heq
    obtain rfl : q = p := by
      by_contra hne
      exact (S.apart.forall hq hp hne).name hname
    exact q.is_json _
  · rw [hkeys, (hperm.map Prod.fst).mem_iff, List.map_map]
    exact List.mem_map_of_mem hp

/-- The object of all fields is read back if every field is. -/
theorem readsBack_json (h : ∀ p ∈ S.places, (p.json (p.get c)).ReadsBack) :
    (S.json c).ReadsBack := by
  obtain ⟨sorted, hjson, hperm⟩ := ofMembers_perm (S.nodup_keys c)
  rw [json, hjson]
  refine membersReadBack_iff.2 fun m hm => ?_
  obtain ⟨p, hp, rfl⟩ := List.mem_map.1 (hperm.mem_iff.1 hm)
  exact h p hp

end Settings

/-! ## Places of plain values -/

namespace Place

variable {σ : Type} (name : String)

/-- The place of a text. -/
def text (get : σ → String) (set : String → σ → σ) (get_set : ∀ v s, get (set v s) = v) :
    Place σ where
  name := name
  get := get
  set := set
  read := Reader.text
  json := .text
  Is v d := d = .text (some v)
  get_set := get_set
  read_eq := by rintro v _ - rfl; rfl
  is_json _ := rfl

/-- The place of a Boolean. -/
def bool (get : σ → Bool) (set : Bool → σ → σ) (get_set : ∀ v s, get (set v s) = v) :
    Place σ where
  name := name
  get := get
  set := set
  read := Reader.bool
  json := .bool
  Is v d := d = .bool v
  get_set := get_set
  read_eq := by rintro v _ - rfl; rfl
  is_json _ := rfl

/-- The place of a natural number. -/
def natural (expected : String) (get : σ → Nat) (set : Nat → σ → σ)
    (get_set : ∀ v s, get (set v s) = v) : Place σ where
  name := name
  get := get
  set := set
  read := Reader.natural expected
  json n := .number (.int n)
  Is v d := d = .number (some (.int v))
  get_set := get_set
  read_eq := by
    rintro v _ - rfl
    simp [Reader.natural]
  is_json _ := rfl

/-- The place of a floating point number, which may be given as an integer. -/
def float (get : σ → PeerLink.Number.Binary64) (set : PeerLink.Number.Binary64 → σ → σ)
    (get_set : ∀ v s, get (set v s) = v) : Place σ where
  name := name
  get := get
  set := set
  read := Reader.float
  json x := .number (.float x)
  Is x d := d = .number (some (.float x)) ∨
    ∃ n : Nat, d = .number (some (.int n)) ∧ .ofNat n = x
  get_set := get_set
  read_eq := by
    rintro x _ - (rfl | ⟨n, rfl, rfl⟩)
    · rfl
    · simp [Reader.float]
  is_json _ := .inl rfl

/-- The place of a record with default values. -/
def record {τ : Type} {l : RecordShape τ} (S : Settings l) (get : σ → τ) (set : τ → σ → σ)
    (get_set : ∀ v s, get (set v s) = v) : Place σ where
  name := name
  get := get
  set := set
  read := Reader.recordText l
  json := S.json
  Is := S.Names
  get_set := get_set
  read_eq _ _ hd h := S.read_of_names h hd
  is_json := S.names_json

end Place

end PeerLink.Json
