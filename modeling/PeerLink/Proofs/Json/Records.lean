import Mathlib.Data.List.Pairwise
import PeerLink.Json.Shape
/-!
# Records read from objects

The members of an object may be in any order, with unknown members among them. If any two fields of
a record commute, the record read from an object does not depend on this order.

## Main definitions

* `Draft.HasFields`: an object with the given members for the known names.
* `RecordShape.Independent`: any two fields of the record commute.
* `RecordShape.Stores`: the record stores a field.

## Main statements

* `RecordShape.takeMembers_perm`: the order of the members has no effect.
* `RecordShape.takeMembers_filter`: unknown members have no effect.
* `Draft.HasFields.record`: the record of an object with the given members.
* `RecordShape.Stores.lookup`: the record stores the value of the member.
-/

namespace PeerLink.Json

section Except

variable {ε α β : Type}

theorem bind_eq_ok {x : Except ε α} {f : α → Except ε β} {b : β} :
    (x >>= f) = .ok b ↔ ∃ a, x = .ok a ∧ f a = .ok b := by
  cases x <;> simp [Bind.bind, Except.bind]

theorem map_eq_ok {x : Except ε α} {f : α → β} {b : β} :
    x.map f = .ok b ↔ ∃ a, x = .ok a ∧ f a = b := by
  cases x <;> simp [Except.map]

end Except

/-- Members whose keys are texts. -/
def keyed (members : List (String × Draft)) : List (Option String × Draft) :=
  members.map fun (key, d) => (some key, d)

/-- `d` is an object whose members with these names are the given ones, in any order and among any
others. -/
def Draft.HasFields (names : List String) (given : List (String × Draft)) (d : Draft) : Prop :=
  ∃ members, d = .object (keyed members) true ∧ (members.filter (·.1 ∈ names)).Perm given

theorem Draft.hasFields_keyed {names : List String} {given : List (String × Draft)}
    (h : ∀ m ∈ given, m.1 ∈ names) : Draft.HasFields names given (.object (keyed given) true) :=
  ⟨given, rfl, by rw [List.filter_eq_self.2 fun m hm => decide_eq_true (h m hm)]⟩

/-- The fields may be set in either order. -/
def Field.Commutes {σ : Type} (f g : Field σ) : Prop :=
  ∀ d e s s', (f.fill d s >>= g.fill e) = .ok s' ↔ (g.fill e s >>= f.fill d) = .ok s'

instance {σ : Type} : Std.Symm (Field.Commutes : Field σ → Field σ → Prop) :=
  ⟨fun _ _ h d e s s' => (h e d s s').symm⟩

namespace RecordShape

variable {σ : Type} {l : RecordShape σ}

/-- The names of the fields. -/
def names (l : RecordShape σ) : List String := l.fields.map Field.name

/-- The fields of the record may be set in any order. -/
def Independent (l : RecordShape σ) : Prop := l.fields.Pairwise Field.Commutes

/-- Two fields commute if their setters do. -/
theorem field_commutes {α β : Type} {name name' : String} {required required' : Bool}
    {read : Reader α} {read' : Reader β} {set : α → σ → σ} {set' : β → σ → σ}
    (h : ∀ v w s, set' w (set v s) = set v (set' w s)) :
    (field name required read set).Commutes (field name' required' read' set') := by
  intro d e s s'
  simp only [field, bind_eq_ok, map_eq_ok]
  constructor
  · rintro ⟨_, ⟨v, hv, rfl⟩, w, hw, rfl⟩
    exact ⟨_, ⟨w, hw, rfl⟩, v, hv, (h v w s).symm⟩
  · rintro ⟨_, ⟨w, hw, rfl⟩, v, hv, rfl⟩
    exact ⟨_, ⟨v, hv, rfl⟩, w, hw, h v w s⟩

/-! ## The order of the members -/

theorem contains_congr {seen seen' : List String} (h : ∀ k, k ∈ seen ↔ k ∈ seen') (k : String) :
    seen.contains k = seen'.contains k := by
  rw [Bool.eq_iff_iff, List.contains_iff_mem, List.contains_iff_mem, h]

theorem missing?_congr {seen seen' : List String} (h : ∀ k, k ∈ seen ↔ k ∈ seen') :
    l.missing? seen = l.missing? seen' := by
  simp only [missing?, contains_congr h]

theorem takeMembers_congr {closed : Bool} {seen seen' : List String}
    (h : ∀ k, k ∈ seen ↔ k ∈ seen') (s : σ) (ms : List (Option String × Draft)) :
    l.takeMembers closed seen s ms = l.takeMembers closed seen' s ms := by
  induction ms generalizing seen seen' s with
  | nil => simp only [takeMembers, missing?_congr h]
  | cons m ms ih =>
    obtain ⟨_ | key, d⟩ := m
    · rfl
    · have hcons (k : String) : k ∈ key :: seen ↔ k ∈ key :: seen' := by
        simp only [List.mem_cons, h]
      simp only [takeMembers, contains_congr h, ih h, ih hcons]

section Member

variable {closed : Bool} {seen : List String} {s s' : σ} {key : String} {d : Draft}
  {ms : List (Option String × Draft)}

/-- A member of a known name sets its field. -/
theorem takeMembers_known {f : Field σ} (hf : l.fields.find? (·.name == key) = some f) :
    l.takeMembers closed seen s ((some key, d) :: ms) = .ok s' ↔
      key ∉ seen ∧
        (f.fill d s >>= fun s => l.takeMembers closed (key :: seen) s ms) = .ok s' := by
  rw [takeMembers, hf]
  by_cases h : key ∈ seen <;> simp [h]

/-- A member of an unknown name is skipped. -/
theorem takeMembers_unknown (hf : l.fields.find? (·.name == key) = none) :
    l.takeMembers closed seen s ((some key, d) :: ms) = .ok s' ↔
      d.isWhole = true ∧ l.takeMembers closed seen s ms = .ok s' := by
  rw [takeMembers, hf]
  by_cases h : d.isWhole = true <;> simp [h]

end Member

theorem takeMembers_swap (hl : l.Independent) {closed : Bool} {seen : List String} {s s' : σ}
    {j k : String} {d e : Draft} {ms : List (Option String × Draft)}
    (h : l.takeMembers closed seen s ((some j, d) :: (some k, e) :: ms) = .ok s') :
    l.takeMembers closed seen s ((some k, e) :: (some j, d) :: ms) = .ok s' := by
  cases hf : l.fields.find? (·.name == j) with
  | none =>
    obtain ⟨hd, h⟩ := (takeMembers_unknown hf).1 h
    cases hg : l.fields.find? (·.name == k) with
    | none =>
      obtain ⟨he, h⟩ := (takeMembers_unknown hg).1 h
      exact (takeMembers_unknown hg).2 ⟨he, (takeMembers_unknown hf).2 ⟨hd, h⟩⟩
    | some g =>
      obtain ⟨hk, h⟩ := (takeMembers_known hg).1 h
      obtain ⟨s₁, hs₁, h⟩ := bind_eq_ok.1 h
      exact (takeMembers_known hg).2
        ⟨hk, bind_eq_ok.2 ⟨s₁, hs₁, (takeMembers_unknown hf).2 ⟨hd, h⟩⟩⟩
  | some f =>
    obtain ⟨hj, h⟩ := (takeMembers_known hf).1 h
    obtain ⟨s₁, hs₁, h⟩ := bind_eq_ok.1 h
    cases hg : l.fields.find? (·.name == k) with
    | none =>
      obtain ⟨he, h⟩ := (takeMembers_unknown hg).1 h
      exact (takeMembers_unknown hg).2
        ⟨he, (takeMembers_known hf).2 ⟨hj, bind_eq_ok.2 ⟨s₁, hs₁, h⟩⟩⟩
    | some g =>
      obtain ⟨hk, h⟩ := (takeMembers_known hg).1 h
      obtain ⟨s₂, hs₂, h⟩ := bind_eq_ok.1 h
      obtain ⟨hkj, hk⟩ := not_or.1 (mt List.mem_cons.2 hk)
      -- two members for one field would have been a duplicate
      have hne : f ≠ g := by
        rintro rfl
        have hf := List.find?_some hf
        have hg := List.find?_some hg
        simp_all
      have hcomm := hl.forall (List.mem_of_find?_eq_some hf)
        (List.mem_of_find?_eq_some hg) hne
      obtain ⟨s₁', hs₁', hs₂'⟩ :=
        bind_eq_ok.1 ((hcomm d e s s₂).1 (bind_eq_ok.2 ⟨s₁, hs₁, hs₂⟩))
      refine (takeMembers_known hg).2 ⟨hk, bind_eq_ok.2 ⟨s₁', hs₁', ?_⟩⟩
      refine (takeMembers_known hf).2 ⟨?_, bind_eq_ok.2 ⟨s₂, hs₂', ?_⟩⟩
      · exact not_or.2 ⟨Ne.symm hkj, hj⟩ ∘ List.mem_cons.1
      · rw [← h]
        exact takeMembers_congr (fun _ => by simp only [List.mem_cons, or_left_comm]) _ _

/-- The order of the members has no effect. -/
theorem takeMembers_perm (hl : l.Independent) {closed : Bool}
    {members members' : List (String × Draft)} (hperm : members.Perm members')
    {seen : List String} {s s' : σ}
    (h : l.takeMembers closed seen s (keyed members) = .ok s') :
    l.takeMembers closed seen s (keyed members') = .ok s' := by
  induction hperm generalizing seen s with
  | nil => exact h
  | cons m _ ih =>
    cases hf : l.fields.find? (·.name == m.1) with
    | none =>
      obtain ⟨hd, h⟩ := (takeMembers_unknown hf).1 h
      exact (takeMembers_unknown hf).2 ⟨hd, ih h⟩
    | some f =>
      obtain ⟨hm, h⟩ := (takeMembers_known hf).1 h
      obtain ⟨s₁, hs₁, h⟩ := bind_eq_ok.1 h
      exact (takeMembers_known hf).2 ⟨hm, bind_eq_ok.2 ⟨s₁, hs₁, ih h⟩⟩
  | swap m n ms => exact takeMembers_swap hl h
  | trans _ _ ih₁ ih₂ => exact ih₂ (ih₁ h)

theorem find?_eq_none_iff {key : String} :
    l.fields.find? (·.name == key) = none ↔ key ∉ l.names := by
  simp [names]

/-- Unknown members have no effect. -/
theorem takeMembers_filter {closed : Bool} {members : List (String × Draft)}
    (hwhole : ∀ m ∈ members, m.2.isWhole = true) {seen : List String} {s s' : σ}
    (h : l.takeMembers closed seen s (keyed (members.filter (·.1 ∈ l.names))) = .ok s') :
    l.takeMembers closed seen s (keyed members) = .ok s' := by
  induction members generalizing seen s with
  | nil => exact h
  | cons m ms ih =>
    obtain ⟨hm, hms⟩ := List.forall_mem_cons.1 hwhole
    cases hf : l.fields.find? (·.name == m.1) with
    | none =>
      rw [List.filter_cons_of_neg (by simpa using find?_eq_none_iff.1 hf)] at h
      exact (takeMembers_unknown hf).2 ⟨hm, ih hms h⟩
    | some f =>
      have hmem : m.1 ∈ l.names := by
        by_contra hmem
        rw [find?_eq_none_iff.2 hmem] at hf
        cases hf
      rw [List.filter_cons_of_pos (by simpa using hmem)] at h
      obtain ⟨hseen, h⟩ := (takeMembers_known hf).1 h
      obtain ⟨s₁, hs₁, h⟩ := bind_eq_ok.1 h
      exact (takeMembers_known hf).2 ⟨hseen, bind_eq_ok.2 ⟨s₁, hs₁, ih hms h⟩⟩

end RecordShape

theorem membersWhole_keyed {members : List (String × Draft)}
    (h : Draft.membersWhole (keyed members) = true) : ∀ m ∈ members, m.2.isWhole = true := by
  induction members with
  | nil => exact List.forall_mem_nil _
  | cons m ms ih =>
    obtain ⟨hm, hms⟩ := Bool.and_eq_true_iff.1 h
    exact List.forall_mem_cons.2 ⟨hm, ih hms⟩

/-- The record of an object with the given members is the record of these members alone. -/
theorem Draft.HasFields.record {σ : Type} {l : RecordShape σ} (hl : l.Independent)
    {given : List (String × Draft)} {d : Draft} (h : d.HasFields l.names given)
    (hd : d.isWhole = true) {surplus : Nat → Mismatch} {s : σ}
    (hs : l.takeMembers true [] l.blank (keyed given) = .ok s) :
    Reader.record l surplus d = .ok s := by
  obtain ⟨members, rfl, hperm⟩ := h
  exact RecordShape.takeMembers_filter (membersWhole_keyed hd)
    (RecordShape.takeMembers_perm hl hperm.symm hs)

/-! ## The value of a field -/

namespace RecordShape

variable {σ α : Type} {l : RecordShape σ} {name : String} {read : Reader α} {get : σ → α}

/-- The record requires a field `name`, and `get` is the value that `read` gives for it. -/
structure Stores (l : RecordShape σ) (name : String) (read : Reader α) (get : σ → α) : Prop where
  required : ∃ f ∈ l.fields, f.name = name ∧ f.required = true
  own : ∀ f ∈ l.fields, f.name = name → ∀ d s s', f.fill d s = .ok s' → read d = .ok (get s')
  other : ∀ f ∈ l.fields, f.name ≠ name → ∀ d s s', f.fill d s = .ok s' → get s' = get s

namespace Stores

variable {closed : Bool} {seen : List String} {s s' : σ} {ms : List (Option String × Draft)}

theorem mem_names (h : l.Stores name read get) : name ∈ l.names := by
  obtain ⟨f, hf, hname, -⟩ := h.required
  exact List.mem_map.2 ⟨f, hf, hname⟩

/-- If no members are left, the field has been seen. -/
theorem mem_of_nil (h : l.Stores name read get) (hs : l.takeMembers closed seen s [] = .ok s') :
    name ∈ seen ∧ s' = s := by
  obtain ⟨f, hf, rfl, hrequired⟩ := h.required
  simp only [takeMembers] at hs
  split at hs
  · cases hs
  · split at hs
    · cases hs
    · next hmissing =>
      cases hs
      have hseen := List.find?_eq_none.1 (Option.map_eq_none_iff.1 hmissing) f hf
      simp only [hrequired, Bool.true_and, Bool.not_eq_true', Bool.not_eq_false] at hseen
      exact ⟨by simpa using hseen, rfl⟩

/-- Once it has been seen, the field is not changed. -/
theorem get_eq (h : l.Stores name read get) (hname : name ∈ seen)
    (hs : l.takeMembers closed seen s ms = .ok s') : get s' = get s := by
  induction ms generalizing seen s with
  | nil => rw [(h.mem_of_nil hs).2]
  | cons m ms ih =>
    obtain ⟨_ | key, d⟩ := m
    · cases hs
    cases hf : l.fields.find? (·.name == key) with
    | none => exact ih hname ((takeMembers_unknown hf).1 hs).2
    | some f =>
      obtain ⟨hkey, hs⟩ := (takeMembers_known hf).1 hs
      obtain ⟨s₁, hs₁, hs⟩ := bind_eq_ok.1 hs
      have hne : f.name ≠ name := by
        have hfname : f.name = key := by simpa using List.find?_some hf
        rw [hfname]
        rintro rfl
        exact hkey hname
      rw [ih (List.mem_cons_of_mem _ hname) hs]
      exact h.other f (List.mem_of_find?_eq_some hf) hne d s s₁ hs₁

/-- The record stores the value of the member. -/
theorem lookup (h : l.Stores name read get) (hname : name ∉ seen)
    (hs : l.takeMembers closed seen s ms = .ok s') :
    ∃ d, ms.lookup (some name) = some d ∧ read d = .ok (get s') := by
  induction ms generalizing seen s with
  | nil => exact absurd (h.mem_of_nil hs).1 hname
  | cons m ms ih =>
    obtain ⟨_ | key, d⟩ := m
    · cases hs
    cases hf : l.fields.find? (·.name == key) with
    | none =>
      have hne : name ≠ key := by
        rintro rfl
        exact find?_eq_none_iff.1 hf h.mem_names
      rw [List.lookup_cons, beq_eq_false_iff_ne.2 (by simpa using hne)]
      exact ih hname ((takeMembers_unknown hf).1 hs).2
    | some f =>
      obtain ⟨-, hs⟩ := (takeMembers_known hf).1 hs
      obtain ⟨s₁, hs₁, hs⟩ := bind_eq_ok.1 hs
      have hfname : f.name = key := by simpa using List.find?_some hf
      by_cases hkey : name = key
      · subst hkey
        refine ⟨d, List.lookup_cons_self, ?_⟩
        rw [h.get_eq List.mem_cons_self hs]
        exact h.own f (List.mem_of_find?_eq_some hf) hfname d s s₁ hs₁
      · rw [List.lookup_cons, beq_eq_false_iff_ne.2 (by simpa using hkey)]
        exact ih (by simp [hkey, hname]) hs

end Stores

end RecordShape

end PeerLink.Json
