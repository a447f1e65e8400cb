import PeerLink.Json.Value
import PeerLink.Proofs.Json.Documents
/-!
# The compact text

The compact text of a value is a spelling of the value, if its numbers are read back.

## Main definitions

* `Json.ReadsBack`: the numbers of a value are read back.
* `Json.HasNoNumber`: a value without numbers.

## Main statements

* `Json.spells_compact`: the compact text of a value is a spelling of it.
* `Json.ofMembers_perm`: the members of an object.
-/

namespace PeerLink.Json

/-! ## Texts -/

theorem hexDigit_mem {n : Nat} (h : n < 16) : (hexDigit n, n) ∈ hexDigits := by
  interval_cases n <;> decide

/-- The escape of a character is a spelling of one piece with this character. -/
theorem exists_piece_escape (c : Char) :
    ∃ p : Piece, p.Written (escape c) ∧
      ∀ ps, Piece.chars? (p :: ps) = (Piece.chars? ps).map (c :: ·) := by
  have hshort {l c : Char} (h : (l, c) ∈ shortEscapes) :
      ∃ p : Piece, p.Written ['\\', l] ∧
        ∀ ps, Piece.chars? (p :: ps) = (Piece.chars? ps).map (c :: ·) :=
    ⟨.char c, .short h, fun _ => rfl⟩
  have hcode {n : Nat} (h : c.toNat = n) : c = Char.ofNat n := by rw [← h, Char.ofNat_toNat]
  unfold escape
  split_ifs with h1 h2 h3 h4 h5 h6 h7 h8
  · subst h1; exact hshort (by decide)
  · subst h2; exact hshort (by decide)
  · subst h3; exact hshort (by decide)
  · subst h4; exact hshort (by decide)
  · subst h5; exact hshort (by decide)
  · rw [hcode h6]; exact hshort (by decide)
  · rw [hcode h7]; exact hshort (by decide)
  · have hzero : (('0' : Char), 0) ∈ hexDigits := by decide
    have hvalue : ((0 * 16 + 0) * 16 + c.toNat / 16) * 16 + c.toNat % 16 = c.toNat := by omega
    refine ⟨_, .unit hzero hzero (hexDigit_mem (by omega)) (hexDigit_mem (by omega)), fun ps => ?_⟩
    rw [hvalue, Piece.chars?_unit (by simp only [Piece.IsHigh]; omega)
      (by simp only [Piece.IsLow]; omega), Char.ofNat_toNat]
  · exact ⟨.char c, .plain (by omega) h1 h2, fun _ => rfl⟩

theorem textWritten_quote (s : String) : TextWritten (some s) (quote s) := by
  have hbody (cs : List Char) :
      ∃ ps, TextBody ps (cs.flatMap escape) ∧ Piece.chars? ps = some cs := by
    induction cs with
    | nil => exact ⟨[], .nil, rfl⟩
    | cons c cs ih =>
      obtain ⟨p, hp, hchars⟩ := exists_piece_escape c
      obtain ⟨ps, hps, hrest⟩ := ih
      exact ⟨p :: ps, .cons hp hps, by rw [hchars, hrest]; rfl⟩
  obtain ⟨ps, hps, hchars⟩ := hbody s.toList
  exact ⟨ps, _, hps, by simp [hchars], rfl⟩

/-! ## Values -/

mutual

/-- A value without numbers. -/
def HasNoNumber : Json → Prop
  | null | bool _ | text _ => True
  | number _ => False
  | array items => HaveNoNumber items
  | object members => MembersHaveNoNumber members

/-- Items without numbers. -/
def HaveNoNumber : List Json → Prop
  | [] => True
  | v :: rest => v.HasNoNumber ∧ HaveNoNumber rest

/-- Members without numbers. -/
def MembersHaveNoNumber : List (String × Json) → Prop
  | [] => True
  | (_, v) :: rest => v.HasNoNumber ∧ MembersHaveNoNumber rest

end

/-- The text of `n` is a spelling of a numeral with the value `n`. -/
def Number.ReadsBack (n : Json.Number) : Prop :=
  ∃ m : Numeral, m.Written n.compact.toList ∧ m.value? = some n

mutual

/-- The numbers of a value are read back. -/
def ReadsBack : Json → Prop
  | null | bool _ | text _ => True
  | number n => n.ReadsBack
  | array items => AllReadBack items
  | object members => MembersReadBack members

/-- The numbers of the items are read back. -/
def AllReadBack : List Json → Prop
  | [] => True
  | v :: rest => v.ReadsBack ∧ AllReadBack rest

/-- The numbers of the members are read back. -/
def MembersReadBack : List (String × Json) → Prop
  | [] => True
  | (_, v) :: rest => v.ReadsBack ∧ MembersReadBack rest

end

mutual

theorem HasNoNumber.readsBack {v : Json} (h : v.HasNoNumber) : v.ReadsBack := by
  match v with
  | null | bool _ | text _ => trivial
  | number _ => exact h.elim
  | array items => exact HaveNoNumber.readBack h
  | object members => exact MembersHaveNoNumber.readBack h

theorem HaveNoNumber.readBack {items : List Json} (h : HaveNoNumber items) : AllReadBack items := by
  match items with
  | [] => trivial
  | v :: rest => exact ⟨HasNoNumber.readsBack h.1, HaveNoNumber.readBack h.2⟩

theorem MembersHaveNoNumber.readBack {members : List (String × Json)}
    (h : MembersHaveNoNumber members) : MembersReadBack members := by
  match members with
  | [] => trivial
  | (_, v) :: rest => exact ⟨HasNoNumber.readsBack h.1, MembersHaveNoNumber.readBack h.2⟩

end

theorem membersReadBack_iff {members : List (String × Json)} :
    MembersReadBack members ↔ ∀ m ∈ members, m.2.ReadsBack := by
  induction members with
  | nil => exact ⟨fun _ => List.forall_mem_nil _, fun _ => trivial⟩
  | cons m members ih => rw [List.forall_mem_cons, ← ih]; rfl

theorem padded_self {P : List Char → Prop} {cs : List Char} (h : P cs) : Padded P cs :=
  ⟨[], cs, [], isBlank_nil, h, isBlank_nil, by simp⟩

mutual

theorem written_compactChars (v : Json) (h : v.ReadsBack) : v.draft.Written v.compactChars := by
  match v with
  | null | bool true | bool false => rfl
  | number n =>
    obtain ⟨m, hwritten, hvalue⟩ := h
    exact ⟨m, hwritten, hvalue.symm⟩
  | text s => exact textWritten_quote s
  | array items => exact ⟨rfl, _, itemsWritten_compactItems items h, rfl⟩
  | object members => exact ⟨rfl, _, membersWritten_compactMembers members h, rfl⟩

theorem itemsWritten_compactItems (items : List Json) (h : AllReadBack items) :
    Draft.ItemsWritten (drafts items) (compactItems items) := by
  match items with
  | [] => exact isBlank_nil
  | [v] => exact padded_self (written_compactChars v h.1)
  | v :: v' :: rest =>
    exact ⟨_, _, padded_self (written_compactChars v h.1),
      itemsWritten_compactItems (v' :: rest) h.2, rfl⟩

theorem membersWritten_compactMembers (members : List (String × Json))
    (h : MembersReadBack members) :
    Draft.MembersWritten (memberDrafts members) (compactMembers members) := by
  match members with
  | [] => exact isBlank_nil
  | [(k, v)] =>
    exact ⟨_, _, padded_self (textWritten_quote k), padded_self (written_compactChars v h.1), rfl⟩
  | (k, v) :: m :: rest =>
    refine ⟨_, _, _, padded_self (textWritten_quote k), padded_self (written_compactChars v h.1),
      membersWritten_compactMembers (m :: rest) h.2, ?_⟩
    rw [compactMembers]
    · simp
    · simp

end

/-- The compact text of a value is a spelling of it, if its numbers are read back. -/
theorem spells_compact (v : Json) (h : v.ReadsBack) : v.draft.Spells v.compact := by
  rw [Draft.Spells, compact, String.toList_ofList]
  exact padded_self (written_compactChars v h)

mutual

theorem isWhole_draft (v : Json) : v.draft.isWhole = true := by
  match v with
  | null | bool _ | number _ | text _ => rfl
  | array items => simp [draft, Draft.isWhole, allWhole_drafts items]
  | object members => simp [draft, Draft.isWhole, membersWhole_memberDrafts members]

theorem allWhole_drafts (items : List Json) : Draft.allWhole (drafts items) = true := by
  match items with
  | [] => rfl
  | v :: rest => simp [drafts, Draft.allWhole, isWhole_draft v, allWhole_drafts rest]

theorem membersWhole_memberDrafts (members : List (String × Json)) :
    Draft.membersWhole (memberDrafts members) = true := by
  match members with
  | [] => rfl
  | (_, v) :: rest =>
    simp [memberDrafts, Draft.membersWhole, isWhole_draft v, membersWhole_memberDrafts rest]

end

/-! ## Objects -/

theorem put_perm {key : String} {value : Json} {members : List (String × Json)}
    (h : key ∉ members.map Prod.fst) : (put key value members).Perm ((key, value) :: members) := by
  induction members with
  | nil => exact .refl _
  | cons m members ih =>
    obtain ⟨hne, hmembers⟩ := List.ne_and_not_mem_of_not_mem_cons h
    unfold put
    rw [if_neg hne]
    split
    · exact .refl _
    · exact ((ih hmembers).cons _).trans (.swap _ _ _)

/-- `ofMembers` of members with different keys is an object with these members. -/
theorem ofMembers_perm {members : List (String × Json)} (h : (members.map Prod.fst).Nodup) :
    ∃ sorted, ofMembers members = .object sorted ∧ sorted.Perm members := by
  have hfoldl (sorted rest : List (String × Json))
      (hnodup : ((sorted ++ rest).map Prod.fst).Nodup) :
      (rest.foldl (fun ms m => put m.1 m.2 ms) sorted).Perm (sorted ++ rest) := by
    induction rest generalizing sorted with
    | nil => rw [List.append_nil]; exact .refl _
    | cons m rest ih =>
      have hm : m.1 ∉ sorted.map Prod.fst := by
        rw [List.map_append, List.map_cons] at hnodup
        exact fun hmem => (List.nodup_append.1 hnodup).2.2 _ hmem _ List.mem_cons_self rfl
      have hput : (put m.1 m.2 sorted ++ rest).Perm (sorted ++ m :: rest) :=
        ((put_perm hm).append_right rest).trans List.perm_middle.symm
      exact (ih _ ((hput.map Prod.fst).nodup_iff.2 hnodup)).trans hput
  exact ⟨_, rfl, hfoldl [] members h⟩

end PeerLink.Json
