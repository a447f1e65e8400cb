/-!
# Sets of names

## Main definitions

* `NameSet`: names in increasing order, so without repetition.
* `NameSet.insert`, `NameSet.ofList`: building them.
-/

namespace PeerLink

/-- A set of names, listed in increasing order. -/
structure NameSet where
  toList : List String
  increasing : toList.Pairwise (· < ·)
  deriving DecidableEq, Repr

namespace NameSet

/-- The names with one more, in order. -/
def insertList (name : String) : List String → List String
  | [] => [name]
  | n :: rest =>
    if name < n then name :: n :: rest
    else if name = n then n :: rest
    else n :: insertList name rest

theorem mem_insertList {name x : String} {names : List String} :
    x ∈ insertList name names ↔ x = name ∨ x ∈ names := by
  induction names with
  | nil => simp [insertList]
  | cons n rest ih =>
    simp only [insertList]
    split
    · simp
    · split
      · rename_i h; subst h; simp
      · simp only [List.mem_cons, ih]; exact or_left_comm

theorem pairwise_insertList {name : String} {names : List String}
    (h : names.Pairwise (· < ·)) : (insertList name names).Pairwise (· < ·) := by
  induction names with
  | nil => simp [insertList]
  | cons n rest ih =>
    obtain ⟨hn, hr⟩ := List.pairwise_cons.1 h
    simp only [insertList]
    split
    · rename_i hlt
      exact List.pairwise_cons.2 ⟨fun x hx => (List.mem_cons.1 hx).elim
        (fun e => e ▸ hlt) (fun hx => String.lt_trans hlt (hn x hx)), h⟩
    · split
      · exact h
      · rename_i hlt hne
        refine List.pairwise_cons.2 ⟨fun x hx => ?_, ih hr⟩
        rcases mem_insertList.1 hx with rfl | hx
        · exact Std.lt_of_le_of_ne (String.not_lt.1 hlt) (fun e => hne e.symm)
        · exact hn x hx

/-- No names. -/
def empty : NameSet := ⟨[], .nil⟩

/-- The set with one more name. -/
def insert (s : NameSet) (name : String) : NameSet :=
  ⟨insertList name s.toList, pairwise_insertList s.increasing⟩

/-- The set of some names. -/
def ofList (names : List String) : NameSet := names.foldl insert empty

instance : Inhabited NameSet := ⟨empty⟩

instance : Membership String NameSet := ⟨fun s name => name ∈ s.toList⟩

theorem mem_insert {s : NameSet} {name x : String} : x ∈ s.insert name ↔ x = name ∨ x ∈ s :=
  mem_insertList

end NameSet

end PeerLink
