import Mathlib.Data.List.Basic
import PeerLink.Text.Blank
import PeerLink.Text.Cut
/-!
# Pieces of a text

The pieces of a text contain no separator, and joining them gives back the text.

## Main statements

* `join_pieces`, `pieces_join`: `pieces` and `join` are inverse to each other.
* `dropBytes?_append`: dropping a prefix by the number of its bytes.
* `trimChars_eq_self`: trimming keeps a text without blanks at its ends.
-/

namespace PeerLink.Text

/-! ## Cutting and joining -/

section Cut

variable {α : Type} [DecidableEq α] {sep : α} {xs piece : List α}

theorem cutAt_cons_self (sep : α) (xs : List α) : cutAt sep (sep :: xs) = [] :: cutAt sep xs := by
  simp [cutAt]

/-- An element other than the separator is added to the first piece. -/
theorem cutAt_cons_of_ne {x : α} (h : x ≠ sep) (xs : List α) :
    ∃ piece rest, cutAt sep xs = piece :: rest ∧ cutAt sep (x :: xs) = (x :: piece) :: rest := by
  obtain ⟨piece, rest, hcut⟩ := List.exists_cons_of_ne_nil (cutAt_ne_nil sep xs)
  refine ⟨piece, rest, hcut, ?_⟩
  rw [cutAt] at hcut ⊢
  rw [List.foldr_cons, hcut]
  exact if_neg (by simpa using h)

theorem not_mem_of_mem_cutAt (h : piece ∈ cutAt sep xs) : sep ∉ piece := by
  induction xs generalizing piece with
  | nil => simp_all
  | cons x xs ih =>
    by_cases hx : x = sep
    · subst hx
      rw [cutAt_cons_self] at h
      rcases List.mem_cons.1 h with rfl | h
      · exact List.not_mem_nil
      · exact ih h
    · obtain ⟨first, rest, hcut, hcons⟩ := cutAt_cons_of_ne hx xs
      rw [hcut] at ih
      rw [hcons] at h
      rcases List.mem_cons.1 h with rfl | h
      · exact List.not_mem_cons_of_ne_of_not_mem (Ne.symm hx) (ih List.mem_cons_self)
      · exact ih (List.mem_cons_of_mem _ h)

/-- There is one piece more than there are separators. -/
theorem length_cutAt (sep : α) (xs : List α) : (cutAt sep xs).length = xs.count sep + 1 := by
  induction xs with
  | nil => rfl
  | cons x xs ih =>
    by_cases hx : x = sep
    · subst hx
      rw [cutAt_cons_self, List.length_cons, ih, List.count_cons_self]
    · obtain ⟨first, rest, hcut, hcons⟩ := cutAt_cons_of_ne hx xs
      rw [hcons, List.length_cons, List.count_cons_of_ne hx, ← ih, hcut, List.length_cons]

theorem cutAt_of_not_mem (h : sep ∉ xs) : cutAt sep xs = [xs] := by
  induction xs with
  | nil => rfl
  | cons x xs ih =>
    obtain ⟨hx, hxs⟩ := List.ne_and_not_mem_of_not_mem_cons h
    obtain ⟨first, rest, hcut, hcons⟩ := cutAt_cons_of_ne hx.symm xs
    rw [ih hxs] at hcut
    obtain ⟨rfl, rfl⟩ := List.cons.inj hcut
    exact hcons

/-- The first piece ends at the first separator. -/
theorem cutAt_append_cons (h : sep ∉ xs) (ys : List α) :
    cutAt sep (xs ++ sep :: ys) = xs :: cutAt sep ys := by
  induction xs with
  | nil => exact cutAt_cons_self sep ys
  | cons x xs ih =>
    obtain ⟨hx, hxs⟩ := List.ne_and_not_mem_of_not_mem_cons h
    obtain ⟨first, rest, hcut, hcons⟩ := cutAt_cons_of_ne hx.symm (xs ++ sep :: ys)
    rw [ih hxs] at hcut
    obtain ⟨rfl, rfl⟩ := List.cons.inj hcut
    exact hcons

theorem intercalate_cutAt (sep : α) (xs : List α) : [sep].intercalate (cutAt sep xs) = xs := by
  induction xs with
  | nil => rfl
  | cons x xs ih =>
    by_cases hx : x = sep
    · subst hx
      rw [cutAt_cons_self, List.intercalate_cons_of_ne_nil (cutAt_ne_nil x xs), ih]
      rfl
    · obtain ⟨first, rest, hcut, hcons⟩ := cutAt_cons_of_ne hx xs
      rw [hcut] at ih
      rw [hcons, List.intercalate_cons_cons_left, ih]

end Cut

theorem toList_comp_ofList : String.toList ∘ String.ofList = id :=
  funext fun _ => String.toList_ofList

theorem not_mem_of_mem_pieces {sep : Char} {s piece : String} (h : piece ∈ pieces sep s) :
    sep ∉ piece.toList := by
  obtain ⟨cs, hcs, rfl⟩ := List.mem_map.1 h
  rw [String.toList_ofList]
  exact not_mem_of_mem_cutAt hcs

theorem pieces_of_not_mem {sep : Char} {s : String} (h : sep ∉ s.toList) : pieces sep s = [s] := by
  rw [pieces, cutAt_of_not_mem h, List.map_singleton, String.ofList_toList]

/-- Joining the pieces of a text gives back the text. -/
theorem join_pieces (sep : Char) (s : String) : join (String.singleton sep) (pieces sep s) = s := by
  rw [← String.toList_inj, join, String.toList_intercalate, pieces, List.map_map,
    toList_comp_ofList, List.map_id, String.toList_singleton, intercalate_cutAt]

theorem pieces_append_cons {sep : Char} {s : String} (h : sep ∉ s.toList) (t : String) :
    pieces sep (s ++ (String.singleton sep ++ t)) = s :: pieces sep t := by
  rw [pieces, String.toList_append, String.toList_append, String.toList_singleton,
    List.singleton_append, cutAt_append_cons h, List.map_cons, String.ofList_toList, pieces]

/-- The pieces of joined texts without the separator are the texts. -/
theorem pieces_join {sep : Char} {t : String} {ts : List String}
    (h : ∀ s ∈ t :: ts, sep ∉ s.toList) :
    pieces sep (join (String.singleton sep) (t :: ts)) = t :: ts := by
  induction ts generalizing t with
  | nil => exact pieces_of_not_mem (h t List.mem_cons_self)
  | cons t' ts ih =>
    obtain ⟨ht, hts⟩ := List.forall_mem_cons.1 h
    rw [join, String.intercalate_cons_cons, String.append_assoc, pieces_append_cons ht]
    exact congrArg (t :: ·) (ih hts)

/-- The number of bytes of some characters. -/
def byteCount (cs : List Char) : Nat := cs.foldr (fun c n => c.utf8Size + n) 0

/-- Dropping the bytes of some characters drops the characters. -/
theorem dropBytes?_append (cs rest : List Char) :
    dropBytes? (byteCount cs) (cs ++ rest) = some rest := by
  induction cs with
  | nil => cases rest <;> rfl
  | cons c cs ih =>
    have hpos := c.utf8Size_pos
    have hcount : byteCount (c :: cs) = c.utf8Size + byteCount cs := rfl
    obtain ⟨n, hn⟩ : ∃ n, byteCount (c :: cs) = n + 1 := ⟨byteCount (c :: cs) - 1, by omega⟩
    rw [hn, List.cons_append, dropBytes?, if_pos (by omega), ← hn, hcount, Nat.add_sub_cancel_left]
    exact ih

/-! ## Trimming -/

theorem dropWhile_isBlank {cs : List Char} (h : cs.head?.any isBlank = false) :
    cs.dropWhile isBlank = cs := by
  cases cs with
  | nil => rfl
  | cons c cs => exact List.dropWhile_cons_of_neg (by simpa using h)

theorem trimChars_eq_self {cs : List Char} (hhead : cs.head?.any isBlank = false)
    (hlast : cs.getLast?.any isBlank = false) : trimChars cs = cs := by
  have hrev : cs.reverse.head?.any isBlank = false := by rwa [List.head?_reverse]
  rw [trimChars, dropWhile_isBlank hhead, dropEnd, dropWhile_isBlank hrev, List.reverse_reverse]

end PeerLink.Text
