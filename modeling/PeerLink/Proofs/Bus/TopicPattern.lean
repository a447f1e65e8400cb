import Mathlib.Data.List.Induction
import PeerLink.Bus.TopicPattern
import PeerLink.Proofs.Text.Pieces
/-!
# The topics of a pattern

## Main definitions

* `TopicPattern.Denotes`: the topics of a pattern, by recursion on its characters.
* `TopicPattern.Marks`: the invariant of the matcher for the cuts of a topic.

## Main statements

* `TopicPattern.Knows.step`: a character of the pattern preserves the invariant.
* `TopicPattern.fits_iff`: the matcher accepts exactly the topics of the pattern.
* `TopicPattern.denotes_toList_iff`: the topics of a pattern are its pieces with runs between them.
-/

namespace PeerLink.TopicPattern

open Text

/-- The topics of a pattern: a star matches a run without line feed, every other character
itself. -/
def Denotes : (pattern topic : List Char) → Prop
  | [], topic => topic = []
  | c :: pattern, topic =>
    if c = '*' then ∃ run rest, '\n' ∉ run ∧ topic = run ++ rest ∧ Denotes pattern rest
    else ∃ rest, topic = c :: rest ∧ Denotes pattern rest

section Denotes

variable {pattern topic : List Char} {c : Char}

theorem denotes_star : Denotes ('*' :: pattern) topic ↔
    ∃ run rest, '\n' ∉ run ∧ topic = run ++ rest ∧ Denotes pattern rest := by
  rw [Denotes, if_pos rfl]

theorem denotes_literal (h : c ≠ '*') : Denotes (c :: pattern) topic ↔
    ∃ rest, topic = c :: rest ∧ Denotes pattern rest := by
  rw [Denotes, if_neg h]

theorem denotes_append {pattern more topic : List Char} : Denotes (pattern ++ more) topic ↔
    ∃ front back, topic = front ++ back ∧ Denotes pattern front ∧ Denotes more back := by
  induction pattern generalizing topic with
  | nil => simp [Denotes]
  | cons c pattern ih =>
    by_cases hc : c = '*'
    · subst hc
      rw [List.cons_append, denotes_star]
      constructor
      · rintro ⟨run, rest, hrun, rfl, hrest⟩
        obtain ⟨front, back, rfl, hfront, hback⟩ := ih.1 hrest
        exact ⟨run ++ front, back, (List.append_assoc ..).symm,
          denotes_star.2 ⟨run, front, hrun, rfl, hfront⟩, hback⟩
      · rintro ⟨front, back, rfl, hfront, hback⟩
        obtain ⟨run, rest, hrun, rfl, hrest⟩ := denotes_star.1 hfront
        exact ⟨run, rest ++ back, hrun, List.append_assoc .., ih.2 ⟨rest, back, rfl, hrest, hback⟩⟩
    · rw [List.cons_append, denotes_literal hc]
      constructor
      · rintro ⟨rest, rfl, hrest⟩
        obtain ⟨front, back, rfl, hfront, hback⟩ := ih.1 hrest
        exact ⟨c :: front, back, rfl, (denotes_literal hc).2 ⟨front, rfl, hfront⟩, hback⟩
      · rintro ⟨front, back, rfl, hfront, hback⟩
        obtain ⟨rest, rfl, hrest⟩ := (denotes_literal hc).1 hfront
        exact ⟨rest ++ back, rfl, ih.2 ⟨rest, back, rfl, hrest, hback⟩⟩

/-- If the last character of a pattern is not a star, it is the last character of the topic. -/
theorem denotes_concat_literal (h : c ≠ '*') : Denotes (pattern ++ [c]) topic ↔
    ∃ front, topic = front ++ [c] ∧ Denotes pattern front := by
  simp [denotes_append, Denotes, h]

/-- A star at the end of a pattern matches the empty run, or it matches the last character of the
topic, if this is not a line feed. -/
theorem denotes_concat_star {x : Char} : Denotes (pattern ++ ['*']) (topic ++ [x]) ↔
    Denotes pattern (topic ++ [x]) ∨ Denotes (pattern ++ ['*']) topic ∧ x ≠ '\n' := by
  have hstar {run : List Char} : Denotes ['*'] run ↔ '\n' ∉ run := by
    simp [Denotes]
  simp only [denotes_append, hstar]
  constructor
  · rintro ⟨front, run, hsplit, hfront, hrun⟩
    rcases List.eq_nil_or_concat' run with rfl | ⟨run, y, rfl⟩
    · rw [List.append_nil] at hsplit
      exact .inl (hsplit ▸ hfront)
    · rw [← List.append_assoc, List.append_singleton_inj] at hsplit
      obtain ⟨rfl, rfl⟩ := hsplit
      simp only [List.mem_append, List.mem_singleton, not_or] at hrun
      exact .inr ⟨⟨front, run, rfl, hfront, hrun.1⟩, Ne.symm hrun.2⟩
  · rintro (hfront | ⟨⟨front, run, rfl, hfront, hrun⟩, hx⟩)
    · exact ⟨topic ++ [x], [], (List.append_nil _).symm, hfront, List.not_mem_nil⟩
    · refine ⟨front, run ++ [x], List.append_assoc .., hfront, ?_⟩
      simpa [hrun] using Ne.symm hx

end Denotes

/-! ## The matcher -/

/-- `cuts` has an entry for each character of `topic`: whether `front` with the characters up to it
is in `texts`. -/
def Marks (texts : List Char → Prop) : (front topic : List Char) → (cuts : List Bool) → Prop
  | _, [], cuts => cuts = []
  | _, _ :: _, [] => False
  | front, x :: topic, cut :: cuts =>
    (cut = true ↔ texts (front ++ [x])) ∧ Marks texts (front ++ [x]) topic cuts

section Marks

variable {pattern front topic : List Char} {c : Char} {before : Bool} {cuts : List Bool}

theorem marks_literal (hc : c ≠ '*') (hbefore : before = true ↔ Denotes pattern front)
    (h : Marks (Denotes pattern) front topic cuts) :
    Marks (Denotes (pattern ++ [c])) front topic (stepLiteral c before topic cuts) := by
  induction topic generalizing front before cuts with
  | nil =>
    obtain rfl : cuts = [] := h
    rfl
  | cons x topic ih => cases cuts with
    | nil => exact h
    | cons cut cuts =>
      refine ⟨?_, ih h.1 h.2⟩
      rw [denotes_concat_literal hc, Bool.and_eq_true, hbefore, beq_iff_eq]
      constructor
      · rintro ⟨hfront, rfl⟩
        exact ⟨front, rfl, hfront⟩
      · rintro ⟨front', hsplit, hfront'⟩
        obtain ⟨rfl, rfl⟩ := List.append_singleton_inj.1 hsplit
        exact ⟨hfront', rfl⟩

theorem marks_star (hbefore : before = true ↔ Denotes (pattern ++ ['*']) front)
    (h : Marks (Denotes pattern) front topic cuts) :
    Marks (Denotes (pattern ++ ['*'])) front topic (stepStar before topic cuts) := by
  induction topic generalizing front before cuts with
  | nil =>
    obtain rfl : cuts = [] := h
    rfl
  | cons x topic ih => cases cuts with
    | nil => exact h
    | cons cut cuts =>
      have hhere : (cut || (before && x != '\n')) = true ↔
          Denotes (pattern ++ ['*']) (front ++ [x]) := by
        rw [denotes_concat_star, Bool.or_eq_true, h.1, Bool.and_eq_true, hbefore, bne_iff_ne]
      exact ⟨hhere, ih hhere h.2⟩

/-- The invariant of the matcher after a part of the pattern. -/
def Knows (pattern topic : List Char) (cuts : Bool × List Bool) : Prop :=
  (cuts.1 = true ↔ Denotes pattern []) ∧ Marks (Denotes pattern) [] topic cuts.2

theorem marks_nil (front topic : List Char) :
    Marks (Denotes []) front topic (topic.map fun _ => false) := by
  induction topic generalizing front with
  | nil => rfl
  | cons x topic ih => exact ⟨by simp [Denotes], ih _⟩

/-- A character of the pattern preserves the invariant. -/
theorem Knows.step {cuts : Bool × List Bool} (h : Knows pattern topic cuts) (c : Char) :
    Knows (pattern ++ [c]) topic (step topic cuts c) := by
  rw [TopicPattern.step]
  split
  · next hc =>
    subst hc
    have hfirst : cuts.1 = true ↔ Denotes (pattern ++ ['*']) [] := by
      simp [h.1, denotes_append, Denotes]
    exact ⟨hfirst, marks_star hfirst h.2⟩
  · next hc => exact ⟨by simp [denotes_concat_literal hc], marks_literal hc h.1 h.2⟩

theorem knows_foldl (pattern topic : List Char) :
    Knows pattern topic (pattern.foldl (step topic) (true, topic.map fun _ => false)) := by
  induction pattern using List.reverseRecOn with
  | nil => exact ⟨by simp [Denotes], marks_nil [] topic⟩
  | append_singleton pattern c ih => exact List.foldl_concat .. ▸ ih.step c

theorem Marks.last {texts : List Char → Prop} (h : Marks texts front topic cuts)
    (hbefore : before = true ↔ texts front) :
    cuts.getLast?.getD before = true ↔ texts (front ++ topic) := by
  induction topic generalizing front before cuts with
  | nil => rwa [h, List.append_nil]
  | cons x topic ih => cases cuts with
    | nil => cases h
    | cons cut cuts =>
      rw [List.getLast?_cons, Option.getD_some, List.append_cons]
      exact ih h.2 h.1

/-- The matcher accepts exactly the topics of the pattern. -/
theorem fits_iff (pattern topic : List Char) : fits pattern topic = true ↔ Denotes pattern topic :=
  (knows_foldl pattern topic).2.last (knows_foldl pattern topic).1

end Marks

/-! ## Pieces -/

/-- The topics of a pattern are its pieces with runs without line feed between neighbours. -/
theorem denotes_iff {pattern topic piece : List Char} {more : List (List Char)}
    (h : cutAt '*' pattern = piece :: more) :
    Denotes pattern topic ↔ ∃ runs : List (List Char), runs.length = more.length ∧
      (∀ run ∈ runs, '\n' ∉ run) ∧
        topic = piece ++ (List.zipWith (· ++ ·) runs more).flatten := by
  induction pattern generalizing topic piece more with
  | nil =>
    obtain ⟨rfl, rfl⟩ := List.cons.inj h
    simp +contextual [Denotes]
  | cons c pattern ih =>
    by_cases hc : c = '*'
    · subst hc
      rw [cutAt_cons_self] at h
      obtain ⟨rfl, rfl⟩ := List.cons.inj h
      obtain ⟨piece, more, hcut⟩ := List.exists_cons_of_ne_nil (cutAt_ne_nil '*' pattern)
      rw [denotes_star, hcut]
      constructor
      · rintro ⟨run, rest, hrun, rfl, hrest⟩
        obtain ⟨runs, hlength, hruns, rfl⟩ := (ih hcut).1 hrest
        exact ⟨run :: runs, by simp [hlength], List.forall_mem_cons.2 ⟨hrun, hruns⟩, by simp⟩
      · rintro ⟨runs, hlength, hruns, rfl⟩
        cases runs with
        | nil => cases hlength
        | cons run runs =>
          obtain ⟨hrun, hruns⟩ := List.forall_mem_cons.1 hruns
          exact ⟨run, _, hrun, List.append_assoc ..,
            (ih hcut).2 ⟨runs, Nat.succ.inj hlength, hruns, rfl⟩⟩
    · obtain ⟨piece', more', hcut, hcons⟩ := cutAt_cons_of_ne hc pattern
      obtain ⟨rfl, rfl⟩ := List.cons.inj (hcons.symm.trans h)
      rw [denotes_literal hc]
      constructor
      · rintro ⟨rest, rfl, hrest⟩
        obtain ⟨runs, hlength, hruns, rfl⟩ := (ih hcut).1 hrest
        exact ⟨runs, hlength, hruns, rfl⟩
      · rintro ⟨runs, hlength, hruns, rfl⟩
        exact ⟨_, rfl, (ih hcut).2 ⟨runs, hlength, hruns, rfl⟩⟩

/-! ## Texts -/

section Texts

variable {pattern topic : String}

theorem ofString_of_not_mem (h : '*' ∉ pattern.toList) : ofString pattern = exact pattern := by
  have hstar : pattern ≠ "*" := fun e => h (e ▸ List.mem_singleton_self _)
  simp [ofString, hstar, h]

theorem accepts_of_mem (h : '*' ∈ pattern.toList) (hstar : pattern ≠ "*") :
    (ofString pattern).accepts topic = true ↔ Denotes pattern.toList topic.toList := by
  have hglob : ofString pattern = glob pattern := by simp [ofString, hstar, h]
  rw [hglob]
  exact fits_iff _ _

theorem length_pieces (sep : Char) (s : String) :
    (pieces sep s).length = s.toList.count sep + 1 := by
  rw [pieces, List.length_map, length_cutAt]

theorem toList_join_zipWith (runs more : List String) :
    (String.join (List.zipWith (· ++ ·) runs more)).toList =
      (List.zipWith (· ++ ·) (runs.map String.toList) (more.map String.toList)).flatten := by
  rw [String.toList_join, List.flatMap_def, List.map_zipWith, List.zipWith_map]
  simp

/-- The topics of a pattern, as texts. -/
theorem denotes_toList_iff {piece : String} {more : List String}
    (h : pieces '*' pattern = piece :: more) :
    Denotes pattern.toList topic.toList ↔ ∃ runs : List String, runs.length = more.length ∧
      (∀ run ∈ runs, '\n' ∉ run.toList) ∧
        topic = piece ++ String.join (List.zipWith (· ++ ·) runs more) := by
  have hcut : cutAt '*' pattern.toList = piece.toList :: more.map String.toList := by
    have := congrArg (List.map String.toList) h
    rwa [pieces, List.map_map, toList_comp_ofList, List.map_id] at this
  rw [denotes_iff hcut]
  constructor
  · rintro ⟨runs, hlength, hruns, htopic⟩
    refine ⟨runs.map String.ofList, by simpa using hlength, by simpa using hruns, ?_⟩
    rw [← String.toList_inj, htopic, String.toList_append, toList_join_zipWith, List.map_map,
      toList_comp_ofList, List.map_id]
  · rintro ⟨runs, hlength, hruns, rfl⟩
    refine ⟨runs.map String.toList, by simpa using hlength, by simpa using hruns, ?_⟩
    rw [String.toList_append, toList_join_zipWith]

end Texts

end PeerLink.TopicPattern
