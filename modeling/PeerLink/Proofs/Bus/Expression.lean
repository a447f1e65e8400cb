import PeerLink.Proofs.Bus.TopicPattern
/-!
# Patterns as regular expressions

A pattern with stars is translated to a regular expression: its pieces are escaped and joined with
`.*` between `^` and `$`. `TopicPattern.Engine` states the properties of a regular expression engine
that this relies on: an escaped character and a character that is not special match themselves, `.*`
matches a run without line feed, and `^` and `$` match at the two ends of the topic.

## Main definitions

* `TopicPattern.expression`: the expression of a pattern.
* `TopicPattern.Reads`, `TopicPattern.Finds`: the syntax and the semantics of these expressions.
* `TopicPattern.Engine`: an engine with this semantics.

## Main statements

* `TopicPattern.accepts_ofString`: the topics that a pattern accepts, with and without an engine.
-/

namespace PeerLink.TopicPattern

open Text

/-! ## Expressions -/

/-- The characters that need a backslash in an expression. -/
def special : List Char :=
  ['\\', '.', '+', '*', '?', '(', ')', '|', '[', ']', '\x7b', '\x7d', '^', '$', '#', '&', '-', '~']

/-- An escaped character. -/
def escapeChar (c : Char) : List Char := if c ∈ special then ['\\', c] else [c]

/-- An escaped text. -/
def escape (s : String) : String := String.ofList (s.toList.flatMap escapeChar)

/-- The expression of a pattern with stars. -/
def expression (pattern : String) : String :=
  "^" ++ join ".*" ((pieces '*' pattern).map escape) ++ "$"

/-- The atoms of an expression. -/
inductive Atom where
  /-- The start of the topic. -/
  | start
  /-- The end of the topic. -/
  | stop
  | char (c : Char)
  /-- A run of characters without line feed. -/
  | run
  deriving DecidableEq, Repr

/-- The atoms of the text of an expression. Repetition of single characters is excluded, since its
marks are special. -/
inductive Reads : List Char → List Atom → Prop
  | nil : Reads [] []
  | start {cs atoms} : Reads cs atoms → Reads ('^' :: cs) (.start :: atoms)
  | stop {cs atoms} : Reads cs atoms → Reads ('$' :: cs) (.stop :: atoms)
  | run {cs atoms} : Reads cs atoms → Reads ('.' :: '*' :: cs) (.run :: atoms)
  | escaped {c cs atoms} : c ∈ special → Reads cs atoms → Reads ('\\' :: c :: cs) (.char c :: atoms)
  | plain {c cs atoms} : c ∉ special → Reads cs atoms → Reads (c :: cs) (.char c :: atoms)

/-- The atoms match a prefix of `rest`, where `before` is the topic before it. -/
def FitsAt : (before : List Char) → List Atom → (rest : List Char) → Prop
  | _, [], _ => True
  | before, .start :: atoms, rest => before = [] ∧ FitsAt before atoms rest
  | before, .stop :: atoms, rest => rest = [] ∧ FitsAt before atoms rest
  | before, .char c :: atoms, rest => ∃ more, rest = c :: more ∧ FitsAt (before ++ [c]) atoms more
  | before, .run :: atoms, rest =>
    ∃ run more, '\n' ∉ run ∧ rest = run ++ more ∧ FitsAt (before ++ run) atoms more

/-- The atoms match somewhere in a topic. -/
def Finds (atoms : List Atom) (topic : List Char) : Prop :=
  ∃ before rest, topic = before ++ rest ∧ FitsAt before atoms rest

/-- An engine for regular expressions, which may refuse an expression as too large. -/
structure Engine where
  compile? : String → Option (String → Bool)
  isMatch_iff {text : String} {atoms : List Atom} {isMatch : String → Bool} (topic : String) :
    Reads text.toList atoms → compile? text = some isMatch →
      (isMatch topic = true ↔ Finds atoms topic.toList)

/-- Whether a pattern accepts a topic, with the engine for a pattern of stars and other characters.
A pattern that the engine refuses is compared literally. -/
def Engine.accepts (engine : Engine) (pattern topic : String) : Bool :=
  if pattern = "*" then true
  else if pattern.toList.contains '*' then
    match engine.compile? (expression pattern) with
    | some isMatch => isMatch topic
    | none => topic = pattern
  else topic = pattern

/-! ## The expression of a pattern -/

/-- The expression of one character of a pattern. -/
def translate (c : Char) : List Char := if c = '*' then ['.', '*'] else escapeChar c

/-- The atom of one character of a pattern. -/
def atom (c : Char) : Atom := if c = '*' then .run else .char c

theorem intercalate_escape (pattern : List Char) :
    ['.', '*'].intercalate ((cutAt '*' pattern).map (·.flatMap escapeChar)) =
      pattern.flatMap translate := by
  induction pattern with
  | nil => rfl
  | cons c pattern ih =>
    by_cases hc : c = '*'
    · subst hc
      obtain ⟨piece, more, hcut⟩ := List.exists_cons_of_ne_nil (cutAt_ne_nil '*' pattern)
      rw [cutAt_cons_self, List.flatMap_cons, ← ih, hcut]
      rfl
    · obtain ⟨piece, more, hcut, hcons⟩ := cutAt_cons_of_ne hc pattern
      rw [hcut] at ih
      rw [hcons, List.flatMap_cons, ← ih, translate, if_neg hc]
      cases more <;> simp [List.intercalate]

theorem toList_expression (pattern : String) :
    (expression pattern).toList = '^' :: (pattern.toList.flatMap translate ++ ['$']) := by
  have hpieces : ((pieces '*' pattern).map escape).map String.toList =
      (cutAt '*' pattern.toList).map (·.flatMap escapeChar) := by
    simp [pieces, escape]
  rw [expression, String.toList_append, String.toList_append, join, String.toList_intercalate,
    hpieces, ← intercalate_escape]
  rfl

theorem reads_translate (c : Char) {cs : List Char} {atoms : List Atom} (h : Reads cs atoms) :
    Reads (translate c ++ cs) (atom c :: atoms) := by
  unfold translate atom
  split
  · exact .run h
  · unfold escapeChar
    split
    · next hc => exact .escaped hc h
    · next hc => exact .plain hc h

/-- The atoms of the expression of a pattern are those of its characters, between `^` and `$`. -/
theorem reads_expression (pattern : String) :
    Reads (expression pattern).toList (.start :: (pattern.toList.map atom ++ [.stop])) := by
  rw [toList_expression]
  refine .start ?_
  induction pattern.toList with
  | nil => exact .stop .nil
  | cons c pattern ih =>
    rw [List.flatMap_cons, List.append_assoc]
    exact reads_translate c ih

theorem fitsAt_iff {before pattern rest : List Char} :
    FitsAt before (pattern.map atom ++ [.stop]) rest ↔ Denotes pattern rest := by
  induction pattern generalizing before rest with
  | nil => simp [FitsAt, Denotes]
  | cons c pattern ih =>
    by_cases hc : c = '*'
    · subst hc
      simp [atom, FitsAt, denotes_star, ih]
    · simp [atom, hc, FitsAt, denotes_literal hc, ih]

/-- The expression of a pattern matches exactly the topics of the pattern. -/
theorem finds_iff (pattern topic : List Char) :
    Finds (.start :: (pattern.map atom ++ [.stop])) topic ↔ Denotes pattern topic := by
  constructor
  · rintro ⟨before, rest, rfl, rfl, hfits⟩
    exact fitsAt_iff.1 hfits
  · exact fun h => ⟨[], topic, rfl, rfl, fitsAt_iff.2 h⟩

/-- An engine that does not refuse the expression agrees with `TopicPattern.accepts`. -/
theorem Engine.accepts_eq (engine : Engine) {pattern : String}
    (h : (engine.compile? (expression pattern)).isSome = true) (topic : String) :
    engine.accepts pattern topic = (ofString pattern).accepts topic := by
  obtain ⟨isMatch, hcompile⟩ := Option.isSome_iff_exists.1 h
  unfold Engine.accepts
  split
  · next hstar => simp [hstar, ofString, TopicPattern.accepts]
  · next hstar =>
    split
    · next hmem =>
      have hmem : '*' ∈ pattern.toList := by simpa using hmem
      rw [hcompile, Bool.eq_iff_iff, engine.isMatch_iff topic (reads_expression pattern) hcompile,
        finds_iff, accepts_of_mem hmem hstar]
    · next hmem =>
      have hmem : '*' ∉ pattern.toList := by simpa using hmem
      rw [ofString_of_not_mem hmem]
      exact decide_eq_decide.2 eq_comm

/-! ## The topics of a pattern -/

/-- A pattern without stars accepts exactly itself, and a lone star accepts every topic. Any other
pattern accepts the topics that are its pieces with runs without line feed between them. An engine
that does not refuse the expression of the pattern agrees. -/
theorem accepts_ofString (pattern topic : String) :
    ((ofString pattern).accepts topic = true ↔
      (pieces '*' pattern).length = 1 ∧ topic = pattern ∨ pattern = "*" ∨
      ∃ piece more runs, pieces '*' pattern = piece :: more ∧ more ≠ [] ∧
        runs.length = more.length ∧ (∀ run ∈ runs, '\n' ∉ run.toList) ∧
        topic = piece ++ String.join (List.zipWith (· ++ ·) runs more)) ∧
    ∀ engine : Engine, (engine.compile? (expression pattern)).isSome = true →
      engine.accepts pattern topic = (ofString pattern).accepts topic := by
  refine ⟨?_, fun engine h => engine.accepts_eq h topic⟩
  by_cases hstar : pattern = "*"
  · simp [hstar, ofString, accepts]
  have hlength := length_pieces '*' pattern
  by_cases hmem : '*' ∈ pattern.toList
  · obtain ⟨piece, more, hpieces⟩ :=
      List.exists_cons_of_ne_nil (List.ne_nil_of_length_eq_add_one hlength)
    have hcount : 0 < pattern.toList.count '*' := List.count_pos_iff.2 hmem
    have hmore : more ≠ [] := by
      rintro rfl
      rw [hpieces, List.length_singleton] at hlength
      omega
    rw [accepts_of_mem hmem hstar, denotes_toList_iff hpieces]
    constructor
    · rintro ⟨runs, hruns⟩
      exact .inr (.inr ⟨piece, more, runs, hpieces, hmore, hruns⟩)
    · rintro (⟨hone, -⟩ | hlone | ⟨piece', more', runs, hpieces', -, hruns⟩)
      · omega
      · exact absurd hlone hstar
      · obtain ⟨rfl, rfl⟩ := List.cons.inj (hpieces.symm.trans hpieces')
        exact ⟨runs, hruns⟩
  · rw [List.count_eq_zero.2 hmem] at hlength
    rw [ofString_of_not_mem hmem, accepts, decide_eq_true_iff, eq_comm]
    constructor
    · exact fun htopic => .inl ⟨hlength, htopic⟩
    · rintro (⟨-, rfl⟩ | hlone | ⟨piece, more, runs, hpieces, hmore, -⟩)
      · rfl
      · exact absurd hlone hstar
      · rw [hpieces, List.length_cons] at hlength
        exact absurd (List.length_eq_zero_iff.1 (Nat.succ.inj hlength)) hmore

theorem Reads.unique {cs : List Char} {atoms atoms' : List Atom} (h : Reads cs atoms)
    (h' : Reads cs atoms') : atoms = atoms' := by
  induction h generalizing atoms' with
  | nil => cases h'; rfl
  | start h ih => cases h' with
    | start h' => rw [ih h']
    | plain hc => exact absurd (by decide) hc
  | stop h ih => cases h' with
    | stop h' => rw [ih h']
    | plain hc => exact absurd (by decide) hc
  | run h ih => cases h' with
    | run h' => rw [ih h']
    | plain hc => exact absurd (by decide) hc
  | escaped hc h ih => cases h' with
    | escaped _ h' => rw [ih h']
    | plain hc => exact absurd (by decide) hc
  | plain hc h ih => cases h' with
    | plain _ h' => rw [ih h']
    | start | stop | run | escaped => exact absurd (by decide) hc

/-- An engine that refuses all expressions but one. -/
def demoEngine : Engine where
  compile? text :=
    if text = expression "a*.b*" then some fun topic => fits "a*.b*".toList topic.toList else none
  isMatch_iff {text atoms isMatch} topic hreads hcompile := by
    split at hcompile
    · next htext =>
      obtain rfl := Option.some.inj hcompile
      rw [htext] at hreads
      rw [hreads.unique (reads_expression _), finds_iff]
      exact fits_iff _ _
    · cases hcompile

/-- The run of the first star contains an occurrence of the next piece. -/
theorem accepts_ofString_demo :
    (demoEngine.compile? (expression "a*.b*")).isSome = true ∧
      expression "a*.b*" = "^a.*\\.b.*$" ∧
      (ofString "a*.b*").accepts "a.c.b" = true ∧
      demoEngine.accepts "a*.b*" "a.c.b" = true ∧ demoEngine.accepts "a*.b*" "abcb" = false := by
  have hcompile : (demoEngine.compile? (expression "a*.b*")).isSome = true := by
    simp [demoEngine]
  have haccepts : (ofString "a*.b*").accepts "a.c.b" = true :=
    (accepts_ofString "a*.b*" "a.c.b").1.2
      (.inr (.inr ⟨"a", [".b", ""], [".c", ""], by decide +kernel⟩))
  have hengine := (accepts_ofString "a*.b*" "a.c.b").2 demoEngine hcompile
  have hother := (accepts_ofString "a*.b*" "abcb").2 demoEngine hcompile
  exact ⟨hcompile, by decide +kernel, haccepts, hengine.trans haccepts,
    hother.trans (by decide +kernel)⟩

end PeerLink.TopicPattern
