import PeerLink.Json.Numeral
/-!
# Tokens of a JSON text

## Main definitions

* `Token`: the words of the grammar; `junk` stands for the first place where there is none.
* `tokens`: the tokens of a text.
-/

namespace PeerLink.Json

/-- A word of the grammar. -/
inductive Token where
  | openArray
  | closeArray
  | openObject
  | closeObject
  | comma
  | colon
  | null
  | bool (b : Bool)
  /-- A number; `none` if it is out of range. -/
  | number (n : Option Json.Number)
  /-- A text; `none` if it holds half of a surrogate pair. -/
  | text (s : Option String)
  /-- The rest of the text does not begin with a word. -/
  | junk
  deriving DecidableEq, Repr

namespace Token

/-! ## Texts -/

/-- What has been read of a text: its characters, last first, a high surrogate that waits for its
low one, and whether every surrogate found its other half. -/
structure TextSoFar where
  chars : List Char := []
  waiting : Option Nat := none
  sound : Bool := true

namespace TextSoFar

/-- Adds a character. -/
def push (t : TextSoFar) (c : Char) : TextSoFar :=
  { chars := c :: t.chars, sound := t.sound && t.waiting.isNone }

/-- Adds a code unit of an escape. -/
def pushUnit (t : TextSoFar) (n : Nat) : TextSoFar :=
  if 0xD800 ≤ n ∧ n ≤ 0xDBFF then
    { t with waiting := some n, sound := t.sound && t.waiting.isNone }
  else if 0xDC00 ≤ n ∧ n ≤ 0xDFFF then
    match t.waiting with
    | some high =>
      { t with
        chars := Char.ofNat (0x10000 + (high - 0xD800) * 0x400 + (n - 0xDC00)) :: t.chars
        waiting := none }
    | none => { t with sound := false }
  else t.push (Char.ofNat n)

/-- The text, if it is one. -/
def result (t : TextSoFar) : Option String :=
  if t.sound && t.waiting.isNone then some (String.ofList t.chars.reverse) else none

end TextSoFar

/-- The value of a hexadecimal digit. -/
def hexValue? (c : Char) : Option Nat :=
  let n := c.toNat
  if 48 ≤ n ∧ n ≤ 57 then some (n - 48)
  else if 97 ≤ n ∧ n ≤ 102 then some (n - 87)
  else if 65 ≤ n ∧ n ≤ 70 then some (n - 55)
  else none

/-- The code unit that four hexadecimal digits spell. -/
def hexUnit? (a b c d : Char) : Option Nat := do
  some ((((← hexValue? a) * 16 + (← hexValue? b)) * 16 + (← hexValue? c)) * 16 + (← hexValue? d))

/-- The character that a letter after a backslash stands for. -/
def escaped? (c : Char) : Option Char :=
  match c with
  | '"' => some '"'
  | '\\' => some '\\'
  | '/' => some '/'
  | 'b' => some '\x08'
  | 'f' => some '\x0c'
  | 'n' => some '\n'
  | 'r' => some '\r'
  | 't' => some '\t'
  | _ => none

/-- Reads a text after its opening quote: the text, and what follows its closing quote. -/
def scanText : TextSoFar → List Char → Option (Option String × List Char)
  | _, [] => none
  | t, '"' :: cs => some (t.result, cs)
  | t, '\\' :: 'u' :: a :: b :: c :: d :: cs =>
    match hexUnit? a b c d with
    | some n => scanText (t.pushUnit n) cs
    | none => none
  | t, '\\' :: c :: cs =>
    match escaped? c with
    | some e => scanText (t.push e) cs
    | none => none
  | t, c :: cs => if c.toNat < 32 ∨ c = '\\' then none else scanText (t.push c) cs

theorem length_scanText_le {t : TextSoFar} {cs : List Char} {r : Option String × List Char}
    (h : scanText t cs = some r) : r.2.length ≤ cs.length := by
  fun_induction scanText t cs with
  | case1 => simp at h
  | case2 => simp only [Option.some.injEq] at h; subst h; simp
  | case3 _ _ _ _ _ _ _ _ ih => have := ih h; simp only [List.length_cons]; omega
  | case4 => simp at h
  | case5 _ _ _ _ _ _ ih => have := ih h; simp only [List.length_cons]; omega
  | case6 => simp at h
  | case7 => simp at h
  | case8 _ _ _ _ _ _ _ ih => have := ih h; simp only [List.length_cons]; omega

/-! ## Words -/

/-- The rest of the characters after a word, if they begin with it. -/
def word (w : List Char) (t : Token) (cs : List Char) : Token × List Char :=
  if w.isPrefixOf cs then (t, cs.drop w.length) else (.junk, [])

/-- A numeral. -/
def numeral (negative : Bool) (cs : List Char) : Token × List Char :=
  match Numeral.scan negative cs with
  | some (n, rest) => (.number n.value?, rest)
  | none => (.junk, [])

/-- The token that begins with the character `c`, and what follows it. -/
def next (c : Char) (cs : List Char) : Token × List Char :=
  match c with
  | '[' => (.openArray, cs)
  | ']' => (.closeArray, cs)
  | '\x7b' => (.openObject, cs)
  | '\x7d' => (.closeObject, cs)
  | ',' => (.comma, cs)
  | ':' => (.colon, cs)
  | 'n' => word "ull".toList .null cs
  | 't' => word "rue".toList (.bool true) cs
  | 'f' => word "alse".toList (.bool false) cs
  | '-' => numeral true cs
  | '"' =>
    match scanText {} cs with
    | some (s, rest) => (.text s, rest)
    | none => (.junk, [])
  | c => numeral false (c :: cs)

theorem length_word_le (w : List Char) (t : Token) (cs : List Char) :
    (word w t cs).2.length ≤ cs.length := by
  unfold word
  split <;> simp

theorem length_numeral_lt (negative : Bool) (cs : List Char) (h : cs ≠ []) :
    (numeral negative cs).2.length < cs.length := by
  unfold numeral
  split
  · exact Numeral.length_scan_lt ‹_›
  · exact List.length_pos_iff.2 h

theorem length_next_le (c : Char) (cs : List Char) : (next c cs).2.length ≤ cs.length := by
  unfold next
  split <;> try simp only [Nat.le_refl, length_word_le]
  · by_cases h : cs = []
    · subst h; decide
    · exact Nat.le_of_lt (length_numeral_lt _ _ h)
  · split
    · exact length_scanText_le ‹_›
    · simp
  · exact Nat.le_of_lt_succ (length_numeral_lt _ _ (by simp))

end Token

/-- Whether a character may stand between two words. -/
def isSpace (c : Char) : Bool :=
  c = ' ' || c = '\n' || c = '\t' || c = '\r'

/-- The tokens of some characters; nothing follows junk. -/
def tokens : List Char → List Token
  | [] => []
  | c :: cs =>
    if isSpace c then tokens cs
    else
      have := Token.length_next_le c cs
      match (Token.next c cs).1 with
      | .junk => [.junk]
      | t => t :: tokens (Token.next c cs).2
termination_by cs => cs.length
decreasing_by
  · simp
  · simp only [List.length_cons]; omega

end PeerLink.Json
