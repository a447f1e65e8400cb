/-!
# Blank characters

The characters that the Unicode standard gives the property White_Space, and trimming by them.

## Main definitions

* `isBlank`: the property itself.
* `trim`: a text without the blanks at its two ends.
* `dropEnd`: a list without the elements at its end that satisfy a test.
-/

namespace PeerLink.Text

/-- Whether a character has the Unicode property White_Space. -/
def isBlank (c : Char) : Bool :=
  let n := c.toNat
  (9 ≤ n && n ≤ 13) || n == 0x20 || n == 0x85 || n == 0xA0 || n == 0x1680 ||
    (0x2000 ≤ n && n ≤ 0x200A) || n == 0x2028 || n == 0x2029 || n == 0x202F || n == 0x205F ||
    n == 0x3000

/-- Every character that core takes for white space is blank. -/
theorem isBlank_of_isWhitespace {c : Char} (h : c.isWhitespace = true) : isBlank c = true := by
  simp only [Char.isWhitespace, Bool.or_eq_true, decide_eq_true_eq] at h
  rcases h with ((rfl | rfl) | rfl) | rfl <;> decide

/-! ## Trimming -/

/-- The list without the elements at its end that satisfy `p`. -/
def dropEnd {α : Type} (p : α → Bool) (xs : List α) : List α :=
  (xs.reverse.dropWhile p).reverse

/-- The characters without the blanks at the two ends. -/
def trimChars (cs : List Char) : List Char :=
  dropEnd isBlank (cs.dropWhile isBlank)

/-- The text without the blanks at its two ends. -/
def trim (s : String) : String :=
  String.ofList (trimChars s.toList)

@[simp] theorem toList_trim (s : String) : (trim s).toList = trimChars s.toList := by
  simp [trim]

/-- The text without the blanks at its end. -/
def trimEnd (s : String) : String :=
  String.ofList (dropEnd isBlank s.toList)

/-- The text without every character `c` at its end. -/
def trimEndOf (c : Char) (s : String) : String :=
  String.ofList (dropEnd (· == c) s.toList)

end PeerLink.Text
