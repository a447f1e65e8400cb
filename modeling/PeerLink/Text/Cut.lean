/-!
# Cutting texts

Cutting a beginning off, cutting at a separator, and putting the pieces together again.

## Main definitions

* `dropPrefix?`: what follows a given beginning.
* `cutAt`, `pieces`: the pieces between the occurrences of a separator.
* `dropBytes?`: what follows a number of bytes.
* `lines`: the lines of a text.
-/

namespace PeerLink.Text

/-- What follows `start` in `cs`, when `cs` begins with it. -/
def dropPrefix? {α : Type} [BEq α] : (start cs : List α) → Option (List α)
  | [], cs => some cs
  | _ :: _, [] => none
  | a :: start, c :: cs => if a == c then dropPrefix? start cs else none

theorem dropPrefix?_eq_some_iff {α : Type} [BEq α] [LawfulBEq α] {start cs rest : List α} :
    dropPrefix? start cs = some rest ↔ cs = start ++ rest := by
  induction start generalizing cs with
  | nil => simp [dropPrefix?]
  | cons a start ih => cases cs with
    | nil => simp [dropPrefix?]
    | cons c cs =>
      by_cases h : a = c
      · subst h; simp [dropPrefix?, ih]
      · have : c ≠ a := fun e => h e.symm
        simp [dropPrefix?, h, this]

/-- Whether a text begins with another. -/
def beginsWith (start s : String) : Bool :=
  (dropPrefix? start.toList s.toList).isSome

/-- The pieces between the occurrences of `sep`; there is one more of them than of those. -/
def cutAt {α : Type} [BEq α] (sep : α) (xs : List α) : List (List α) :=
  xs.foldr (fun x cut =>
    if x == sep then [] :: cut
    else match cut with
      | [] => [[x]]
      | piece :: rest => (x :: piece) :: rest) [[]]

@[simp] theorem cutAt_nil {α : Type} [BEq α] (sep : α) : cutAt sep [] = [[]] := rfl

theorem cutAt_ne_nil {α : Type} [BEq α] (sep : α) (xs : List α) : cutAt sep xs ≠ [] := by
  cases xs with
  | nil => simp
  | cons x xs =>
    simp only [cutAt, List.foldr_cons]
    split
    · simp
    · split <;> simp

/-- The pieces of a text between the occurrences of a character. -/
def pieces (sep : Char) (s : String) : List String :=
  (cutAt sep s.toList).map String.ofList

/-- What follows the first `n` bytes of the UTF-8 form of a text, if they are whole characters. -/
def dropBytes? : (n : Nat) → List Char → Option (List Char)
  | 0, cs => some cs
  | _ + 1, [] => none
  | n + 1, c :: cs => if c.utf8Size ≤ n + 1 then dropBytes? (n + 1 - c.utf8Size) cs else none

/-- The texts one after another with `sep` between neighbours. -/
def join (sep : String) (texts : List String) : String :=
  sep.intercalate texts

/-- The pieces between line feeds as lines: the last is one only if it is not empty, and any other
loses a carriage return at its end. -/
def asLines : List (List Char) → List (List Char)
  | [] => []
  | [last] => if last.isEmpty then [] else [last]
  | line :: rest => (if line.getLast? = some '\r' then line.dropLast else line) :: asLines rest

/-- The lines of a text. -/
def lines (s : String) : List String :=
  (asLines (cutAt '\n' s.toList)).map String.ofList

end PeerLink.Text
