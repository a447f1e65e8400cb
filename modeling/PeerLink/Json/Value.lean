import PeerLink.Number.Shortest
/-!
# JSON values

## Main definitions

* `Number`: integers and binary floating point, told apart by how they are written.
* `Json`: the values.
* `Json.put`: a member of an object, whose keys are kept in order and without repetition.
* `Json.compact`: the text of a value without blanks.
-/

namespace PeerLink

open Number

/-- A number of a document. -/
inductive Json.Number where
  /-- An integer of at most 64 bits, with a sign or without. -/
  | int (n : Int)
  /-- Any other number. -/
  | float (x : Binary64)
  deriving DecidableEq, Repr

/-- A value of a document. The members of an object are in the order of their keys. -/
inductive Json where
  | null
  | bool (b : Bool)
  | number (n : Json.Number)
  | text (s : String)
  | array (items : List Json)
  | object (members : List (String × Json))
  deriving Repr, Inhabited

namespace Json

/-- The member of an object with the given key. -/
def lookup (key : String) : Json → Option Json
  | object members => members.lookup key
  | _ => none

/-- The text, if the value is one. -/
def text? : Json → Option String
  | text s => some s
  | _ => none

/-- The members with one more; of two with one key the new one stays. -/
def put (key : String) (value : Json) : List (String × Json) → List (String × Json)
  | [] => [(key, value)]
  | (k, v) :: rest =>
    if key < k then (key, value) :: (k, v) :: rest
    else if key = k then (key, value) :: rest
    else (k, v) :: put key value rest

/-- The object with these members, the later of two with one key. -/
def ofMembers (members : List (String × Json)) : Json :=
  object (members.foldl (fun ms m => put m.1 m.2 ms) [])

/-! ## Text -/

/-- Numbers with an exponent from -5 to 15 are written positionally, any other with an exponent. -/
def notation64 : Notation64 := ⟨-5, 15⟩

/-- The text of a number. -/
def Number.compact : Json.Number → String
  | .int n => toString n
  | .float x => notation64.write x

/-- The lower-case digit of a number below 16. -/
def hexDigit (n : Nat) : Char :=
  if n < 10 then Char.ofNat (48 + n) else Char.ofNat (87 + n)

/-- A character inside quotes. -/
def escape (c : Char) : List Char :=
  if c = '"' then ['\\', '"']
  else if c = '\\' then ['\\', '\\']
  else if c = '\n' then ['\\', 'n']
  else if c = '\r' then ['\\', 'r']
  else if c = '\t' then ['\\', 't']
  else if c.toNat = 8 then ['\\', 'b']
  else if c.toNat = 12 then ['\\', 'f']
  else if c.toNat < 32 then ['\\', 'u', '0', '0', hexDigit (c.toNat / 16), hexDigit (c.toNat % 16)]
  else [c]

/-- A text in quotes. -/
def quote (s : String) : List Char :=
  '"' :: s.toList.flatMap escape ++ ['"']

mutual

/-- The characters of a value without blanks. -/
def compactChars : Json → List Char
  | null => "null".toList
  | bool true => "true".toList
  | bool false => "false".toList
  | number n => n.compact.toList
  | text s => quote s
  | array items => '[' :: compactItems items ++ [']']
  | object members => '\x7b' :: compactMembers members ++ ['\x7d']

/-- The items of an array with commas between them. -/
def compactItems : List Json → List Char
  | [] => []
  | [v] => compactChars v
  | v :: rest => compactChars v ++ ',' :: compactItems rest

/-- The members of an object with commas between them. -/
def compactMembers : List (String × Json) → List Char
  | [] => []
  | [(k, v)] => quote k ++ ':' :: compactChars v
  | (k, v) :: rest => quote k ++ ':' :: compactChars v ++ ',' :: compactMembers rest

end

/-- The text of a value without blanks. -/
def compact (v : Json) : String := String.ofList (compactChars v)

end Json

end PeerLink
