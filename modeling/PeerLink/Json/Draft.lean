import PeerLink.Json.Token
/-!
# Documents as far as they are well formed

A text is read from left to right, and what is wrong with it is often known before its end is
reached. A draft holds everything up to the first place where the text is no document, so that a
reader of values meets the faults in the order of the text.

## Main definitions

* `Draft`: a value, possibly cut short.
* `Draft.ofTokens`: the draft at the start of some tokens.
* `Draft.isWhole`: whether nothing is missing.
* `Draft.value?`: the value of a draft, if it is one.
* `Json.draft`: the draft of a value.
* `Json.parse?`: the value that a text is.
-/

namespace PeerLink.Json

/-- A value, possibly cut short. -/
inductive Draft where
  /-- There is no value here. -/
  | broken
  | null
  | bool (b : Bool)
  /-- A number; `none` if it is out of range. -/
  | number (n : Option Json.Number)
  /-- A text; `none` if it holds half of a surrogate pair. -/
  | text (s : Option String)
  /-- An array, and whether it was closed after these items. -/
  | array (items : List Draft) (closed : Bool)
  /-- An object, and whether it was closed after these members. -/
  | object (members : List (Option String × Draft)) (closed : Bool)
  deriving Repr, Inhabited

namespace Draft

/-! ## From tokens -/

mutual

/-- The draft at the start of some tokens and what follows it, of which nothing is left after a
fault; `fuel` bounds the number of steps. -/
def take (fuel : Nat) (ts : List Token) : Draft × List Token :=
  match fuel, ts with
  | _, .null :: ts => (null, ts)
  | _, .bool b :: ts => (bool b, ts)
  | _, .number n :: ts => (number n, ts)
  | _, .text s :: ts => (text s, ts)
  | _, .openArray :: .closeArray :: ts => (array [] true, ts)
  | fuel + 1, .openArray :: ts =>
    let (items, closed, ts) := takeItems fuel ts
    (array items closed, ts)
  | _, .openObject :: .closeObject :: ts => (object [] true, ts)
  | fuel + 1, .openObject :: ts =>
    let (members, closed, ts) := takeMembers fuel ts
    (object members closed, ts)
  | _, _ => (broken, [])

/-- The items of an array up to its end, whether it has one, and what follows. -/
def takeItems (fuel : Nat) (ts : List Token) : List Draft × Bool × List Token :=
  match fuel with
  | 0 => ([], false, [])
  | fuel + 1 =>
    let (item, ts) := take fuel ts
    match ts with
    | .comma :: ts =>
      let (items, closed, ts) := takeItems fuel ts
      (item :: items, closed, ts)
    | .closeArray :: ts => ([item], true, ts)
    | _ => ([item], false, [])

/-- The members of an object up to its end, whether it has one, and what follows. -/
def takeMembers (fuel : Nat) (ts : List Token) : List (Option String × Draft) × Bool × List Token :=
  match fuel, ts with
  | fuel + 1, .text key :: .colon :: ts =>
    let (value, ts) := take fuel ts
    match ts with
    | .comma :: ts =>
      let (members, closed, ts) := takeMembers fuel ts
      ((key, value) :: members, closed, ts)
    | .closeObject :: ts => ([(key, value)], true, ts)
    | _ => ([(key, value)], false, [])
  | _, .text key :: _ => ([(key, broken)], false, [])
  | _, _ => ([], false, [])

end

/-- The draft at the start of some tokens, and what follows it. -/
def ofTokens (ts : List Token) : Draft × List Token := take (2 * ts.length + 1) ts

/-! ## Values -/

mutual

/-- Whether the draft is a document. What is only passed over may hold numbers out of range and
halves of surrogate pairs. -/
def isWhole : Draft → Bool
  | broken => false
  | null | bool _ | number _ | text _ => true
  | array items closed => closed && allWhole items
  | object members closed => closed && membersWhole members

/-- Whether all items are documents. -/
def allWhole : List Draft → Bool
  | [] => true
  | d :: rest => isWhole d && allWhole rest

/-- Whether the values of all members are documents. -/
def membersWhole : List (Option String × Draft) → Bool
  | [] => true
  | (_, d) :: rest => isWhole d && membersWhole rest

end

mutual

/-- The value of a draft, if nothing is missing and arrays and objects are nested at most `depth`
deep. -/
def value? (depth : Nat) : Draft → Option Json
  | broken => none
  | null => some .null
  | bool b => some (.bool b)
  | number n => n.map .number
  | text s => s.map .text
  | array items closed =>
    match depth with
    | 0 => none
    | depth + 1 => if closed then (values? depth items).map .array else none
  | object members closed =>
    match depth with
    | 0 => none
    | depth + 1 => if closed then (memberValues? depth members).map .ofMembers else none

/-- The values of all items. -/
def values? (depth : Nat) : List Draft → Option (List Json)
  | [] => some []
  | d :: rest => do return (← value? depth d) :: (← values? depth rest)

/-- The keys and values of all members. -/
def memberValues? (depth : Nat) : List (Option String × Draft) → Option (List (String × Json))
  | [] => some []
  | (key, d) :: rest => do return ((← key), (← value? depth d)) :: (← memberValues? depth rest)

end

end Draft

/-- How deep arrays and objects of a document may be nested. -/
def maxDepth : Nat := 127

/-- The value that a text is. -/
def parse? (s : String) : Option Json :=
  match Draft.ofTokens (tokens s.toList) with
  | (d, []) => d.value? maxDepth
  | _ => none

mutual

/-- The draft of a value: all of it. -/
def draft : Json → Draft
  | null => .null
  | bool b => .bool b
  | number n => .number (some n)
  | text s => .text (some s)
  | array items => .array (drafts items) true
  | object members => .object (memberDrafts members) true

/-- The drafts of all items. -/
def drafts : List Json → List Draft
  | [] => []
  | v :: rest => draft v :: drafts rest

/-- The drafts of all members. -/
def memberDrafts : List (String × Json) → List (Option String × Draft)
  | [] => []
  | (k, v) :: rest => (some k, draft v) :: memberDrafts rest

end

end PeerLink.Json
