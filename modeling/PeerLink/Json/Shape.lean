import PeerLink.Json.Draft
import PeerLink.Text.Quoted
/-!
# Values of an expected shape

A reader takes from a draft the value it expects and reports the first thing in the text that is not
as expected.

## Main definitions

* `Mismatch`: what a reader can report, and its wording.
* `Reader.text`, `Reader.natural`, …: the readers of plain values.
* `Reader.list`: a reader of arrays.
* `RecordShape`, `Reader.record`: a reader of records, written as objects or as arrays.
-/

namespace PeerLink.Json

/-! ## Mismatches -/

/-- What stands in the place of an expected value. -/
inductive Found where
  | null
  | bool (b : Bool)
  | number (n : Json.Number)
  | text (s : String)
  | sequence
  | map
  deriving DecidableEq, Repr

/-- The wording of what was found. -/
def Found.describe : Found → String
  | null => "null"
  | bool b => "boolean `" ++ toString b ++ "`"
  | number (.int n) => "integer `" ++ toString n ++ "`"
  | number (.float x) => "floating point `" ++ (Number.float x).compact ++ "`"
  | text s => "string " ++ Text.quoted s
  | sequence => "sequence"
  | map => "map"

/-- Why a text does not hold the expected value. -/
inductive Mismatch where
  /-- The text is no document. -/
  | malformed
  /-- A value of another type. -/
  | wrongType (found : Found) (expected : String)
  /-- A number outside the expected range. -/
  | wrongValue (found : Found) (expected : String)
  /-- A record without a field that it needs. -/
  | missingField (name : String)
  /-- A record with a field given twice. -/
  | duplicateField (name : String)
  /-- An array of the wrong length. -/
  | wrongLength (length : Nat) (expected : String)
  deriving DecidableEq, Repr

/-- The wording of a mismatch. -/
def Mismatch.message : Mismatch → String
  | malformed => "invalid JSON"
  | wrongType found expected => "invalid type: " ++ found.describe ++ ", expected " ++ expected
  | wrongValue found expected => "invalid value: " ++ found.describe ++ ", expected " ++ expected
  | missingField name => "missing field `" ++ name ++ "`"
  | duplicateField name => "duplicate field `" ++ name ++ "`"
  | wrongLength n expected => "invalid length " ++ toString n ++ ", expected " ++ expected

/-- The mismatch where a draft is of another type than `expected`. -/
def Draft.mismatch (expected : String) : Draft → Mismatch
  | null => .wrongType .null expected
  | bool b => .wrongType (.bool b) expected
  | number (some n) => .wrongType (.number n) expected
  | text (some s) => .wrongType (.text s) expected
  | array _ _ => .wrongType .sequence expected
  | object _ _ => .wrongType .map expected
  | broken | number none | text none => .malformed

/-! ## Plain values -/

/-- Takes a value from a draft. -/
abbrev Reader (α : Type) := Draft → Except Mismatch α

namespace Reader

/-- A text. -/
def text : Reader String
  | .text (some s) => .ok s
  | d => .error (d.mismatch "a string")

/-- A text, or null for none. -/
def text? : Reader (Option String)
  | .null => .ok none
  | d => (text d).map some

/-- A truth value. -/
def bool : Reader Bool
  | .bool b => .ok b
  | d => .error (d.mismatch "a boolean")

/-- An integer of 64 bits without a sign. -/
def natural (expected : String) : Reader Nat
  | .number (some (.int n)) =>
    if n < 0 then .error (.wrongValue (.number (.int n)) expected) else .ok n.toNat
  | d => .error (d.mismatch expected)

/-- A number, taken as floating point. -/
def float : Reader PeerLink.Number.Binary64
  | .number (some (.float x)) => .ok x
  | .number (some (.int n)) =>
    .ok (if n < 0 then (PeerLink.Number.Binary64.ofNat n.natAbs).neg else .ofNat n.toNat)
  | d => .error (d.mismatch "f64")

/-- The items of an array up to its end, each by the same reader. -/
def items {α : Type} (item : Reader α) (closed : Bool) : List Draft → Except Mismatch (List α)
  | [] => if closed then .ok [] else .error .malformed
  | d :: rest => do
    let x ← item d
    let xs ← items item closed rest
    return x :: xs

/-- An array whose items have one reader. -/
def list {α : Type} (item : Reader α) : Reader (List α)
  | .array ds closed => items item closed ds
  | d => .error (d.mismatch "a sequence")

end Reader

/-! ## Records -/

/-- A field of a record `σ`. -/
structure Field (σ : Type) where
  name : String
  /-- Whether a record without the field is incomplete. -/
  required : Bool
  /-- Takes the field's value into the record. -/
  fill : Draft → σ → Except Mismatch σ

/-- A record: its name in messages, its fields in order, and its value before any field is read. -/
structure RecordShape (σ : Type) where
  name : String
  fields : List (Field σ)
  blank : σ

namespace RecordShape

variable {σ : Type}

/-- A field whose value is read by `read` and put into the record by `set`. -/
def field {α : Type} (name : String) (required : Bool) (read : Reader α) (set : α → σ → σ) :
    Field σ where
  name := name
  required := required
  fill d s := (read d).map (set · s)

/-- How the record is named where something else is found. -/
def expected (l : RecordShape σ) : String := "struct " ++ l.name

/-- How the record is named where an array is too short for it. -/
def expectedLength (l : RecordShape σ) : String :=
  l.expected ++ " with " ++ toString l.fields.length ++
    (if l.fields.length = 1 then " element" else " elements")

/-- The first required field that was not seen. -/
def missing? (l : RecordShape σ) (seen : List String) : Option String :=
  (l.fields.find? fun f => f.required && !seen.contains f.name).map Field.name

/-- Reads the members of an object in the order of the text. A field that the record does not have
is passed over; that a field is missing shows only at the end. -/
def takeMembers (l : RecordShape σ) (closed : Bool) :
    (seen : List String) → σ → List (Option String × Draft) → Except Mismatch σ
  | seen, s, [] =>
    if !closed then .error .malformed
    else match l.missing? seen with
      | some name => .error (.missingField name)
      | none => .ok s
  | _, _, (none, _) :: _ => .error .malformed
  | seen, s, (some key, d) :: rest =>
    match l.fields.find? (·.name == key) with
    | none => if d.isWhole then l.takeMembers closed seen s rest else .error .malformed
    | some f =>
      if seen.contains key then .error (.duplicateField key)
      else do
        let s ← f.fill d s
        l.takeMembers closed (key :: seen) s rest

/-- Reads the items of an array into the fields in order. -/
def takeItems (l : RecordShape σ) (closed : Bool) (surplus : Mismatch) :
    (index : Nat) → σ → List (Field σ) → List Draft → Except Mismatch σ
  | _, s, [], [] => if closed then .ok s else .error .malformed
  | _, _, [], _ :: _ => .error surplus
  | index, s, f :: fs, d :: ds => do
    let s ← f.fill d s
    l.takeItems closed surplus (index + 1) s fs ds
  | index, s, f :: fs, [] =>
    if !closed then .error .malformed
    else if f.required then .error (.wrongLength index l.expectedLength)
    else l.takeItems closed surplus (index + 1) s fs []

end RecordShape

/-- A record, as an object or as an array of its fields in order; `surplus` is what an array with
more items than fields is reported as, given its length. -/
def Reader.record {σ : Type} (l : RecordShape σ) (surplus : Nat → Mismatch) : Reader σ
  | .object members closed => l.takeMembers closed [] l.blank members
  | .array items closed => l.takeItems closed (surplus items.length) 0 l.blank l.fields items
  | d => .error (d.mismatch l.expected)

/-- A record inside a text, where a surplus item of an array is a fault of the text. -/
def Reader.recordText {σ : Type} (l : RecordShape σ) : Reader σ :=
  Reader.record l fun _ => .malformed

/-- A record in a value. -/
def Reader.recordValue {σ : Type} (l : RecordShape σ) : Reader σ :=
  Reader.record l fun n => .wrongLength n "fewer elements in array"

/-- Reads a whole text; that something follows the value shows only at the end. -/
def readText {α : Type} (read : Reader α) (s : String) : Except Mismatch α :=
  let (d, rest) := Draft.ofTokens (tokens s.toList)
  match read d, rest with
  | .ok x, [] => .ok x
  | .ok _, _ :: _ => .error .malformed
  | .error e, _ => .error e

end PeerLink.Json
