import TradingStrategy.Json.Basic

/-!
JSON forms of types. A record is written as an object in the order of its fields, those without a
value left out; it is read from an object, or from an array that lists its fields in order. A value
of one of several types is written beside the name of its type.
-/

set_option autoImplicit false

namespace TradingStrategy

/-- A type with a JSON form. Reading fails on what is no form of any value. -/
class Wire (α : Type) where
  toJson : α → Json
  ofJson? : Json → Option α

namespace Wire

def same {α : Type} [Wire α] (a b : α) : Bool := Json.same (toJson a) (toJson b)

instance : Wire String where
  toJson := .string
  ofJson?
    | .string s => some s
    | _ => none

instance : Wire Bool where
  toJson := .bool
  ofJson?
    | .bool b => some b
    | _ => none

instance : Wire Binary64 where
  toJson := .float
  ofJson?
    | .float x => some x
    | .integer n => some (.ofInt n)
    | _ => none

instance : Wire UInt32 where
  toJson n := .integer n.toNat
  ofJson?
    | .integer n => if 0 ≤ n ∧ n < 0x100000000 then some (UInt32.ofNat n.toNat) else none
    | _ => none

instance : Wire Int32 where
  toJson n := .integer n.toInt
  ofJson?
    | .integer n => if -0x80000000 ≤ n ∧ n < 0x80000000 then some (Int32.ofInt n) else none
    | _ => none

-- Positions in a list: whole numbers of 64 bits.
instance : Wire Nat where
  toJson n := .integer n
  ofJson?
    | .integer n => if 0 ≤ n ∧ n < 0x10000000000000000 then some n.toNat else none
    | _ => none

instance : Wire Value where
  toJson v := v.json
  ofJson? := Value.ofJson?

instance {α : Type} [Wire α] : Wire (List α) where
  toJson xs := .array (xs.map toJson)
  ofJson?
    | .array items => items.mapM ofJson?
    | _ => none

instance {α : Type} [Wire α] : Wire (Option α) where
  toJson
    | some a => toJson a
    | none => .null
  ofJson?
    | .null => some none
    | j => (ofJson? j).map some

-- The last of several entries with one key counts, but all must be readable.
instance {α : Type} [Wire α] : Wire (Dict α) where
  toJson d := .object (d.entries.map fun e => (e.1, toJson e.2))
  ofJson?
    | .object entries => do
      let es ← entries.mapM fun e => (ofJson? e.2).map fun a => (e.1, a)
      some (Dict.ofList es)
    | _ => none

/-- A word for each value of an enumeration; also read from an object of that one key with `null`. -/
def word? {α : Type} (words : List (String × α)) : Json → Option α
  | .string s => words.lookup s
  | .object [(s, .null)] => words.lookup s
  | _ => none

end Wire

def Json.record (fields : List (String × Option Json)) : Json :=
  .object (fields.filterMap fun f => f.2.map fun j => (f.1, j))

structure Fields where
  entries : List (String × Json)
  /-- Fields were given by name, not by position. -/
  named : Bool

namespace Fields

variable {α : Type} [Wire α]

/-- Opens a record with the given field names. No known field may be given twice; unknown ones are
ignored. -/
def ofJson? (names : List String) : Json → Option Fields
  | .object entries =>
    if names.all fun n => (entries.filter (·.1 == n)).length ≤ 1 then some ⟨entries, true⟩ else none
  | .array items => if items.length ≤ names.length then some ⟨names.zip items, false⟩ else none
  | _ => none

def get? (f : Fields) (name : String) : Option Json := f.entries.lookup name

def required (f : Fields) (name : String) : Option α := (f.get? name).bind Wire.ofJson?

def optional (f : Fields) (name : String) : Option (Option α) :=
  match f.get? name with
  | none => some none
  | some j => Wire.ofJson? j

/-- A field that may be missing or `null` by name, but not missing by position. -/
def nullable (f : Fields) (name : String) : Option (Option α) :=
  match f.get? name with
  | none => if f.named then some none else none
  | some j => Wire.ofJson? j

def withDefault (f : Fields) (name : String) (value : α) : Option α :=
  match f.get? name with
  | none => some value
  | some j => Wire.ofJson? j

end Fields

-- The object of a word may hold an empty object instead of `null`.
def Json.plainWord : Json → Json
  | .object [(s, .object [])] => .object [(s, .null)]
  | j => j

/-- A value that was kept until its type was known. All of it must be readable, ignored fields too,
and a word in it may hold an empty object where it would hold `null`. -/
def Json.kept? (j : Json) : Option Json :=
  j.normalize.map fun _ =>
    match j with
    | .object [(_, .object [])] => j.plainWord
    | .object entries => .object (entries.map fun e => (e.1, e.2.plainWord))
    | .array items => .array (items.map Json.plainWord)
    | j => j

structure Tagged where
  type : Json
  data : Json

namespace Tagged

def fieldNames : List String := ["type", "data"]

/-- Reads an array of the type's name and the data, or an object of both; data that come before
their type are kept until it is known. -/
def ofJson? : Json → Option Tagged
  | .array [.string name, data] => some ⟨.string name, data⟩
  | .object entries => do
    let f ← Fields.ofJson? fieldNames (.object entries)
    let type ← f.get? "type"
    let data ← f.get? "data"
    let first := (entries.find? fun e => fieldNames.contains e.1).map (·.1)
    return ⟨type, ← if first = some "data" then data.kept? else some data⟩
  | _ => none

end Tagged

end TradingStrategy
