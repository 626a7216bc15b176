import SchemaChange.Json.Value

/-!
# Fields of JSON objects

Records are read from objects by name. Members may stand in any order and unknown ones
are passed over, but a known name must not be repeated. A field is required, optional
(absent or null), or has a default when it is absent.
-/
namespace SchemaChange.Document

open Json (Value)

/-- A reader of one JSON value. -/
abbrev Decoder (α : Type) := Value → Option α

abbrev Members := List (String × Value)

/-- The members of an object that repeats none of the known names. -/
def record? (known : List String) : Decoder Members
  | .object members =>
      if known.all fun name => (members.filter (·.1 == name)).length ≤ 1 then some members
      else none
  | _ => none

namespace Members

def find? (ms : Members) (name : String) : Option Value :=
  (List.find? (·.1 == name) ms).map (·.2)

def required? {α : Type} (ms : Members) (name : String) (decode : Decoder α) : Option α := do
  decode (← ms.find? name)

/-- An absent or null field is a value of its own. -/
def optional? {α : Type} (ms : Members) (name : String) (decode : Decoder α) :
    Option (Option α) :=
  match ms.find? name with
  | none | some .null => some none
  | some v => (decode v).map some

def defaulted? {α : Type} (ms : Members) (name : String) (absent : α) (decode : Decoder α) :
    Option α :=
  match ms.find? name with
  | none => some absent
  | some v => decode v

end Members

def text? : Decoder String
  | .string s => some s
  | _ => none

def bool? : Decoder Bool
  | .bool b => some b
  | _ => none

/-- An integer between two bounds, both included. -/
def integer? (low high : Int) : Decoder Int
  | .number (.int i) => if low ≤ i ∧ i ≤ high then some i else none
  | _ => none

def int64? (v : Value) : Option Int64 :=
  (integer? Int64.minValue.toInt Int64.maxValue.toInt v).map Int64.ofInt

def uint64? (v : Value) : Option UInt64 :=
  (integer? 0 (UInt64.size - 1 : Nat) v).map fun i => UInt64.ofNat i.toNat

def uint32? (v : Value) : Option UInt32 :=
  (integer? 0 (UInt32.size - 1 : Nat) v).map fun i => UInt32.ofNat i.toNat

def byte? (v : Value) : Option UInt8 :=
  (integer? 0 255 v).map fun i => UInt8.ofNat i.toNat

def list? {α : Type} (decode : Decoder α) : Decoder (List α)
  | .array items => items.mapM decode
  | _ => none

/-- A member of an enumeration: its name alone, or its name as the only key of an object
with the value null. -/
def choice? {α : Type} (ofCode? : String → Option α) : Decoder α
  | .string name => ofCode? name
  | .object [(name, .null)] => ofCode? name
  | _ => none

/-- An optional field as a value. -/
def ofOption {α : Type} (encode : α → Value) : Option α → Value
  | none => .null
  | some a => encode a

def ofTexts (texts : List String) : Value := .array (texts.map .string)

def ofInt (i : Int) : Value := .number (.int i)

end SchemaChange.Document
