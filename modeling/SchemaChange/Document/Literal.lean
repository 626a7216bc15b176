import SchemaChange.Calendar.Reader
import SchemaChange.Calendar.Text
import SchemaChange.Document.Fields
import SchemaChange.Model.Change

/-!
# Literals as JSON

A literal is an object with its kind and, except for NULL, its value. A row is an object
from column names to literals.
-/
namespace SchemaChange

open Json (Value)
open Document

namespace Literal

/-- The name of the kind of a literal. -/
def kindCode : Literal → String
  | null => "null"
  | string _ => "string"
  | char _ => "char"
  | bool _ => "bool"
  | int _ => "int"
  | uint _ => "u_int"
  | float _ => "float"
  | guid _ => "guid"
  | date _ => "date"
  | dateTime _ => "date_time"
  | dateTimeOffset _ => "date_time_offset"
  | enum _ => "enum"
  | binary _ => "binary"
  | systemMethod _ => "system_method"
  | function _ => "function"

/-- The value of a literal; NULL has none. -/
def content? : Literal → Option Value
  | null => none
  | string s | enum s | function s => some (.string s)
  | char c => some (.string (String.singleton c))
  | bool b => some (.bool b)
  | int i => some (ofInt i.toInt)
  | uint n => some (ofInt n.toNat)
  | float x => some (.number (.real x))
  | guid g => some (.string (String.ofList g.hyphenated))
  | date d => some (.string (String.ofList d.text))
  | dateTime t => some (.string (String.ofList (t.textWith 'T' ++ t.fractionText)))
  | dateTimeOffset t =>
      let clock := t.timeOfDay.textWith 'T' ++ t.timeOfDay.fractionText
      some (.string (String.ofList (clock ++ t.zoneText)))
  | binary bytes => some (.array (bytes.map fun b => ofInt b.toNat))
  | systemMethod m => some (.string m.code)

def toJson (l : Literal) : Value :=
  .object (("kind", .string l.kindCode) :: (l.content?.map (("value", ·))).toList)

/-- A text of exactly one character. -/
def oneChar? : Decoder Char
  | .string s => match s.toList with
    | [c] => some c
    | _ => none
  | _ => none

/-- Any number, an integer included. -/
def real? : Decoder Binary64
  | .number n => some n.toReal
  | _ => none

/-- The reader of the value of a kind; NULL and unknown kinds have none. -/
def decoder? : String → Option (Decoder Literal)
  | "string" => some fun v => (text? v).map string
  | "char" => some fun v => (oneChar? v).map char
  | "bool" => some fun v => (bool? v).map bool
  | "int" => some fun v => (int64? v).map int
  | "u_int" => some fun v => (uint64? v).map uint
  | "float" => some fun v => (real? v).map float
  | "guid" => some fun v => do return guid (← Guid.read? (← text? v).toList)
  | "date" => some fun v => do return date (← Calendar.readDate? (← text? v))
  | "date_time" => some fun v => do return dateTime (← Calendar.readDateTime? (← text? v))
  | "date_time_offset" => some fun v => do
      return dateTimeOffset (← Calendar.readOffsetDateTime? (← text? v))
  | "enum" => some fun v => (text? v).map enum
  | "binary" => some fun v => (list? byte? v).map binary
  | "system_method" => some fun v => (choice? SystemMethod.ofCode? v).map systemMethod
  | "function" => some fun v => (text? v).map function
  | _ => none

def ofJson? (v : Value) : Option Literal := do
  let ms ← record? ["kind", "value"] v
  let kind ← ms.required? "kind" (choice? some)
  if kind = "null" then
    match ms.find? "value" with
    | none | some .null => return null
    | some _ => none
  else
    let decode ← decoder? kind
    ms.required? "value" decode

end Literal

namespace Row

def toJson (row : Row) : Value :=
  .object (row.entries.map fun (column, value) => (column, value.toJson))

def ofJson? : Decoder Row
  | .object members => do
      let entries ← members.mapM fun (column, v) => do return (column, ← Literal.ofJson? v)
      return Row.ofList entries
  | _ => none

end Row

end SchemaChange
