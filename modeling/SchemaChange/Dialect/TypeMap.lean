import SchemaChange.Error
import SchemaChange.Text.Search

/-!
# Native types

A type map gives every portable type some templates, each up to a capacity. A size takes
the template of the least capacity that holds it; capacity zero is for columns without a
size. A later registration of the same type and capacity replaces an earlier one.
-/
namespace SchemaChange

/-- A template for the sizes of a type up to a capacity. -/
structure Registration where
  type : DbType
  capacity : Nat
  template : String
  deriving DecidableEq

/-- The registrations of a dialect, the latest first. -/
structure TypeMap where
  dialect : Dialect
  registrations : List Registration := []

namespace TypeMap

/-- The largest capacity of any dialect. -/
def maxCapacity : Nat := Int32.maxValue.toInt.toNat

/-- Register a template for sizes up to a capacity. -/
def setSized (m : TypeMap) (type : DbType) (capacity : Nat) (template : String) : TypeMap :=
  { m with registrations := ⟨type, capacity, template⟩ :: m.registrations }

/-- Register the template of a type without a size. -/
def set (m : TypeMap) (type : DbType) (template : String) : TypeMap :=
  m.setSized type 0 template

/-- A map from its registrations in order. -/
def ofList (dialect : Dialect) (registrations : List (DbType × Nat × String)) : TypeMap :=
  registrations.foldl (fun m (type, capacity, template) => m.setSized type capacity template)
    { dialect }

def supports (m : TypeMap) (type : DbType) : Bool :=
  m.registrations.any fun r => r.type == type

/-- The capacities registered for a type. -/
def capacities (m : TypeMap) (type : DbType) : List Nat :=
  (m.registrations.filter fun r => r.type == type).map (·.capacity)

/-- The template last registered for a type and a capacity. -/
def template? (m : TypeMap) (type : DbType) (capacity : Nat) : Option String :=
  (m.registrations.find? fun r => r.type == type && r.capacity == capacity).map (·.template)

/-- The capacity whose template serves a size: zero for no size or where no sizes are
told apart, else the least one that holds the size. -/
def bucket (m : TypeMap) (type : DbType) (size : Nat) : Except NoType Nat :=
  let capacities := m.capacities type
  if capacities.isEmpty then .error (.unknown m.dialect type)
  else if size = 0 ∨ capacities.all (· == 0) then
    if capacities.contains 0 then .ok 0 else .error (.sizeNeeded m.dialect type)
  else
    match (capacities.filter (size ≤ ·)).min? with
    | some capacity => .ok capacity
    | none => .error (.sizeTooLarge m.dialect type size)

/-- Put size and precision into a template, in this order. -/
def instantiate (template : String) (size precision : Nat) : String :=
  let withSize := Text.replaceAll "$size".toList (Nat.toDigits 10 size) template.toList
  String.ofList <|
    Text.replaceAll "$precision".toList (Nat.toDigits 10 precision) withSize

/-- The native type of a portable one; an absent size or precision counts as zero. -/
def get (m : TypeMap) (type : DbType) (size precision : Option UInt32) :
    Except Error String := do
  let size := (size.getD 0).toNat
  let capacity ← (m.bucket type size).mapError .noType
  let template := (m.template? type capacity).getD ""
  return instantiate template size (precision.getD 0).toNat

end TypeMap

end SchemaChange
