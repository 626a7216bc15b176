import SchemaChange.Dialect.Switches
import SchemaChange.Dialect.TypeMap
import SchemaChange.Sql.Piece

/-!
# Profiles

All that the generation of SQL needs to know about one dialect: its types, its quoting,
the order of the clauses of a column, the forms of its statements, and the length of its
names. A form that a dialect lacks is absent.
-/
namespace SchemaChange

/-- One part of a column definition. -/
inductive Clause where
  | name
  | type
  | collation
  | nullable
  | default
  | primaryKey
  | identity
  | description
  deriving DecidableEq, Repr

namespace Clause

/-- The name used in answers. -/
def code : Clause → String
  | name => "Name"
  | type => "Type"
  | collation => "Collation"
  | nullable => "Nullable"
  | default => "Default"
  | primaryKey => "PrimaryKey"
  | identity => "Identity"
  | description => "Description"

/-- The order that most dialects share. -/
def standardOrder : List Clause :=
  [name, type, collation, nullable, default, primaryKey, identity]

/-- The order of dialects where a default stands before the mark of a NOT NULL column. -/
def defaultFirstOrder : List Clause :=
  [name, type, collation, default, identity, nullable, primaryKey]

end Clause

/-- The parts of a table's new name: where it is now and what it will be called. -/
structure Renaming where
  table : Sql
  newName : String
  newTable : Sql

/-- The statements whose form differs between dialects, as functions of their parts.
The defaults are the forms of the common standard. -/
structure Forms where
  createSchema : Option (Sql → Sql) := some fun schema => "CREATE SCHEMA " ++ schema
  dropSchema : Option (Sql → Sql) := some fun schema => "DROP SCHEMA " ++ schema
  /-- Move a table, given by its full and its bare name, to another schema. -/
  moveTable : Option (Sql → Sql → Sql → Sql) := none
  createTable : Sql → Sql → Sql := fun table columns =>
    "CREATE TABLE " ++ table ++ " (" ++ columns ++ ")"
  dropTableIfExists : Option (Sql → Sql) := some fun table =>
    "DROP TABLE IF EXISTS " ++ table
  renameTable : Renaming → Sql := fun r =>
    "ALTER TABLE " ++ r.table ++ " RENAME TO " ++ Sql.name r.newName
  addColumn : Sql → Sql → Sql := fun table column =>
    "ALTER TABLE " ++ table ++ " ADD COLUMN " ++ column
  alterColumn : Option (Sql → Sql → Sql) := some fun table column =>
    "ALTER TABLE " ++ table ++ " ALTER COLUMN " ++ column
  dropColumn : Sql → Sql → Sql := fun table column =>
    "ALTER TABLE " ++ table ++ " DROP COLUMN " ++ column
  renameColumn : Sql → Sql → String → Sql := fun table column newName =>
    "ALTER TABLE " ++ table ++ " RENAME COLUMN " ++ column ++ " TO " ++ Sql.name newName
  addForeignKey : Option (Sql → Sql → Sql) := some fun table key =>
    "ALTER TABLE " ++ table ++ " ADD " ++ key
  dropForeignKey : Option (Sql → Sql → Sql) := some fun table name =>
    "ALTER TABLE " ++ table ++ " DROP CONSTRAINT " ++ name
  hasIndexes : Bool := true
  /-- Drop an index, given by its name, its name behind the schema, and its table. -/
  dropIndex : Sql → Sql → Sql → Sql := fun name _ _ => "DROP INDEX " ++ name
  hasConstraints : Bool := true
  setDefault : Option (Sql → Sql → Sql → Sql) := some fun table column value =>
    "ALTER TABLE " ++ table ++ " ALTER COLUMN " ++ column ++ " SET DEFAULT " ++ value
  dropDefault : Option (Sql → Sql → Sql) := some fun table column =>
    "ALTER TABLE " ++ table ++ " ALTER COLUMN " ++ column ++ " DROP DEFAULT"
  hasSequences : Bool := true
  hasRoutines : Bool := true

/-- The description of one dialect under given options and in one mode. -/
structure Profile where
  dialect : Dialect
  mode : Mode
  typeMap : TypeMap
  quoter : Quoter
  clauseOrder : List Clause
  forms : Forms
  /-- The longest name of the engine, in bytes. -/
  maxNameLength : Nat

namespace Profile

/-- Deal with a feature that the dialect lacks: fail or pass over it. -/
def unsupported (p : Profile) (feature : Feature) : Except Error Unit :=
  match p.mode with
  | .strict => .error (.unsupported p.dialect feature)
  | .emulate => .ok ()

/-- Deal with a statement that the dialect lacks; passed over, it leaves no statement. -/
def skip (p : Profile) (feature : Feature) : Except Error (List Sql) := do
  p.unsupported feature
  return []

end Profile

/-- The quoting policy under the general switch. -/
def Options.policy (o : Options) (preferred : QuotePolicy) : QuotePolicy :=
  match o.quoteIdentifiers with
  | some true => .always
  | some false => .never
  | none => preferred

end SchemaChange
