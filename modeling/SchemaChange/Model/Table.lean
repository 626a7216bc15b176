import SchemaChange.Model.Column

/-!
# Schema objects

Tables with the keys and indexes created along with them, constraints, and sequences. The
columns of a constraint form an ordered set.
-/
namespace SchemaChange

/-- The name of a table or another object, with its schema if one is given. -/
structure ObjectName where
  name : String
  schema : Option String := none
  deriving DecidableEq, Repr

/-- What happens to a row when the row that it references is deleted or updated. -/
inductive Rule where
  | none
  | cascade
  | setNull
  | setDefault
  deriving DecidableEq, Repr

namespace Rule

def all : List Rule := [none, cascade, setNull, setDefault]

/-- The name used in documents. -/
def code : Rule → String
  | none => "None"
  | cascade => "Cascade"
  | setNull => "SetNull"
  | setDefault => "SetDefault"

def ofCode? (s : String) : Option Rule := all.find? fun r => r.code == s

/-- The words of a rule in SQL; no rule has no words. -/
def sql? : Rule → Option String
  | none => Option.none
  | cascade => some "CASCADE"
  | setNull => some "SET NULL"
  | setDefault => some "SET DEFAULT"

end Rule

/-- A foreign key: columns of the foreign table reference columns of the primary table. -/
structure ForeignKey where
  name : Option String := none
  foreignTable : ObjectName
  foreignColumns : List String
  primaryTable : ObjectName
  primaryColumns : List String
  onDelete : Rule := .none
  onUpdate : Rule := .none
  deriving DecidableEq

namespace ForeignKey

/-- A foreign key between tables without schemas. -/
def ofNames (foreignTable : String) (foreignColumns : List String) (primaryTable : String)
    (primaryColumns : List String) : ForeignKey :=
  { foreignTable := ⟨foreignTable, none⟩, foreignColumns,
    primaryTable := ⟨primaryTable, none⟩, primaryColumns }

def named (k : ForeignKey) (name : String) : ForeignKey := { k with name }

def withOnDelete (k : ForeignKey) (rule : Rule) : ForeignKey := { k with onDelete := rule }

def withOnUpdate (k : ForeignKey) (rule : Rule) : ForeignKey := { k with onUpdate := rule }

/-- The name used in messages: its own, or the two tables. -/
def label (k : ForeignKey) : String :=
  k.name.getD (k.foreignTable.name ++ " -> " ++ k.primaryTable.name)

end ForeignKey

inductive Direction where
  | ascending
  | descending
  deriving DecidableEq, Repr

namespace Direction

/-- The name used in documents. -/
def code : Direction → String
  | ascending => "Ascending"
  | descending => "Descending"

def ofCode? (s : String) : Option Direction :=
  [ascending, descending].find? fun d => d.code == s

def sql : Direction → String
  | ascending => "ASC"
  | descending => "DESC"

end Direction

/-- One column of an index. -/
structure IndexColumn where
  name : String
  direction : Direction := .ascending
  deriving DecidableEq

structure Index where
  /-- Derived from table and columns when absent. -/
  name : Option String := none
  table : ObjectName
  isUnique : Bool := false
  isClustered : Bool := false
  columns : List IndexColumn := []
  deriving DecidableEq

namespace Index

def onTable (table : String) : Index := { table := ⟨table, none⟩ }

def named (ix : Index) (name : String) : Index := { ix with name }

def unique (ix : Index) : Index := { ix with isUnique := true }

def clustered (ix : Index) : Index := { ix with isClustered := true }

def withColumn (ix : Index) (column : IndexColumn) : Index :=
  { ix with columns := ix.columns ++ [column] }

end Index

/-- A table with the objects created along with it. -/
structure Table where
  name : ObjectName
  columns : List Column := []
  foreignKeys : List ForeignKey := []
  indexes : List Index := []
  description : Option String := none
  deriving DecidableEq

namespace Table

def ofName (name : String) : Table := { name := ⟨name, none⟩ }

def inSchema (t : Table) (schema : String) : Table := { t with name := { t.name with schema } }

def withColumn (t : Table) (column : Column) : Table :=
  { t with columns := t.columns ++ [column] }

def withForeignKey (t : Table) (key : ForeignKey) : Table :=
  { t with foreignKeys := t.foreignKeys ++ [key] }

def withIndex (t : Table) (index : Index) : Table :=
  { t with indexes := t.indexes ++ [index] }

def withDescription (t : Table) (description : String) : Table := { t with description }

/-- The columns of the primary key in order of declaration. -/
def primaryKeyColumns (t : Table) : List Column := t.columns.filter (·.isPrimaryKey)

end Table

/-- Names in order of first appearance, each once. -/
structure NameSet where
  names : List String
  nodup : names.Nodup
  deriving DecidableEq

namespace NameSet

theorem nodup_nil : ([] : List String).Nodup := List.Pairwise.nil

def empty : NameSet := ⟨[], nodup_nil⟩

/-- Add a name behind the others unless it is there already. -/
def insert (s : NameSet) (name : String) : NameSet :=
  if h : name ∈ s.names then s
  else ⟨s.names ++ [name], List.nodup_append.2 ⟨s.nodup, by simp, fun a ha b hb e => by
    rw [List.mem_singleton] at hb
    exact h (hb ▸ e ▸ ha)⟩⟩

def ofList (names : List String) : NameSet := names.foldl insert empty

end NameSet

inductive ConstraintType where
  | primaryKey
  | unique
  deriving DecidableEq, Repr

namespace ConstraintType

/-- The name used in documents. -/
def code : ConstraintType → String
  | primaryKey => "PrimaryKey"
  | unique => "Unique"

def ofCode? (s : String) : Option ConstraintType :=
  [primaryKey, unique].find? fun t => t.code == s

def sql : ConstraintType → String
  | primaryKey => "PRIMARY KEY"
  | unique => "UNIQUE"

end ConstraintType

/-- A primary key or unique constraint. -/
structure Constraint where
  type : ConstraintType
  name : Option String := none
  table : ObjectName
  columns : NameSet
  deriving DecidableEq

namespace Constraint

def onTable (type : ConstraintType) (table : String) (columns : List String) : Constraint :=
  { type, table := ⟨table, none⟩, columns := .ofList columns }

def named (c : Constraint) (name : String) : Constraint := { c with name }

end Constraint

structure Sequence where
  name : ObjectName
  increment : Option Int64 := none
  minValue : Option Int64 := none
  maxValue : Option Int64 := none
  startWith : Option Int64 := none
  cache : Option Int64 := none
  cycle : Bool := false
  deriving DecidableEq

def Sequence.ofName (name : String) : Sequence := { name := ⟨name, none⟩ }

end SchemaChange
