import SchemaChange.Model.Validation
import SchemaChange.Proofs.Sql.TypeName

/-!
# Changes without foreign SQL

The names, columns and values of a change, and what they must be for the statements to hold
nothing but SQL of the library's own.
-/
namespace SchemaChange

namespace ObjectName

/-- All names of an object. -/
def names (n : ObjectName) : List String := n.name :: n.schema.toList

end ObjectName

namespace Column

/-- All names in a column. A collation is a name in one dialect. -/
def names (c : Column) : List String :=
  c.name :: (c.primaryKeyName.toList ++ c.collation.toList)

/-- The values in a column. -/
def literals (c : Column) : List Literal := c.defaultValue.toList ++ c.existingRows.toList

/-- The name of a column with a default, which is dropped when the column is altered and defaults
are constraints. -/
def unbound (c : Column) : List String := if c.defaultValue.isSome then [c.name] else []

end Column

/-- All names in a foreign key. -/
def ForeignKey.names (k : ForeignKey) : List String :=
  k.name.toList ++ (k.foreignTable.names ++ k.foreignColumns) ++
    (k.primaryTable.names ++ k.primaryColumns)

/-- All names in an index. -/
def Index.names (ix : Index) : List String :=
  ix.name.toList ++ ix.table.names ++ ix.columns.map (·.name)

/-- All names in a table. -/
def Table.names (t : Table) : List String :=
  t.name.names ++ t.columns.flatMap Column.names ++ t.foreignKeys.flatMap ForeignKey.names ++
    t.indexes.flatMap Index.names

namespace Change

/-- All names in a change. -/
def names : Change → List String
  | createSchema schema | deleteSchema schema => [schema]
  | alterSchema table destination => destination :: table.names
  | createTable table => table.names
  | alterTable table _ | deleteTable table _ => table.names
  | renameTable table newName => newName :: table.names
  | createColumn table column | alterColumn table column => table.names ++ column.names
  | deleteColumn table columns => table.names ++ columns
  | renameColumn table oldName newName => oldName :: newName :: table.names
  | createForeignKey key => key.names
  | deleteForeignKey table name | deleteIndex table name => name :: table.names
  | createIndex index => index.names
  | createConstraint c | deleteConstraint c => c.name.toList ++ c.table.names ++ c.columns.names
  | alterDefaultConstraint table column _ | deleteDefaultConstraint table column =>
      column :: table.names
  | createSequence sequence => sequence.name.names
  | deleteSequence name | createView name _ | deleteView name | createFunction name _
  | deleteFunction name | createProcedure name _ | deleteProcedure name => name.names
  | insertData table rows _ | deleteData table rows _ =>
      table.names ++ rows.flatMap Row.columns
  | updateData table assignments filter _ =>
      table.names ++ assignments.columns ++ filter.columns
  | executeSql _ | performDbOperation _ => []

/-- The columns that a change defines. -/
def columns : Change → List Column
  | createTable table => table.columns
  | createColumn _ column | alterColumn _ column => [column]
  | _ => []

/-- The names in a column that a change defines are names in the change. -/
theorem names_subset {change : Change} {c : Column} (hc : c ∈ change.columns) :
    c.names ⊆ change.names := by
  intro n hn
  cases change with
  | createTable table =>
      simp only [names, Table.names, List.mem_append, List.mem_flatMap]
      exact .inl (.inl (.inr ⟨c, hc, hn⟩))
  | createColumn table column | alterColumn table column =>
      obtain rfl : c = column := List.mem_singleton.1 hc
      exact List.mem_append_right _ hn
  | _ => cases hc

/-- The values that a change writes. -/
def literals : Change → List Literal
  | alterDefaultConstraint _ _ value => [value]
  | insertData _ rows _ | deleteData _ rows _ => rows.flatMap Row.values
  | updateData _ assignments filter _ => assignments.values ++ filter.values
  | change => change.columns.flatMap Column.literals

/-- The values in a column that a change defines are values in the change. -/
theorem literals_subset {change : Change} {c : Column} (hc : c ∈ change.columns) :
    c.literals ⊆ change.literals := by
  intro v hv
  cases change with
  | createTable table | createColumn table column | alterColumn table column =>
      exact List.mem_flatMap.2 ⟨c, hc, hv⟩
  | _ => cases hc

/-- The columns whose defaults are dropped where they are constraints. A column that is created is
altered only if it must be filled first. -/
def unbound : Change → List String
  | createColumn _ column =>
      if column.existingRows.isSome ∧ column.isNotNull then column.unbound else []
  | alterColumn _ column => column.unbound
  | deleteColumn _ columns => columns
  | alterDefaultConstraint _ column _ | deleteDefaultConstraint _ column => [column]
  | _ => []

/-- A change whose statement is given by the caller, wholly or in part. -/
def isVerbatim : Change → Bool
  | createView .. | createFunction .. | createProcedure .. | executeSql .. => true
  | _ => false

/-- No part of the change is SQL given by the caller. -/
structure OwnSql (d : Dialect) (change : Change) : Prop where
  statement : change.isVerbatim = false
  values : ∀ v ∈ change.literals, v.isOwn
  types : ∀ c ∈ change.columns, c.customType = none
  collations : d ≠ .postgres → ∀ c ∈ change.columns, c.collation = none

end Change

/-- No name of a list stands in quotes of its own. -/
def Unquoted (q : Quoter) (names : List String) : Prop := ∀ n ∈ names, q.isQuoted n = false

instance (q : Quoter) (names : List String) : Decidable (Unquoted q names) :=
  inferInstanceAs (Decidable (∀ n ∈ names, q.isQuoted n = false))

namespace Unquoted

variable {q : Quoter} {n : String} {names names' : List String}

theorem head (h : Unquoted q (n :: names)) : q.isQuoted n = false := h n (.head _)

theorem tail (h : Unquoted q (n :: names)) : Unquoted q names :=
  fun m hm => h m (.tail _ hm)

theorem left (h : Unquoted q (names ++ names')) : Unquoted q names :=
  fun m hm => h m (List.mem_append_left _ hm)

theorem right (h : Unquoted q (names ++ names')) : Unquoted q names' :=
  fun m hm => h m (List.mem_append_right _ hm)

end Unquoted

end SchemaChange
