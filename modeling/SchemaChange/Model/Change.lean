import SchemaChange.Model.Table

/-!
# Changes

A change is one operation on a schema or its data. It names no dialect. A row assigns
values to columns, each column once, in the order of first mention.
-/
namespace SchemaChange

/-- Columns with their values. -/
structure Row where
  entries : List (String × Literal)
  nodup : (entries.map (·.1)).Nodup
  deriving DecidableEq

namespace Row

def empty : Row := ⟨[], NameSet.nodup_nil⟩

/-- Give a column a new value in its place. -/
def replace (column : String) (value : Literal) (entry : String × Literal) : String × Literal :=
  if entry.1 = column then (column, value) else entry

/-- Set a column: in its place if the row has it, behind the others if not. -/
def set (row : Row) (column : String) (value : Literal) : Row :=
  if h : column ∈ row.entries.map (·.1) then
    ⟨row.entries.map (replace column value), by
      have : ∀ e, (replace column value e).1 = e.1 := fun e => by
        unfold replace; split <;> simp_all
      simpa [Function.comp_def, this] using row.nodup⟩
  else
    ⟨row.entries ++ [(column, value)], by
      rw [List.map_append]
      refine List.nodup_append.2 ⟨row.nodup, by simp, fun a ha b hb e => ?_⟩
      rw [List.map_singleton, List.mem_singleton] at hb
      subst hb e
      exact h ha⟩

/-- A column named twice keeps its first place and takes its last value. -/
def ofList (entries : List (String × Literal)) : Row :=
  entries.foldl (fun row (column, value) => row.set column value) empty

def columns (row : Row) : List String := row.entries.map (·.1)

def values (row : Row) : List Literal := row.entries.map (·.2)

def isEmpty (row : Row) : Bool := row.entries.isEmpty

end Row

/-- One operation of a migration. -/
inductive Change where
  | createSchema (schema : String)
  | deleteSchema (schema : String)
  | alterSchema (table : ObjectName) (destination : String)
  | createTable (table : Table)
  | alterTable (table : ObjectName) (description : Option String)
  | deleteTable (table : ObjectName) (ifExists : Bool)
  | renameTable (table : ObjectName) (newName : String)
  | createColumn (table : ObjectName) (column : Column)
  | alterColumn (table : ObjectName) (column : Column)
  | deleteColumn (table : ObjectName) (columns : List String)
  | renameColumn (table : ObjectName) (oldName newName : String)
  | createForeignKey (key : ForeignKey)
  | deleteForeignKey (table : ObjectName) (name : String)
  | createIndex (index : Index)
  | deleteIndex (table : ObjectName) (name : String)
  | createConstraint (constraint : Constraint)
  | deleteConstraint (constraint : Constraint)
  | alterDefaultConstraint (table : ObjectName) (column : String) (value : Literal)
  | deleteDefaultConstraint (table : ObjectName) (column : String)
  | createSequence (sequence : Sequence)
  | deleteSequence (name : ObjectName)
  | insertData (table : ObjectName) (rows : List Row) (identityInsert : Bool)
  | updateData (table : ObjectName) (assignments filter : Row) (allRows : Bool)
  /-- Each row is a conjunction of predicates. -/
  | deleteData (table : ObjectName) (rows : List Row) (allRows : Bool)
  | createView (name : ObjectName) (definition : String)
  | deleteView (name : ObjectName)
  /-- The body is the complete statement that creates the function. -/
  | createFunction (name : ObjectName) (body : String)
  | deleteFunction (name : ObjectName)
  /-- The body is the complete statement that creates the procedure. -/
  | createProcedure (name : ObjectName) (body : String)
  | deleteProcedure (name : ObjectName)
  | executeSql (sql : String)
  /-- A marker for an operation that the caller runs itself. -/
  | performDbOperation (description : Option String)
  deriving DecidableEq

/-- The kind of a change in messages. -/
def Change.kind : Change → String
  | createSchema .. => "CreateSchema"
  | deleteSchema .. => "DeleteSchema"
  | alterSchema .. => "AlterSchema"
  | createTable .. => "CreateTable"
  | alterTable .. => "AlterTable"
  | deleteTable .. => "DeleteTable"
  | renameTable .. => "RenameTable"
  | createColumn .. => "CreateColumn"
  | alterColumn .. => "AlterColumn"
  | deleteColumn .. => "DeleteColumn"
  | renameColumn .. => "RenameColumn"
  | createForeignKey .. => "CreateForeignKey"
  | deleteForeignKey .. => "DeleteForeignKey"
  | createIndex .. => "CreateIndex"
  | deleteIndex .. => "DeleteIndex"
  | createConstraint .. => "CreateConstraint"
  | deleteConstraint .. => "DeleteConstraint"
  | alterDefaultConstraint .. => "AlterDefaultConstraint"
  | deleteDefaultConstraint .. => "DeleteDefaultConstraint"
  | createSequence .. => "CreateSequence"
  | deleteSequence .. => "DeleteSequence"
  | insertData .. => "InsertData"
  | updateData .. => "UpdateData"
  | deleteData .. => "DeleteData"
  | createView .. => "CreateView"
  | deleteView .. => "DeleteView"
  | createFunction .. => "CreateFunction"
  | deleteFunction .. => "DeleteFunction"
  | createProcedure .. => "CreateProcedure"
  | deleteProcedure .. => "DeleteProcedure"
  | executeSql .. => "ExecuteSql"
  | performDbOperation .. => "PerformDbOperation"

end SchemaChange
