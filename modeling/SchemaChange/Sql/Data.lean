import SchemaChange.Sql.Statement

/-!
# Statements for data

Rows are inserted one statement each, or all in one where the dialect can do that. Updates
and deletions carry a condition; only a change that says so touches every row.
-/
namespace SchemaChange.Profile

/-- Insert one row. -/
def insertRow (p : Profile) (table : Sql) (row : Row) : Except Error Sql := do
  let values ← row.values.mapM (Literal.sql p.dialect)
  return "INSERT INTO " ++ table ++ " (" ++ Sql.names row.columns ++ ") VALUES (" ++
    Sql.list values ++ ")"

/-- The line for one row in a statement that inserts several. -/
def intoLine (p : Profile) (table : Sql) (row : Row) : Except Error Sql := do
  let values ← row.values.mapM (Literal.sql p.dialect)
  return "\n  INTO " ++ table ++ " (" ++ Sql.names row.columns ++ ") VALUES (" ++
    Sql.list values ++ ")"

/-- Insert all rows by one statement. -/
def insertAll (p : Profile) (table : Sql) (rows : List Row) : Except Error Sql := do
  let lines ← rows.mapM (p.intoLine table)
  return "INSERT ALL" ++ lines.flatten ++ "\nSELECT 1 FROM DUAL"

/-- Allow values for a numbered column while some statements run. -/
def withIdentityInsert {α : Type} (switch : String → α) (statements : List α) : List α :=
  switch "ON" :: statements ++ [switch "OFF"]

/-- The statement that turns values for a numbered column on or off. -/
def identityInsert (table : Sql) (state : String) : Sql :=
  "SET IDENTITY_INSERT " ++ table ++ (" " ++ state : String)

def insertData (p : Profile) (table : ObjectName) (rows : List Row)
    (identity : Bool) : Except Error (List Sql) := do
  let name := p.quoter.object table
  let statements ←
    if p.dialect = .oracle ∧ 1 < rows.length then return [← p.insertAll name rows]
    else rows.mapM (p.insertRow name)
  if identity ∧ p.dialect = .sqlServer ∧ statements ≠ [] then
    return withIdentityInsert (identityInsert name) statements
  else return statements

/-- The predicate of one entry; NULL is not compared with. -/
def predicate (p : Profile) (column : String) (value : Literal) : Except Error Sql := do
  if value.isNull then return Sql.name column ++ " IS NULL"
  else p.assignment column value

/-- The conjunction of the predicates of a row; an empty row holds for every row. -/
def condition (p : Profile) (row : Row) : Except Error Sql :=
  if row.isEmpty then .ok everyRow
  else do
    let predicates ← row.entries.mapM fun (column, value) => p.predicate column value
    return Sql.join " AND " predicates

def updateData (p : Profile) (table : ObjectName) (assignments filter : Row)
    (allRows : Bool) : Except Error Sql := do
  let parts ← assignments.entries.mapM fun (column, value) => p.assignment column value
  let condition ← if allRows then pure everyRow else p.condition filter
  return p.update table (Sql.list parts) condition

/-- Delete the rows that satisfy a condition. -/
def delete (p : Profile) (table : ObjectName) (condition : Sql) : Sql :=
  "DELETE FROM " ++ p.quoter.object table ++ " WHERE " ++ condition

def deleteData (p : Profile) (table : ObjectName) (rows : List Row) (allRows : Bool) :
    Except Error (List Sql) :=
  if allRows then .ok [p.delete table everyRow]
  else rows.mapM fun row => do return p.delete table (← p.condition row)

/-- A statement for a function or procedure, where the dialect has them. -/
def routine (p : Profile) (feature : Feature) (statement : Sql) : Except Error (List Sql) :=
  if p.forms.hasRoutines then .ok [statement] else p.skip feature

/-- The statements of a valid change. -/
def statementsOfValid (p : Profile) : Change → Except Error (List Sql)
  | .createSchema schema =>
      match p.forms.createSchema with
      | some form => .ok [form (Sql.name schema)]
      | none => p.skip (.createSchema schema)
  | .deleteSchema schema =>
      match p.forms.dropSchema with
      | some form => .ok [form (Sql.name schema)]
      | none => p.skip (.dropSchema schema)
  | .alterSchema table destination =>
      match p.forms.moveTable with
      | some form =>
          .ok [form (p.quoter.object table) (Sql.name table.name) (Sql.name destination)]
      | none => p.skip (.moveTable table.name destination)
  | .createTable table => p.createTable table
  | .alterTable table description =>
      .ok (description.bind fun d => p.describeTable table d true).toList
  | .deleteTable table ifExists => p.deleteTable table ifExists
  | .renameTable table newName =>
      .ok [p.forms.renameTable
        ⟨p.quoter.object table, newName, p.quoter.object { table with name := newName }⟩]
  | .createColumn table column => p.createColumn table column
  | .alterColumn table column => p.alterColumn table column
  | .deleteColumn table columns => .ok (p.deleteColumns table columns)
  | .renameColumn table oldName newName =>
      .ok [p.forms.renameColumn (p.quoter.object table) (Sql.name oldName) newName]
  | .createForeignKey key => p.createForeignKey key
  | .deleteForeignKey table name =>
      match p.forms.dropForeignKey with
      | some form => .ok [form (p.quoter.object table) (Sql.name name)]
      | none => p.skip (.dropForeignKey name table.name)
  | .createIndex index => p.createIndex index
  | .deleteIndex table name => p.deleteIndex table name
  | .createConstraint constraint => p.createConstraint constraint
  | .deleteConstraint constraint => p.deleteConstraint constraint
  | .alterDefaultConstraint table column value => p.alterDefault table column value
  | .deleteDefaultConstraint table column => p.deleteDefault table column
  | .createSequence sequence => p.createSequence sequence
  | .deleteSequence name =>
      if p.forms.hasSequences then .ok ["DROP SEQUENCE " ++ p.quoter.object name]
      else p.skip (.sequence name.name)
  | .insertData table rows identity => p.insertData table rows identity
  | .updateData table assignments filter allRows => do
      return [← p.updateData table assignments filter allRows]
  | .deleteData table rows allRows => p.deleteData table rows allRows
  | .createView name definition =>
      .ok ["CREATE VIEW " ++ p.quoter.object name ++ " AS " ++ Sql.verbatim definition]
  | .deleteView name => .ok ["DROP VIEW " ++ p.quoter.object name]
  | .createFunction name body => p.routine (.function name.name) (Sql.verbatim body)
  | .deleteFunction name =>
      p.routine (.function name.name) ("DROP FUNCTION " ++ p.quoter.object name)
  | .createProcedure name body => p.routine (.procedure name.name) (Sql.verbatim body)
  | .deleteProcedure name =>
      p.routine (.procedure name.name) ("DROP PROCEDURE " ++ p.quoter.object name)
  | .executeSql sql => .ok [Sql.verbatim sql]
  | .performDbOperation _ => .ok []

/-- The statements of a change, which must be valid. -/
def statements (p : Profile) (change : Change) : Except Error (List Sql) := do
  change.validate
  p.statementsOfValid change

end SchemaChange.Profile
