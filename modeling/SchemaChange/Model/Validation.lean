import SchemaChange.Error
import SchemaChange.Model.Change

/-!
# Validation

What a definition must satisfy before any SQL is written for it. The first violation in
a fixed order is the one reported.
-/
namespace SchemaChange

/-- The outcome of a check. -/
abbrev Check := Except Invalid Unit

/-- Refuse with a cause unless the condition holds. -/
def require (condition : Bool) (cause : Invalid) : Check :=
  if condition then .ok () else .error cause

/-- A name must have a character other than blanks. -/
def requireName (name what : String) : Check := require (!Text.allBlank name) (.blank what)

/-- Attach the owning table to a cause. -/
def Check.inTable (check : Check) (table : String) : Check :=
  check.mapError (.inTable · table)

/-- A column needs a name and a type. -/
def Column.check (c : Column) : Check := do
  requireName c.name "Column name"
  require (c.dbType.isSome || !(c.customType.getD "").isEmpty) (.untypedColumn c.name)

/-- Columns are valid one by one, and no two names differ in case only. -/
def checkColumns (table : String) : List String → List Column → Check
  | _, [] => .ok ()
  | seen, c :: rest => do
      Check.inTable c.check table
      let key := Text.lower c.name
      require (!seen.contains key) (.repeatedColumn c.name table)
      checkColumns table (key :: seen) rest

/-- A foreign key joins two tables by equally many columns. -/
def ForeignKey.check (k : ForeignKey) : Check := do
  let foreign := k.foreignColumns.length
  let primary := k.primaryColumns.length
  require (!Text.allBlank k.foreignTable.name && !Text.allBlank k.primaryTable.name)
    (.foreignKeyTables k.label)
  require (k.foreignTable != k.primaryTable) (.foreignKeyOwnTable k.label)
  require (foreign != 0 && primary != 0) (.foreignKeyWithoutColumns k.label)
  require (foreign == primary) (.foreignKeyCounts k.label foreign primary)

def Index.check (ix : Index) : Check := do
  requireName ix.table.name "Index table name"
  require (!ix.columns.isEmpty) (.indexWithoutColumns ix.table.name)

def Constraint.check (c : Constraint) : Check := do
  requireName c.table.name "Constraint table name"
  require (!c.columns.names.isEmpty) (.constraintWithoutColumns c.table.name)

/-- The bounds of a sequence are in order and its step is not zero. -/
def Sequence.check (s : Sequence) : Check := do
  requireName s.name.name "Sequence name"
  match s.minValue, s.maxValue with
  | some low, some high => require (low ≤ high) (.sequenceBounds s.name.name low high)
  | _, _ => .ok ()
  require (s.increment != some 0) (.sequenceStandstill s.name.name)

/-- A table has columns, and they, its keys and its indexes are valid. -/
def Table.check (t : Table) : Check := do
  requireName t.name.name "Table name"
  require (!t.columns.isEmpty) (.tableWithoutColumns t.name.name)
  checkColumns t.name.name [] t.columns
  t.foreignKeys.forM ForeignKey.check
  t.indexes.forM Index.check

/-- A constraint to be deleted is known by its name or by its columns. -/
def Constraint.checkDeletion (c : Constraint) : Check := do
  requireName c.table.name "Table name"
  match c.name with
  | some name => requireName name "Constraint name"
  | none => require (!c.columns.names.isEmpty) (.constraintUnknown c.table.name)

/-- No row to be inserted is empty; positions count from one. -/
def checkRows (table : String) (rows : List Row) : Check :=
  match rows.findIdx? Row.isEmpty with
  | some index => .error (.emptyRow (index + 1) table)
  | none => .ok ()

/-- A column to be created or altered is valid, and its table has a name. -/
def checkTableColumn (table : ObjectName) (column : Column) : Check := do
  requireName table.name "Table name"
  Check.inTable column.check table.name

/-- The checks of a change. -/
def Change.check : Change → Check
  | createSchema schema | deleteSchema schema => requireName schema "Schema name"
  | alterSchema table destination => do
      requireName table.name "Table name"
      requireName destination "Destination schema name"
  | createTable table => table.check
  | alterTable table _ | deleteTable table _ => requireName table.name "Table name"
  | renameTable table newName => do
      requireName table.name "Old table name"
      requireName newName "New table name"
  | createColumn table column | alterColumn table column => checkTableColumn table column
  | deleteColumn table columns => do
      requireName table.name "Table name"
      require (!columns.isEmpty) (.nothingToDelete table.name)
      columns.forM (requireName · "Column name")
  | renameColumn table oldName newName => do
      requireName table.name "Table name"
      requireName oldName "Old column name"
      requireName newName "New column name"
  | createForeignKey key => key.check
  | deleteForeignKey table name => do
      requireName table.name "Table name"
      requireName name "Foreign key name"
  | createIndex index => index.check
  | deleteIndex table name => do
      requireName table.name "Table name"
      requireName name "Index name"
  | createConstraint constraint => constraint.check
  | deleteConstraint constraint => constraint.checkDeletion
  | alterDefaultConstraint table column _ | deleteDefaultConstraint table column => do
      requireName table.name "Table name"
      requireName column "Column name"
  | createSequence sequence => sequence.check
  | deleteSequence name => requireName name.name "Sequence name"
  | insertData table rows _ => do
      requireName table.name "Table name"
      checkRows table.name rows
  | updateData table assignments filter allRows => do
      requireName table.name "Table name"
      require (!assignments.isEmpty) (.emptyUpdate table.name)
      require (allRows || !filter.isEmpty) (.unboundedUpdate table.name)
  | deleteData table rows allRows => do
      requireName table.name "Table name"
      require (allRows || !rows.isEmpty) (.unboundedDelete table.name)
  | createView name definition => do
      requireName name.name "View name"
      requireName definition "View definition"
  | deleteView name => requireName name.name "View name"
  | createFunction name body => do
      requireName name.name "Function name"
      requireName body "Function body"
  | deleteFunction name => requireName name.name "Function name"
  | createProcedure name body => do
      requireName name.name "Procedure name"
      requireName body "Procedure body"
  | deleteProcedure name => requireName name.name "Procedure name"
  | executeSql _ | performDbOperation _ => .ok ()

/-- A check as an operation that can fail. -/
def Check.orFail (check : Check) : Except Error Unit := check.mapError .invalid

/-- Check a change before any SQL is written for it. -/
def Change.validate (change : Change) : Except Error Unit := Check.orFail change.check

end SchemaChange
