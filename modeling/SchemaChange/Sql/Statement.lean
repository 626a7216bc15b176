import SchemaChange.Sql.Column
import SchemaChange.Sql.Description

/-!
# Statements for changes

The statements that carry out a change in a dialect, in order. A change is checked first.
What the dialect cannot express fails in strict mode and leaves no statement otherwise.
-/
namespace SchemaChange.Profile

/-- The script that drops whatever constraints hold the defaults of some columns. -/
def dropDefaults (p : Profile) (table : ObjectName) (columns : List String) : Sql :=
  let qualified := p.quoter.object table
  let tableText := Sql.text (qualified.write p.quoter)
  let dropText :=
    Sql.text (Sql.write p.quoter ("ALTER TABLE " ++ qualified ++ " DROP CONSTRAINT "))
  let dropOne (column : String) : Sql :=
    "\n\n-- drop the default bound to " ++ Sql.verbatim column ++
      "\nSET @default = NULL;\nSELECT @default = name\nFROM sys.default_constraints\n" ++
      "WHERE parent_object_id = object_id(" ++ tableText ++
      ")\nAND type = 'D'\nAND parent_column_id = (\nSELECT column_id\nFROM sys.columns\n" ++
      "WHERE object_id = object_id(" ++ tableText ++ ")\nAND name = " ++ Sql.text column ++
      "\n);\nSET @sql = " ++ dropText ++ " + QUOTENAME(@default);\nEXEC sp_executesql @sql;"
  "DECLARE @default sysname, @sql nvarchar(max);" ++ columns.flatMap dropOne

/-- Bind a default to a column as a named constraint. -/
def addDefault (p : Profile) (table : ObjectName) (column : String) (value : Literal) :
    Except Error Sql := do
  let sql ← value.sql p.dialect
  return "ALTER TABLE " ++ p.quoter.object table ++ " ADD CONSTRAINT " ++
    Sql.name (p.defaultConstraintName table.name column) ++ " DEFAULT " ++ sql ++ " FOR " ++
    Sql.name column

/-- The statements that alter a column where its default is a constraint: the default is
dropped first and bound again last. -/
def alterBoundColumn (p : Profile) (table : ObjectName) (c : Column) :
    Except Error (List Sql) := do
  if c.isIdentity then p.unsupported (.identityOnExisting c.name table.name)
  let plain := { c with defaultValue := none, isIdentity := false }
  let definition ← p.column plain table.name false
  let alter : Sql :=
    "ALTER TABLE " ++ p.quoter.object table ++ " ALTER COLUMN " ++ definition
  match c.defaultValue with
  | none => return [alter]
  | some value =>
      return [p.dropDefaults table [c.name], alter, ← p.addDefault table c.name value]

/-- One statement with a part for the type, for NULL and for the default of a column. -/
def alterColumnParts (p : Profile) (table : ObjectName) (c : Column) : Except Error Sql := do
  let name := Sql.name c.name
  let type ← p.nativeType c
  let type : Sql :=
    match c.collation with
    | some collation => type ++ " COLLATE " ++ p.collationName collation
    | none => type
  let nullability : Sql := if c.isNotNull then " SET NOT NULL" else " DROP NOT NULL"
  let parts : List Sql := ["ALTER " ++ name ++ " TYPE " ++ type, "ALTER " ++ name ++ nullability]
  let parts ←
    match c.defaultValue with
    | some value =>
        let sql ← value.sql p.dialect
        pure (parts ++ [("ALTER " ++ name ++ " SET DEFAULT " ++ sql : Sql)])
    | none => pure parts
  return "ALTER TABLE " ++ p.quoter.object table ++ " " ++ Sql.list parts

/-- One statement for the type and for NULL; a default cannot be changed. -/
def alterTypeAndNull (p : Profile) (table : ObjectName) (c : Column) : Except Error Sql := do
  let name := Sql.name c.name
  if c.defaultValue.isSome then p.unsupported (.changeDefault c.name table.name)
  let type ← p.nativeType c
  let nullability : Sql := if c.isNotNull then "SET NOT NULL" else "DROP NOT NULL"
  return "ALTER TABLE " ++ p.quoter.object table ++ " ALTER COLUMN " ++ name ++
    " SET DATA TYPE " ++ type ++ ", COLUMN " ++ name ++ " " ++ nullability

/-- The statements that alter a column, with its description. -/
def alterColumn (p : Profile) (table : ObjectName) (c : Column) :
    Except Error (List Sql) := do
  let described := (c.description.bind fun d => p.describeColumn table c.name d true).toList
  match p.dialect with
  | .sqlServer => return (← p.alterBoundColumn table c) ++ described
  | .postgres => return (← p.alterColumnParts table c) :: described
  | .snowflake => return (← p.alterTypeAndNull table c) :: described
  | _ =>
      match p.forms.alterColumn with
      | none => p.skip (.alterColumn c.name table.name)
      | some form =>
          return form (p.quoter.object table) (← p.column c table.name false) :: described

/-- Add a column as it is defined. -/
def addColumn (p : Profile) (table : ObjectName) (c : Column) : Except Error Sql := do
  return p.forms.addColumn (p.quoter.object table) (← p.column c table.name true)

/-- The assignment of a value to a column. -/
def assignment (p : Profile) (column : String) (value : Literal) : Except Error Sql := do
  return Sql.name column ++ " = " ++ (← value.sql p.dialect)

/-- The statement that updates the rows of a table under a condition. -/
def update (p : Profile) (table : ObjectName) (assignments condition : Sql) : Sql :=
  "UPDATE " ++ p.quoter.object table ++ " SET " ++ assignments ++ " WHERE " ++ condition

/-- The condition that holds for every row. -/
def everyRow : Sql := "1 = 1"

/-- The statements that add a column. Existing rows can only be filled while the column
still accepts NULL, so it is added without the restriction, filled, and altered. -/
def createColumn (p : Profile) (table : ObjectName) (c : Column) :
    Except Error (List Sql) := do
  let described := (c.description.bind fun d => p.describeColumn table c.name d false).toList
  match c.existingRows with
  | some value =>
      if c.isNotNull then
        let add ← p.addColumn table { c with nullable := some true, existingRows := none }
        let fill := p.update table (← p.assignment c.name value) everyRow
        let restored :=
          if p.clauseOrder.contains .description then { c with existingRows := none }
          else { c with existingRows := none, description := none }
        return add :: fill :: (← p.alterColumn table restored) ++ described
      else return (← p.addColumn table c) :: described
  | none => return (← p.addColumn table c) :: described

/-- Add a foreign key to an existing table. -/
def createForeignKey (p : Profile) (k : ForeignKey) : Except Error (List Sql) :=
  match p.forms.addForeignKey with
  | none => p.skip (.addForeignKey k.label)
  | some form => do return [form (p.quoter.object k.foreignTable) (← p.foreignKey k)]

/-- The name of an index, its own or the conventional one. -/
def indexName (p : Profile) (ix : Index) : String :=
  ix.name.getD (p.fitName (Naming.indexName ix.table.name (ix.columns.map (·.name))))

/-- The word for a clustered index; one dialect has it. -/
def clusteredWord (p : Profile) (ix : Index) : Except Error String :=
  if !ix.isClustered then .ok ""
  else if p.dialect = .sqlServer then .ok "CLUSTERED "
  else do
    p.unsupported (.clusteredIndex (p.indexName ix))
    return ""

def indexColumn (c : IndexColumn) : Sql := Sql.name c.name ++ " " ++ c.direction.sql

def createIndex (p : Profile) (ix : Index) : Except Error (List Sql) :=
  if p.forms.hasIndexes then do
    let clustered ← p.clusteredWord ix
    let unique := if ix.isUnique then "UNIQUE " else ""
    return [("CREATE " ++ unique ++ clustered ++ "INDEX " : String) ++
      Sql.name (p.indexName ix) ++ " ON " ++ p.quoter.object ix.table ++ " (" ++
      Sql.list (ix.columns.map indexColumn) ++ ")"]
  else p.skip (.createIndex ix.table.name)

def deleteIndex (p : Profile) (table : ObjectName) (name : String) : Except Error (List Sql) :=
  if p.forms.hasIndexes then
    .ok [p.forms.dropIndex (Sql.name name) (p.quoter.object { table with name })
      (p.quoter.object table)]
  else p.skip (.dropIndex name table.name)

/-- The statements that create a table with all that belongs to it. Foreign keys stand
inside the definition where they cannot be added later. -/
def createTable (p : Profile) (t : Table) : Except Error (List Sql) := do
  let columns ← p.columns t.columns t.name.name
  let inner ← if p.dialect = .sqlite then t.foreignKeys.mapM p.foreignKey else pure []
  let body := columns ++ inner.flatMap fun key => (", " ++ key : Sql)
  let create := p.forms.createTable (p.quoter.object t.name) body
  let create : Sql :=
    match p.dialect, t.description with
    | .mySql, some description => create ++ " COMMENT " ++ Sql.text description
    | _, _ => create
  let keys ←
    if p.dialect = .sqlite then pure [] else t.foreignKeys.mapM p.createForeignKey
  let indexes ← t.indexes.mapM p.createIndex
  return create :: p.describeNewTable t ++ keys.flatten ++ indexes.flatten

def deleteTable (p : Profile) (table : ObjectName) (ifExists : Bool) :
    Except Error (List Sql) :=
  let name := p.quoter.object table
  if ifExists then
    match p.forms.dropTableIfExists with
    | some form => .ok [form name]
    | none => p.skip (.dropTableIfExists table.name)
  else .ok ["DROP TABLE " ++ name]

/-- The statements that delete columns, behind the removal of defaults that are
constraints. -/
def deleteColumns (p : Profile) (table : ObjectName) (columns : List String) : List Sql :=
  let drops := columns.map fun c => p.forms.dropColumn (p.quoter.object table) (Sql.name c)
  if p.dialect = .sqlServer then p.dropDefaults table columns :: drops else drops

/-- The name of a constraint, its own or the conventional one. -/
def constraintName (p : Profile) (c : Constraint) : String :=
  c.name.getD <| p.fitName <|
    match c.type with
    | .primaryKey => Naming.primaryKeyName c.table.name
    | .unique => Naming.uniqueName c.table.name c.columns.names

def createConstraint (p : Profile) (c : Constraint) : Except Error (List Sql) :=
  if p.forms.hasConstraints then
    .ok ["ALTER TABLE " ++ p.quoter.object c.table ++ " ADD CONSTRAINT " ++
      Sql.name (p.constraintName c) ++ (" " ++ c.type.sql ++ " (" : String) ++
      Sql.names c.columns.names ++ ")"]
  else p.skip (.addConstraint c.type.sql c.table.name)

/-- Delete a constraint; one dialect drops its keys as keys. -/
def deleteConstraint (p : Profile) (c : Constraint) : Except Error (List Sql) :=
  let alter : Sql := "ALTER TABLE " ++ p.quoter.object c.table
  let name := Sql.name (p.constraintName c)
  if p.dialect = .mySql then
    match c.type with
    | .primaryKey => .ok [alter ++ " DROP PRIMARY KEY"]
    | .unique => .ok [alter ++ " DROP INDEX " ++ name]
  else if p.forms.hasConstraints then .ok [alter ++ " DROP CONSTRAINT " ++ name]
  else p.skip (.dropConstraint (p.constraintName c) c.table.name)

def alterDefault (p : Profile) (table : ObjectName) (column : String) (value : Literal) :
    Except Error (List Sql) :=
  if p.dialect = .sqlServer then do
    return [p.dropDefaults table [column], ← p.addDefault table column value]
  else
    match p.forms.setDefault with
    | none => p.skip (.changeDefault column table.name)
    | some form => do
        return [form (p.quoter.object table) (Sql.name column) (← value.sql p.dialect)]

def deleteDefault (p : Profile) (table : ObjectName) (column : String) :
    Except Error (List Sql) :=
  if p.dialect = .sqlServer then .ok [p.dropDefaults table [column]]
  else
    match p.forms.dropDefault with
    | none => p.skip (.dropDefault column table.name)
    | some form => .ok [form (p.quoter.object table) (Sql.name column)]

/-- An option of a sequence with a number; one dialect lacks some of them. -/
def sequenceOption (p : Profile) (s : Sequence) (word : String) (portable : Bool)
    (value : Option Int64) : Except Error Sql :=
  match value with
  | none => .ok []
  | some n =>
      if p.dialect = .snowflake ∧ !portable then do
        p.unsupported (.sequenceOption word s.name.name)
        return []
      else if word = "CACHE" ∧ p.dialect = .oracle ∧ n ≤ 1 then .ok " NOCACHE"
      else .ok (" " ++ word ++ " " ++ toString n.toInt : String)

/-- The option of a sequence to start again at its end. -/
def sequenceCycle (p : Profile) (s : Sequence) : Except Error Sql :=
  if !s.cycle then .ok []
  else if p.dialect = .snowflake then do
    p.unsupported (.sequenceOption "CYCLE" s.name.name)
    return []
  else .ok " CYCLE"

def createSequence (p : Profile) (s : Sequence) : Except Error (List Sql) :=
  if p.forms.hasSequences then do
    let increment ← p.sequenceOption s "INCREMENT BY" true s.increment
    let minValue ← p.sequenceOption s "MINVALUE" false s.minValue
    let maxValue ← p.sequenceOption s "MAXVALUE" false s.maxValue
    let start ← p.sequenceOption s "START WITH" true s.startWith
    let cache ← p.sequenceOption s "CACHE" false s.cache
    let cycle ← p.sequenceCycle s
    return ["CREATE SEQUENCE " ++ p.quoter.object s.name ++ increment ++ minValue ++
      maxValue ++ start ++ cache ++ cycle]
  else p.skip (.sequence s.name.name)

end SchemaChange.Profile
