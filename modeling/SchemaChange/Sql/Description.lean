import SchemaChange.Dialect.Profile
import SchemaChange.Model.Change

/-!
# Descriptions in SQL

Descriptions of tables and columns are comments in most dialects, extended properties in
one, and part of the definitions in another, which needs a statement only when the
description of a table changes later.
-/
namespace SchemaChange.Profile

/-- The place of an extended property: a schema, a table, and perhaps a column. -/
def propertyLevels (schema table : String) (column : Option String) : Sql :=
  let levels : Sql :=
    "@level0type = N'SCHEMA', @level0name = " ++ Sql.text schema ++
      ", @level1type = N'TABLE', @level1name = " ++ Sql.text table
  match column with
  | some column =>
      levels ++ ", @level2type = N'COLUMN', @level2name = " ++ Sql.text column
  | none => levels

/-- Set a description as an extended property; a replacement first removes the property
if it is there. -/
def extendedProperty (p : Profile) (table : ObjectName) (column : Option String)
    (description : String) (replace : Bool) : Sql :=
  let schema := (p.quoter.schemaOf? table.schema).getD "dbo"
  let levels := propertyLevels schema table.name column
  let add : Sql :=
    "EXEC sys.sp_addextendedproperty @name = N'MS_Description', @value = " ++
      Sql.text description ++ ", " ++ levels
  if replace then
    let filter : Sql :=
      match column with
      | some column => "N'COLUMN', " ++ Sql.text column
      | none => "NULL, NULL"
    "IF EXISTS (SELECT * FROM fn_listextendedproperty(N'MS_Description', N'SCHEMA', " ++
      Sql.text schema ++ ", N'TABLE', " ++ Sql.text table.name ++ ", " ++ filter ++
      "))\n    EXEC sys.sp_dropextendedproperty @name = N'MS_Description', " ++ levels ++
      ";\n" ++ add
  else add

/-- The statement that describes a table, where there is one. -/
def describeTable (p : Profile) (table : ObjectName) (description : String)
    (replace : Bool) : Option Sql :=
  match p.dialect with
  | .postgres | .oracle | .hana | .snowflake =>
      some ("COMMENT ON TABLE " ++ p.quoter.object table ++ " IS " ++ Sql.text description)
  | .sqlServer => some (p.extendedProperty table none description replace)
  | .mySql =>
      if replace then
        some ("ALTER TABLE " ++ p.quoter.object table ++ " COMMENT " ++ Sql.text description)
      else none
  | .sqlite => none

/-- The statement that describes a column, where there is one. -/
def describeColumn (p : Profile) (table : ObjectName) (column description : String)
    (replace : Bool) : Option Sql :=
  match p.dialect with
  | .postgres | .oracle | .hana | .snowflake =>
      some ("COMMENT ON COLUMN " ++ p.quoter.object table ++ "." ++ Sql.name column ++
        " IS " ++ Sql.text description)
  | .sqlServer => some (p.extendedProperty table (some column) description replace)
  | .mySql | .sqlite => none

/-- The statements that describe a new table and its columns. -/
def describeNewTable (p : Profile) (t : Table) : List Sql :=
  (t.description.bind fun d => p.describeTable t.name d false).toList ++
    t.columns.filterMap fun c =>
      c.description.bind fun d => p.describeColumn t.name c.name d false

end SchemaChange.Profile
