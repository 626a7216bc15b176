import SchemaChange.Dialect.Profile

/-!
# SQL Server

Names stand in brackets and belong to the schema `dbo`. Renaming goes through a stored
procedure that takes names as string literals.
-/
namespace SchemaChange.Dialect.SqlServer

def typeMap : TypeMap := .ofList .sqlServer [
  (.ansiStringFixedLength, 0, "CHAR(255)"),
  (.ansiStringFixedLength, 8000, "CHAR($size)"),
  (.ansiString, 0, "VARCHAR(255)"),
  (.ansiString, 8000, "VARCHAR($size)"),
  (.ansiString, TypeMap.maxCapacity, "VARCHAR(MAX)"),
  (.stringFixedLength, 0, "NCHAR(255)"),
  (.stringFixedLength, 4000, "NCHAR($size)"),
  (.string, 0, "NVARCHAR(255)"),
  (.string, 4000, "NVARCHAR($size)"),
  (.string, TypeMap.maxCapacity, "NVARCHAR(MAX)"),
  (.binary, 0, "VARBINARY(8000)"),
  (.binary, 8000, "VARBINARY($size)"),
  (.binary, TypeMap.maxCapacity, "VARBINARY(MAX)"),
  (.boolean, 0, "BIT"),
  (.byte, 0, "TINYINT"),
  (.currency, 0, "MONEY"),
  (.date, 0, "DATE"),
  (.dateTime, 0, "DATETIME"),
  (.dateTime2, 0, "DATETIME2"),
  (.dateTimeOffset, 0, "DATETIMEOFFSET"),
  (.decimal, 0, "DECIMAL(19,5)"),
  (.decimal, 38, "DECIMAL($size,$precision)"),
  (.double, 0, "DOUBLE PRECISION"),
  (.guid, 0, "UNIQUEIDENTIFIER"),
  (.int16, 0, "SMALLINT"),
  (.int32, 0, "INT"),
  (.int64, 0, "BIGINT"),
  (.single, 0, "REAL"),
  (.time, 0, "TIME"),
  (.xml, 0, "XML")]

def quoter (o : Options) : Quoter where
  dialect := .sqlServer
  opening := "["
  closing := "]"
  policy := o.policy .always
  defaultSchema := some "dbo"

def forms (q : Quoter) : Forms where
  moveTable := some fun table _ destination =>
    "ALTER SCHEMA " ++ destination ++ " TRANSFER " ++ table
  renameTable := fun r =>
    "EXEC sp_rename " ++ Sql.text (r.table.write q) ++ ", " ++ Sql.text r.newName
  addColumn := fun table column => "ALTER TABLE " ++ table ++ " ADD " ++ column
  renameColumn := fun table column newName =>
    "EXEC sp_rename " ++ Sql.text ((table ++ "." ++ column).write q) ++ ", " ++
      Sql.text newName ++ ", N'COLUMN'"
  dropIndex := fun name _ table => "DROP INDEX " ++ name ++ " ON " ++ table

def profile (o : Options) (mode : Mode) : Profile where
  dialect := .sqlServer
  mode
  typeMap
  quoter := quoter o
  clauseOrder := [.name, .type, .collation, .nullable, .default, .identity, .primaryKey]
  forms := forms (quoter o)
  maxNameLength := 128

end SchemaChange.Dialect.SqlServer
