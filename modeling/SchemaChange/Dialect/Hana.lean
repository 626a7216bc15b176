import SchemaChange.Dialect.Profile

/-!
# SAP HANA

Tables are stored by column. Changes of columns stand in parentheses, and a default cannot
be changed later. Collations are not part of a column.
-/
namespace SchemaChange.Dialect.Hana

def typeMap : TypeMap := .ofList .hana [
  (.ansiStringFixedLength, 0, "VARCHAR(255)"),
  (.ansiStringFixedLength, 5000, "VARCHAR($size)"),
  (.ansiString, 0, "VARCHAR(255)"),
  (.ansiString, 5000, "VARCHAR($size)"),
  (.ansiString, TypeMap.maxCapacity, "CLOB"),
  (.stringFixedLength, 0, "NVARCHAR(255)"),
  (.stringFixedLength, 5000, "NVARCHAR($size)"),
  (.string, 0, "NVARCHAR(255)"),
  (.string, 5000, "NVARCHAR($size)"),
  (.string, TypeMap.maxCapacity, "NCLOB"),
  (.binary, 0, "VARBINARY(5000)"),
  (.binary, 5000, "VARBINARY($size)"),
  (.binary, TypeMap.maxCapacity, "BLOB"),
  (.boolean, 0, "BOOLEAN"),
  (.byte, 0, "TINYINT"),
  (.currency, 0, "DECIMAL(19,4)"),
  (.date, 0, "DATE"),
  (.dateTime, 0, "TIMESTAMP"),
  (.dateTime2, 0, "TIMESTAMP"),
  (.decimal, 0, "DECIMAL(19,5)"),
  (.decimal, 38, "DECIMAL($size,$precision)"),
  (.double, 0, "DOUBLE"),
  (.guid, 0, "VARCHAR(36)"),
  (.int16, 0, "SMALLINT"),
  (.int32, 0, "INTEGER"),
  (.int64, 0, "BIGINT"),
  (.single, 0, "REAL"),
  (.time, 0, "TIME"),
  (.xml, 0, "NCLOB")]

def quoter (o : Options) : Quoter where
  dialect := .hana
  opening := "\""
  closing := "\""
  policy := o.policy .always

def forms : Forms where
  createTable := fun table columns =>
    "CREATE COLUMN TABLE " ++ table ++ " (" ++ columns ++ ")"
  dropTableIfExists := none
  renameTable := fun r => "RENAME TABLE " ++ r.table ++ " TO " ++ Sql.name r.newName
  addColumn := fun table column => "ALTER TABLE " ++ table ++ " ADD (" ++ column ++ ")"
  alterColumn := some fun table column =>
    "ALTER TABLE " ++ table ++ " ALTER (" ++ column ++ ")"
  dropColumn := fun table column => "ALTER TABLE " ++ table ++ " DROP (" ++ column ++ ")"
  renameColumn := fun table column newName =>
    "RENAME COLUMN " ++ table ++ "." ++ column ++ " TO " ++ Sql.name newName
  setDefault := none
  dropDefault := none

def profile (o : Options) (mode : Mode) : Profile where
  dialect := .hana
  mode
  typeMap
  quoter := quoter o
  clauseOrder := [.name, .type, .default, .identity, .nullable, .primaryKey]
  forms
  maxNameLength := 127

end SchemaChange.Dialect.Hana
