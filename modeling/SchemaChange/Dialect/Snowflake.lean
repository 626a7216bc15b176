import SchemaChange.Dialect.Profile

/-!
# Snowflake

Names belong to the schema `PUBLIC`. There are no indexes, and a default cannot be changed
later, only dropped.
-/
namespace SchemaChange.Dialect.Snowflake

def maxText : Nat := 16777216

def maxBinary : Nat := 8388608

def typeMap : TypeMap := .ofList .snowflake [
  (.ansiStringFixedLength, 0, "CHAR"),
  (.ansiStringFixedLength, maxText, "CHAR($size)"),
  (.ansiString, 0, "VARCHAR"),
  (.ansiString, maxText, "VARCHAR($size)"),
  (.stringFixedLength, 0, "CHAR"),
  (.stringFixedLength, maxText, "CHAR($size)"),
  (.string, 0, "VARCHAR"),
  (.string, maxText, "VARCHAR($size)"),
  (.binary, 0, "BINARY"),
  (.binary, maxBinary, "BINARY($size)"),
  (.boolean, 0, "BOOLEAN"),
  (.byte, 0, "NUMBER(3,0)"),
  (.currency, 0, "NUMBER(19,4)"),
  (.date, 0, "DATE"),
  (.dateTime, 0, "TIMESTAMP_NTZ"),
  (.dateTime2, 0, "TIMESTAMP_NTZ"),
  (.dateTimeOffset, 0, "TIMESTAMP_TZ"),
  (.decimal, 0, "NUMBER(19,5)"),
  (.decimal, 38, "NUMBER($size,$precision)"),
  (.double, 0, "DOUBLE"),
  (.guid, 0, "VARCHAR(36)"),
  (.int16, 0, "NUMBER(5,0)"),
  (.int32, 0, "NUMBER(10,0)"),
  (.int64, 0, "NUMBER(19,0)"),
  (.single, 0, "FLOAT"),
  (.time, 0, "TIME")]

def quoter (o : Options) : Quoter where
  dialect := .snowflake
  opening := "\""
  closing := "\""
  policy := o.policy .always
  defaultSchema := some "PUBLIC"

def forms : Forms where
  moveTable := some fun table name destination =>
    "ALTER TABLE " ++ table ++ " RENAME TO " ++ destination ++ "." ++ name
  renameTable := fun r => "ALTER TABLE " ++ r.table ++ " RENAME TO " ++ r.newTable
  hasIndexes := false
  setDefault := none

def profile (o : Options) (mode : Mode) : Profile where
  dialect := .snowflake
  mode
  typeMap
  quoter := quoter o
  clauseOrder := Clause.defaultFirstOrder
  forms
  maxNameLength := 255

end SchemaChange.Dialect.Snowflake
