import SchemaChange.Dialect.Profile

/-!
# PostgreSQL

Names belong to the schema `public`. Quotes around names that do not need them can be
switched off.
-/
namespace SchemaChange.Dialect.Postgres

/-- The longest text with a declared length. -/
def maxText : Nat := 10485760

def typeMap : TypeMap := .ofList .postgres [
  (.ansiStringFixedLength, 0, "char(255)"),
  (.ansiStringFixedLength, maxText, "char($size)"),
  (.ansiString, 0, "text"),
  (.ansiString, maxText, "varchar($size)"),
  (.stringFixedLength, 0, "char(255)"),
  (.stringFixedLength, maxText, "char($size)"),
  (.string, 0, "text"),
  (.string, maxText, "varchar($size)"),
  (.binary, 0, "bytea"),
  (.boolean, 0, "boolean"),
  (.byte, 0, "smallint"),
  (.currency, 0, "money"),
  (.date, 0, "date"),
  (.dateTime, 0, "timestamp"),
  (.dateTime2, 0, "timestamp"),
  (.dateTimeOffset, 0, "timestamptz"),
  (.decimal, 0, "decimal(19,5)"),
  (.decimal, 1000, "decimal($size,$precision)"),
  (.double, 0, "float8"),
  (.guid, 0, "uuid"),
  (.int16, 0, "smallint"),
  (.int32, 0, "integer"),
  (.int64, 0, "bigint"),
  (.single, 0, "float4"),
  (.time, 0, "time"),
  (.xml, 0, "xml")]

def quoter (o : Options) : Quoter where
  dialect := .postgres
  opening := "\""
  closing := "\""
  policy := o.policy (if o.forceQuote = some false then .whenNeeded else .always)
  defaultSchema := some "public"

def forms : Forms where
  moveTable := some fun table _ destination =>
    "ALTER TABLE " ++ table ++ " SET SCHEMA " ++ destination
  addColumn := fun table column => "ALTER TABLE " ++ table ++ " ADD " ++ column
  dropIndex := fun _ qualified _ => "DROP INDEX " ++ qualified

def profile (o : Options) (mode : Mode) : Profile where
  dialect := .postgres
  mode
  typeMap
  quoter := quoter o
  clauseOrder := Clause.standardOrder
  forms
  maxNameLength := 63

end SchemaChange.Dialect.Postgres
