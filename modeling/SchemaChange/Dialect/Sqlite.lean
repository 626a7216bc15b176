import SchemaChange.Dialect.Profile

/-!
# SQLite

Types have no sizes. Columns cannot be altered and constraints cannot be added later, so
foreign keys are declared with their table. There are no schemas, sequences or routines.
-/
namespace SchemaChange.Dialect.Sqlite

def typeMap : TypeMap := .ofList .sqlite [
  (.byte, 0, "INTEGER"),
  (.sbyte, 0, "INTEGER"),
  (.int16, 0, "INTEGER"),
  (.int32, 0, "INTEGER"),
  (.int64, 0, "INTEGER"),
  (.uint16, 0, "INTEGER"),
  (.uint32, 0, "INTEGER"),
  (.uint64, 0, "INTEGER"),
  (.boolean, 0, "INTEGER"),
  (.ansiString, 0, "TEXT"),
  (.ansiStringFixedLength, 0, "TEXT"),
  (.string, 0, "TEXT"),
  (.stringFixedLength, 0, "TEXT"),
  (.xml, 0, "TEXT"),
  (.date, 0, "DATETIME"),
  (.dateTime, 0, "DATETIME"),
  (.dateTime2, 0, "DATETIME"),
  (.dateTimeOffset, 0, "DATETIME"),
  (.time, 0, "DATETIME"),
  (.binary, 0, "BLOB"),
  (.currency, 0, "NUMERIC"),
  (.decimal, 0, "NUMERIC"),
  (.double, 0, "REAL"),
  (.single, 0, "REAL"),
  (.guid, 0, "UNIQUEIDENTIFIER")]

def quoter (o : Options) : Quoter where
  dialect := .sqlite
  opening := "\""
  closing := "\""
  policy := o.policy .always

def forms : Forms where
  createSchema := none
  dropSchema := none
  alterColumn := none
  addForeignKey := none
  dropForeignKey := none
  hasConstraints := false
  setDefault := none
  dropDefault := none
  hasSequences := false
  hasRoutines := false

def profile (o : Options) (mode : Mode) : Profile where
  dialect := .sqlite
  mode
  typeMap
  quoter := quoter o
  clauseOrder := Clause.standardOrder
  forms
  maxNameLength := 128

end SchemaChange.Dialect.Sqlite
