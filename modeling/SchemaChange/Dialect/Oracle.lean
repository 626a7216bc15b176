import SchemaChange.Dialect.Profile

/-!
# Oracle

Schemas are users and cannot be created. Names are not quoted unless the general switch
asks for it. Dropping a table that may be missing takes a block that catches the error.
-/
namespace SchemaChange.Dialect.Oracle

def typeMap : TypeMap := .ofList .oracle [
  (.ansiStringFixedLength, 0, "CHAR(255 CHAR)"),
  (.ansiStringFixedLength, 2000, "CHAR($size CHAR)"),
  (.ansiString, 0, "VARCHAR2(255 CHAR)"),
  (.ansiString, 4000, "VARCHAR2($size CHAR)"),
  (.ansiString, TypeMap.maxCapacity, "CLOB"),
  (.stringFixedLength, 0, "NCHAR(255)"),
  (.stringFixedLength, 2000, "NCHAR($size)"),
  (.string, 0, "NVARCHAR2(255)"),
  (.string, 4000, "NVARCHAR2($size)"),
  (.string, TypeMap.maxCapacity, "NCLOB"),
  (.binary, 0, "RAW(2000)"),
  (.binary, 2000, "RAW($size)"),
  (.binary, TypeMap.maxCapacity, "BLOB"),
  (.boolean, 0, "NUMBER(1,0)"),
  (.byte, 0, "NUMBER(3,0)"),
  (.currency, 0, "NUMBER(19,4)"),
  (.date, 0, "DATE"),
  (.dateTime, 0, "TIMESTAMP(4)"),
  (.dateTime2, 0, "TIMESTAMP(7)"),
  (.dateTimeOffset, 0, "TIMESTAMP(4) WITH TIME ZONE"),
  (.decimal, 0, "NUMBER(19,5)"),
  (.decimal, 38, "NUMBER($size,$precision)"),
  (.double, 0, "DOUBLE PRECISION"),
  (.guid, 0, "RAW(16)"),
  (.int16, 0, "NUMBER(5,0)"),
  (.int32, 0, "NUMBER(10,0)"),
  (.int64, 0, "NUMBER(19,0)"),
  (.single, 0, "FLOAT(24)"),
  (.time, 0, "DATE"),
  (.xml, 0, "XMLTYPE")]

def quoter (o : Options) : Quoter where
  dialect := .oracle
  opening := "\""
  closing := "\""
  policy := o.policy .never

/-- Run a DROP TABLE statement and pass over the error of a missing table. -/
def dropTableIfExists (q : Quoter) (table : Sql) : Sql :=
  "BEGIN\n  EXECUTE IMMEDIATE " ++ Sql.text (Sql.write q ("DROP TABLE " ++ table)) ++
    (";\nEXCEPTION\n  WHEN OTHERS THEN\n    IF SQLCODE != -942 THEN\n      RAISE;\n" ++
      "    END IF;\nEND;" : String)

def forms (q : Quoter) : Forms where
  createSchema := none
  dropSchema := none
  dropTableIfExists := some (dropTableIfExists q)
  addColumn := fun table column => "ALTER TABLE " ++ table ++ " ADD " ++ column
  alterColumn := some fun table column => "ALTER TABLE " ++ table ++ " MODIFY " ++ column
  dropIndex := fun _ qualified _ => "DROP INDEX " ++ qualified
  setDefault := some fun table column value =>
    "ALTER TABLE " ++ table ++ " MODIFY " ++ column ++ " DEFAULT " ++ value
  dropDefault := some fun table column =>
    "ALTER TABLE " ++ table ++ " MODIFY " ++ column ++ " DEFAULT NULL"

def profile (o : Options) (mode : Mode) : Profile where
  dialect := .oracle
  mode
  typeMap
  quoter := quoter o
  clauseOrder := Clause.defaultFirstOrder
  forms := forms (quoter o)
  maxNameLength := 30

end SchemaChange.Dialect.Oracle
