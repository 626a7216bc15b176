import SchemaChange.Dialect.Profile

/-!
# MySQL

Tables use one storage engine, and the description of a column is part of its definition.
There are no schemas and no sequences.
-/
namespace SchemaChange.Dialect.MySql

def textCapacity : Nat := 65535

def mediumTextCapacity : Nat := 16777215

def typeMap : TypeMap := .ofList .mySql [
  (.ansiStringFixedLength, 0, "CHAR(255)"),
  (.ansiStringFixedLength, 255, "CHAR($size)"),
  (.ansiString, 0, "VARCHAR(255)"),
  (.ansiString, 255, "VARCHAR($size)"),
  (.ansiString, textCapacity, "TEXT"),
  (.ansiString, mediumTextCapacity, "MEDIUMTEXT"),
  (.ansiString, TypeMap.maxCapacity, "LONGTEXT"),
  (.stringFixedLength, 0, "NCHAR(255)"),
  (.stringFixedLength, 255, "NCHAR($size)"),
  (.string, 0, "NVARCHAR(255)"),
  (.string, 255, "NVARCHAR($size)"),
  (.string, textCapacity, "TEXT"),
  (.string, mediumTextCapacity, "MEDIUMTEXT"),
  (.string, TypeMap.maxCapacity, "LONGTEXT"),
  (.binary, 0, "LONGBLOB"),
  (.binary, 255, "TINYBLOB"),
  (.binary, textCapacity, "BLOB"),
  (.binary, mediumTextCapacity, "MEDIUMBLOB"),
  (.binary, TypeMap.maxCapacity, "LONGBLOB"),
  (.boolean, 0, "TINYINT(1)"),
  (.byte, 0, "TINYINT UNSIGNED"),
  (.sbyte, 0, "TINYINT"),
  (.currency, 0, "DECIMAL(19,4)"),
  (.date, 0, "DATE"),
  (.dateTime, 0, "DATETIME"),
  (.dateTime2, 0, "DATETIME"),
  (.dateTimeOffset, 0, "TIMESTAMP"),
  (.decimal, 0, "DECIMAL(19,5)"),
  (.decimal, 65, "DECIMAL($size,$precision)"),
  (.double, 0, "DOUBLE"),
  (.guid, 0, "CHAR(36)"),
  (.int16, 0, "SMALLINT"),
  (.int32, 0, "INTEGER"),
  (.int64, 0, "BIGINT"),
  (.uint16, 0, "SMALLINT UNSIGNED"),
  (.uint32, 0, "INTEGER UNSIGNED"),
  (.uint64, 0, "BIGINT UNSIGNED"),
  (.single, 0, "FLOAT"),
  (.time, 0, "TIME"),
  (.xml, 0, "LONGTEXT")]

def quoter (o : Options) : Quoter where
  dialect := .mySql
  opening := "\x60"
  closing := "\x60"
  policy := o.policy .always

def forms : Forms where
  createSchema := none
  dropSchema := none
  createTable := fun table columns =>
    "CREATE TABLE " ++ table ++ " (" ++ columns ++ ") ENGINE = INNODB"
  renameTable := fun r => "RENAME TABLE " ++ r.table ++ " TO " ++ r.newTable
  alterColumn := some fun table column =>
    "ALTER TABLE " ++ table ++ " MODIFY COLUMN " ++ column
  dropForeignKey := some fun table name =>
    "ALTER TABLE " ++ table ++ " DROP FOREIGN KEY " ++ name
  dropIndex := fun name _ table => "DROP INDEX " ++ name ++ " ON " ++ table
  setDefault := some fun table column value =>
    "ALTER TABLE " ++ table ++ " ALTER " ++ column ++ " SET DEFAULT " ++ value
  dropDefault := some fun table column =>
    "ALTER TABLE " ++ table ++ " ALTER " ++ column ++ " DROP DEFAULT"
  hasSequences := false

def profile (o : Options) (mode : Mode) : Profile where
  dialect := .mySql
  mode
  typeMap
  quoter := quoter o
  clauseOrder := Clause.standardOrder ++ [.description]
  forms
  maxNameLength := 64

end SchemaChange.Dialect.MySql
