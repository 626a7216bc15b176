import SchemaChange.Text.Blank
import SchemaChange.Text.Case

/-!
# Dialects

The database engines that SQL is written for, and the two attitudes towards a statement
that an engine cannot express. Both are read from names in any case with blanks around.
-/
namespace SchemaChange

/-- A supported database engine. -/
inductive Dialect where
  | sqlServer
  | postgres
  | mySql
  | oracle
  | sqlite
  | hana
  | snowflake
  deriving DecidableEq, Repr

namespace Dialect

def all : List Dialect := [sqlServer, postgres, mySql, oracle, sqlite, hana, snowflake]

/-- The name used in messages. -/
def displayName : Dialect → String
  | sqlServer => "SQL Server"
  | postgres => "PostgreSQL"
  | mySql => "MySQL"
  | oracle => "Oracle"
  | sqlite => "SQLite"
  | hana => "SAP HANA"
  | snowflake => "Snowflake"

/-- The name used in settings. -/
def code : Dialect → String
  | sqlServer => "sqlserver"
  | postgres => "postgres"
  | mySql => "mysql"
  | oracle => "oracle"
  | sqlite => "sqlite"
  | hana => "hana"
  | snowflake => "snowflake"

/-- The dialect of a settings name, written exactly. -/
def ofCode? (s : String) : Option Dialect := all.find? fun d => d.code == s

/-- The dialect of a lower-case name; some have several. -/
def ofAlias? : String → Option Dialect
  | "mssql" | "sql_server" => some sqlServer
  | "postgresql" | "pg" => some postgres
  | "sap_hana" => some hana
  | s => ofCode? s

end Dialect

/-- What to do when a dialect cannot express an operation. -/
inductive Mode where
  /-- The operation fails. -/
  | strict
  /-- The operation is left out. -/
  | emulate
  deriving DecidableEq, Repr

namespace Mode

/-- The name used in settings. -/
def code : Mode → String
  | strict => "strict"
  | emulate => "emulate"

/-- The mode of a settings name, written exactly. -/
def ofCode? (s : String) : Option Mode := [strict, emulate].find? fun m => m.code == s

/-- The mode of a lower-case name. -/
def ofAlias? : String → Option Mode
  | "loose" => some emulate
  | s => ofCode? s

end Mode

/-- The form in which names of dialects and modes are compared. -/
def normalName (s : String) : String := Text.lower (Text.trim s)

end SchemaChange
