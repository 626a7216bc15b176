import SchemaChange.Dialect.Hana
import SchemaChange.Dialect.MySql
import SchemaChange.Dialect.Oracle
import SchemaChange.Dialect.Postgres
import SchemaChange.Dialect.Snowflake
import SchemaChange.Dialect.Sqlite
import SchemaChange.Dialect.SqlServer

/-!
# The known profiles

The profile of every dialect under given options and in a given mode.
-/
namespace SchemaChange

def Profile.of (d : Dialect) (mode : Mode) (o : Options) : Profile :=
  match d with
  | .sqlServer => Dialect.SqlServer.profile o mode
  | .postgres => Dialect.Postgres.profile o mode
  | .mySql => Dialect.MySql.profile o mode
  | .oracle => Dialect.Oracle.profile o mode
  | .sqlite => Dialect.Sqlite.profile o mode
  | .hana => Dialect.Hana.profile o mode
  | .snowflake => Dialect.Snowflake.profile o mode

/-- The dialect of a name in any case. -/
def Dialect.ofName (s : String) : Except Error Dialect :=
  let name := normalName s
  match ofAlias? name with
  | some d => .ok d
  | none => .error (.setting (.unknownDialect name))

/-- The mode of a name in any case. -/
def Mode.ofName (s : String) : Except Error Mode :=
  let name := normalName s
  match ofAlias? name with
  | some m => .ok m
  | none => .error (.setting (.unknownMode name))

end SchemaChange
