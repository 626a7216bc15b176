import SchemaChange.Dialect.Basic
import SchemaChange.Model.Column

/-!
# Errors

Every failure is a cause with the names it concerns; the wording is derived from it in
one place. Only a missing feature depends on the compatibility mode.
-/
namespace SchemaChange

/-- Why a change or a value is refused before any SQL is written. -/
inductive Invalid where
  | blank (what : String)
  | untypedColumn (column : String)
  | tableWithoutColumns (table : String)
  | repeatedColumn (column table : String)
  | foreignKeyTables (key : String)
  | foreignKeyOwnTable (key : String)
  | foreignKeyWithoutColumns (key : String)
  | foreignKeyCounts (key : String) (foreign primary : Nat)
  | indexWithoutColumns (table : String)
  | constraintWithoutColumns (table : String)
  | sequenceBounds (sequence : String) (minValue maxValue : Int64)
  | sequenceStandstill (sequence : String)
  | nothingToDelete (table : String)
  | constraintUnknown (table : String)
  | emptyRow (position : Nat) (table : String)
  | emptyUpdate (table : String)
  | unboundedUpdate (table : String)
  | unboundedDelete (table : String)
  | notFinite (number : String)
  | inTable (cause : Invalid) (table : String)
  deriving DecidableEq

def Invalid.message : Invalid → String
  | blank what => s!"{what} cannot be empty"
  | untypedColumn column => s!"Column '{column}' has neither a type nor a custom type"
  | tableWithoutColumns table => s!"Table '{table}' must define at least one column"
  | repeatedColumn column table =>
      s!"Column '{column}' is defined more than once in table '{table}'"
  | foreignKeyTables key =>
      s!"Foreign key '{key}' must name both the foreign and the primary table"
  | foreignKeyOwnTable key => s!"Foreign key '{key}' cannot reference its own table"
  | foreignKeyWithoutColumns key =>
      s!"Foreign key '{key}' must specify foreign and primary columns"
  | foreignKeyCounts key foreign primary =>
      s!"Foreign key '{key}' has {foreign} foreign column(s) but {primary} primary column(s)"
  | indexWithoutColumns table => s!"Index on table '{table}' must have at least one column"
  | constraintWithoutColumns table =>
      s!"Constraint on table '{table}' must have at least one column"
  | sequenceBounds sequence minValue maxValue =>
      s!"Sequence '{sequence}' has MINVALUE {minValue} greater than MAXVALUE {maxValue}"
  | sequenceStandstill sequence => s!"Sequence '{sequence}' cannot increment by 0"
  | nothingToDelete table => s!"At least one column must be deleted from table '{table}'"
  | constraintUnknown table =>
      s!"Constraint to delete from table '{table}' needs a name or its columns"
  | emptyRow position table => s!"Row {position} inserted into table '{table}' has no values"
  | emptyUpdate table => s!"Update of table '{table}' sets no columns"
  | unboundedUpdate table => s!"Update of table '{table}' needs a WHERE clause or all_rows"
  | unboundedDelete table => s!"Delete from table '{table}' needs row predicates or all_rows"
  | notFinite number => s!"{number} cannot be written as a SQL literal"
  | inTable cause table => s!"{cause.message} (table '{table}')"

/-- An operation that some dialect cannot express. -/
inductive Feature where
  | createSchema (schema : String)
  | dropSchema (schema : String)
  | moveTable (table destination : String)
  | dropTableIfExists (table : String)
  | alterColumn (column table : String)
  | identityOnExisting (column table : String)
  | autoincrement (column table : String)
  | addForeignKey (key : String)
  | dropForeignKey (key table : String)
  | onDeleteSetDefault (key : String)
  | onUpdate (key : String)
  | createIndex (table : String)
  | dropIndex (index table : String)
  | clusteredIndex (index : String)
  | addConstraint (kind table : String)
  | dropConstraint (constraint table : String)
  | changeDefault (column table : String)
  | dropDefault (column table : String)
  | sequence (name : String)
  | sequenceOption (option name : String)
  | function (name : String)
  | procedure (name : String)
  deriving DecidableEq

def Feature.description : Feature → String
  | createSchema schema => s!"CREATE SCHEMA (schema '{schema}')"
  | dropSchema schema => s!"DROP SCHEMA (schema '{schema}')"
  | moveTable table destination => s!"moving table '{table}' to schema '{destination}'"
  | dropTableIfExists table => s!"DROP TABLE IF EXISTS (table '{table}')"
  | alterColumn column table => s!"ALTER COLUMN (column '{column}' on table '{table}')"
  | identityOnExisting column table =>
      s!"adding IDENTITY to existing column '{column}' on table '{table}'"
  | autoincrement column table =>
      s!"AUTOINCREMENT on column '{column}' of table '{table}' " ++
        "unless it is the only primary key column"
  | addForeignKey key => s!"adding foreign key '{key}' to an existing table"
  | dropForeignKey key table => s!"dropping foreign key '{key}' from table '{table}'"
  | onDeleteSetDefault key => s!"ON DELETE SET DEFAULT (foreign key '{key}')"
  | onUpdate key => s!"ON UPDATE rules (foreign key '{key}')"
  | createIndex table => s!"indexes (index on table '{table}')"
  | dropIndex index table => s!"indexes (index '{index}' on table '{table}')"
  | clusteredIndex index => s!"clustered index '{index}'"
  | addConstraint kind table => s!"adding a {kind} constraint to existing table '{table}'"
  | dropConstraint constraint table =>
      s!"dropping constraint '{constraint}' from table '{table}'"
  | changeDefault column table =>
      s!"changing the default of column '{column}' on table '{table}'"
  | dropDefault column table =>
      s!"dropping the default of column '{column}' on table '{table}'"
  | sequence name => s!"sequences (sequence '{name}')"
  | sequenceOption option name => s!"{option} (sequence '{name}')"
  | function name => s!"functions (function '{name}')"
  | procedure name => s!"stored procedures (procedure '{name}')"

/-- Why no native type is found for a portable one. -/
inductive NoType where
  | unknown (dialect : Dialect) (type : DbType)
  | sizeNeeded (dialect : Dialect) (type : DbType)
  | sizeTooLarge (dialect : Dialect) (type : DbType) (size : Nat)
  deriving DecidableEq

def NoType.message : NoType → String
  | unknown dialect type =>
      s!"{dialect.displayName} has no mapping for DbType {type.code}"
  | sizeNeeded dialect type => s!"{dialect.displayName} needs a size for DbType {type.code}"
  | sizeTooLarge dialect type size =>
      s!"{dialect.displayName} cannot map DbType {type.code} with size {size}"

/-- What is wrong with settings. -/
inductive BadSetting where
  | unknownDialect (name : String)
  | unknownMode (name : String)
  | switchWithoutValue (switch : String)
  | switchNotBoolean (key value : String)
  | malformed
  | unreadable (path reason : String)
  deriving DecidableEq

def BadSetting.message : BadSetting → String
  | unknownDialect name => s!"Unknown dialect: {name}"
  | unknownMode name => s!"Unknown compatibility mode: {name}"
  | switchWithoutValue switch => s!"Provider switch '{switch}' is not a key=value pair"
  | switchNotBoolean key value =>
      s!"Provider switch '{key}' expects a boolean, got '{value}'"
  | malformed => "Failed to parse config file"
  | unreadable path reason => s!"Failed to read config file {path}: {reason}"

/-- Every way to fail. -/
inductive Error where
  | setting (cause : BadSetting)
  | invalid (cause : Invalid)
  | unsupported (dialect : Dialect) (feature : Feature)
  | noSystemMethod (dialect : Dialect) (method : SystemMethod)
  | noType (cause : NoType)
  /-- A failure of the database, in its own words. -/
  | execution (reason : String)
  deriving DecidableEq

/-- The complete text of an error: its category, then its cause. -/
def Error.message : Error → String
  | setting cause => "Configuration error: " ++ cause.message
  | invalid cause => "Validation error: " ++ cause.message
  | unsupported dialect feature =>
      s!"Operation not supported: {dialect.displayName} does not support " ++
        feature.description
  | noSystemMethod dialect method =>
      s!"Operation not supported: {dialect.displayName} has no equivalent of system method " ++
        method.displayName
  | noType cause => "Type mapping error: " ++ cause.message
  | execution reason => "Execution error: " ++ reason

/-- The dialect lacks something that was asked for. -/
def Error.isUnsupported : Error → Bool
  | unsupported .. | noSystemMethod .. => true
  | _ => false

end SchemaChange
