import SchemaChange.Document.Literal

/-!
# Schema objects as JSON

Every record is written with all its fields in a fixed order, an absent one as null, and
read with the optional ones left out if they are. The name of an object and its schema
are two fields.
-/
namespace SchemaChange

open Json (Value)
open Document

namespace ObjectName

/-- The two fields of a name. -/
def fields (n : ObjectName) (nameKey schemaKey : String) : Members :=
  [(nameKey, .string n.name), (schemaKey, ofOption .string n.schema)]

def ofMembers? (ms : Members) (nameKey schemaKey : String) : Option ObjectName := do
  return ⟨← ms.required? nameKey text?, ← ms.optional? schemaKey text?⟩

end ObjectName

namespace Column

def toJson (c : Column) : Value := .object [
  ("name", .string c.name),
  ("db_type", ofOption (.string ·.code) c.dbType),
  ("custom_type", ofOption .string c.customType),
  ("size", ofOption (ofInt ·.toNat) c.size),
  ("precision", ofOption (ofInt ·.toNat) c.precision),
  ("nullable", ofOption .bool c.nullable),
  ("default_value", ofOption Literal.toJson c.defaultValue),
  ("is_identity", .bool c.isIdentity),
  ("is_primary_key", .bool c.isPrimaryKey),
  ("primary_key_name", ofOption .string c.primaryKeyName),
  ("collation", ofOption .string c.collation),
  ("description", ofOption .string c.description),
  ("set_existing_rows_to", ofOption Literal.toJson c.existingRows)]

def ofJson? (v : Value) : Option Column := do
  let ms ← record? ["name", "db_type", "custom_type", "size", "precision", "nullable",
    "default_value", "is_identity", "is_primary_key", "primary_key_name", "collation",
    "description", "set_existing_rows_to"] v
  return {
    name := ← ms.required? "name" text?
    dbType := ← ms.optional? "db_type" (choice? DbType.ofCode?)
    customType := ← ms.optional? "custom_type" text?
    size := ← ms.optional? "size" uint32?
    precision := ← ms.optional? "precision" uint32?
    nullable := ← ms.optional? "nullable" bool?
    defaultValue := ← ms.optional? "default_value" Literal.ofJson?
    isIdentity := ← ms.defaulted? "is_identity" false bool?
    isPrimaryKey := ← ms.defaulted? "is_primary_key" false bool?
    primaryKeyName := ← ms.optional? "primary_key_name" text?
    collation := ← ms.optional? "collation" text?
    description := ← ms.optional? "description" text?
    existingRows := ← ms.optional? "set_existing_rows_to" Literal.ofJson? }

end Column

namespace ForeignKey

def toJson (k : ForeignKey) : Value := .object <|
  ("name", ofOption .string k.name) ::
  (k.foreignTable.fields "foreign_table" "foreign_table_schema" ++
  ("foreign_columns", ofTexts k.foreignColumns) ::
  (k.primaryTable.fields "primary_table" "primary_table_schema" ++ [
  ("primary_columns", ofTexts k.primaryColumns),
  ("on_delete", .string k.onDelete.code),
  ("on_update", .string k.onUpdate.code)]))

def ofJson? (v : Value) : Option ForeignKey := do
  let ms ← record? ["name", "foreign_table", "foreign_table_schema", "foreign_columns",
    "primary_table", "primary_table_schema", "primary_columns", "on_delete", "on_update"] v
  return {
    name := ← ms.optional? "name" text?
    foreignTable := ← ObjectName.ofMembers? ms "foreign_table" "foreign_table_schema"
    foreignColumns := ← ms.required? "foreign_columns" (list? text?)
    primaryTable := ← ObjectName.ofMembers? ms "primary_table" "primary_table_schema"
    primaryColumns := ← ms.required? "primary_columns" (list? text?)
    onDelete := ← ms.defaulted? "on_delete" .none (choice? Rule.ofCode?)
    onUpdate := ← ms.defaulted? "on_update" .none (choice? Rule.ofCode?) }

end ForeignKey

namespace IndexColumn

def toJson (c : IndexColumn) : Value := .object [
  ("name", .string c.name),
  ("direction", .string c.direction.code)]

def ofJson? (v : Value) : Option IndexColumn := do
  let ms ← record? ["name", "direction"] v
  return {
    name := ← ms.required? "name" text?
    direction := ← ms.defaulted? "direction" .ascending (choice? Direction.ofCode?) }

end IndexColumn

namespace Index

def toJson (ix : Index) : Value := .object <|
  ("name", ofOption .string ix.name) ::
  (ix.table.fields "table_name" "schema_name" ++ [
  ("is_unique", .bool ix.isUnique),
  ("is_clustered", .bool ix.isClustered),
  ("columns", .array (ix.columns.map IndexColumn.toJson))])

def ofJson? (v : Value) : Option Index := do
  let ms ← record? ["name", "table_name", "schema_name", "is_unique", "is_clustered",
    "columns"] v
  return {
    name := ← ms.optional? "name" text?
    table := ← ObjectName.ofMembers? ms "table_name" "schema_name"
    isUnique := ← ms.defaulted? "is_unique" false bool?
    isClustered := ← ms.defaulted? "is_clustered" false bool?
    columns := ← ms.required? "columns" (list? IndexColumn.ofJson?) }

end Index

namespace Table

def toJson (t : Table) : Value := .object <|
  t.name.fields "name" "schema_name" ++ [
  ("columns", .array (t.columns.map Column.toJson)),
  ("foreign_keys", .array (t.foreignKeys.map ForeignKey.toJson)),
  ("indexes", .array (t.indexes.map Index.toJson)),
  ("description", ofOption .string t.description)]

def ofJson? (v : Value) : Option Table := do
  let ms ← record? ["name", "schema_name", "columns", "foreign_keys", "indexes",
    "description"] v
  return {
    name := ← ObjectName.ofMembers? ms "name" "schema_name"
    columns := ← ms.defaulted? "columns" [] (list? Column.ofJson?)
    foreignKeys := ← ms.defaulted? "foreign_keys" [] (list? ForeignKey.ofJson?)
    indexes := ← ms.defaulted? "indexes" [] (list? Index.ofJson?)
    description := ← ms.optional? "description" text? }

end Table

namespace Constraint

def toJson (c : Constraint) : Value := .object <|
  ("constraint_type", .string c.type.code) ::
  ("name", ofOption .string c.name) ::
  (c.table.fields "table_name" "schema_name" ++ [
  ("columns", ofTexts c.columns.names)])

def ofJson? (v : Value) : Option Constraint := do
  let ms ← record? ["constraint_type", "name", "table_name", "schema_name", "columns"] v
  return {
    type := ← ms.required? "constraint_type" (choice? ConstraintType.ofCode?)
    name := ← ms.optional? "name" text?
    table := ← ObjectName.ofMembers? ms "table_name" "schema_name"
    columns := .ofList (← ms.required? "columns" (list? text?)) }

end Constraint

namespace Sequence

def toJson (s : Sequence) : Value := .object <|
  s.name.fields "name" "schema_name" ++ [
  ("increment", ofOption (ofInt ·.toInt) s.increment),
  ("min_value", ofOption (ofInt ·.toInt) s.minValue),
  ("max_value", ofOption (ofInt ·.toInt) s.maxValue),
  ("start_with", ofOption (ofInt ·.toInt) s.startWith),
  ("cache", ofOption (ofInt ·.toInt) s.cache),
  ("cycle", .bool s.cycle)]

def ofJson? (v : Value) : Option Sequence := do
  let ms ← record? ["name", "schema_name", "increment", "min_value", "max_value",
    "start_with", "cache", "cycle"] v
  return {
    name := ← ObjectName.ofMembers? ms "name" "schema_name"
    increment := ← ms.optional? "increment" int64?
    minValue := ← ms.optional? "min_value" int64?
    maxValue := ← ms.optional? "max_value" int64?
    startWith := ← ms.optional? "start_with" int64?
    cache := ← ms.optional? "cache" int64?
    cycle := ← ms.defaulted? "cycle" false bool? }

end Sequence

end SchemaChange
