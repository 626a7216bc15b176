import SchemaChange.Document.Table
import SchemaChange.Json.Reader
import SchemaChange.Json.Writer

/-!
# Changes as JSON

A change is an object whose member `type` names its kind; the other fields stand beside
that member. A document is an array of changes.
-/
namespace SchemaChange

open Json (Value)
open Document

namespace Change

/-- The name of a kind in documents. -/
def tag : Change → String
  | createSchema .. => "create_schema"
  | deleteSchema .. => "delete_schema"
  | alterSchema .. => "alter_schema"
  | createTable .. => "create_table"
  | alterTable .. => "alter_table"
  | deleteTable .. => "delete_table"
  | renameTable .. => "rename_table"
  | createColumn .. => "create_column"
  | alterColumn .. => "alter_column"
  | deleteColumn .. => "delete_column"
  | renameColumn .. => "rename_column"
  | createForeignKey .. => "create_foreign_key"
  | deleteForeignKey .. => "delete_foreign_key"
  | createIndex .. => "create_index"
  | deleteIndex .. => "delete_index"
  | createConstraint .. => "create_constraint"
  | deleteConstraint .. => "delete_constraint"
  | alterDefaultConstraint .. => "alter_default_constraint"
  | deleteDefaultConstraint .. => "delete_default_constraint"
  | createSequence .. => "create_sequence"
  | deleteSequence .. => "delete_sequence"
  | insertData .. => "insert_data"
  | updateData .. => "update_data"
  | deleteData .. => "delete_data"
  | createView .. => "create_view"
  | deleteView .. => "delete_view"
  | createFunction .. => "create_function"
  | deleteFunction .. => "delete_function"
  | createProcedure .. => "create_procedure"
  | deleteProcedure .. => "delete_procedure"
  | executeSql .. => "execute_sql"
  | performDbOperation .. => "perform_db_operation"

/-- A schema field and the field of a name in it. -/
def named (n : ObjectName) (nameKey : String) (schemaKey : String := "schema_name") :
    Members :=
  [(schemaKey, ofOption .string n.schema), (nameKey, .string n.name)]

/-- A view or routine with its text. -/
def withText (n : ObjectName) (textKey text : String) : Value :=
  .object (n.fields "name" "schema_name" ++ [(textKey, .string text)])

/-- The fields beside the kind. -/
def fields : Change → Members
  | createSchema schema | deleteSchema schema => [("schema_name", .string schema)]
  | alterSchema table destination =>
      named table "table_name" "source_schema_name" ++
        [("destination_schema_name", .string destination)]
  | createTable table => [("table", table.toJson)]
  | alterTable table description =>
      named table "table_name" ++ [("description", ofOption .string description)]
  | deleteTable table ifExists => named table "table_name" ++ [("if_exists", .bool ifExists)]
  | renameTable table newName => named table "old_name" ++ [("new_name", .string newName)]
  | createColumn table column | alterColumn table column =>
      named table "table_name" ++ [("column", column.toJson)]
  | deleteColumn table columns =>
      named table "table_name" ++ [("column_names", ofTexts columns)]
  | renameColumn table oldName newName =>
      named table "table_name" ++
        [("old_name", .string oldName), ("new_name", .string newName)]
  | createForeignKey key => [("foreign_key", key.toJson)]
  | deleteForeignKey table name => named table "table_name" ++ [("name", .string name)]
  | createIndex index => [("index", index.toJson)]
  | deleteIndex table name => named table "table_name" ++ [("index_name", .string name)]
  | createConstraint constraint | deleteConstraint constraint =>
      [("constraint", constraint.toJson)]
  | alterDefaultConstraint table column value =>
      named table "table_name" ++
        [("column_name", .string column), ("default_value", value.toJson)]
  | deleteDefaultConstraint table column =>
      named table "table_name" ++ [("column_name", .string column)]
  | createSequence sequence => [("sequence", sequence.toJson)]
  | deleteSequence name => named name "sequence_name"
  | insertData table rows identityInsert =>
      named table "table_name" ++
        [("rows", .array (rows.map Row.toJson)), ("identity_insert", .bool identityInsert)]
  | updateData table assignments filter allRows =>
      named table "table_name" ++
        [("set", assignments.toJson), ("where_clause", filter.toJson),
          ("all_rows", .bool allRows)]
  | deleteData table rows allRows =>
      named table "table_name" ++
        [("rows", .array (rows.map Row.toJson)), ("all_rows", .bool allRows)]
  | createView name definition => [("view", withText name "definition" definition)]
  | deleteView name => named name "view_name"
  | createFunction name body => [("function", withText name "body" body)]
  | deleteFunction name => named name "function_name"
  | createProcedure name body => [("procedure", withText name "body" body)]
  | deleteProcedure name => named name "procedure_name"
  | executeSql sql => [("sql", .string sql)]
  | performDbOperation description => [("description", ofOption .string description)]

def toJson (change : Change) : Value :=
  .object (("type", .string change.tag) :: change.fields)

/-- The name in a schema of a record with further fields. -/
def named? (v : Value) (nameKey : String) (others : List String := [])
    (schemaKey : String := "schema_name") : Option (ObjectName × Members) := do
  let ms ← record? (nameKey :: schemaKey :: others) v
  return (← ObjectName.ofMembers? ms nameKey schemaKey, ms)

/-- The only known field of a record. -/
def single? {α : Type} (v : Value) (name : String) (decode : Decoder α) : Option α := do
  (← record? [name] v).required? name decode

/-- A view or routine with its text. -/
def withText? (textKey : String) (v : Value) : Option (ObjectName × String) := do
  let (name, ms) ← named? v "name" [textKey]
  return (name, ← ms.required? textKey text?)

/-- A table with one further required field. -/
def onTable? {α : Type} (v : Value) (key : String) (decode : Decoder α) :
    Option (ObjectName × α) := do
  let (table, ms) ← named? v "table_name" [key]
  return (table, ← ms.required? key decode)

/-- The change of a kind whose fields are in a given object. -/
def ofFields? (v : Value) : String → Option Change
  | "create_schema" => (single? v "schema_name" text?).map createSchema
  | "delete_schema" => (single? v "schema_name" text?).map deleteSchema
  | "alter_schema" => do
      let (table, ms) ←
        named? v "table_name" ["destination_schema_name"] "source_schema_name"
      return alterSchema table (← ms.required? "destination_schema_name" text?)
  | "create_table" => (single? v "table" Table.ofJson?).map createTable
  | "alter_table" => do
      let (table, ms) ← named? v "table_name" ["description"]
      return alterTable table (← ms.optional? "description" text?)
  | "delete_table" => do
      let (table, ms) ← named? v "table_name" ["if_exists"]
      return deleteTable table (← ms.defaulted? "if_exists" false bool?)
  | "rename_table" => do
      let (table, ms) ← named? v "old_name" ["new_name"]
      return renameTable table (← ms.required? "new_name" text?)
  | "create_column" => do
      let (table, column) ← onTable? v "column" Column.ofJson?
      return createColumn table column
  | "alter_column" => do
      let (table, column) ← onTable? v "column" Column.ofJson?
      return alterColumn table column
  | "delete_column" => do
      let (table, columns) ← onTable? v "column_names" (list? text?)
      return deleteColumn table columns
  | "rename_column" => do
      let (table, ms) ← named? v "table_name" ["old_name", "new_name"]
      return renameColumn table (← ms.required? "old_name" text?)
        (← ms.required? "new_name" text?)
  | "create_foreign_key" => (single? v "foreign_key" ForeignKey.ofJson?).map createForeignKey
  | "delete_foreign_key" => do
      let (table, name) ← onTable? v "name" text?
      return deleteForeignKey table name
  | "create_index" => (single? v "index" Index.ofJson?).map createIndex
  | "delete_index" => do
      let (table, name) ← onTable? v "index_name" text?
      return deleteIndex table name
  | "create_constraint" => (single? v "constraint" Constraint.ofJson?).map createConstraint
  | "delete_constraint" => (single? v "constraint" Constraint.ofJson?).map deleteConstraint
  | "alter_default_constraint" => do
      let (table, ms) ← named? v "table_name" ["column_name", "default_value"]
      return alterDefaultConstraint table (← ms.required? "column_name" text?)
        (← ms.required? "default_value" Literal.ofJson?)
  | "delete_default_constraint" => do
      let (table, column) ← onTable? v "column_name" text?
      return deleteDefaultConstraint table column
  | "create_sequence" => (single? v "sequence" Sequence.ofJson?).map createSequence
  | "delete_sequence" => (named? v "sequence_name").map (deleteSequence ·.1)
  | "insert_data" => do
      let (table, ms) ← named? v "table_name" ["rows", "identity_insert"]
      return insertData table (← ms.required? "rows" (list? Row.ofJson?))
        (← ms.defaulted? "identity_insert" false bool?)
  | "update_data" => do
      let (table, ms) ← named? v "table_name" ["set", "where_clause", "all_rows"]
      return updateData table (← ms.required? "set" Row.ofJson?)
        (← ms.defaulted? "where_clause" Row.empty Row.ofJson?)
        (← ms.defaulted? "all_rows" false bool?)
  | "delete_data" => do
      let (table, ms) ← named? v "table_name" ["rows", "all_rows"]
      return deleteData table (← ms.defaulted? "rows" [] (list? Row.ofJson?))
        (← ms.defaulted? "all_rows" false bool?)
  | "create_view" => do
      let (name, definition) ← single? v "view" (withText? "definition")
      return createView name definition
  | "delete_view" => (named? v "view_name").map (deleteView ·.1)
  | "create_function" => do
      let (name, body) ← single? v "function" (withText? "body")
      return createFunction name body
  | "delete_function" => (named? v "function_name").map (deleteFunction ·.1)
  | "create_procedure" => do
      let (name, body) ← single? v "procedure" (withText? "body")
      return createProcedure name body
  | "delete_procedure" => (named? v "procedure_name").map (deleteProcedure ·.1)
  | "execute_sql" => (single? v "sql" text?).map executeSql
  | "perform_db_operation" => do
      let ms ← record? ["description"] v
      return performDbOperation (← ms.optional? "description" text?)
  | _ => none

/-- The kind must be named exactly once. -/
def ofJson? (v : Value) : Option Change := do
  let tag ← single? v "type" text?
  ofFields? v tag

/-- The changes of a JSON document. -/
def readDocument? (text : String) : Option (List Change) := do
  list? ofJson? (← Json.read? text)

end Change

end SchemaChange
