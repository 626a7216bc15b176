import SchemaChange.Dialect.Profile
import SchemaChange.Model.Validation
import SchemaChange.Naming.Convention
import SchemaChange.Sql.Literal

/-!
# Columns in SQL

A column is written as its clauses in the order of the dialect, empty ones left out. The
primary key stands beside its only column or, with several columns or a name of its own,
behind all columns of the table.
-/
namespace SchemaChange.Profile

/-- The native type of a column; one without any type counts as text. -/
def nativeType (p : Profile) (c : Column) : Except Error Sql :=
  match c.customType with
  | some type => .ok (Sql.verbatim type)
  | none => do return ← p.typeMap.get (c.dbType.getD .string) c.size c.precision

/-- The type of a numbered column in the dialect that numbers by type. -/
def serialType : Option DbType → String
  | some .int64 => "bigserial"
  | some .int16 => "smallserial"
  | _ => "serial"

/-- The type as it stands in a column definition. -/
def columnType (p : Profile) (c : Column) : Except Error Sql :=
  if p.dialect = .postgres ∧ c.isIdentity ∧ c.customType = none then
    .ok (serialType c.dbType)
  else p.nativeType c

/-- The name of a collation, which is an identifier in one dialect only. -/
def collationName (p : Profile) (collation : String) : Sql :=
  if p.dialect = .postgres then Sql.name collation else Sql.verbatim collation

def collationClause (p : Profile) (c : Column) : Sql :=
  match c.collation with
  | some collation => "COLLATE " ++ p.collationName collation
  | none => []

def nullableClause (p : Profile) (c : Column) : Sql :=
  if c.isNotNull then "NOT NULL" else if p.dialect = .sqlServer then "NULL" else []

/-- Shorten a derived name to what the dialect accepts. -/
def fitName (p : Profile) (name : String) : String := Naming.truncate name p.maxNameLength

/-- The name of the constraint that holds a default, where defaults are constraints. -/
def defaultConstraintName (p : Profile) (table column : String) : String :=
  p.fitName (Naming.defaultName table column)

def defaultClause (p : Profile) (c : Column) (table : String) : Except Error Sql :=
  match c.defaultValue with
  | none => .ok []
  | some value => do
      let sql ← value.sql p.dialect
      if p.dialect = .sqlServer then
        return "CONSTRAINT " ++ Sql.name (p.defaultConstraintName table c.name) ++
          " DEFAULT " ++ sql
      else return "DEFAULT " ++ sql

def primaryKeyMark (p : Profile) (c : Column) (inlineKey : Bool) : Sql :=
  if inlineKey && c.isPrimaryKey then
    if p.dialect = .sqlite ∧ c.isIdentity then "PRIMARY KEY AUTOINCREMENT" else "PRIMARY KEY"
  else []

/-- The words for a numbered column; two dialects say it by type or key instead. -/
def identityWords : Dialect → String
  | .sqlServer | .snowflake => "IDENTITY(1,1)"
  | .mySql => "AUTO_INCREMENT"
  | .oracle => "GENERATED BY DEFAULT ON NULL AS IDENTITY"
  | .hana => "GENERATED BY DEFAULT AS IDENTITY"
  | .postgres | .sqlite => ""

def identityMark (p : Profile) (c : Column) : Sql :=
  if c.isIdentity then identityWords p.dialect else []

def descriptionClause (c : Column) : Sql :=
  match c.description with
  | some description => "COMMENT " ++ Sql.text description
  | none => []

/-- One clause of a column. -/
def clause (p : Profile) (c : Column) (table : String) (inlineKey : Bool) :
    Clause → Except Error Sql
  | .name => .ok (Sql.name c.name)
  | .type => p.columnType c
  | .collation => .ok (p.collationClause c)
  | .nullable => .ok (p.nullableClause c)
  | .default => p.defaultClause c table
  | .primaryKey => .ok (p.primaryKeyMark c inlineKey)
  | .identity => .ok (p.identityMark c)
  | .description => .ok (descriptionClause c)

/-- Whether nothing is left of a part when it is written. -/
def isVoid (p : Profile) (sql : Sql) : Bool := (sql.write p.quoter).isEmpty

/-- The definition of a column. The engine that numbers rows by their key alone refuses
any other numbered column. -/
def column (p : Profile) (c : Column) (table : String) (inlineKey : Bool) :
    Except Error Sql := do
  if p.dialect = .sqlite ∧ c.isIdentity ∧ !(inlineKey && c.isPrimaryKey) then
    p.unsupported (.autoincrement c.name table)
  let parts ← p.clauseOrder.mapM (p.clause c table inlineKey)
  return Sql.join " " (parts.filter (!p.isVoid ·))

/-- Whether the primary key stands behind the columns. -/
def hoistsKey (p : Profile) (columns : List Column) : Bool :=
  let keys := columns.filter (·.isPrimaryKey)
  match keys with
  | [key] => !(p.dialect = .sqlite ∧ key.isIdentity) && key.primaryKeyName.isSome
  | _ => 1 < keys.length

/-- The primary key behind the columns, under the first name that any column gives. -/
def keyClause (columns : List Column) : Sql :=
  let keys := (columns.filter (·.isPrimaryKey)).map (·.name)
  let key : Sql := "PRIMARY KEY (" ++ Sql.names keys ++ ")"
  match columns.findSome? (·.primaryKeyName) with
  | some name => "CONSTRAINT " ++ Sql.name name ++ " " ++ key
  | none => key

/-- The columns of a table with its primary key. -/
def columns (p : Profile) (columns : List Column) (table : String) : Except Error Sql := do
  let hoists := p.hoistsKey columns
  let parts ← columns.mapM (p.column · table (!hoists))
  return Sql.list (if hoists then parts ++ [keyClause columns] else parts)

/-- The name of a foreign key, its own or the conventional one. -/
def foreignKeyName (p : Profile) (k : ForeignKey) : String :=
  k.name.getD (p.fitName (Naming.foreignKeyName k))

/-- The rule on deletion; one dialect cannot set a default. -/
def onDelete (p : Profile) (k : ForeignKey) : Except Error Sql :=
  match k.onDelete.sql? with
  | none => .ok []
  | some words => do
      if p.dialect = .oracle ∧ k.onDelete = .setDefault then
        p.unsupported (.onDeleteSetDefault (p.foreignKeyName k))
        return []
      else return (" ON DELETE " ++ words : String)

/-- The rule on update; one dialect has none. -/
def onUpdate (p : Profile) (k : ForeignKey) : Except Error Sql :=
  match k.onUpdate.sql? with
  | none => .ok []
  | some words => do
      if p.dialect = .oracle then
        p.unsupported (.onUpdate (p.foreignKeyName k))
        return []
      else return (" ON UPDATE " ++ words : String)

/-- The constraint of a valid foreign key. -/
def foreignKey (p : Profile) (k : ForeignKey) : Except Error Sql := do
  Check.orFail k.check
  let onDelete ← p.onDelete k
  let onUpdate ← p.onUpdate k
  return "CONSTRAINT " ++ Sql.name (p.foreignKeyName k) ++ " FOREIGN KEY (" ++
    Sql.names k.foreignColumns ++ ") REFERENCES " ++ p.quoter.object k.primaryTable ++ " (" ++
    Sql.names k.primaryColumns ++ ")" ++ onDelete ++ onUpdate

end SchemaChange.Profile
