import SchemaChange.Model.Table
import SchemaChange.Sql.Quoter

/-!
# SQL in pieces

A statement is a list of pieces: SQL of the library's own, identifiers, string literals,
and texts that a change wants to be written as they are. Quotes are added when a piece is
written, so no name or text can leave its place.
-/
namespace SchemaChange

/-- One piece of a statement. -/
inductive Piece where
  /-- Fixed SQL, numbers and literals without foreign text. -/
  | code (sql : String)
  | name (n : String)
  | text (s : String)
  /-- SQL given by the caller. -/
  | verbatim (sql : String)
  deriving DecidableEq, Repr

/-- A statement, or a part of one. -/
abbrev Sql := List Piece

instance : Coe String Sql := ⟨fun sql => [.code sql]⟩

def Piece.write (q : Quoter) : Piece → String
  | code sql => sql
  | name n => q.quote n
  | text s => q.string s
  | verbatim sql => sql

namespace Sql

/-- The text of a statement. -/
def write (q : Quoter) (sql : Sql) : String := String.join (sql.map (Piece.write q))

def name (n : String) : Sql := [.name n]

def text (s : String) : Sql := [.text s]

def verbatim (sql : String) : Sql := [.verbatim sql]

/-- Parts with a separator between them. -/
def join (separator : Sql) : List Sql → Sql
  | [] => []
  | [part] => part
  | part :: parts => part ++ separator ++ join separator parts

/-- Parts with commas between them. -/
def list (parts : List Sql) : Sql := join ", " parts

/-- A list of column names. -/
def names (columns : List String) : Sql := list (columns.map name)

end Sql

namespace Quoter

/-- The schema that a name is qualified by: its own unless that is empty, else the
default one. -/
def schemaOf? (q : Quoter) (schema : Option String) : Option String :=
  (schema.filter (!·.isEmpty)).or q.defaultSchema

/-- The name of a table or another object behind its schema. -/
def object (q : Quoter) (n : ObjectName) : Sql :=
  match q.schemaOf? n.schema with
  | some schema => [.name schema, .code ".", .name n.name]
  | none => [.name n.name]

/-- The written name of an object. -/
def quoteObject (q : Quoter) (n : ObjectName) : String := (q.object n).write q

end Quoter

end SchemaChange
