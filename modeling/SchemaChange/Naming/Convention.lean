import SchemaChange.Digest.Md5
import SchemaChange.Model.Table
import SchemaChange.Naming.Pattern
import SchemaChange.Text.Utf8

/-!
# Naming conventions

Names for indexes and constraints that a change leaves unnamed, and their shortening to
the length that an engine accepts. A shortened name ends in digits of the digest of the
full one, so that different names stay different.
-/
namespace SchemaChange.Naming

def joinNames (names : List String) : String := String.intercalate "_" names

def indexName (table : String) (columns : List String) : String :=
  format "IX_{table}_{columns}" [("table", table), ("columns", joinNames columns)]

def foreignKeyName (k : ForeignKey) : String :=
  format "FK_{foreign_table}_{foreign_columns}_{primary_table}_{primary_columns}" [
    ("foreign_table", k.foreignTable.name),
    ("foreign_columns", joinNames k.foreignColumns),
    ("primary_table", k.primaryTable.name),
    ("primary_columns", joinNames k.primaryColumns)]

def primaryKeyName (table : String) : String := format "PK_{table}" [("table", table)]

def uniqueName (table : String) (columns : List String) : String :=
  format "UC_{table}_{columns}" [("table", table), ("columns", joinNames columns)]

def defaultName (table column : String) : String :=
  format "DF_{table}_{column}" [("table", table), ("column", column)]

/-- The number of digest digits behind a shortened name. -/
def digestDigits : Nat := 8

/-- Shorten a name to at most `limit` bytes: keep whole characters from its front, then an
underscore and digits of its digest. A limit without room for that leaves only digits. -/
def truncate (name : String) (limit : Nat) : String :=
  let cs := name.toList
  if Text.byteLength cs ≤ limit then name
  else
    let digest := Digest.Md5.hex name.toUTF8.toList
    if limit ≤ digestDigits + 1 then String.ofList (digest.take limit)
    else
      let kept := Text.takeBytes (limit - (digestDigits + 1)) cs
      String.ofList (kept ++ '_' :: digest.take digestDigits)

end SchemaChange.Naming
