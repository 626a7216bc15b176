import SchemaChange.Text.Case

/-!
# Reserved words

The words that common SQL dialects reserve. A name is compared with them in lower case.
-/
namespace SchemaChange.Naming

def keywords : List String := [
  "add", "all", "alter", "and", "any", "as", "asc", "backup", "begin", "between", "by",
  "case", "check", "column", "constraint", "create", "database", "default", "delete", "desc",
  "distinct", "drop", "else", "end", "except", "exec", "exists", "foreign", "from", "full",
  "group", "having", "in", "index", "inner", "insert", "intersect", "into", "is", "join",
  "key", "left", "like", "limit", "not", "null", "on", "or", "order", "outer", "primary",
  "procedure", "references", "right", "rownum", "select", "set", "table", "top", "truncate",
  "union", "unique", "update", "user", "values", "view", "where", "with"]

/-- Whether a name is a reserved word in any case. -/
def isKeyword (name : String) : Bool := keywords.contains (Text.lower name)

end SchemaChange.Naming
