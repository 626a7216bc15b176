import SchemaChange.Dialect.Basic
import SchemaChange.Naming.Keyword
import SchemaChange.Text.Search

/-!
# Quoting

Identifiers are wrapped in the quotes of a dialect, with every closing quote inside them
doubled; a name that already stands in quotes is left alone. Texts become string literals
with their quotes doubled.
-/
namespace SchemaChange

/-- When identifiers are wrapped in quotes. -/
inductive QuotePolicy where
  | always
  /-- Names that would be folded to another case, and reserved words. -/
  | whenNeeded
  | never
  deriving DecidableEq, Repr

/-- The name used in answers. -/
def QuotePolicy.code : QuotePolicy → String
  | always => "Always"
  | whenNeeded => "WhenNeeded"
  | never => "Never"

structure Quoter where
  dialect : Dialect
  opening : String
  closing : String
  policy : QuotePolicy := .always
  /-- The schema of names that give none. -/
  defaultSchema : Option String := none
  deriving DecidableEq

/-- A lower-case letter or underscore, then letters, digits, underscores and dollars. -/
def isSimpleName : List Char → Bool
  | [] => false
  | c :: cs =>
      let letter (c : Char) := ('a' ≤ c && c ≤ 'z') || c == '_'
      letter c && cs.all fun c => letter c || ('0' ≤ c && c ≤ '9') || c == '$'

namespace Quoter

/-- Whether a name already stands in the quotes of the dialect. -/
def isQuoted (q : Quoter) (name : String) : Bool :=
  let cs := name.toList
  let opening := q.opening.toList
  let closing := q.closing.toList
  opening.length + closing.length ≤ cs.length && opening.isPrefixOf cs &&
    closing.isSuffixOf cs

/-- Whether the policy asks for quotes around a name. -/
def needsQuoting (q : Quoter) (name : String) : Bool :=
  match q.policy with
  | .always => true
  | .never => false
  | .whenNeeded => !isSimpleName name.toList || Naming.isKeyword name

/-- A closing quote, written twice. -/
def doubledClosing (q : Quoter) : List Char := q.closing.toList ++ q.closing.toList

/-- Put a name between quotes, doubling every closing quote. -/
def wrap (q : Quoter) (name : List Char) : List Char :=
  q.opening.toList ++ Text.replaceAll q.closing.toList q.doubledClosing name ++
    q.closing.toList

/-- The identifier as it is written in SQL. -/
def quote (q : Quoter) (name : String) : String :=
  if name.isEmpty || q.isQuoted name || !q.needsQuoting name then name
  else String.ofList (q.wrap name.toList)

/-- The name that a written identifier stands for. -/
def unquote (q : Quoter) (name : String) : String :=
  if q.isQuoted name then
    let cs := name.toList
    let inner := (cs.drop q.opening.toList.length).take
      (cs.length - q.opening.toList.length - q.closing.toList.length)
    String.ofList (Text.replaceAll q.doubledClosing q.closing.toList inner)
  else name

/-- The characters that stand for one character inside a string literal. -/
def escape (d : Dialect) (c : Char) : List Char :=
  if c = '\x27' then ['\x27', '\x27']
  else if d = .mySql ∧ c = '\\' then ['\\', '\\']
  else [c]

/-- A string literal, with the mark of national characters where the dialect has one. -/
def string (q : Quoter) (s : String) : String :=
  let mark := if q.dialect = .sqlServer then ['N'] else []
  String.ofList (mark ++ '\x27' :: (s.toList.flatMap (escape q.dialect) ++ ['\x27']))

end Quoter

end SchemaChange
