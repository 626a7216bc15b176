import SchemaChange.Sql.Data

/-!
# One text for several statements

A single statement stands by itself. Several are separated by semicolons and line breaks,
or run one after the other inside an anonymous block where the engine takes only one
statement at a time.
-/
namespace SchemaChange

namespace Script

/-- The upper-case ASCII letter of a letter. Of the characters outside ASCII, only the
dotless i and the long s have one. -/
def upperLetter (c : Char) : Char :=
  if c = Char.ofNat 0x131 then 'I' else if c = Char.ofNat 0x17F then 'S' else c.toUpper

/-- Whether a text starts with a word in any case. -/
def startsWithWord (word : List Char) (cs : List Char) : Bool :=
  word.isPrefixOf (cs.map upperLetter)

/-- Whether a statement is a block already. -/
def isBlock (cs : List Char) : Bool :=
  startsWithWord "BEGIN".toList cs || startsWithWord "DECLARE".toList cs

/-- Drop the semicolons at the end. -/
def dropSemicolons (cs : List Char) : List Char :=
  (cs.reverse.dropWhile (· == ';')).reverse

/-- A text with every quote doubled. -/
def doubleQuotes (cs : List Char) : List Char :=
  cs.flatMap fun c => if c = '\x27' then ['\x27', '\x27'] else [c]

/-- One statement inside a block: a block as it is, any other by dynamic execution. -/
def blockEntry (statement : String) : List Char :=
  let cs := Text.trimmed statement.toList
  if isBlock cs then '\n' :: cs
  else "\nEXECUTE IMMEDIATE '".toList ++ doubleQuotes (dropSemicolons cs) ++ "';".toList

/-- One anonymous block that runs the statements in order. -/
def block (statements : List String) : String :=
  String.ofList ("BEGIN".toList ++ statements.flatMap blockEntry ++ "\nEND;".toList)

/-- Add a statement behind others, with a semicolon unless one stands there already. -/
def append (written : List Char) (statement : String) : List Char :=
  if written.isEmpty then statement.toList
  else
    let ended := (Text.trimEnd written).getLast? = some ';'
    written ++ (if ended then ['\n'] else [';', '\n']) ++ statement.toList

/-- The statements with semicolons between them. -/
def separated (statements : List String) : String :=
  String.ofList (statements.foldl append [])

end Script

namespace Profile

/-- The texts of the statements of a change, blank ones left out. -/
def statementTexts (p : Profile) (change : Change) : Except Error (List String) := do
  let statements ← p.statements change
  return (statements.map (Sql.write p.quoter)).filter fun s => !Text.allBlank s

/-- One text that runs all statements. -/
def joinStatements (p : Profile) : List String → String
  | [] => ""
  | [statement] => statement
  | statements =>
      if p.dialect = .oracle then Script.block statements else Script.separated statements

/-- The text that carries out a change; empty when nothing is left to do. -/
def generate (p : Profile) (change : Change) : Except Error String := do
  return p.joinStatements (← p.statementTexts change)

end Profile

end SchemaChange
