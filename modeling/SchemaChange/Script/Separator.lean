import SchemaChange.Script.Block
import SchemaChange.Text.Digit

/-!
# Separators

What ends a batch of a script: a line with the word GO and perhaps a count, a semicolon, or
a semicolon outside procedural blocks. Separators are looked for only in text that lies
outside every range.
-/
namespace SchemaChange.Script

/-- How a batch ends. -/
inductive BatchKind where
  /-- By a semicolon, a line with a slash, or the end of the script. -/
  | statement
  /-- By a separator that asks for a number of runs. -/
  | separator (count : Nat)
  deriving DecidableEq, Repr

/-- How many times a batch is to be run. -/
def BatchKind.repeatCount : BatchKind → Nat
  | statement => 1
  | separator count => count

/-- The separator convention of a dialect. -/
inductive Separator where
  | go
  | semicolon
  | blocks
  deriving DecidableEq, Repr

/-- Text outside every range, with what lies around it on its line. -/
structure Plain where
  /-- The characters before it, nearest first. -/
  passed : List Char
  text : List Char
  /-- The range behind it and all that follows. -/
  after : List Char

/-- A separator that has been found. -/
inductive Token where
  /-- One character some characters ahead; it may belong to the batch that it ends. -/
  | mark (ahead : Nat) (kept : Bool)
  /-- The rest of the line. -/
  | wholeLine (kind : BatchKind)
  deriving DecidableEq, Repr

/-- The largest count that a separator can ask for. -/
def maxRepeatCount : Nat := UInt32.size - 1

/-- The count that some digits denote; no count, zero, or one that is too large or not
written in ASCII digits asks for one run. -/
def repeatCount (digits : List Char) : Nat :=
  match Text.readDecimal? digits with
  | some n => if 1 ≤ n ∧ n ≤ maxRepeatCount then n else 1
  | none => 1

/-- The number of runs that a line asks for if it holds only the word GO, perhaps with a
count behind blanks. -/
def goCount? (line : List Char) : Option Nat :=
  match Text.trimmed line with
  | g :: o :: rest =>
      let digits := Text.trimStart rest
      let apart := digits.length < rest.length
      if g.toUpper = 'G' ∧ o.toUpper = 'O' ∧
          (rest = [] ∨ (apart ∧ digits ≠ [] ∧ digits.all Text.isDigit)) then
        some (repeatCount digits)
      else none
  | _ => none

/-- A GO line starts outside every range; only a comment may follow on it. -/
def findGo? (p : Plain) : Option Token :=
  if p.passed.isEmpty && (p.after.isEmpty || ['-', '-'].isPrefixOf p.after) then
    (goCount? p.text).map fun count => .wholeLine (.separator count)
  else none

def findSemicolon? (p : Plain) : Option Token :=
  (p.text.findIdx? (· == ';')).map fun n => .mark n false

/-- A line with a slash alone ends the statement in any state. -/
def findOutsideBlocks (s : BlockState) (p : Plain) : BlockState × Option Token :=
  if p.passed.isEmpty && p.after.isEmpty && Text.trimmed p.text == ['/'] then
    ({}, some (.wholeLine .statement))
  else
    match followWords s p.passed.head? p.text with
    | (s, some n) => ({}, some (.mark n s.containsBlock))
    | (s, none) => (s, none)

/-- The first separator in a plain text. Only one convention keeps a state. -/
def Separator.find (separator : Separator) (s : BlockState) (p : Plain) :
    BlockState × Option Token :=
  match separator with
  | go => (s, findGo? p)
  | semicolon => (s, findSemicolon? p)
  | blocks => findOutsideBlocks s p

end SchemaChange.Script
