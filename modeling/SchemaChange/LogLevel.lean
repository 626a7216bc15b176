import SchemaChange.Text.Blank
import SchemaChange.Text.Digit

/-!
# Log levels

How much of a run is logged. A level is written as a word in any case or as a number.
-/
namespace SchemaChange

inductive LogLevel where
  | error
  | warn
  | info
  | debug
  | trace
  deriving DecidableEq, Repr

namespace LogLevel

/-- All levels, the least talkative one first. -/
def all : List LogLevel := [error, warn, info, debug, trace]

def name : LogLevel → String
  | error => "ERROR"
  | warn => "WARN"
  | info => "INFO"
  | debug => "DEBUG"
  | trace => "TRACE"

/-- The level of a number; the first level has the number one. -/
def ofRank? (n : Nat) : Option LogLevel := if n = 0 then none else all[n - 1]?

/-- The number of a text in ASCII digits with at most one plus sign before them. -/
def readRank? : List Char → Option Nat
  | '+' :: cs => Text.readDecimal? cs
  | cs => Text.readDecimal? cs

/-- The level of a number or of a word in any ASCII case. -/
def ofText? (cs : List Char) : Option LogLevel :=
  ((readRank? cs).bind ofRank?).or
    (all.find? fun level => level.name.toList == cs.map Char.toUpper)

/-- The level of a text with blanks around it; any other text asks for the usual level. -/
def ofName (s : String) : LogLevel := (ofText? (Text.trimmed s.toList)).getD info

end LogLevel

end SchemaChange
