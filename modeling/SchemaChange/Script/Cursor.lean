import SchemaChange.Text.Search
import SchemaChange.Text.Utf8

/-!
# Places in a line

A line of a script is read from left to right. A cursor holds what has been read and what
is still to come; positions that are told to others count bytes.
-/
namespace SchemaChange.Script

/-- A delimiter, which has at least one character. -/
structure Code where
  chars : List Char
  ne_nil : chars ≠ []
  deriving DecidableEq

namespace Code

/-- The delimiter of a first character and further ones. -/
def of (c : Char) (cs : List Char) : Code := ⟨c :: cs, List.cons_ne_nil c cs⟩

def ofString? (s : String) : Option Code :=
  if h : s.toList = [] then none else some ⟨s.toList, h⟩

def length (code : Code) : Nat := code.chars.length

theorem length_pos (code : Code) : 0 < code.length :=
  List.length_pos_iff.2 code.ne_nil

end Code

/-- A place in a line. -/
structure Cursor where
  /-- The characters before the place, nearest first. -/
  passed : List Char
  /-- The characters from the place on. -/
  rest : List Char
  deriving DecidableEq

namespace Cursor

def ofLine (line : List Char) : Cursor := ⟨[], line⟩

def line (c : Cursor) : List Char := c.passed.reverse ++ c.rest

/-- Move on by some characters. -/
def advance (c : Cursor) (n : Nat) : Cursor :=
  ⟨(c.rest.take n).reverse ++ c.passed, c.rest.drop n⟩

@[simp] theorem advance_rest (c : Cursor) (n : Nat) : (c.advance n).rest = c.rest.drop n := rfl

@[simp] theorem advance_line (c : Cursor) (n : Nat) : (c.advance n).line = c.line := by
  simp [line, advance]

/-- The position in bytes. -/
def index (c : Cursor) : Nat := Text.byteLength c.passed

/-- The position in bytes of the place that lies some characters ahead. -/
def indexAt (c : Cursor) (n : Nat) : Nat := c.index + Text.byteLength (c.rest.take n)

def isAtEnd (c : Cursor) : Bool := c.rest.isEmpty

/-- The place at a position in bytes; one behind the end of the line is the end. -/
def seek (c : Cursor) (position : Nat) : Cursor :=
  (ofLine c.line).advance (Text.charsBefore position c.line)

/-- How far ahead a pattern begins. -/
def find? (c : Cursor) (pattern : List Char) : Option Nat := Text.find? pattern c.rest

end Cursor

end SchemaChange.Script
