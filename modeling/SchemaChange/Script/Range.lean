import SchemaChange.Script.Cursor
import SchemaChange.Text.Blank

/-!
# Ranges

A range is a span of a script in which no separator counts: a string, a quoted name or a
comment. Each sort of range says where it begins and, once open, where it ends.
-/
namespace SchemaChange.Script

/-- A sort of range, with its delimiters. -/
inductive Range where
  /-- Inside, the closing code stands for itself when it is written twice. -/
  | doubled (opening closing : Code)
  /-- The first closing code ends the range. -/
  | plain (opening closing : Code) (isComment : Bool)
  /-- A comment up to the end of the line, perhaps only with nothing but blanks before. -/
  | lineComment (opening : Code) (atLineStart : Bool)
  /-- A comment in which further comments of the same sort may open. -/
  | nesting (opening closing : Code)
  deriving DecidableEq

/-- What happens next in an open range, some characters ahead. -/
inductive Ending where
  /-- The range ends with a closing code. -/
  | closes (ahead : Nat)
  /-- The same sort of range opens inside. -/
  | nests (ahead : Nat)
  deriving DecidableEq

/-- How far ahead a closing code stands that is not followed by another one; pairs are
passed over from the left. -/
def findSingle? (code : Code) (cs : List Char) : Option Nat :=
  match _h : Text.find? code.chars cs with
  | none => none
  | some n =>
      let behind := cs.drop (n + code.length)
      if code.chars.isPrefixOf behind then
        (findSingle? code (behind.drop code.length)).map (n + 2 * code.length + ·)
      else some n
termination_by cs.length
decreasing_by
  have := Text.le_of_find? _h
  have := code.length_pos
  simp only [Code.length, List.length_drop] at *
  omega

namespace Range

/-- Comments are left out when comments are stripped. -/
def isComment : Range → Bool
  | doubled .. => false
  | plain _ _ isComment => isComment
  | lineComment .. | nesting .. => true

def opening : Range → Code
  | doubled opening _ | plain opening .. | lineComment opening _ | nesting opening _ => opening

/-- The characters that close the range; the end of a line has none. -/
def closing : Range → List Char
  | doubled _ closing | plain _ closing _ | nesting _ closing => closing.chars
  | lineComment .. => []

/-- How far ahead the range begins. -/
def findStart? (r : Range) (c : Cursor) : Option Nat :=
  match r with
  | lineComment opening true =>
      let indent := (c.rest.takeWhile Text.isBlank).length
      if c.passed.all Text.isBlank && opening.chars.isPrefixOf (c.rest.drop indent) then
        some indent
      else none
  | _ => c.find? r.opening.chars

/-- What happens next in the open range before the end of the line. -/
def findEnd? (r : Range) (cs : List Char) : Option Ending :=
  match r with
  | doubled _ closing => (findSingle? closing cs).map .closes
  | plain _ closing _ => (Text.find? closing.chars cs).map .closes
  | lineComment .. => some (.closes cs.length)
  | nesting opening closing =>
      match Text.find? opening.chars cs, Text.find? closing.chars cs with
      | some inner, some outer =>
          some (if inner < outer then .nests inner else .closes outer)
      | some inner, none => some (.nests inner)
      | none, some outer => some (.closes outer)
      | none, none => none

theorem ne_nil_of_nests {r : Range} {cs : List Char} {n : Nat}
    (h : r.findEnd? cs = some (.nests n)) : cs ≠ [] := by
  rintro rfl
  cases r with
  | nesting opening closing =>
      have ho : Text.find? opening.chars [] = none := by
        simp [Text.find?, opening.ne_nil]
      simp only [findEnd?, ho] at h
      split at h <;> simp_all
  | doubled _ closing | plain _ closing _ | lineComment _ _ => simp [findEnd?] at h

end Range

end SchemaChange.Script
