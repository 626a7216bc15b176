import SchemaChange.Text.Blank

/-!
# Procedural blocks

Inside a procedural block a semicolon ends no statement. The words outside all ranges are
followed one by one: they open and close blocks, announce a body that is still to come, or
belong to the header of a statement that creates a program unit.
-/
namespace SchemaChange.Script

/-- What an END can close. -/
inductive Opener where
  | block
  | case
  deriving DecidableEq, Repr

/-- How much of a CREATE header has been read at the start of a statement. -/
inductive Header where
  | start
  | afterCreate
  | afterType
  /-- The header is complete, or there is none. -/
  | done
  deriving DecidableEq, Repr

/-- What is open at a place of a script. -/
structure BlockState where
  /-- The open blocks and cases, innermost first. -/
  openers : List Opener := []
  /-- A declaration or header still waits for its BEGIN. -/
  awaitsBegin : Bool := false
  /-- The statement holds a block and keeps its semicolon. -/
  containsBlock : Bool := false
  header : Header := .start
  deriving DecidableEq, Repr

namespace BlockState

/-- A semicolon ends the statement. -/
def isClosed (s : BlockState) : Bool := s.openers.isEmpty && !s.awaitsBegin

def openBlock (s : BlockState) : BlockState :=
  { s with openers := .block :: s.openers, containsBlock := true }

def awaitBegin (s : BlockState) : BlockState :=
  { s with awaitsBegin := true, containsBlock := true }

def close (s : BlockState) : BlockState := { s with openers := s.openers.tail }

/-- Read a word of the header. -/
def readHeader (s : BlockState) (word : String) : BlockState :=
  match s.header, word with
  | .done, _ => s
  | .start, "CREATE" => { s with header := .afterCreate }
  | .afterCreate, "OR" | .afterCreate, "REPLACE" | .afterCreate, "EDITIONABLE"
  | .afterCreate, "NONEDITIONABLE" => s
  | .afterCreate, "PROCEDURE" | .afterCreate, "FUNCTION" | .afterCreate, "TRIGGER" =>
      { s.awaitBegin with header := .done }
  | .afterCreate, "PACKAGE" => { s.openBlock with header := .done }
  | .afterCreate, "TYPE" => { s with header := .afterType }
  | .afterType, "BODY" => { s.openBlock with header := .done }
  | _, _ => { s with header := .done }

/-- Read a word in upper case, with the word behind it if only blanks lie between them.
The flag says that the second word belongs to the first, as in END IF. -/
def readWord (s : BlockState) (word : String) (following : Option String) :
    BlockState × Bool :=
  let s := s.readHeader word
  match word with
  | "DECLARE" => (s.awaitBegin, false)
  | "BEGIN" => ({ s with awaitsBegin := false }.openBlock, false)
  | "CASE" => ({ s with openers := .case :: s.openers }, false)
  | "END" =>
      match following with
      | some "IF" | some "LOOP" => (s, true)
      | some "CASE" => (s.close, true)
      | _ => (s.close, false)
  | _ => (s, false)

end BlockState

/-- An ASCII letter or an underscore. -/
def isWordStart (c : Char) : Bool := c.isAlpha || c == '_'

/-- A character that continues a word. -/
def isWordChar (c : Char) : Bool := c.isAlphanum || c == '_' || c == '$' || c == '#'

/-- The leading word, in upper case, and its length. -/
def takeWord (cs : List Char) : String × Nat :=
  let word := cs.takeWhile isWordChar
  (String.ofList (word.map Char.toUpper), word.length)

/-- The word behind blanks, and how far ahead it ends. -/
def nextWord? (cs : List Char) : Option (String × Nat) :=
  let gap := (cs.takeWhile Text.isBlank).length
  match cs.drop gap with
  | c :: more =>
      if isWordStart c then
        let (word, n) := takeWord (c :: more)
        some (word, gap + n)
      else none
  | [] => none

/-- Follow the words of a plain text up to a semicolon that ends a statement, and say how
far ahead it stands. `previous` is the character before the text. A word behind a point is
part of a qualified name. -/
def followWords (s : BlockState) (previous : Option Char) (cs : List Char) :
    BlockState × Option Nat :=
  match cs with
  | [] => (s, none)
  | c :: rest =>
      if c = ';' ∧ s.isClosed then (s, some 0)
      else if isWordStart c && !previous.any isWordChar then
        let (word, length) := takeWord (c :: rest)
        let following := nextWord? ((c :: rest).drop length)
        let (next, joined) :=
          if previous = some '.' then (s, false) else s.readWord word (following.map (·.1))
        let taken := if joined then length + (following.map (·.2)).getD 0 else length
        let (s, found) :=
          followWords next ((c :: rest).take taken).getLast? (rest.drop (taken - 1))
        (s, found.map (taken + ·))
      else
        let (s, found) := followWords s (some c) rest
        (s, found.map (1 + ·))
termination_by cs.length
decreasing_by all_goals simp only [List.length_cons, List.length_drop]; omega

end SchemaChange.Script
