import SchemaChange.Text.Digit
import SchemaChange.Toml.Scalar

/-!
# TOML lexemes

Strings in their four forms, keys, blanks, comments and line ends. Every reader takes
characters from the front and returns what follows, or fails.
-/
namespace SchemaChange.Toml

/-- Blanks inside a line. -/
def isSpace (c : Char) : Bool := c == ' ' || c == '\t'

def skipSpaces (cs : List Char) : List Char := cs.dropWhile isSpace

/-- A character that may stand in a text or a comment. -/
def isPlain (c : Char) : Bool := c == '\t' || (0x20 ≤ c.toNat && c.toNat != 0x7F)

/-- What follows a line break. -/
def newline? : List Char → Option (List Char)
  | '\n' :: rest => some rest
  | '\r' :: '\n' :: rest => some rest
  | _ => none

/-- Skip a comment if one begins here. -/
def skipComment : List Char → List Char
  | '#' :: rest => rest.dropWhile isPlain
  | cs => cs

/-- What follows the end of a line, which may hold a comment. -/
def endLine? (cs : List Char) : Option (List Char) :=
  match skipComment (skipSpaces cs) with
  | [] => some []
  | rest => newline? rest

/-- The character of a code point. -/
def charOf? (n : Nat) : Option Char := if h : n.isValidChar then some (Char.ofNatAux n h) else none

/-- The character of a number of hexadecimal digits. -/
def codePoint? (length : Nat) (cs : List Char) : Option (Char × List Char) := do
  let digits := cs.take length
  if digits.length < length then none
  let values ← digits.mapM Text.hexValue?
  let c ← charOf? (values.foldl (fun n digit => 16 * n + digit) 0)
  return (c, cs.drop length)

/-- The character of an escape, behind its backslash. -/
def escape? : List Char → Option (Char × List Char)
  | 'b' :: rest => some ('\x08', rest)
  | 'f' :: rest => some ('\x0c', rest)
  | 'n' :: rest => some ('\n', rest)
  | 'r' :: rest => some ('\r', rest)
  | 't' :: rest => some ('\t', rest)
  | '"' :: rest => some ('"', rest)
  | '\\' :: rest => some ('\\', rest)
  | 'u' :: rest => codePoint? 4 rest
  | 'U' :: rest => codePoint? 8 rest
  | _ => none

/-- Read a string on one line up to its closing quote. -/
def shortString? : Nat → List Char → Option (List Char × List Char)
  | 0, _ => none
  | _ + 1, [] => none
  | _ + 1, '"' :: rest => some ([], rest)
  | fuel + 1, '\\' :: rest => do
      let (c, rest) ← escape? rest
      let (cs, rest) ← shortString? fuel rest
      return (c :: cs, rest)
  | fuel + 1, c :: rest =>
      if isPlain c then do
        let (cs, rest) ← shortString? fuel rest
        return (c :: cs, rest)
      else none

/-- Read a string without escapes on one line. -/
def shortLiteral? (cs : List Char) : Option (List Char × List Char) :=
  let text := cs.takeWhile fun c => c != '\x27' && isPlain c
  match cs.drop text.length with
  | '\x27' :: rest => some (text, rest)
  | _ => none

/-- Skip blanks and line breaks. -/
def skipFold : List Char → List Char
  | '\r' :: '\n' :: rest => skipFold rest
  | '\n' :: rest | ' ' :: rest | '\t' :: rest => skipFold rest
  | cs => cs

/-- What follows a backslash at the end of a line, up to the next text. -/
def afterFold? (cs : List Char) : Option (List Char) := (newline? (skipSpaces cs)).map skipFold

/-- Read a string over several lines up to its three closing quotes; two quotes more may
stand before them. A line break reads as a line feed. -/
def longString? (mark : Char) (escapes : Bool) :
    Nat → List Char → Option (List Char × List Char)
  | 0, _ => none
  | fuel + 1, cs =>
      let quotes := (cs.takeWhile (· == mark)).length
      if 3 ≤ quotes then
        let kept := min (quotes - 3) 2
        some (List.replicate kept mark, cs.drop (kept + 3))
      else
        match newline? cs with
        | some rest => do
            let (text, rest) ← longString? mark escapes fuel rest
            return ('\n' :: text, rest)
        | none =>
            match cs with
            | [] => none
            | c :: rest =>
                if escapes && c == '\\' then
                  match afterFold? rest with
                  | some rest => longString? mark escapes fuel rest
                  | none => do
                      let (c, rest) ← escape? rest
                      let (text, rest) ← longString? mark escapes fuel rest
                      return (c :: text, rest)
                else if isPlain c then do
                  let (text, rest) ← longString? mark escapes fuel rest
                  return (c :: text, rest)
                else none

/-- Skip the line break that may follow the opening quotes of a long string. -/
def skipNewline (cs : List Char) : List Char := (newline? cs).getD cs

/-- Read a string of any form. -/
def string? (cs : List Char) : Option (List Char × List Char) :=
  let fuel := cs.length + 1
  match cs with
  | '"' :: '"' :: '"' :: rest => longString? '"' true fuel (skipNewline rest)
  | '"' :: rest => shortString? fuel rest
  | '\x27' :: '\x27' :: '\x27' :: rest => longString? '\x27' false fuel (skipNewline rest)
  | '\x27' :: rest => shortLiteral? rest
  | _ => none

/-- A character of a key without quotes. -/
def isBare (c : Char) : Bool := c.isAlphanum || c == '_' || c == '-'

/-- Read one key, bare or in single quotes of either sort. -/
def key? (cs : List Char) : Option (String × List Char) := do
  let (key, rest) ← match cs with
    | '"' :: rest => shortString? (cs.length + 1) rest
    | '\x27' :: rest => shortLiteral? rest
    | _ =>
        let key := cs.takeWhile isBare
        if key.isEmpty then none else some (key, cs.drop key.length)
  return (String.ofList key, rest)

/-- Read keys with points between them; blanks may stand around each. -/
def keys? : Nat → List Char → Option (List String × List Char)
  | 0, _ => none
  | fuel + 1, cs => do
      let (key, rest) ← key? (skipSpaces cs)
      match skipSpaces rest with
      | '.' :: rest =>
          let (keys, rest) ← keys? fuel rest
          return (key :: keys, rest)
      | rest => return ([key], rest)

/-- A character that ends a number, a date or a time. -/
def isDelimiter (c : Char) : Bool :=
  isSpace c || [',', ']', '\x7d', '#', '\n', '\r'].contains c

/-- Read a number, a date or a time; a blank may stand between a date and a time. -/
def scalar? (cs : List Char) : Option (List Char × List Char) :=
  let first := cs.takeWhile (!isDelimiter ·)
  let rest := cs.drop first.length
  let both := first ++ rest.take 1 ++ (rest.drop 1).takeWhile (!isDelimiter ·)
  if isDate first && isMoment both then some (both, cs.drop both.length)
  else if isScalar first then some (first, rest)
  else none

end SchemaChange.Toml
