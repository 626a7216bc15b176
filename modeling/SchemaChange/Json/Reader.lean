import SchemaChange.Json.Number

/-!
# Reading JSON

A strict reader: no trailing commas, no raw control characters in strings, no lone halves
of surrogate pairs. Every construct consumes at least one character, so the length of the
text bounds the work. Arrays and objects nest to a given depth only.
-/
namespace SchemaChange.Json

/-- Skip the four characters that JSON counts as blanks. -/
def skipBlanks (cs : List Char) : List Char :=
  cs.dropWhile fun c => c == ' ' || c == '\n' || c == '\t' || c == '\r'

/-- The number of four hexadecimal digits. -/
def readHex? : List Char → Option (Nat × List Char)
  | a :: b :: c :: d :: rest => do
      let a ← Text.hexValue? a
      let b ← Text.hexValue? b
      let c ← Text.hexValue? c
      let d ← Text.hexValue? d
      return (((a * 16 + b) * 16 + c) * 16 + d, rest)
  | _ => none

/-- The character of a numeric escape; two escapes form a surrogate pair. -/
def readUnicode? (cs : List Char) : Option (Char × List Char) := do
  let (high, rest) ← readHex? cs
  if 0xD800 ≤ high ∧ high < 0xDC00 then
    match rest with
    | '\\' :: 'u' :: rest =>
        let (low, rest) ← readHex? rest
        if 0xDC00 ≤ low ∧ low < 0xE000 then
          return (Char.ofNat (0x10000 + (high - 0xD800) * 0x400 + (low - 0xDC00)), rest)
        else none
    | _ => none
  else if 0xDC00 ≤ high ∧ high < 0xE000 then none
  else return (Char.ofNat high, rest)

/-- The character that an escape letter stands for. -/
def unescape? : Char → Option Char
  | '"' => some '"'
  | '\\' => some '\\'
  | '/' => some '/'
  | 'b' => some '\x08'
  | 'f' => some '\x0c'
  | 'n' => some '\n'
  | 'r' => some '\r'
  | 't' => some '\t'
  | _ => none

/-- The characters of a string up to its closing quote, and what follows. -/
def readString? : Nat → List Char → Option (List Char × List Char)
  | 0, _ => none
  | _ + 1, [] => none
  | _ + 1, '"' :: rest => some ([], rest)
  | fuel + 1, '\\' :: 'u' :: rest => do
      let (c, rest) ← readUnicode? rest
      let (cs, rest) ← readString? fuel rest
      return (c :: cs, rest)
  | fuel + 1, '\\' :: letter :: rest => do
      let c ← unescape? letter
      let (cs, rest) ← readString? fuel rest
      return (c :: cs, rest)
  | fuel + 1, c :: rest =>
      if c.toNat < 0x20 ∨ c = '\\' then none
      else do
        let (cs, rest) ← readString? fuel rest
        return (c :: cs, rest)

/-- Remove an expected word from the front. -/
def expect? (word : List Char) (cs : List Char) : Option (List Char) :=
  if word.isPrefixOf cs then some (cs.drop word.length) else none

mutual

/-- Read a value behind blanks. The first argument bounds the work, the second the
nesting. -/
def readValue? : Nat → Nat → List Char → Option (Value × List Char)
  | 0, _, _ => none
  | fuel + 1, depth, cs =>
      match skipBlanks cs with
      | 'n' :: rest => (expect? ['u', 'l', 'l'] rest).map (.null, ·)
      | 't' :: rest => (expect? ['r', 'u', 'e'] rest).map (.bool true, ·)
      | 'f' :: rest => (expect? ['a', 'l', 's', 'e'] rest).map (.bool false, ·)
      | '"' :: rest => do
          let (s, rest) ← readString? fuel rest
          return (.string (String.ofList s), rest)
      | '[' :: rest =>
          match depth with
          | 0 => none
          | depth + 1 =>
              match skipBlanks rest with
              | ']' :: rest => some (.array [], rest)
              | _ => do
                  let (items, rest) ← readItems? fuel depth rest
                  return (.array items, rest)
      | '\x7b' :: rest =>
          match depth with
          | 0 => none
          | depth + 1 =>
              match skipBlanks rest with
              | '\x7d' :: rest => some (.object [], rest)
              | _ => do
                  let (members, rest) ← readMembers? fuel depth rest
                  return (.object members, rest)
      | cs => do
          let (n, rest) ← readNumber? cs
          return (.number n, rest)

/-- Read the items of an array up to its closing bracket. -/
def readItems? : Nat → Nat → List Char → Option (List Value × List Char)
  | 0, _, _ => none
  | fuel + 1, depth, cs => do
      let (item, rest) ← readValue? fuel depth cs
      match skipBlanks rest with
      | ']' :: rest => return ([item], rest)
      | ',' :: rest =>
          let (items, rest) ← readItems? fuel depth rest
          return (item :: items, rest)
      | _ => none

/-- Read the members of an object up to its closing brace. -/
def readMembers? : Nat → Nat → List Char → Option (List (String × Value) × List Char)
  | 0, _, _ => none
  | fuel + 1, depth, cs => do
      let rest ← expect? ['"'] (skipBlanks cs)
      let (key, rest) ← readString? fuel rest
      let rest ← expect? [':'] (skipBlanks rest)
      let (value, rest) ← readValue? fuel depth rest
      let member := (String.ofList key, value)
      match skipBlanks rest with
      | '\x7d' :: rest => return ([member], rest)
      | ',' :: rest =>
          let (members, rest) ← readMembers? fuel depth rest
          return (member :: members, rest)
      | _ => none

end

/-- The deepest nesting of arrays and objects that documents may have. -/
def maxDepth : Nat := 127

/-- Read a whole text as one value. -/
def readWithin? (depth : Nat) (s : String) : Option Value :=
  let cs := s.toList
  match readValue? (cs.length + 1) depth cs with
  | some (value, rest) => if (skipBlanks rest).isEmpty then some value else none
  | none => none

/-- Read a whole document. -/
def read? (s : String) : Option Value := readWithin? maxDepth s

end SchemaChange.Json
