import SchemaChange.Toml.Lexeme
import SchemaChange.Toml.Value

/-!
# Reading TOML

A document is read line by line into entries and headers, which then build its table.
Arrays may go over several lines and end with a comma, inline tables neither. Every value
takes at least one character, so the length of the text bounds the work.
-/
namespace SchemaChange.Toml

/-- The deepest nesting of arrays and inline tables. -/
def maxDepth : Nat := 79

/-- Skip blanks, line breaks and comments inside an array. -/
def skipLines : Nat → List Char → List Char
  | 0, cs => cs
  | fuel + 1, cs =>
      match cs with
      | '#' :: _ =>
          match newline? (skipComment cs) with
          | some rest => skipLines fuel rest
          | none => cs
      | c :: rest =>
          if isSpace c then skipLines fuel rest
          else
            match newline? (c :: rest) with
            | some rest => skipLines fuel rest
            | none => c :: rest
      | [] => []

/-- Read keys whose number is bounded like the nesting of values. -/
def path? (cs : List Char) : Option (List String × List Char) := keys? maxDepth cs

mutual

/-- Read a value. The first argument bounds the work, the second the nesting. -/
def value? : Nat → Nat → List Char → Option (Value × List Char)
  | 0, _, _ => none
  | fuel + 1, depth, cs =>
      match cs with
      | '"' :: _ | '\x27' :: _ =>
          (string? cs).map fun (s, rest) => (.string (String.ofList s), rest)
      | 't' :: 'r' :: 'u' :: 'e' :: rest => some (.bool true, rest)
      | 'f' :: 'a' :: 'l' :: 's' :: 'e' :: rest => some (.bool false, rest)
      | '[' :: rest =>
          match depth with
          | 0 => none
          | depth + 1 => do
              let (items, rest) ← items? fuel depth rest
              return (.array items, rest)
      | '\x7b' :: rest =>
          match depth with
          | 0 => none
          | depth + 1 =>
              match skipSpaces rest with
              | '\x7d' :: rest => some (.table .inline [], rest)
              | _ => do
                  let (entries, rest) ← entries? fuel depth rest
                  return (.table .inline (← defineAll? entries []), rest)
      | _ => (scalar? cs).map fun (text, rest) => (.scalar (String.ofList text), rest)

/-- Read the items of an array up to its closing bracket. -/
def items? : Nat → Nat → List Char → Option (List Value × List Char)
  | 0, _, _ => none
  | fuel + 1, depth, cs =>
      match skipLines cs.length cs with
      | ']' :: rest => some ([], rest)
      | cs => do
          let (item, rest) ← value? fuel depth cs
          match skipLines rest.length rest with
          | ']' :: rest => return ([item], rest)
          | ',' :: rest =>
              let (items, rest) ← items? fuel depth rest
              return (item :: items, rest)
          | _ => none

/-- Read the entries of an inline table up to its closing brace. -/
def entries? : Nat → Nat → List Char → Option (List Entry × List Char)
  | 0, _, _ => none
  | fuel + 1, depth, cs => do
      let (entry, rest) ← binding? fuel depth cs
      match skipSpaces rest with
      | '\x7d' :: rest => return ([entry], rest)
      | ',' :: rest =>
          let (entries, rest) ← entries? fuel depth rest
          return (entry :: entries, rest)
      | _ => none

/-- Read keys, an equals sign and a value. -/
def binding? : Nat → Nat → List Char → Option (Entry × List Char)
  | 0, _, _ => none
  | fuel + 1, depth, cs => do
      match ← path? cs with
      | (keys, '=' :: rest) =>
          let (value, rest) ← value? fuel depth (skipSpaces rest)
          return ((keys, value), rest)
      | _ => none

end

/-- A line that says something. -/
inductive Line where
  | entry (entry : Entry)
  | header (path : List String) (repeated : Bool)

/-- Read a header behind its opening brackets. -/
def header? (repeated : Bool) (cs : List Char) : Option (Line × List Char) := do
  match repeated, ← path? cs with
  | true, (path, ']' :: ']' :: rest) | false, (path, ']' :: rest) =>
      return (.header path repeated, rest)
  | _, _ => none

/-- Read the line that begins with the given characters, but not its end. -/
def line? (cs : List Char) : Option (Line × List Char) :=
  match cs with
  | '[' :: '[' :: rest => header? true rest
  | '[' :: rest => header? false rest
  | _ => (binding? (2 * cs.length + 2) maxDepth cs).map fun (entry, rest) => (.entry entry, rest)

/-- Read lines up to the end of the text, passing over empty ones and comments. -/
def lines? : Nat → List Char → Option (List Line)
  | 0, _ => none
  | fuel + 1, cs =>
      match skipSpaces cs with
      | [] => some []
      | cs =>
          match endLine? cs with
          | some rest => lines? fuel rest
          | none => do
              let (line, rest) ← line? cs
              return line :: (← lines? fuel (← endLine? rest))

/-- The entries before the first header, and the sections. -/
def sections : List Line → List Entry × List Section
  | [] => ([], [])
  | .entry entry :: lines =>
      let (entries, rest) := sections lines
      (entry :: entries, rest)
  | .header path repeated :: lines =>
      let (entries, rest) := sections lines
      ([], { path, repeated, entries } :: rest)

/-- Drop a mark of the byte order. -/
def skipMark : List Char → List Char
  | '\ufeff' :: cs => cs
  | cs => cs

/-- The table of a whole document. -/
def read? (s : String) : Option Members := do
  let cs := skipMark s.toList
  let (entries, rest) := sections (← lines? (cs.length + 1) cs)
  document? entries rest

end SchemaChange.Toml
