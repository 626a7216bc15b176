/-!
# TOML values

A document is a table of tables. Each table remembers how it has come about, because that
decides what the rest of the document may still add to it: nothing is ever defined twice.
-/
namespace SchemaChange.Toml

/-- How a table has come about. -/
inductive Origin where
  /-- By a header of its own; only longer headers add to it. -/
  | header
  /-- By a longer header alone; its own header may still follow. -/
  | passed
  /-- By dotted keys; further ones of the same section add to it. -/
  | dotted
  /-- By braces; it is complete. -/
  | inline
  deriving DecidableEq, Repr

inductive Value where
  | string (s : String)
  | bool (b : Bool)
  /-- A number, date or time, as it is written. -/
  | scalar (text : String)
  | array (items : List Value)
  | table (origin : Origin) (members : List (String × Value))
  /-- The tables of a repeated header, the latest first. -/
  | tables (items : List (List (String × Value)))
  deriving Inhabited

/-- The keys of a table with their values. -/
abbrev Members := List (String × Value)

/-- Give a key that is present another value. -/
def replace (key : String) (value : Value) (ms : Members) : Members :=
  ms.map fun (k, v) => if k = key then (k, value) else (k, v)

/-- Define a dotted key. The last table on its way has to come from dotted keys too. -/
def define? (value : Value) : List String → Members → Option Members
  | [], _ => none
  | [key], ms => if (ms.lookup key).isSome then none else some (ms ++ [(key, value)])
  | key :: next :: keys, ms =>
      match ms.lookup key with
      | none => do
          return ms ++ [(key, .table .dotted (← define? value (next :: keys) []))]
      | some (.table .dotted inner) => do
          return replace key (.table .dotted (← define? value (next :: keys) inner)) ms
      | some (.table .passed inner) =>
          if keys.isEmpty then none
          else do return replace key (.table .passed (← define? value (next :: keys) inner)) ms
      | some (.tables (latest :: earlier)) =>
          if keys.isEmpty then none
          else do
            return replace key (.tables ((← define? value (next :: keys) latest) :: earlier)) ms
      | some _ => none

/-- A dotted key and its value. -/
abbrev Entry := List String × Value

/-- Define the keys of several entries in order. -/
def defineAll? (entries : List Entry) (ms : Members) : Option Members :=
  entries.foldlM (fun ms (keys, value) => define? value keys ms) ms

/-- A header with the entries below it. -/
structure Section where
  path : List String
  /-- The header adds one more table to an array. -/
  repeated : Bool
  entries : List Entry

/-- Add a section at the rest of its path. -/
def addSection? (s : Section) : List String → Members → Option Members
  | [], _ => none
  | [key], ms =>
      match s.repeated, ms.lookup key with
      | false, none => do return ms ++ [(key, .table .header (← defineAll? s.entries []))]
      | false, some (.table .passed inner) => do
          return replace key (.table .header (← defineAll? s.entries inner)) ms
      | true, none => do return ms ++ [(key, .tables [← defineAll? s.entries []])]
      | true, some (.tables items) => do
          return replace key (.tables ((← defineAll? s.entries []) :: items)) ms
      | _, some _ => none
  | key :: next :: keys, ms =>
      match ms.lookup key with
      | none => do
          return ms ++ [(key, .table .passed (← addSection? s (next :: keys) []))]
      | some (.table .inline _) => none
      | some (.table origin inner) => do
          return replace key (.table origin (← addSection? s (next :: keys) inner)) ms
      | some (.tables (latest :: earlier)) => do
          return replace key (.tables ((← addSection? s (next :: keys) latest) :: earlier)) ms
      | some _ => none

/-- The table of a document: the entries before the first header, then the sections. -/
def document? (entries : List Entry) (sections : List Section) : Option Members := do
  sections.foldlM (fun ms s => addSection? s s.path ms) (← defineAll? entries [])

/-- The items of an array of either form. -/
def Value.items? : Value → Option (List Value)
  | array items => some items
  | tables items => some (items.reverse.map (.table .header))
  | _ => none

end SchemaChange.Toml
