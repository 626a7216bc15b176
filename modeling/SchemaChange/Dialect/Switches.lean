import SchemaChange.Error
import SchemaChange.Text.Search

/-!
# Provider switches

Options of a dialect as a list of `key=value` pairs with semicolons between them. Keys
are compared in lower case without blanks; a value may stand in quotes of either sort.
Unknown keys are passed over.
-/
namespace SchemaChange

/-- The options that dialects know. -/
structure Options where
  /-- Turn quoting of identifiers on or off. -/
  quoteIdentifiers : Option Bool := none
  /-- Whether the Postgres dialect quotes names that do not need it. -/
  forceQuote : Option Bool := none
  deriving DecidableEq

namespace Switches

/-- The text between two equal quotes, if it stands between them. -/
def betweenQuotes? (mark : Char) : List Char → Option (List Char)
  | c :: cs => if c = mark ∧ cs.getLast? = some mark then some cs.dropLast else none
  | [] => none

/-- A value without blanks around it and without surrounding quotes. -/
def bareValue (cs : List Char) : List Char :=
  let value := Text.trimmed cs
  ((betweenQuotes? '"' value).or (betweenQuotes? '\x27' value)).getD value

/-- A key without blanks, in lower case. -/
def normalKey (cs : List Char) : List Char :=
  Text.lowerFrom [] (cs.filter (!Text.isBlank ·))

/-- The pair of one part between semicolons; a blank part has none. -/
def pair (part : List Char) : Except Error (Option (String × String)) :=
  match Text.trimmed part with
  | [] => .ok none
  | switch =>
      match Text.splitOnce '=' switch with
      | some (key, value) =>
          .ok (some (String.ofList (normalKey key), String.ofList (bareValue value)))
      | none => .error (.setting (.switchWithoutValue (String.ofList switch)))

/-- The pairs of a text of switches in order. -/
def pairs (switches : String) : Except Error (List (String × String)) := do
  let found ← (Text.splitOn ';' switches.toList).mapM pair
  return found.filterMap id

/-- A truth value in one of its spellings. -/
def truth (key value : String) : Except Error Bool :=
  let word := Text.lower value
  if ["true", "yes", "1"].contains word then .ok true
  else if ["false", "no", "0"].contains word then .ok false
  else .error (.setting (.switchNotBoolean key value))

/-- Take one pair into the options. -/
def apply (o : Options) (entry : String × String) : Except Error Options := do
  let (key, value) := entry
  if key = "quoteidentifiers" then
    return { o with quoteIdentifiers := some (← truth key value) }
  else if key = "forcequote" then return { o with forceQuote := some (← truth key value) }
  else return o

end Switches

/-- The options that a text of switches sets; a later switch overrides an earlier one. -/
def Options.ofSwitches (switches : String) : Except Error Options := do
  (← Switches.pairs switches).foldlM Switches.apply {}

end SchemaChange
