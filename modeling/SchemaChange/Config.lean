import SchemaChange.Dialect.Known
import SchemaChange.Runner
import SchemaChange.Toml.Reader

/-!
# Configuration

A configuration names the dialect that SQL is written for and says how it is run and what
is logged. It is read from a TOML document; unknown settings are passed over.
-/
namespace SchemaChange

/-- What the profile of a configuration is made from. -/
structure TargetSettings where
  dialect : Dialect
  mode : Mode := .strict
  switches : Option String := none
  deriving DecidableEq

/-- Where and how much is logged. -/
structure LogSettings where
  level : String := "info"
  file : Option String := none
  format : String := "text"
  stdout : Bool := true
  deriving DecidableEq

structure Config where
  target : TargetSettings
  runner : Runner.Settings := {}
  logging : Option LogSettings := none
  deriving DecidableEq

namespace TargetSettings

def options (s : TargetSettings) : Except Error Options :=
  match s.switches with
  | some switches => Options.ofSwitches switches
  | none => .ok {}

def profile (s : TargetSettings) : Except Error Profile := do
  return .of s.dialect s.mode (← s.options)

end TargetSettings

namespace Config

/-- The fields of a part of the configuration. -/
structure Fields where
  members : Toml.Members
  /-- The fields are the items of an array, where only those with a default may be left
  out at the end. -/
  inOrder : Bool

/-- Read the fields of a table, or of an array whose items have the given names. -/
def fields? (names : List String) : Toml.Value → Option Fields
  | .table _ members => some ⟨members, false⟩
  | v => v.items?.map fun items => ⟨names.zip items, true⟩

namespace Fields

def required? {α : Type} (fs : Fields) (name : String) (decode : Toml.Value → Option α) :
    Option α := do
  decode (← fs.members.lookup name)

def optional? {α : Type} (fs : Fields) (name : String) (decode : Toml.Value → Option α) :
    Option (Option α) :=
  match fs.members.lookup name with
  | some v => (decode v).map some
  | none => if fs.inOrder then none else some none

def defaulted? {α : Type} (fs : Fields) (name : String) (absent : α)
    (decode : Toml.Value → Option α) : Option α :=
  match fs.members.lookup name with
  | some v => decode v
  | none => some absent

end Fields

def text? : Toml.Value → Option String
  | .string s => some s
  | _ => none

def bool? : Toml.Value → Option Bool
  | .bool b => some b
  | _ => none

/-- A table or an array with nothing in it. -/
def isEmpty : Toml.Value → Bool
  | .table _ members => members.isEmpty
  | .array items => items.isEmpty
  | _ => false

/-- A member of an enumeration: its name, or its name as the only key of a table with
nothing below it. -/
def choice? {α : Type} (ofCode? : String → Option α) : Toml.Value → Option α
  | .string name => ofCode? name
  | .table _ [(name, v)] => if isEmpty v then ofCode? name else none
  | _ => none

def target? (v : Toml.Value) : Option TargetSettings := do
  let fs ← fields? ["dialect", "compatibility_mode", "provider_switches"] v
  return {
    dialect := ← fs.required? "dialect" (choice? Dialect.ofCode?)
    mode := ← fs.defaulted? "compatibility_mode" .strict (choice? Mode.ofCode?)
    switches := ← fs.optional? "provider_switches" text? }

def runner? (v : Toml.Value) : Option Runner.Settings := do
  let fs ← fields? ["dry_run", "strip_comments"] v
  return {
    dryRun := ← fs.defaulted? "dry_run" false bool?
    stripComments := ← fs.defaulted? "strip_comments" false bool? }

def logging? (v : Toml.Value) : Option LogSettings := do
  let fs ← fields? ["level", "file", "format", "stdout"] v
  let usual : LogSettings := {}
  return {
    level := ← fs.defaulted? "level" usual.level text?
    file := ← fs.optional? "file" text?
    format := ← fs.defaulted? "format" usual.format text?
    stdout := ← fs.defaulted? "stdout" usual.stdout bool? }

def ofMembers? (members : Toml.Members) : Option Config := do
  let fs : Fields := ⟨members, false⟩
  return {
    target := ← fs.required? "generator" target?
    runner := ← fs.defaulted? "runner" {} runner?
    logging := ← fs.optional? "logging" logging? }

/-- Read the configuration of a document. -/
def read? (document : String) : Option Config := do ofMembers? (← Toml.read? document)

def read (document : String) : Except Error Config :=
  match read? document with
  | some config => .ok config
  | none => .error (.setting .malformed)

end Config

end SchemaChange
