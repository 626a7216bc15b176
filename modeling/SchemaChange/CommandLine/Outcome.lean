import SchemaChange.CommandLine.Invocation
import SchemaChange.Config
import SchemaChange.Document.Change

/-!
# Outcomes

What an invocation prints and how it ends, as a function of the files that it reads. What is
printed before a failure stays printed.
-/
namespace SchemaChange.CommandLine

/-- Why a command fails: what could not be done, and what was the cause of it. -/
structure Failure where
  message : String
  cause : Option String := none
  deriving DecidableEq

/-- A text with four blanks before each line. -/
def indented (s : String) : String :=
  "\n".intercalate <| (Text.splitOn '\n' s.toList).map fun line =>
    String.ofList ("    ".toList ++ line)

def Failure.text (f : Failure) : String :=
  "Error: " ++ f.message ++
    match f.cause with
    | some cause => "\n\nCaused by:\n" ++ indented cause
    | none => ""

/-- How a command ends. -/
structure Outcome where
  output : String := ""
  failure : Option Failure := none
  deriving DecidableEq

/-- The text of every file, or the reason why it cannot be read. -/
abbrev Files := String → Except String String

/-- Fail because of an error that speaks for itself. -/
def orFail {α : Type} (result : Except Error α) : Except Failure α :=
  match result with
  | .ok a => .ok a
  | .error e => .error { message := e.message }

namespace Invocation

/-- The configuration that the invocation names. -/
def loadConfig (i : Invocation) (files : Files) : Except Failure (Option Config) :=
  match i.config with
  | none => .ok none
  | some path =>
      let read := match files path with
        | .ok document => Config.read document
        | .error reason => .error (.setting (.unreadable path reason))
      match read with
      | .ok config => .ok (some config)
      | .error e => .error { message := s!"Failed to load {path}", cause := some e.message }

def readFile (i : Invocation) (files : Files) : Except Failure String :=
  match files i.file with
  | .ok text => .ok text
  | .error reason =>
      let file := i.file
      .error { message := s!"Failed to read {file}", cause := some reason }

/-- The dialect of the options comes before the one of the configuration. -/
def resolveDialect (i : Invocation) (config : Option Config) : Except Failure Dialect :=
  match i.dialect.or (config.map (·.target.dialect)) with
  | some dialect => .ok dialect
  | none => .error { message := "No dialect given; pass --dialect or a --config file" }

/-- The profile that the options and the configuration ask for. -/
def resolveProfile (i : Invocation) (config : Option Config) : Except Failure Profile := do
  let target : TargetSettings := {
    dialect := ← i.resolveDialect config
    mode := (i.mode.or (config.map (·.target.mode))).getD .strict
    switches := i.switches.or (config.bind (·.target.switches)) }
  orFail target.profile

end Invocation

/-- A batch under its number, with the number of runs unless there is one. -/
def batchText (number : Nat) (b : Script.Batch) : String :=
  let count := b.repeatCount
  let runs := if count = 1 then "" else s!" (x{count})"
  s!"-- batch {number}" ++ runs ++ "\n" ++ b.sql ++ "\n\n"

/-- Batches one below the other, numbered from the given number. -/
def batchTexts (number : Nat) : List Script.Batch → String
  | [] => ""
  | b :: bs => batchText number b ++ batchTexts (number + 1) bs

/-- The SQL of changes up to the first that fails. -/
def changeTexts (p : Profile) (number : Nat) : List Change → Outcome
  | [] => {}
  | change :: changes =>
      match p.generate change with
      | .error e =>
          let kind := change.kind
          { failure := some {
              message := s!"Expression {number} ({kind})", cause := some e.message } }
      | .ok sql =>
          let later := changeTexts p (number + 1) changes
          if sql.isEmpty then later else { later with output := sql ++ "\n\n" ++ later.output }

namespace Invocation

def split (i : Invocation) (files : Files) : Except Failure Outcome := do
  let config ← i.loadConfig files
  let dialect ← i.resolveDialect config
  let stripComments := i.stripComments || config.any (·.runner.stripComments)
  let script ← i.readFile files
  let splitter := dialect.splitter.withStripComments stripComments
  return { output := batchTexts 1 (splitter.split script) }

def generate (i : Invocation) (files : Files) : Except Failure Outcome := do
  let p ← i.resolveProfile (← i.loadConfig files)
  match Change.readDocument? (← i.readFile files) with
  | some changes => return changeTexts p 1 changes
  | none =>
      let file := i.file
      throw { message := s!"Failed to parse expressions in {file}",
              cause := some "not a list of changes" }

/-- Carry out an invocation. -/
def outcome (i : Invocation) (files : Files) : Outcome :=
  let result := match i.command with
    | .split => i.split files
    | .generate => i.generate files
  match result with
  | .ok outcome => outcome
  | .error failure => { failure := some failure }

end Invocation

end SchemaChange.CommandLine
