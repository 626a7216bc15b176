import SchemaChange.Script.Batch
import SchemaChange.Sql.Join

/-!
# Running changes

A runner sends the statements of changes and scripts to a connection one after the other
and stops at the first failure. What is sent is planned beforehand and depends on the
runner alone; a dry run plans everything and sends nothing.
-/
namespace SchemaChange

/-- What is done with a connection whose state is of type `σ`: the state shows what has
happened so far, also after a failure. -/
abbrev Action (σ : Type) := ExceptT Error (StateM σ)

namespace Action

/-- Repeat an action until it fails. -/
def times {σ : Type} : Nat → Action σ Unit → Action σ Unit
  | 0, _ => pure ()
  | n + 1, action => do
      action
      times n action

end Action

/-- A profile and a splitter over a connection. -/
structure Runner (σ : Type) where
  profile : Profile
  /-- Send one statement. -/
  execute : String → Action σ Unit
  splitter : Script.Splitter := profile.dialect.splitter
  dryRun : Bool := false

namespace Runner

/-- The settings of a runner. -/
structure Settings where
  dryRun : Bool := false
  stripComments : Bool := false
  deriving DecidableEq, Repr

variable {σ : Type}

def configure (r : Runner σ) (s : Settings) : Runner σ :=
  { r with dryRun := s.dryRun, splitter := r.splitter.withStripComments s.stripComments }

def withDryRun (r : Runner σ) (dryRun : Bool) : Runner σ := { r with dryRun }

def withSplitter (r : Runner σ) (splitter : Script.Splitter) : Runner σ := { r with splitter }

/-- The batches that carry out a change. Raw SQL is split like a script; a text without
statements is no batch. -/
def plan (r : Runner σ) : Change → Except Error (List Script.Batch)
  | .executeSql sql => .ok (r.splitter.split sql)
  | .performDbOperation _ => .ok []
  | change => do
      let sql ← r.profile.generate change
      return if Text.allBlank sql then [] else [⟨sql, .statement⟩]

def runBatch (r : Runner σ) (b : Script.Batch) : Action σ Unit :=
  if r.dryRun then pure () else Action.times b.repeatCount (r.execute b.sql)

def runBatches (r : Runner σ) : List Script.Batch → Action σ Unit
  | [] => pure ()
  | b :: bs => do
      r.runBatch b
      r.runBatches bs

def runChange (r : Runner σ) (change : Change) : Action σ Unit := do
  r.runBatches (← r.plan change)

def runChanges (r : Runner σ) : List Change → Action σ Unit
  | [] => pure ()
  | change :: changes => do
      r.runChange change
      r.runChanges changes

/-- The number of statements of batches, each as often as it is repeated. -/
def runCount : List Script.Batch → Nat
  | [] => 0
  | b :: bs => b.repeatCount + runCount bs

/-- Run a script and count its statements. -/
def runScript (r : Runner σ) (script : String) : Action σ Nat := do
  let batches := r.splitter.split script
  r.runBatches batches
  return runCount batches

/-- Run an operation of the caller on the connection. -/
def perform (r : Runner σ) (operation : Action σ Unit) : Action σ Unit :=
  if r.dryRun then pure () else operation

end Runner

end SchemaChange
