import Mathlib.Algebra.GroupWithZero.Nat
import SchemaChange.Dialect.Known
import SchemaChange.Proofs.Sql.Outcome
import SchemaChange.Runner

/-!
# Runs stop at the first failure

The statements that changes ask for are laid out beforehand as one list, together with the
error of the first change that has none. A run sends a prefix of this list to the connection:
all of it, or everything up to the first statement that fails.
-/
namespace SchemaChange

variable {σ : Type}

/-- The result of an action that starts in a state, and the state that it leaves. -/
def Action.outcome {α : Type} (action : Action σ α) (s : σ) : Except Error α × σ :=
  action.run.run s

/-! ## Statements one after the other -/

/-- The statements succeed one after the other and lead from one state to another one. -/
inductive Completes (execute : String → Action σ Unit) : List String → σ → σ → Prop
  | nil (s : σ) : Completes execute [] s s
  | cons {sql sqls s s' s''} (first : (execute sql).outcome s = (.ok (), s'))
      (rest : Completes execute sqls s' s'') : Completes execute (sql :: sqls) s s''

/-- What a run comes to that has these statements ahead, and behind them perhaps an error:
the statements that it sends, its result and its last state. -/
inductive Sends (execute : String → Action σ Unit) :
    List String × Option Error → σ → List String → Except Error Unit → σ → Prop
  | fails {before sql after stop s s' s'' e} (done : Completes execute before s s')
      (failure : (execute sql).outcome s' = (.error e, s'')) :
      Sends execute (before ++ sql :: after, stop) s (before ++ [sql]) (.error e) s''
  | stops {sqls e s s'} (done : Completes execute sqls s s') :
      Sends execute (sqls, some e) s sqls (.error e) s'
  | finishes {sqls s s'} (done : Completes execute sqls s s') :
      Sends execute (sqls, none) s sqls (.ok ()) s'

/-- A statement that succeeds comes before whatever follows. -/
theorem Sends.cons {execute : String → Action σ Unit} {sql : String} {sqls sent : List String}
    {stop : Option Error} {s s' s'' : σ} {result : Except Error Unit}
    (first : (execute sql).outcome s = (.ok (), s'))
    (h : Sends execute (sqls, stop) s' sent result s'') :
    Sends execute (sql :: sqls, stop) s (sql :: sent) result s'' := by
  cases h with
  | fails done failure => exact .fails (.cons first done) failure
  | stops done => exact .stops (.cons first done)
  | finishes done => exact .finishes (.cons first done)

namespace Action

/-- Send statements, then give up if there is an error behind them. -/
def sendAll (execute : String → Action σ Unit) : List String → Option Error → Action σ Unit
  | [], none => pure ()
  | [], some e => throw e
  | sql :: sqls, stop => do
      execute sql
      sendAll execute sqls stop

/-- Write down every statement before it is sent. -/
def recorded (execute : String → Action σ Unit) (sql : String) : Action (σ × List String) Unit :=
  fun (s, sent) =>
    let (result, s') := (execute sql).outcome s
    (result, s', sent ++ [sql])

theorem outcome_bind {α β : Type} (first : Action σ α) (next : α → Action σ β) (s : σ) :
    (first >>= next).outcome s = match first.outcome s with
      | (.ok a, s') => (next a).outcome s'
      | (.error e, s') => (.error e, s') := by
  rw [outcome, outcome, ExceptT.run_bind, StateT.run_bind]
  rcases first.run.run s with ⟨_ | _, _⟩ <;> rfl

theorem outcome_recorded (execute : String → Action σ Unit) (sql : String) (s : σ)
    (sent : List String) :
    (recorded execute sql).outcome (s, sent) =
      (((execute sql).outcome s).1, ((execute sql).outcome s).2, sent ++ [sql]) := rfl

theorem sendAll_append (execute : String → Action σ Unit) (before after : List String)
    (stop : Option Error) : sendAll execute (before ++ after) stop =
      (do sendAll execute before none; sendAll execute after stop) := by
  induction before with
  | nil => rw [sendAll, pure_bind, List.nil_append]
  | cons sql before ih => rw [List.cons_append, sendAll, sendAll, ih, bind_assoc]

theorem times_eq_sendAll (execute : String → Action σ Unit) (n : Nat) (sql : String) :
    times n (execute sql) = sendAll execute (List.replicate n sql) none := by
  induction n with
  | zero => rfl
  | succ n ih => rw [times, ih, List.replicate_succ, sendAll]

/-- What is sent, and what comes of it, whoever writes it down. -/
theorem sends_sendAll (execute : String → Action σ Unit) (sqls : List String)
    (stop : Option Error) (s : σ) : ∃ sent result s',
      (sendAll execute sqls stop).outcome s = (result, s') ∧
      (∀ earlier, (sendAll (recorded execute) sqls stop).outcome (s, earlier) =
        (result, s', earlier ++ sent)) ∧
      Sends execute (sqls, stop) s sent result s' := by
  induction sqls generalizing s with
  | nil =>
      cases stop with
      | none =>
          refine ⟨[], .ok (), s, rfl, fun earlier => ?_, .finishes (.nil s)⟩
          rw [List.append_nil]
          rfl
      | some e =>
          refine ⟨[], .error e, s, rfl, fun earlier => ?_, .stops (.nil s)⟩
          rw [List.append_nil]
          rfl
  | cons sql sqls ih =>
      rcases hfirst : (execute sql).outcome s with ⟨e | ⟨⟩, s'⟩
      · refine ⟨[sql], .error e, s', ?_, fun earlier => ?_, .fails (.nil s) hfirst⟩
        · rw [sendAll, outcome_bind, hfirst]
        · rw [sendAll, outcome_bind, outcome_recorded, hfirst]
      · obtain ⟨sent, result, s'', hrun, hrecorded, hsends⟩ := ih s'
        refine ⟨sql :: sent, result, s'', ?_, fun earlier => ?_, hsends.cons hfirst⟩
        · rw [sendAll, outcome_bind, hfirst]
          exact hrun
        · rw [sendAll, outcome_bind, outcome_recorded, hfirst]
          simpa using hrecorded (earlier ++ [sql])

end Action

/-! ## The statements of changes -/

namespace Script

/-- The statements of batches, each as often as it is repeated. -/
def statements (bs : List Batch) : List String :=
  bs.flatMap fun b => List.replicate b.repeatCount b.sql

end Script

namespace Runner

/-- The statements of a change. -/
def statements (r : Runner σ) : Change → Except Error (List String)
  | .executeSql sql => .ok (Script.statements (r.splitter.split sql))
  | .performDbOperation _ => .ok []
  | change => (r.profile.generate change).map fun sql => if Text.allBlank sql then [] else [sql]

/-- The statements of changes up to the first one that has none, with its error. -/
def program (r : Runner σ) : List Change → List String × Option Error
  | [] => ([], none)
  | change :: changes =>
      match r.statements change with
      | .error e => ([], some e)
      | .ok sqls => (sqls ++ (r.program changes).1, (r.program changes).2)

/-- The same runner on a connection that writes down what is sent to it. -/
def recorded (r : Runner σ) : Runner (σ × List String) where
  profile := r.profile
  execute := Action.recorded r.execute
  splitter := r.splitter
  dryRun := r.dryRun

theorem program_recorded (r : Runner σ) (changes : List Change) :
    r.recorded.program changes = r.program changes := by
  induction changes with
  | nil => rfl
  | cons change changes ih =>
      have hstatements : r.recorded.statements change = r.statements change := rfl
      rw [program, program, ih, hstatements]

theorem statements_eq_plan (r : Runner σ) (change : Change) :
    r.statements change = (r.plan change).map Script.statements := by
  have generated :
      (r.profile.generate change).map (fun sql => if Text.allBlank sql then [] else [sql]) =
      (do let sql ← r.profile.generate change
          return if Text.allBlank sql then [] else [(⟨sql, .statement⟩ : Script.Batch)]
        : Except Error (List Script.Batch)).map Script.statements := by
    cases r.profile.generate change with
    | error e => rfl
    | ok sql =>
        cases h : Text.allBlank sql <;> simp [Except.map, bind, Except.bind, pure, Except.pure, h,
          Script.statements, Script.Batch.repeatCount, Script.BatchKind.repeatCount]
  cases change
  case executeSql sql => rfl
  case performDbOperation description => rfl
  all_goals exact generated

theorem runBatches_eq_sendAll (r : Runner σ) (hdry : r.dryRun = false) (bs : List Script.Batch) :
    r.runBatches bs = Action.sendAll r.execute (Script.statements bs) none := by
  induction bs with
  | nil => rfl
  | cons b bs ih =>
      have hcons : Script.statements (b :: bs) =
          List.replicate b.repeatCount b.sql ++ Script.statements bs := List.flatMap_cons
      rw [runBatches, ih, runBatch, hdry, hcons, Action.sendAll_append,
        Action.times_eq_sendAll]
      rfl

theorem runChanges_eq_sendAll (r : Runner σ) (hdry : r.dryRun = false) (changes : List Change) :
    r.runChanges changes =
      Action.sendAll r.execute (r.program changes).1 (r.program changes).2 := by
  induction changes with
  | nil => rfl
  | cons change changes ih =>
      rw [runChanges, runChange, program, statements_eq_plan, ih]
      cases r.plan change with
      | error e => rfl
      | ok bs =>
          simp only [Except.map, Action.sendAll_append, ← runBatches_eq_sendAll r hdry]
          rfl

theorem runCount_eq_sum (bs : List Script.Batch) :
    runCount bs = (bs.map Script.Batch.repeatCount).sum := by
  induction bs with
  | nil => rfl
  | cons b bs ih => rw [runCount, ih, List.map_cons, List.sum_cons]

theorem outcome_runScript (r : Runner σ) (hdry : r.dryRun = false) (script : String) (s : σ) :
    (r.runScript script).outcome s =
      let (result, s') := (Action.sendAll r.execute
        (Script.statements (r.splitter.split script)) none).outcome s
      (result.map fun _ => ((r.splitter.split script).map Script.Batch.repeatCount).sum, s') := by
  rw [runScript, runBatches_eq_sendAll r hdry, Action.outcome_bind, runCount_eq_sum]
  rcases (Action.sendAll r.execute _ none).outcome s with ⟨_ | _, _⟩ <;> rfl

/-- Every run of changes and every run of a script passes a prefix of its statements to the
connection, in their order, and comes back with the first error. A script that succeeds
gives the sum of its repeat counts. -/
theorem sends_run (r : Runner σ) (hdry : r.dryRun = false) (s : σ) :
    (∀ changes, ∃ sent result s',
      (r.runChanges changes).outcome s = (result, s') ∧
      (∀ earlier, (r.recorded.runChanges changes).outcome (s, earlier) =
        (result, s', earlier ++ sent)) ∧
      Sends r.execute (r.program changes) s sent result s') ∧
    ∀ script, ∃ sent result s',
      let count := ((r.splitter.split script).map Script.Batch.repeatCount).sum
      (r.runScript script).outcome s = (result.map fun _ => count, s') ∧
      (∀ earlier, (r.recorded.runScript script).outcome (s, earlier) =
        (result.map fun _ => count, s', earlier ++ sent)) ∧
      Sends r.execute (Script.statements (r.splitter.split script), none) s sent result s' := by
  constructor
  · intro changes
    rw [runChanges_eq_sendAll r hdry, runChanges_eq_sendAll r.recorded hdry, program_recorded]
    exact Action.sends_sendAll ..
  · intro script
    obtain ⟨sent, result, s', hrun, hrecorded, hsends⟩ :=
      Action.sends_sendAll r.execute (Script.statements (r.splitter.split script)) none s
    refine ⟨sent, result, s', ?_, fun earlier => ?_, hsends⟩
    · rw [outcome_runScript r hdry, hrun]
    · rw [outcome_runScript r.recorded hdry]
      simp only [recorded, hrecorded]

/-- A connection breaks down after three statements. A script of three still succeeds, and
of a longer list of changes the fourth statement fails and the fifth is not sent. -/
theorem sends_run_lostConnection :
    let lost := Error.execution "lost"
    let r : Runner Nat := {
      profile := Profile.of .sqlite .strict {}
      execute := fun _ => fun
        | 0 => (.error lost, 0)
        | left + 1 => (.ok (), left) }
    let changes := [.executeSql "a\nGO 2\nb", .deleteView { name := "v" }, .executeSql "c"]
    r.dryRun = false ∧
      ((r.recorded.runChanges changes).outcome (3, []) =
          (.error lost, 0, ["a", "a", "b", "DROP VIEW \"v\""]) ∧
        Sends r.execute (r.program changes) 3 ["a", "a", "b", "DROP VIEW \"v\""]
          (.error lost) 0) ∧
      (r.recorded.runScript "a\nGO 2\nb").outcome (3, []) = (.ok 3, 0, ["a", "a", "b"]) := by
  intro lost r changes
  obtain ⟨hchanges, hscript⟩ := sends_run r rfl 3
  obtain ⟨sent, result, s', hrun, hrecorded, hsends⟩ := hchanges changes
  have hlost : (r.recorded.runChanges changes).outcome (3, []) =
      (.error lost, 0, ["a", "a", "b", "DROP VIEW \"v\""]) := by decide +kernel
  refine ⟨rfl, ⟨hlost, ?_⟩, by decide +kernel⟩
  rw [hrecorded] at hlost
  obtain ⟨rfl, rfl, rfl⟩ : result = .error lost ∧ s' = 0 ∧
      sent = ["a", "a", "b", "DROP VIEW \"v\""] := by
    simpa only [Prod.mk.injEq, List.nil_append] using hlost
  exact hsends

end Runner

end SchemaChange
