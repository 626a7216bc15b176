import Mathlib.Data.List.Forall2
import SchemaChange.Proofs.Runner.Run

/-!
# Dry runs foretell runs

A runner is called any number of times, and a failure keeps nobody from calling again. In a dry
run every request is answered as on a connection that never fails, and no call reaches the
connection.
-/
namespace SchemaChange

variable {σ τ : Type}

/-- Every statement succeeds in every state. -/
def NeverFails (execute : String → Action τ Unit) : Prop :=
  ∀ sql t, ((execute sql).outcome t).1 = .ok ()

namespace Action

/-- The action leaves every state as it is. -/
def Idle {α : Type} (action : Action σ α) : Prop := ∀ s, (action.outcome s).2 = s

section Idle

variable {α β : Type}

theorem idle_pure (a : α) : Idle (pure a : Action σ α) := fun _ => rfl

theorem idle_lift (result : Except Error α) : Idle (liftM result : Action σ α) := fun _ => by
  cases result <;> rfl

theorem Idle.bind {first : Action σ α} {next : α → Action σ β} (hfirst : first.Idle)
    (hnext : ∀ a, (next a).Idle) : (first >>= next).Idle := by
  intro s
  have hstate := hfirst s
  rw [outcome_bind]
  rcases hrun : first.outcome s with ⟨_ | a, s'⟩
  · rwa [hrun] at hstate
  · rw [hrun] at hstate
    obtain rfl : s' = s := hstate
    exact hnext a s'

end Idle

theorem outcome_sendAll_of_neverFails {execute : String → Action τ Unit} (h : NeverFails execute)
    (sqls : List String) (t : τ) : ((sendAll execute sqls none).outcome t).1 = .ok () := by
  induction sqls generalizing t with
  | nil => rfl
  | cons sql sqls ih =>
      rw [sendAll, outcome_bind]
      rcases hfirst : (execute sql).outcome t with ⟨result, t'⟩
      obtain rfl : result = .ok () := (congrArg Prod.fst hfirst).symm.trans (h sql t)
      exact ih t'

end Action

/-- What a runner is asked to send. -/
inductive Request where
  | change (change : Change)
  | changes (changes : List Change)
  | script (script : String)

/-- A call of a runner: a request, or an operation of the caller on the connection. -/
inductive Call (σ : Type) where
  | request (request : Request)
  | perform (operation : Action σ Unit)

namespace Runner

/-- Carry out a request. Only a script is answered with a number of statements. -/
def fulfil (r : Runner σ) : Request → Action σ (Option Nat)
  | .change change => do
      r.runChange change
      return none
  | .changes changes => do
      r.runChanges changes
      return none
  | .script script => do
      return some (← r.runScript script)

def answer (r : Runner σ) : Call σ → Action σ (Option Nat)
  | .request request => r.fulfil request
  | .perform operation => do
      r.perform operation
      return none

/-- The answers to calls that are made one after the other, and the last state. -/
def answers (r : Runner σ) : List (Call σ) → σ → List (Except Error (Option Nat)) × σ
  | [], s => ([], s)
  | call :: calls, s =>
      let (result, s') := (r.answer call).outcome s
      let (results, s'') := r.answers calls s'
      (result :: results, s'')

/-- The same runner on another connection, outside a dry run. -/
def live (r : Runner σ) (execute : String → Action τ Unit) : Runner τ where
  profile := r.profile
  execute := execute
  splitter := r.splitter
  dryRun := false

/-- The result is the one that the call would have on a connection that never fails; operations
of the caller always succeed. -/
def Foretells (r : Runner σ) : Call σ → Except Error (Option Nat) → Prop
  | .request request, result => ∀ (τ : Type) (execute : String → Action τ Unit),
      NeverFails execute → ∀ t, (((r.live execute).fulfil request).outcome t).1 = result
  | .perform _, result => result = .ok none

/-- What comes of a request if no statement fails. -/
def forecast (r : Runner σ) : Request → Except Error (Option Nat)
  | .change change => (r.plan change).map fun _ => none
  | .changes changes => (changes.mapM r.plan).map fun _ => none
  | .script script => .ok (some (runCount (r.splitter.split script)))

/-- No statement of any batch fails. -/
def Unfailing (r : Runner σ) : Prop := ∀ bs s, ((r.runBatches bs).outcome s).1 = .ok ()

section Forecast

variable {r : Runner σ}

theorem outcome_runChange (r : Runner σ) (change : Change) (s : σ) :
    (r.runChange change).outcome s = match r.plan change with
      | .ok bs => (r.runBatches bs).outcome s
      | .error e => (.error e, s) := by
  rw [runChange, Action.outcome_bind]
  cases r.plan change <;> rfl

theorem Unfailing.runChange (h : r.Unfailing) (change : Change) (s : σ) :
    ((r.runChange change).outcome s).1 = (r.plan change).map fun _ => () := by
  rw [outcome_runChange]
  cases r.plan change with
  | error e => rfl
  | ok bs => exact h bs s

theorem Unfailing.runChanges (h : r.Unfailing) (changes : List Change) (s : σ) :
    ((r.runChanges changes).outcome s).1 = (changes.mapM r.plan).map fun _ => () := by
  induction changes generalizing s with
  | nil => rfl
  | cons change changes ih =>
      have hfirst := h.runChange change s
      rw [Runner.runChanges, Action.outcome_bind, List.mapM_cons]
      rcases hrun : (r.runChange change).outcome s with ⟨result, s'⟩
      rw [hrun] at hfirst
      obtain rfl : result = _ := hfirst
      cases r.plan change with
      | error e => rfl
      | ok bs =>
          refine (ih s').trans ?_
          cases changes.mapM r.plan <;> rfl

/-- A runner whose statements all succeed does what the forecast says. -/
theorem Unfailing.fulfil (h : r.Unfailing) (request : Request) (s : σ) :
    ((r.fulfil request).outcome s).1 = r.forecast request := by
  cases request with
  | change change =>
      have hresult := h.runChange change s
      rw [Runner.fulfil, Action.outcome_bind, forecast]
      rcases hrun : (r.runChange change).outcome s with ⟨result, s'⟩
      rw [hrun] at hresult
      obtain rfl : result = _ := hresult
      cases r.plan change <;> rfl
  | changes changes =>
      have hresult := h.runChanges changes s
      rw [Runner.fulfil, Action.outcome_bind, forecast]
      rcases hrun : (r.runChanges changes).outcome s with ⟨result, s'⟩
      rw [hrun] at hresult
      obtain rfl : result = _ := hresult
      cases changes.mapM r.plan <;> rfl
  | script script =>
      have hresult := h (r.splitter.split script) s
      rw [Runner.fulfil, Action.outcome_bind, runScript, Action.outcome_bind, forecast]
      rcases hrun : (r.runBatches (r.splitter.split script)).outcome s with ⟨result, s'⟩
      rw [hrun] at hresult
      obtain rfl : result = _ := hresult
      rfl

/-- A connection that never fails makes the forecast come true. -/
theorem unfailing_live (r : Runner σ) {execute : String → Action τ Unit}
    (h : NeverFails execute) : (r.live execute).Unfailing := fun bs t => by
  rw [runBatches_eq_sendAll (r.live execute) rfl]
  exact Action.outcome_sendAll_of_neverFails h _ t

end Forecast

section DryRun

variable {r : Runner σ}

theorem runBatches_dryRun (hdry : r.dryRun = true) (bs : List Script.Batch) :
    r.runBatches bs = pure () := by
  induction bs with
  | nil => rfl
  | cons b bs ih => rw [runBatches, runBatch, if_pos hdry, ih, pure_bind]

theorem unfailing_dryRun (hdry : r.dryRun = true) : r.Unfailing := fun bs s => by
  rw [runBatches_dryRun hdry]
  rfl

theorem idle_runBatches (hdry : r.dryRun = true) (bs : List Script.Batch) :
    (r.runBatches bs).Idle := by
  rw [runBatches_dryRun hdry]
  exact Action.idle_pure ()

theorem idle_runChange (hdry : r.dryRun = true) (change : Change) :
    (r.runChange change).Idle :=
  (Action.idle_lift (r.plan change)).bind (idle_runBatches hdry)

theorem idle_runChanges (hdry : r.dryRun = true) (changes : List Change) :
    (r.runChanges changes).Idle := by
  induction changes with
  | nil => exact Action.idle_pure ()
  | cons change changes ih => exact (idle_runChange hdry change).bind fun _ => ih

/-- No call of a dry run touches the connection. -/
theorem idle_answer (hdry : r.dryRun = true) (call : Call σ) : (r.answer call).Idle := by
  cases call with
  | perform operation =>
      rw [answer, perform, if_pos hdry]
      exact (Action.idle_pure ()).bind fun _ => Action.idle_pure none
  | request request =>
      cases request with
      | change change => exact (idle_runChange hdry change).bind fun _ => Action.idle_pure none
      | changes changes => exact (idle_runChanges hdry changes).bind fun _ => Action.idle_pure none
      | script script =>
          have hscript : (r.runScript script).Idle :=
            (idle_runBatches hdry _).bind fun _ => Action.idle_pure _
          exact hscript.bind fun count => Action.idle_pure (some count)

theorem foretells_answer (hdry : r.dryRun = true) (call : Call σ) (s : σ) :
    r.Foretells call ((r.answer call).outcome s).1 := by
  cases call with
  | perform operation =>
      rw [answer, perform, if_pos hdry]
      rfl
  | request request =>
      intro τ execute hexecute t
      have hlive : ((r.live execute).forecast request) = r.forecast request := by
        cases request <;> rfl
      rw [(unfailing_live r hexecute).fulfil request t, hlive]
      exact ((unfailing_dryRun hdry).fulfil request s).symm

theorem exists_answers_dryRun (hdry : r.dryRun = true) (calls : List (Call σ)) (s : σ) :
    ∃ results, r.answers calls s = (results, s) ∧ List.Forall₂ r.Foretells calls results := by
  induction calls with
  | nil => exact ⟨[], rfl, .nil⟩
  | cons call calls ih =>
      obtain ⟨results, hanswers, hforetold⟩ := ih
      have hidle := idle_answer hdry call s
      have hcall := foretells_answer hdry call s
      rcases hrun : (r.answer call).outcome s with ⟨result, s'⟩
      rw [hrun] at hidle hcall
      obtain rfl : s' = s := hidle
      refine ⟨result :: results, ?_, .cons hcall hforetold⟩
      rw [answers, hrun]
      dsimp only
      rw [hanswers]

end DryRun

/-- A dry run leaves the connection as it is, whatever it is asked for. Every request is answered
as outside a dry run on any connection that never fails, with the same errors and counts, and
every operation of the caller succeeds without being run. Nothing is sent: a connection that
writes down its statements, and on which the caller may do so too, still has the same list. -/
theorem answers_dryRun (r : Runner σ) (hdry : r.dryRun = true) :
    (∀ calls s, ∃ results, r.answers calls s = (results, s) ∧
      List.Forall₂ r.Foretells calls results) ∧
    ∀ calls s sent, (r.recorded.answers calls (s, sent)).2 = (s, sent) := by
  refine ⟨exists_answers_dryRun hdry, fun calls s sent => ?_⟩
  obtain ⟨results, hanswers, -⟩ := exists_answers_dryRun (r := r.recorded) hdry calls (s, sent)
  rw [hanswers]

/-- On a connection where every statement fails, a dry run still counts the statements of a
script, refuses a change that has none, and passes over an operation that would fail. -/
theorem answers_dryRun_lostConnection :
    let lost := Error.execution "lost"
    let r : Runner Nat := {
      profile := Profile.of .sqlite .strict {}
      execute := fun _ => fun failures => (.error lost, failures + 1)
      dryRun := true }
    let calls : List (Call Nat) := [.request (.script "a\nGO 2\nb"), .perform (r.execute "c"),
      .request (.changes [.deleteView { name := "v" }, .deleteSequence { name := "s" }])]
    let results : List (Except Error (Option Nat)) :=
      [.ok (some 3), .ok none, .error (.unsupported .sqlite (.sequence "s"))]
    r.dryRun = true ∧
      (r.answers calls 0 = (results, 0) ∧ List.Forall₂ r.Foretells calls results) ∧
      (r.recorded.answers [.request (.script "a")] (0, [])).2 = (0, []) := by
  intro lost r calls results
  obtain ⟨hanswers, hnothing⟩ := answers_dryRun r rfl
  obtain ⟨found, hfound, hforetold⟩ := hanswers calls 0
  have hresults : (r.answers calls 0).1 = results := by decide +kernel
  obtain rfl : found = results := by rwa [hfound] at hresults
  exact ⟨rfl, ⟨hfound, hforetold⟩, hnothing _ 0 []⟩

end Runner

end SchemaChange
