import GenusOs.Engine.Workflow.Models
import GenusOs.Engine.Workflow.Approvals
import GenusOs.Library.Stutter
import Mathlib

/-!
# The execution of a workflow

`_execute_steps` visits one step after the other and leaves the run when a gate waits for its
answer; `resume_run` rebuilds the run from its stored rows and goes on at that gate. What the steps
themselves do, and what the gates are answered, is a `World` that the run meets; the statements on
`workflow_run_steps` are taken to succeed. The branches of a parallel step touch the rows of their
own ids only, so that the model lets one run after the other.
-/

namespace GenusOs.Engine.Workflow

open GenusOs.Stutter

/-! ## Results and rows -/

/-- What `(result.tool_output or {}).get("approval_rejected")` makes of the output: nothing, a
rejection, or an exception (the output, or what it has there, is no mapping). -/
inductive ToolOutput | plain | rejecting | malformed
  deriving DecidableEq, Repr

/-- `WorkflowStepResult`, as far as the flow of control reads it. -/
structure StepResult where
  stepId : String
  status : StepStatus := .running
  conditionBranch : Option String := none
  toolOutput : ToolOutput := .plain
  deriving DecidableEq, Repr

/-- A row of `workflow_run_steps`. -/
structure StepRow where
  stepId : String
  status : StepStatus
  deriving DecidableEq, Repr

/-- A run in memory, with its stored rows. -/
structure WorkflowRun where
  stepResults : List StepResult := []
  /-- `context["_dispatched_steps"]` -/
  dispatchedSteps : List String := []
  rows : List StepRow := []
  deriving DecidableEq, Repr

namespace WorkflowRun

/-- `_close_running_steps`: an empty id stands for every step. -/
def closeRunningSteps (run : WorkflowRun) (status : StepStatus) (stepId : String) : WorkflowRun :=
  { run with
    rows := run.rows.map fun r =>
      if r.status = .running ∧ (stepId = "" ∨ r.stepId = stepId) then { r with status } else r }

/-- `_persist_step_start` -/
def persistStepStart (run : WorkflowRun) (stepId : String) (redispatch : Bool) : WorkflowRun :=
  let run := if redispatch then run.closeRunningSteps .failed stepId else run
  { run with rows := run.rows ++ [⟨stepId, .running⟩] }

/-- `_persist_step`: the running row is updated, or there is none and one is inserted. -/
def persistStep (run : WorkflowRun) (result : StepResult) : WorkflowRun :=
  { run with
    rows :=
      if run.rows.any fun r => r.stepId = result.stepId ∧ r.status = .running then
        run.rows.map fun r =>
          if r.stepId = result.stepId ∧ r.status = .running then { r with status := result.status }
          else r
      else run.rows ++ [⟨result.stepId, result.status⟩] }

/-- `run.context["_dispatched_steps"]` once the step is dispatched. -/
def dispatch (run : WorkflowRun) (stepId : String) : WorkflowRun :=
  if stepId ∈ run.dispatchedSteps then run
  else { run with dispatchedSteps := run.dispatchedSteps ++ [stepId] }

/-- The results that `_load_suspended_run` reads back. -/
def loadSuspendedRun (run : WorkflowRun) : WorkflowRun :=
  { run with stepResults := run.rows.map fun r => { stepId := r.stepId, status := r.status } }

end WorkflowRun

/-! ## What a run meets -/

/-- How a `_run_…_step` ends. -/
inductive Ran
  | returned (status : StepStatus) (conditionBranch : Option String) (toolOutput : ToolOutput)
  | raised
  /-- `WorkflowDeadlineError` -/
  | deadline
  /-- The timeout of the workflow cuts the step off. -/
  | interrupted
  deriving DecidableEq, Repr

def Ran.ordinary : Ran → Bool
  | .returned status _ _ => status = .completed ∨ status = .failed ∨ status = .skipped
  | _ => true

/-- What an agent, a tool, a condition or a transform may come to. -/
abbrev Outcome := { ran : Ran // ran.ordinary = true }

theorem Ran.raised_ordinary : Ran.raised.ordinary = true := rfl

/-- What asking at a gate comes to once the decision is there. -/
inductive Answer
  | raised
  | interrupted
  | decided (decision : ApprovalDecision)
  deriving DecidableEq, Repr

/-- What the steps of a run come to, by the visit and the attempt. -/
structure World where
  run : Nat → Nat → Outcome
  /-- The visit, the attempt at the parallel step, the branch and the attempt at it. -/
  branch : Nat → Nat → Nat → Nat → Outcome
  answer : Nat → Nat → Answer
  /-- How often the gate of the visit is found undecided. -/
  waits : Nat → Nat
  /-- How many attempts to ask fail before the gate is found undecided that time. -/
  failedAsks : Nat → Nat → Nat
  /-- Without a suspension, the time of the run comes to `timeout_seconds` or more. -/
  exhausted : Bool

/-- The same outcomes and decisions, with every decision there when the run comes to its gate. -/
def World.decidedBefore (w : World) : World := { w with waits := fun _ => 0 }

/-- The attempts that fail before the gate is found undecided: its retries let no more pass. -/
def World.asksFailed (w : World) (visit sitting : Nat) (step : WorkflowStepDef) : Nat :=
  min (w.failedAsks visit sitting) step.retryCount

/-! ## One step -/

/-- `_execute_single_step`, without a result where the timeout cuts it off. -/
def executeSingleStep (stepId : String) (ran : Ran) (run : WorkflowRun) :
    WorkflowRun × Option StepResult :=
  let redispatch : Bool := stepId ∈ run.dispatchedSteps
  let run := (run.dispatch stepId).persistStepStart stepId redispatch
  match ran with
  | .returned status conditionBranch toolOutput =>
    (run, some { stepId, status, conditionBranch, toolOutput })
  | .raised => (run, some { stepId, status := .failed })
  | .deadline => (run, some { stepId, status := .timeout })
  | .interrupted => (run, none)

/-- What `_run_approval_step` does with a decision. -/
def actOnDecision (step : WorkflowStepDef) (decision : ApprovalDecision) : Ran :=
  let rejected :=
    if step.onReject ≠ "" then Ran.returned .completed (some step.onReject) .plain
    else .returned .skipped none .rejecting
  match decision with
  | .approved => .returned .completed none .plain
  | .rejected => rejected
  | .expired =>
    if step.onTimeout = "approve" then .returned .completed none .plain
    else if step.onTimeout = "reject" then rejected
    else .returned .failed none .plain

/-- `_run_approval_step` -/
def runApprovalStep (w : World) (visit sitting : Nat) (step : WorkflowStepDef) (attempt : Nat) :
    Ran :=
  if sitting < w.waits visit then
    if attempt < w.asksFailed visit sitting step then .raised else .returned .waiting none .plain
  else
    match w.answer visit attempt with
    | .raised => .raised
    | .interrupted => .interrupted
    | .decided decision => actOnDecision step decision

/-- The loop that retries what failed, from an attempt on. -/
def retried (once : Nat → WorkflowRun → WorkflowRun × Option StepResult) :
    Nat → Nat → WorkflowRun → WorkflowRun × Option StepResult
  | 0, attempt, run => once attempt run
  | more + 1, attempt, run =>
    match once attempt run with
    | (run, some result) =>
      if result.status = .failed then retried once more (attempt + 1) run else (run, some result)
    | (run, none) => (run, none)

/-- The failure that `on_failure: skip` absorbs. -/
def StepResult.absorbed (result : StepResult) : StepResult :=
  if result.status = .failed then { result with status := .skipped } else result

/-- `run_branch` -/
def runBranch (w : World) (visit round i : Nat) (branch : BranchDef) (run : WorkflowRun) :
    WorkflowRun × Option StepResult :=
  let ran attempt :=
    if branch.type = .noop then Ran.returned .completed none .plain
    else (w.branch visit round i attempt).val
  let (run, result) := retried (fun attempt => executeSingleStep branch.id (ran attempt))
    branch.retryCount 0 run
  (run, if branch.onFailure = "skip" then result.map (·.absorbed) else result)

/-- The branches from the `i`-th on, without results where the timeout cuts one off. -/
def runBranches (w : World) (visit round : Nat) :
    Nat → List BranchDef → WorkflowRun → WorkflowRun × Option (List StepResult)
  | _, [], run => (run, some [])
  | i, branch :: branches, run =>
    match runBranch w visit round i branch run with
    | (run, none) => (run, none)
    | (run, some result) =>
      match runBranches w visit round (i + 1) branches run with
      | (run, none) => (run, none)
      | (run, some results) => (run, some (result :: results))

/-- `_execute_parallel`: the rows are stored first, and what `skip` absorbs is recast in memory. -/
def executeParallel (w : World) (visit : Nat) (step : WorkflowStepDef) (round : Nat)
    (run : WorkflowRun) : WorkflowRun × Option StepResult :=
  match runBranches w visit round 0 step.parallelSteps run with
  | (run, none) => (run, none)
  | (run, some results) =>
    let run := results.foldl WorkflowRun.persistStep run
    let kept := if step.onFailure = "skip" then results.map (·.absorbed) else results
    ({ run with stepResults := run.stepResults ++ kept },
      some
        { stepId := step.id
          status := if results.any (·.status = .failed) then .failed else .completed })

/-- `_execute_step` -/
def executeStep (w : World) (visit sitting : Nat) (step : WorkflowStepDef) (attempt : Nat) :
    WorkflowRun → WorkflowRun × Option StepResult :=
  match step.type with
  | .parallel => executeParallel w visit step attempt
  | .approval => executeSingleStep step.id (runApprovalStep w visit sitting step attempt)
  | .noop => executeSingleStep step.id (.returned .completed none .plain)
  | .agent | .tool | .condition | .transform =>
    executeSingleStep step.id (w.run visit attempt).val

/-! ## The loop over the steps -/

/-- Where a run is: about to visit a step for the `sitting`-th time in this visit. -/
structure Execution where
  currentIdx : Nat := 0
  visit : Nat := 0
  sitting : Nat := 0
  /-- The run is `resume_run`'s and no longer `execute`'s. -/
  resumed : Bool := false
  run : WorkflowRun := {}
  deriving DecidableEq, Repr

/-- The `run.status` with which `_execute_steps` returns, or raises. -/
structure Exit where
  status : RunStatus
  last : Execution
  deriving DecidableEq, Repr

/-- The index of the next step. -/
def nextIdx (wf : WorkflowDef) (step : WorkflowStepDef) (result : StepResult) (idx : Nat) : Nat :=
  match result.conditionBranch.bind fun id => if id ≠ "" then wf.stepIndex id else none with
  | some target => target
  | none =>
    match if step.next ≠ "" then wf.stepIndex step.next else none with
    | some target => target
    | none => idx + 1

/-- `resume_run`, at the step under which the run was suspended. -/
def resumeRun (wf : WorkflowDef) (resumeStep : String) (e : Execution) : Turn Execution Exit :=
  if resumeStep = "" then .stop ⟨.awaitingApproval, e⟩ -- "context carries no resume point"
  else
    match wf.stepIndex resumeStep with
    | none => .stop ⟨.failed, { e with resumed := true }⟩ -- the `ValueError`
    | some idx =>
      .next
        { currentIdx := idx
          visit := e.visit
          sitting := e.sitting + 1
          resumed := true
          run := e.run.loadSuspendedRun }

/-- What follows on a step's result, which is stored already. -/
def afterStep (wf : WorkflowDef) (step : WorkflowStepDef) (result : StepResult) (e : Execution) :
    Turn Execution Exit :=
  let kept (result : StepResult) : WorkflowRun :=
    { e.run with stepResults := e.run.stepResults ++ [result] }
  let leave (status : RunStatus) : Turn Execution Exit :=
    .stop ⟨status, { e with run := kept result }⟩
  if result.status = .waiting then resumeRun wf step.id { e with run := kept result }
  else
    match result.toolOutput with
    | .rejecting => leave .cancelled
    | .malformed => leave .failed
    | .plain =>
      if result.status = .timeout then leave .timeout
      else if result.status = .failed ∧ step.onFailure = "abort" then leave .failed
      else
        .next
          { e with
            currentIdx := nextIdx wf step result e.currentIdx
            visit := e.visit + 1
            sitting := 0
            run := kept (if step.onFailure = "skip" then result.absorbed else result) }

/-- One turn of `_execute_steps`; a suspended run is resumed in the same turn. -/
def turn (wf : WorkflowDef) (w : World) (e : Execution) : Turn Execution Exit :=
  match wf.steps[e.currentIdx]? with
  | none => .stop ⟨.running, e⟩
  | some step =>
    match retried (executeStep w e.visit e.sitting step) step.retryCount 0 e.run with
    | (run, none) => .stop ⟨.timeout, { e with run }⟩
    | (run, some result) => afterStep wf step result { e with run := run.persistStep result }

/-! ## The status in the end -/

/-- A result in memory is a failure. -/
def WorkflowRun.failedResult (run : WorkflowRun) : Bool :=
  run.stepResults.any (·.status = .failed)

/-- A row of the run is stored as failed. -/
def WorkflowRun.failedRow (run : WorkflowRun) : Bool :=
  run.rows.any (·.status = .failed)

/-- "Set final status if not already failed/timed out" -/
def Exit.settled (x : Exit) : RunStatus :=
  if x.status = .running then if x.last.run.failedResult then .failed else .completed
  else x.status

/-- `_finalize_status` after `execute`; `resume_run` only settles. -/
def finalStatus (w : World) (x : Exit) : RunStatus :=
  if x.last.resumed then x.settled
  else if x.settled = .failed ∧ w.exhausted = true then .timeout
  else x.settled

/-- The run ends with that status. -/
def EndsWith (wf : WorkflowDef) (w : World) (status : RunStatus) : Prop :=
  ∃ x, Ends (turn wf w) {} x ∧ x.status ≠ .awaitingApproval ∧ finalStatus w x = status

end GenusOs.Engine.Workflow
