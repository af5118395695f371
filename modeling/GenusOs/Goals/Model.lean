import GenusOs.Python.Str
import Mathlib

/-!
# Goals and their lifecycle

The contract of a goal and the commands that `transition` applies to it. Instants are counted in
microseconds, and amounts of money are exact where the program has floating point numbers.
-/

namespace GenusOs.Goals

abbrev GoalId := Nat

abbrev AttemptId := Nat

/-- What is called of the standard library: how a text names a UUID and how a UUID is written, and
the little else that is not arithmetic. A UUID has several spellings and is written in one. -/
structure Env where
  isoformat : Nat → String
  /-- `f"{amount:.2f}"` -/
  fixed2 : ℚ → String
  /-- The goal that a text names, where it is a UUID in any of its spellings. -/
  uuid : String → Option GoalId
  /-- `str(id)` -/
  idText : GoalId → String
  uuid_idText : ∀ id, uuid (idText id) = some id

inductive Status
  | queued
  | running
  | waiting
  | blocked
  | paused
  | review
  | complete
  | canceled
  deriving DecidableEq, Repr

namespace Status

/-- `TERMINAL`: nothing leads out of these. -/
def terminal : Status → Bool
  | complete | canceled => true
  | _ => false

/-- `{"paused", "review", "blocked"}` -/
def held : Status → Bool
  | paused | blocked | review => true
  | _ => false

/-- `INACTIVE`: the engine leaves goals with these statuses alone. -/
def inactive (status : Status) : Bool := status.terminal || status.held

def text : Status → String
  | queued => "queued"
  | running => "running"
  | waiting => "waiting"
  | blocked => "blocked"
  | paused => "paused"
  | review => "review"
  | complete => "complete"
  | canceled => "canceled"

end Status

inductive Kind
  | short
  | long
  deriving DecidableEq, Repr

inductive Mode
  | finite
  | ongoing
  deriving DecidableEq, Repr

inductive Verdict
  | meeting
  | missing
  | insufficient
  deriving DecidableEq, Repr

/-- What `verify` has found of a reference. -/
structure Verification where
  method : String
  independent : Bool
  criterionVerified : Bool := false
  observedAt : Option Nat := none
  deriving DecidableEq, Repr

/-- An entry of the evidence for a criterion, as the agent reports it and with what was found of
it. -/
structure Evidence where
  criterion : Nat
  summary : String
  reference : String
  satisfied : Bool
  recordedAt : Nat
  verification : Option Verification := none
  deriving DecidableEq, Repr

/-- What a goal waits for: a time, and an event or a task if one is named. -/
structure Wait where
  registeredAt : Option Nat := none
  reason : String
  eventType : Option String := none
  eventMatch : List (String × String) := []
  taskId : Option String := none
  wakeAt : Option Nat := none
  deriving DecidableEq, Repr

/-- What an ongoing goal says of its target. -/
structure Assessment where
  status : Verdict
  note : String
  at_ : Nat
  approvedByOperator : Bool := false
  deriving DecidableEq, Repr

/-- `request_key`, the one of a child being the digest of what it is to do. -/
inductive RequestKey
  | given (key : String)
  | child (parentGoalId : String) (objective : String) (successCriteria : List String)
    (assessedAt : Option Nat)
  deriving DecidableEq, Repr

/-- A row of `pursuit_goals`. -/
structure Goal where
  id : GoalId
  parentGoalId : Option String := none
  requestKey : Option RequestKey := none
  objective : String
  successCriteria : List String
  kind : Kind := .short
  mode : Mode := .finite
  status : Status := .queued
  version : Nat := 1
  priority : Nat := 0
  tokenBudget : Option Nat := none
  costBudgetUsd : Option ℚ := none
  maxAttempts : Option Nat := none
  deadlineAt : Option Nat := none
  reviewSeconds : Nat := 86400
  humanReview : Bool := false
  independentEvidenceRequired : Bool := false
  createdAt : Nat
  readyAt : Nat
  checkpoint : String := ""
  evidence : List Evidence := []
  wait : Option Wait := none
  blocker : String := ""
  blockerCount : Nat := 0
  failures : Nat := 0
  tokensUsed : Int := 0
  costUsd : ℚ := 0
  attempts : Nat := 0
  assessment : Option Assessment := none
  recoveryRequired : Bool := false
  progressRevision : Nat := 0
  attemptProgress : Nat := 0
  noProgressRuns : Nat := 0
  criteriaRevisedAt : Option Nat := none
  lastBlockAttempt : Option AttemptId := none
  pausedByParent : Option String := none
  beforeParentPause : Option Status := none
  leaseId : Option AttemptId := none
  leaseUntil : Option Nat := none
  deriving DecidableEq, Repr

def defaultTokenBudget : Nat := 1000000

def defaultCostBudgetUsd : ℚ := 5

def defaultMaxAttempts : Nat := 50

def defaultDeadlineSeconds : Nat := 30 * 86400

def future (now seconds : Nat) : Nat := now + seconds * 1000000

/-- `value or default` -/
def orDefault {α : Type} [DecidableEq α] [Zero α] (value : Option α) (default : α) : α :=
  match value with
  | some v => if v = 0 then default else v
  | none => default

/-! ## Ceilings -/

namespace Goal

variable (env : Env) (g : Goal)

/-- `deadline_of`: a goal without a deadline has thirty days from its creation. -/
def deadlineOf : Nat := g.deadlineAt.getD (future g.createdAt defaultDeadlineSeconds)

/-- `token_budget_of` -/
def tokenBudgetOf : Nat := orDefault g.tokenBudget defaultTokenBudget

/-- `cost_budget_of` -/
def costBudgetOf : ℚ := orDefault g.costBudgetUsd defaultCostBudgetUsd

/-- The first ceiling that is reached, in the order of the source, or `""`. It is asked before each
dispatch. -/
def exceeded (now : Nat) : String :=
  let tokens := g.tokenBudgetOf
  let cost := g.costBudgetOf
  let attempts := orDefault g.maxAttempts defaultMaxAttempts
  if (tokens : Int) ≤ g.tokensUsed then
    "token budget exhausted (" ++ toString g.tokensUsed ++ "/" ++ toString tokens ++ ")"
  else if cost ≤ g.costUsd then
    "cost ceiling reached ($" ++ env.fixed2 g.costUsd ++ "/$" ++ env.fixed2 cost ++ ")"
  else if attempts ≤ g.attempts then
    "attempt ceiling reached (" ++ toString g.attempts ++ "/" ++ toString attempts ++ " runs)"
  else if g.deadlineOf ≤ now then
    "deadline reached (" ++ env.isoformat g.deadlineOf ++ ")"
  else ""

/-! ## Evidence -/

/-- The last entry for a criterion. -/
def latest (criterion : Nat) : Option Evidence :=
  (g.evidence.filter (·.criterion = criterion)).getLast?

/-- The criterion has an entry, and the last one is satisfied. -/
def satisfies (criterion : Nat) : Bool := (g.latest criterion).any (·.satisfied)

/-- The last entry for the criterion was verified independently. -/
def verifies (criterion : Nat) : Bool :=
  ((g.latest criterion).bind (·.verification)).any fun check =>
    check.independent && check.criterionVerified

/-- `completion_missing`: the criteria without an entry, or whose last entry is not satisfied. -/
def completionMissing : List String :=
  (g.successCriteria.zipIdx.filter fun c => !g.satisfies c.2).map (·.1)

/-- `requires_review`: whether an operator has to look at the evidence before the goal is
complete. -/
def requiresReview : Bool :=
  g.humanReview || (g.independentEvidenceRequired &&
    (List.range g.successCriteria.length).any fun criterion => !g.verifies criterion)

end Goal

/-! ## The contract -/

/-- What a goal is created from. -/
structure CreateGoal where
  objective : String
  successCriteria : List String
  kind : Kind := .short
  mode : Mode := .finite
  parentGoalId : Option String := none
  requestKey : Option String := none
  tokenBudget : Option Nat := none
  costBudgetUsd : Option ℚ := none
  maxAttempts : Option Nat := none
  deadlineSeconds : Option Nat := none
  reviewSeconds : Nat := 86400
  humanReview : Bool := false
  priority : Nat := 0
  deriving DecidableEq, Repr

namespace CreateGoal

/-- The bounds of the fields. -/
def inBounds (spec : CreateGoal) : Bool :=
  (1 ≤ spec.objective.toList.length ∧ spec.objective.toList.length ≤ 12000) ∧
  (1 ≤ spec.successCriteria.length ∧ spec.successCriteria.length ≤ 50) ∧
  spec.requestKey.all (·.toList.length ≤ 200) ∧
  spec.tokenBudget.all (0 < ·) ∧ spec.costBudgetUsd.all (0 < ·) ∧ spec.maxAttempts.all (0 < ·) ∧
  spec.deadlineSeconds.all (60 ≤ ·) ∧ 60 ≤ spec.reviewSeconds ∧ spec.priority ≤ 10

/-- `validate_contract`, after the bounds. -/
def validate (spec : CreateGoal) : Except String CreateGoal :=
  let stripped := { spec with
    objective := Python.strip spec.objective
    successCriteria := spec.successCriteria.map Python.strip }
  if !spec.inBounds then .error "validation error for CreateGoal"
  else if stripped.objective = "" ∨ stripped.successCriteria.any (· = "") then
    .error "objective and criteria must not be blank"
  else if spec.mode = .ongoing ∧ spec.kind ≠ .long then .error "ongoing goals must be long-term"
  else .ok stripped

/-- `new_goal` -/
def newGoal (spec : CreateGoal) (now : Nat) (id : GoalId) (key : Option RequestKey) : Goal where
  id := id
  parentGoalId := spec.parentGoalId
  requestKey := key
  objective := spec.objective
  successCriteria := spec.successCriteria
  kind := spec.kind
  mode := spec.mode
  priority := spec.priority
  tokenBudget := some (orDefault spec.tokenBudget defaultTokenBudget)
  costBudgetUsd := some (orDefault spec.costBudgetUsd defaultCostBudgetUsd)
  maxAttempts := some (orDefault spec.maxAttempts defaultMaxAttempts)
  deadlineAt := some (future now (orDefault spec.deadlineSeconds defaultDeadlineSeconds))
  reviewSeconds := spec.reviewSeconds
  humanReview := spec.humanReview
  independentEvidenceRequired := true
  createdAt := now
  readyAt := now

end CreateGoal

/-! ## Commands -/

/-- The commands that `transition` knows. -/
inductive Action
  | progress
  | evidence
  | wait
  | block
  | complete
  | assess
  | pause
  | resume
  | cancel
  | approve
  | steer
  | linkTask
  | unlinkTask
  | reconciled
  | revise
  deriving DecidableEq, Repr

namespace Action

/-- What a paused, blocked or reviewed goal still takes. -/
def takenWhileHeld : Action → Bool
  | resume | cancel | approve | steer | pause | revise | unlinkTask => true
  | _ => false

/-- Some commands are not for agents. -/
def needsOperator : Action → Bool
  | resume | approve | steer | revise => true
  | _ => false

/-- Some commands have to say why. -/
def needsNote : Action → Bool
  | progress | block | complete | assess | steer | reconciled => true
  | _ => false

end Action

/-- A command: an action with the note, the evidence, the wait or whatever else it takes, and the
version that the caller has seen. -/
structure GoalUpdate where
  action : Action
  version : Nat
  note : String := ""
  nextAction : String := ""
  objective : Option String := none
  successCriteria : Option (List String) := none
  criterion : Option Nat := none
  reference : String := ""
  satisfied : Option Bool := none
  wakeAt : Option Nat := none
  eventType : Option String := none
  eventMatch : List (String × String) := []
  taskId : Option String := none
  assessment : Option Verdict := none
  tokenBudget : Option Nat := none
  costBudgetUsd : Option ℚ := none
  maxAttempts : Option Nat := none
  deadlineSeconds : Option Nat := none
  deriving DecidableEq, Repr

namespace Goal

variable (env : Env) (now : Nat) (g : Goal) (change : GoalUpdate)

/-- A checkpoint: it counts as progress if it says something new. -/
def progress : Goal :=
  let g := if change.note ≠ g.checkpoint then
      { g with blockerCount := 0, progressRevision := g.progressRevision + 1 }
    else g
  { g with checkpoint := change.note }

/-- Evidence for a criterion, which counts as progress whatever it says. -/
def recordEvidence : Except String Goal :=
  match change.criterion with
  | none => .error "criterion must identify an existing success criterion"
  | some criterion =>
    if g.successCriteria.length ≤ criterion then
      .error "criterion must identify an existing success criterion"
    else match change.satisfied with
      | none => .error "evidence requires a reference, assessment, and explanation"
      | some satisfied =>
        if Python.strip change.note = "" ∨ Python.strip change.reference = "" then
          .error "evidence requires a reference, assessment, and explanation"
        else if satisfied ∧ Python.isIn "pytest:failed:" change.reference then
          .error "a failed test cannot establish satisfaction"
        else .ok { g with
          progressRevision := g.progressRevision + 1
          evidence := g.evidence ++
            [{ criterion, summary := change.note, reference := change.reference, satisfied,
               recordedAt := now }] }

/-- The goal waits for a time, or for an event before it. -/
def startWait : Except String Goal :=
  if Python.strip change.note = "" then .error "waiting requires a reason"
  else if change.wakeAt.any (· ≤ now) then .error "wake_at must be in the future"
  else
    let wakeAt := change.wakeAt.getD (future now g.reviewSeconds)
    .ok { g with
      kind := if g.kind = .short ∧ g.parentGoalId = none then .long else g.kind
      status := .waiting
      readyAt := wakeAt
      wait := some
        { registeredAt := some now
          reason := change.note
          eventType := change.eventType
          eventMatch := change.eventMatch
          taskId := change.taskId
          wakeAt := some wakeAt } }

/-- The agent cannot go on. -/
def block : Goal :=
  let count := if g.blocker = change.note then g.blockerCount + 1 else 1
  { g with
    blockerCount := count
    blocker := change.note
    status := if 3 ≤ count then .blocked else g.status }

/-- The goal is complete, or goes to its review, if no criterion is missing. -/
def complete : Except String Goal :=
  if g.mode = .ongoing then .error "ongoing goals are assessed, not completed"
  else if g.recoveryRequired then
    .error "reconcile the interrupted execution before completing"
  else if g.completionMissing ≠ [] then
    .error ("unsatisfied criteria: " ++ "; ".intercalate g.completionMissing)
  else .ok { g with status := if g.requiresReview then .review else .complete }

/-- The operator has reviewed the evidence. -/
def approve : Except String Goal :=
  if g.status ≠ .review ∨ g.completionMissing ≠ [] then .error "goal is not ready for approval"
  else if g.mode = .ongoing then
    match g.assessment with
    | none => .error "'NoneType' object does not support item assignment"
    | some assessment => .ok { g with
        status := .waiting
        readyAt := future now g.reviewSeconds
        evidence := []
        assessment := some { assessment with approvedByOperator := true } }
  else .ok { g with status := .complete }

def assess : Except String Goal :=
  match change.assessment with
  | none => .error "ongoing assessments require meeting, missing, or insufficient"
  | some verdict =>
    if g.mode ≠ .ongoing then
      .error "ongoing assessments require meeting, missing, or insufficient"
    else if verdict = .meeting ∧ g.completionMissing ≠ [] then
      .error "meeting target requires evidence for every criterion"
    else
      let assessed := { g with
        assessment := some { status := verdict, note := change.note, at_ := now }
        status := .waiting
        readyAt := future now g.reviewSeconds
        wait := some { reason := "Next assessment" } }
      if verdict = .meeting ∧ g.requiresReview then .ok { assessed with status := .review }
      else .ok { assessed with evidence := [] }

/-- The goal is queued again and its counters begin anew. It has to have room below its ceilings,
unless the command raises them. -/
def resume : Except String Goal :=
  let raised := { g with
    tokenBudget := change.tokenBudget.or g.tokenBudget
    costBudgetUsd := change.costBudgetUsd.or g.costBudgetUsd
    maxAttempts := change.maxAttempts.or g.maxAttempts
    deadlineAt := (change.deadlineSeconds.map (future now)).or g.deadlineAt }
  let reached := raised.exceeded env now
  if reached ≠ "" then .error ("increase the ceiling that stopped this goal: " ++ reached)
  else .ok { raised with
    status := .queued
    readyAt := now
    blocker := ""
    blockerCount := 0
    failures := 0
    noProgressRuns := 0 }

/-- The criteria change, and with them what the evidence is for. -/
def revise : Except String Goal :=
  if Python.strip change.note = "" then .error "revising criteria requires a reason"
  else do
    let spec ← CreateGoal.validate
      { objective := (change.objective.filter (· ≠ "")).getD g.objective
        successCriteria := (change.successCriteria.filter (· ≠ [])).getD g.successCriteria }
    return { g with
      objective := spec.objective
      successCriteria := spec.successCriteria
      evidence := []
      criteriaRevisedAt := some now
      status := if g.status = .review then .paused else g.status }

/-- The branches of `transition`. -/
def apply : Except String Goal :=
  match change.action with
  | .progress => .ok (g.progress change)
  | .evidence => g.recordEvidence now change
  | .wait => g.startWait now change
  | .block => .ok (g.block change)
  | .complete => g.complete
  | .approve => g.approve now
  | .assess => g.assess now change
  | .pause => .ok { g with status := .paused }
  | .cancel => .ok { g with status := .canceled }
  | .resume => g.resume env now change
  | .steer => .ok { g with checkpoint := change.note }
  | .revise => g.revise now change
  | .reconciled => .ok { g with recoveryRequired := false, checkpoint := change.note }
  | .linkTask | .unlinkTask => .ok g

/-- The end of `transition`: a new version, and the markers of a pause that are left over. -/
def bump : Goal :=
  let g :=
    if change.action = .pause ∨ change.action = .cancel ∨ change.action = .resume then
      { g with pausedByParent := none, beforeParentPause := none }
    else g
  { g with version := g.version + 1 }

/-- A command on a goal: who may give it, whether the goal takes it as it is, and the branch of the
action. The version that the caller has seen has to be that of the goal. -/
def transition (operator : Bool) : Except String Goal :=
  if change.version ≠ g.version then .error "stale goal version; reload before updating"
  else if g.status.terminal then .error "goal is already closed"
  else if g.status.held ∧ ¬ change.action.takenWhileHeld then
    .error "goal is inactive; resume it before recording work"
  else if change.action.needsOperator ∧ ¬ operator then
    .error "this action requires the operator"
  else if change.action.needsNote ∧ Python.strip change.note = "" then
    .error "a concrete note is required"
  else (g.apply env now change).map (·.bump change)

end Goal

end GenusOs.Goals
