import GenusOs.Autonomy.Store
import GenusOs.Library.RowLock

/-!
# Durable workflow ownership, revisions and duplicate-command results

`begin`, `finish` and `close` start with a `SELECT … FOR UPDATE` of their workflow's row and are
written statement by statement, as scripts; `openWorkflow` and `checkpoint` hold the owner's
advisory lock.
-/

namespace GenusOs.Autonomy.Workflows

open GenusOs.Python GenusOs.RowLock Transaction

abbrev Script (α : Type) := RowLock.Script DB Raised α

/-- `fingerprint`: a verification code is not part of it. -/
def fingerprint (env : Platform) (value : Dict) : String :=
  env.requestDigest (value.without ["verification_code"])

/-- The statement of `_get`. -/
def findWorkflow (db : DB) (scope : Scope) (agentId : String) (workflowId : Uuid) :
    Option Workflow :=
  db.workflows.find? fun w => w.id = workflowId && (w.scope = scope && w.agentId = agentId)

/-- `_get`, which keeps the row locked for the script that follows. -/
def lockWorkflow {α : Type} (scope : Scope) (agentId : String) (workflowId : Uuid)
    (script : Workflow → Script α) : Script α :=
  .read fun db =>
    match findWorkflow db scope agentId workflowId with
    | none => .done (raise (.permissionError "workflow_not_found"))
    | some row => script row

/-! ## `open` -/

/-- `check_authority`, which changes nothing. -/
def checkAuthority (env : Platform) (amb : Ambient) (scope : Scope) (operationId : Uuid)
    (agentId : String) : Tx Unit := do
  let row ← findOperation scope operationId
  require (row.agentId = agentId ∧ (row.state = .reserved ∨ row.state = .submitting))
    (.permissionError "operation_not_executable")
  checkSettings scope row.proposal
  let policy ← livePolicy amb scope row
  assertNoPaymentHold scope row.grantId row.proposal
  let result ← budgetDecision env amb scope policy row.proposal agentId (some operationId)
  require (result = "allow") (.permissionError result)

/-- The transaction of `open`, which follows `checkAuthority`. -/
def openWorkflow (env : Platform) (amb : Ambient) (scope : Scope) (agentId : String)
    (operationId instanceId : Uuid) (request : Dict) : Tx Workflow := do
  let digest := fingerprint env request
  let op ← findOperation scope operationId
  require (op.agentId = agentId ∧ op.state = .reserved)
    (.permissionError "operation_not_executable")
  match op.workflowId with
  | some workflowId => do
    let db ← get
    let row ← getOrRaise (findWorkflow db scope agentId workflowId)
      (.permissionError "workflow_not_found")
    require (row.fingerprint = digest) (.permissionError "workflow_open_changed")
    pure row
  | none => do
    let row : Workflow :=
      { id := amb.uuid 0, scope, agentId, operationId, instanceId, origin := op.proposal.origin,
        fingerprint := digest }
    let db ← get
    require (row.id ∉ db.workflows.map (·.id) ∧ operationId ∉ db.workflows.map (·.operationId))
      .uniqueViolation
    modify fun db => { db with workflows := db.workflows ++ [row] }
    updateOperation operationId fun o => { o with workflowId := some row.id }
    event scope (.workflow row.id) "workflow_opened"
    pure row

/-! ## `begin` -/

def findCommand (db : DB) (workflowId commandId : Uuid) : Option Command :=
  db.commands.find? fun c => c.workflowId = workflowId && c.commandId = commandId

def commandRunning (db : DB) (workflowId : Uuid) : Bool :=
  db.commands.any fun c => c.workflowId = workflowId && c.state = .running

/-- `{"state": "reconciling", "reason": "command_in_progress"}`. -/
def inProgress : Dict := [("state", .str "reconciling"), ("reason", .str "command_in_progress")]

/-- The answer to a command that was begun before. -/
def answerPrior (digest : String) (prior : Command) : Except Raised Dict :=
  if prior.fingerprint ≠ digest then .error (.permissionError "command_changed")
  else if prior.state = .completed then .ok (prior.result.getD [])
  else .ok inProgress

/-- Why a new command may not start on this workflow. -/
def refuseBegin (row : Workflow) (instanceId : Uuid) (request : Dict) : Option Raised :=
  if row.instanceId ≠ instanceId then some (.permissionError "workflow_lost")
  else if row.state ≠ .open then some (.permissionError "workflow_not_open")
  else if (request.get "revision" .null).eqInt row.revision = false then
    some (.permissionError "workflow_revision_changed")
  else none

/-- `begin`: `none` where the command starts now. -/
def begin (env : Platform) (scope : Scope) (agentId : String) (workflowId instanceId : Uuid)
    (commandId : Uuid) (request : Dict) : Script (Option Dict) :=
  let safe := request.without ["verification_code"]
  let digest := fingerprint env safe
  lockWorkflow scope agentId workflowId fun row => .read fun db =>
    match findCommand db workflowId commandId with
    | some prior => .done (fromExcept ((answerPrior digest prior).map some))
    | none =>
      match refuseBegin row instanceId request with
      | some e => .done (raise e)
      | none => .read fun db =>
        if commandRunning db workflowId then
          .done (raise (.permissionError "command_in_progress"))
        else
          .done do
            let command : Command :=
              { workflowId, commandId, scope, fingerprint := digest, request := safe,
                state := .running }
            modify fun db => { db with commands := db.commands ++ [command] }
            pure none

/-! ## `finish` -/

/-- `workflow_id=… AND command_id=… AND state='running'`. -/
def Command.isRunning (workflowId commandId : Uuid) (c : Command) : Bool :=
  c.workflowId = workflowId && c.commandId = commandId && c.state = .running

/-- `finish`, from its first statement after `_get`. -/
def finishRow (scope : Scope) (workflowId commandId : Uuid) (result : Dict) (advance : Bool) :
    Tx Unit := do
  let db ← get
  let mine := Command.isRunning workflowId commandId
  modify fun db =>
    { db with
      commands := Rows.updateWhere mine
        (fun c => { c with state := .completed, result := some result }) db.commands }
  require (Rows.rowcount mine db.commands = 1) (.permissionError "command_not_running")
  modify fun db =>
    { db with
      workflows := Rows.updateWhere (fun w => w.id = workflowId)
        (fun w => { w with revision := w.revision + if advance then 1 else 0 }) db.workflows }
  event scope (.workflow workflowId) "workflow_command_completed"

def finish (scope : Scope) (agentId : String) (workflowId commandId : Uuid) (result : Dict)
    (advance : Bool) : Script Unit :=
  lockWorkflow scope agentId workflowId fun _ => .read fun _ =>
    .done (finishRow scope workflowId commandId result advance)

/-! ## `checkpoint` and `close` -/

def checkpoint (amb : Ambient) (scope : Scope) (agentId : String) (workflowId : Uuid)
    (rejected : Bool) : Tx Unit := do
  let db ← get
  let row ← getOrRaise (findWorkflow db scope agentId workflowId)
    (.permissionError "workflow_not_found")
  let op ← findOperation scope row.operationId
  let proposal := op.proposal
  require (row.state = .open ∧ op.state = .submitting ∧ proposal.action.spends = false ∧
      proposal.amountMinor = 0 ∧ proposal.recurringMinor = 0 ∧ proposal.annualCommitmentMinor = 0)
    (.permissionError "intermediate_step_not_allowed")
  updateOperation row.operationId fun o =>
    { o with state := .reserved, executionPlan := none, updatedAt := amb.now }
  event scope (.operation row.operationId)
    (if rejected then "workflow_form_rejected" else "workflow_step_confirmed")

/-- The states `close` accepts. -/
inductive Closing | completed | closed | lost
  deriving DecidableEq, Repr

def Closing.state : Closing → WorkflowState
  | .completed => .completed
  | .closed => .closed
  | .lost => .lost

def Closing.name : Closing → String
  | .completed => "completed"
  | .closed => "closed"
  | .lost => "lost"

/-- Losing the browser is not evidence of an external effect. -/
def afterLoss : OperationState → Option OperationState
  | .reserved => some .failed
  | .submitting => some .reconciling
  | .awaitingInput => some .reconciling
  | _ => none

/-- `close`, from its first statement after `_get`. -/
def closeRow (env : Platform) (amb : Ambient) (scope : Scope) (row : Workflow)
    (closing : Closing) : Tx Unit := do
  if row.state ≠ .open then pure ()
  else do
    onlyIf (closing = .completed) do
      let op ← findOperation scope row.operationId
      require (op.state = .completed) (.permissionError "operation_not_completed")
    modify fun db =>
      { db with
        workflows := Rows.updateWhere (fun w => w.id = row.id)
          (fun w => { w with state := closing.state }) db.workflows }
    onlyIf (closing = .lost) do
      let op ← findOperation scope row.operationId
      match afterLoss op.state with
      | some after => finishOperation env amb scope row.operationId after none none
      | none => pure ()
    event scope (.workflow row.id) ("workflow_" ++ closing.name)

def close (env : Platform) (amb : Ambient) (scope : Scope) (agentId : String) (workflowId : Uuid)
    (closing : Closing) : Script Unit :=
  lockWorkflow scope agentId workflowId fun row => .read fun _ =>
    .done (closeRow env amb scope row closing)

end GenusOs.Autonomy.Workflows
