import GenusOs.Autonomy.PaymentJournal

/-!
# The transactional journal of delegated operations

Reserve before execution, mark submitting before the first external commitment, then reconcile
uncertain outcomes. Each method here is one transaction under the owner's advisory lock.
-/

namespace GenusOs.Autonomy

open GenusOs.Python GenusOs.Entity Transaction

/-! ## Grants and settings -/

def createGrant (amb : Ambient) (scope : Scope) (policy : Delegation) : Tx Uuid := do
  let grantId := amb.uuid 0
  unused (fun db => db.grants.map (·.id)) grantId
  modify fun db => { db with grants := db.grants ++ [{ id := grantId, scope, policy }] }
  event scope (.grant grantId) "grant_created"
  pure grantId

/-- `SELECT … FROM autonomy_grants WHERE id=… AND tenant_id=… AND owner_id=…`. -/
def findGrant (db : DB) (scope : Scope) (grantId : Uuid) : Option Grant :=
  db.grants.find? fun g => g.id = grantId && g.scope = scope

def revokeGrant (scope : Scope) (grantId : Uuid) : Tx Unit := do
  let db ← get
  require ((findGrant db scope grantId).isSome) (.permissionError "grant_not_found")
  modify fun db =>
    { db with
      grants := Rows.updateWhere (fun g => g.id = grantId && g.scope = scope)
        (fun g => { g with revoked := true, version := g.version + 1 }) db.grants }
  event scope (.grant grantId) "grant_revoked"

def clearPaymentHold (scope : Scope) (grantId : Uuid) : Tx Unit := do
  let db ← get
  require ((findGrant db scope grantId).isSome) (.permissionError "grant_not_found")
  onlyIf (grantOnHold db scope grantId = true) (event scope (.grant grantId) HOLD_CLEARED)

def readSettings (db : DB) (scope : Scope) : RuntimeSettings :=
  ((db.settings.find? (·.scope = scope)).map (·.settings)).getD {}

def configure (amb : Ambient) (scope : Scope) (settings : RuntimeSettings) : Tx Unit := do
  modify fun db =>
    { db with
      settings :=
        if db.settings.any (·.scope = scope) then
          Rows.updateWhere (fun s => s.scope = scope) (fun s => { s with settings }) db.settings
        else db.settings ++ [{ scope, settings }] }
  event scope (.settings (amb.uuid 0)) "settings_changed"

/-! ## Gates -/

/-- `_policy`. -/
def livingPolicy (scope : Scope) (grantId : Uuid) : Tx (Delegation × Nat) := do
  let db ← get
  let grant ← getOrRaise ((findGrant db scope grantId).filter fun g => !g.revoked)
    (.permissionError "grant_revoked")
  pure (grant.policy, grant.version)

/-- `_live_policy`: existence, version, revocation and expiry. -/
def livePolicy (amb : Ambient) (scope : Scope) (row : Operation) : Tx Delegation := do
  let (policy, version) ← livingPolicy scope row.grantId
  require (version = row.grantVersion) (.permissionError "grant_changed")
  require (policy.enabled = true) (.permissionError "grant_disabled")
  require ((amb.utc 0).seconds < policy.expiresAt) (.permissionError "grant_expired")
  pure policy

/-- `_check_settings`. -/
def checkSettings (scope : Scope) (proposal : WebOperation) : Tx Unit := do
  let settings := readSettings (← get) scope
  require (settings.enabled = true) (.permissionError "autonomous_execution_not_enabled")
  require (proposal.action.spends = true → settings.paymentProcessing = true)
    (.permissionError "payment_processing_not_enabled")

/-- `_assert_no_payment_hold`. -/
def assertNoPaymentHold (scope : Scope) (grantId : Uuid) (proposal : WebOperation) : Tx Unit := do
  let db ← get
  require (proposal.action.spends = true → grantOnHold db scope grantId = false)
    (.permissionError REFUSAL)

/-- The rows `_budget_decision` counts against a proposal in `currency`. -/
def DB.budgetRows (db : DB) (scope : Scope) (currency : String) (exclude : Option Uuid) :
    List BudgetRow :=
  (db.operations.filter fun o =>
    o.scope = scope && o.proposal.currency = currency && exclude.all (o.id ≠ ·) &&
      o.state.counted).map fun o =>
    { state := o.state, updatedAt := o.updatedAt, proposal := o.proposal }

/-- `_budget_decision`. -/
def budgetDecision (env : Platform) (amb : Ambient) (scope : Scope) (policy : Delegation)
    (proposal : WebOperation) (agentId : String) (exclude : Option Uuid) : Tx String := do
  let db ← get
  let now := amb.utc 1
  let today := now.date.toOrdinal
  let start := if exclude.isNone then proposal.recurrence.map (·.nextChargeOn.toOrdinal) else none
  if proposal.action.spends = false then
    pure (policy.decision env.casefold proposal agentId 0 (amb.utc 2))
  else if proposal.recurringMinor ≠ 0 ∧ proposal.recurrence = none then
    pure "renewal_schedule_missing"
  else do
    -- adding the 366 days is evaluated only where the first comparison holds
    require (start.all fun s => s < today || today + 366 ≤ Date.maxOrdinal) .overflowError
    if start.any fun s => !(today ≤ s && s ≤ today + 366) then
      pure "renewal_date_out_of_range"
    else
      match monthlyProjection (db.budgetRows scope proposal.currency exclude) now.date,
          monthlyProjection [proposalRecord proposal now] now.date with
      | .ok before, .ok added =>
        let month := monthIndex now.date
        let used : Int := (before month : Int) + added month - proposal.amountMinor
        let decision := policy.decision env.casefold proposal agentId used (amb.utc 2)
        if decision ≠ "allow" then pure decision
        else if proposal.recurringMinor ≠ 0 ∧ (List.range' month 25).any (fun k =>
            !withinLimit (before k) (added k) policy.monthlyMinor) then
          pure "monthly_commitment_limit"
        else pure "allow"
      | _, _ => pure "renewal_schedule_missing"

/-! ## Reserve and submit -/

def reserve (env : Platform) (amb : Ambient) (scope : Scope) (grantId : Uuid) (agentId : String)
    (proposal : WebOperation) : Tx (Uuid × OperationState) := do
  let fingerprint := env.reserveDigest grantId agentId proposal
  let db ← get
  match db.operations.find? fun o =>
      o.scope = scope && o.proposal.idempotencyKey = proposal.idempotencyKey with
  | some existing => do
    require (existing.fingerprint = fingerprint) (.permissionError "idempotency_conflict")
    pure (existing.id, existing.state)
  | none => do
    let (policy, version) ← livingPolicy scope grantId
    assertNoPaymentHold scope grantId proposal
    let decision ← budgetDecision env amb scope policy proposal agentId none
    require (decision = "allow") (.permissionError decision)
    let operationId := amb.uuid 0
    unused (fun db => db.operations.map (·.id)) operationId
    let row : Operation :=
      { id := operationId, scope, grantId, grantVersion := version, agentId, fingerprint, proposal,
        state := .reserved, updatedAt := amb.now }
    modify fun db => { db with operations := db.operations ++ [row] }
    event scope (.operation operationId) "reserved"
    pure (operationId, .reserved)

def beginSubmit (env : Platform) (amb : Ambient) (scope : Scope) (operationId : Uuid)
    (agentId : String) (workflowId : Option Uuid) : Tx Unit := do
  let row ← findOperation scope operationId
  require (row.workflowId = workflowId) (.permissionError "workflow_required")
  require (row.state = .reserved) (.permissionError "reconciliation_required")
  require (row.agentId = agentId) (.permissionError "agent_not_allowed")
  checkSettings scope row.proposal
  let policy ← livePolicy amb scope row
  assertNoPaymentHold scope row.grantId row.proposal
  let decision ← budgetDecision env amb scope policy row.proposal agentId (some operationId)
  require (decision = "allow") (.permissionError decision)
  updateOperation operationId fun o => { o with state := .submitting, updatedAt := amb.now }
  event scope (.operation operationId) "submitting"

/-! ## Plans and codes -/

/-- `OBSERVATION_KEYS`: what the broker writes into `execution_plan` beside the agent's plan. -/
def OBSERVATION_KEYS : List String := ["landed_urls"]

def declaredPlan (executionPlan : Option Dict) : Option Dict :=
  executionPlan.map fun plan => plan.without OBSERVATION_KEYS

def bindPlan (scope : Scope) (operationId : Uuid) (agentId : String) (plan : Dict) : Tx Unit := do
  let row ← findOperation scope operationId
  require (row.agentId = agentId ∧ row.state = .reserved)
    (.permissionError "operation_not_executable")
  require ((declaredPlan row.executionPlan).all (Dict.eq · plan))
    (.permissionError "execution_plan_changed")
  let observations := (row.executionPlan.getD []).filter fun e => OBSERVATION_KEYS.contains e.1
  let merged := observations.foldl (fun d e => d.set e.1 e.2) plan
  updateOperation operationId fun o => { o with executionPlan := some merged }

def MAX_LANDED_PAGES : Nat := 10

/-- The strings of `plan.get("landed_urls", [])`. -/
def landedUrls (plan : Dict) : List String :=
  match plan.get "landed_urls" (.arr []) with
  | .arr items => items.filterMap fun item =>
    match item with
    | .str s => some s
    | _ => none
  | _ => []

/-- `known` after one landing. -/
def landOn (env : Platform) (destination : String) (known : List String) (url : String) :
    List String :=
  if 2000 < url.length ∨ url ∈ known then known
  else
    match env.urlOrigin url with
    | .error _ => known
    | .ok origin => if origin ≠ destination then known else known ++ [url]

def recordLandedPages (env : Platform) (scope : Scope) (operationId : Uuid)
    (urls : List String) : Tx Unit := do
  let row ← findOperation scope operationId
  let plan := row.executionPlan.getD []
  let known := urls.foldl (landOn env row.proposal.origin) (landedUrls plan)
  -- keep the commitment page and the most recent landings
  let known :=
    if MAX_LANDED_PAGES < known.length then
      known.take 1 ++ known.drop (known.length + 1 - MAX_LANDED_PAGES)
    else known
  let plan := plan.set "landed_urls" (.arr (known.map .str))
  updateOperation operationId fun o => { o with executionPlan := some plan }

def waitForCode (amb : Ambient) (scope : Scope) (operationId : Uuid) : Tx Unit := do
  let row ← findOperation scope operationId
  require (row.state = .reserved ∧ row.executionPlan.any (!·.isEmpty))
    (.permissionError "operation_not_prepared")
  updateOperation operationId fun o =>
    { o with
      state := .awaitingInput, inputReason := some "code_before_submit", updatedAt := amb.now }
  event scope (.operation operationId) "code_required_before_submit"

def resumeWithCode (amb : Ambient) (scope : Scope) (operationId : Uuid) : Tx Unit := do
  let row ← findOperation scope operationId
  require (row.state = .awaitingInput ∧ row.inputReason = some "code_before_submit")
    (.permissionError "operation_not_waiting_for_code")
  let _ ← livingPolicy scope row.grantId
  updateOperation operationId fun o =>
    { o with state := .reserved, inputReason := none, updatedAt := amb.now }
  event scope (.operation operationId) "code_resume_requested"

/-! ## Outcomes -/

/-- `TRANSITIONS`: the only legal moves. -/
def transitions : OperationState → List OperationState
  | .reserved => [.cancelled, .failed, .awaitingInput]
  | .submitting => [.reconciling, .completed, .awaitingInput]
  | .reconciling => [.completed, .failed, .awaitingInput]
  | .awaitingInput => [.reconciling, .cancelled, .failed]
  | _ => []

def EVIDENCE_KEYS : List String :=
  ["origin", "confirmation_sha256", "verified_at", "kind", "confirmation_rule"]

def CONFIRMATION_RULES : List String :=
  ["account_created", "application_received", "order_confirmed", "membership_active",
    "login_confirmed"]

/-- What `_finish` checks of its evidence. -/
def checkEvidence (state : OperationState) (evidence : Dict) : Option Raised :=
  if state = .completed ∧ evidence.isEmpty then some (.valueError "completion_requires_evidence")
  else if evidence.any fun e => !EVIDENCE_KEYS.contains e.1 then
    some (.valueError "unsafe_evidence")
  else
    match evidence.lookup "confirmation_rule" with
    | none => none
    | some (.str rule) =>
      if CONFIRMATION_RULES.contains rule then none
      else some (.valueError "unsafe_confirmation_rule")
    | some rule =>
      if rule.hashable then some (.valueError "unsafe_confirmation_rule") else some .typeError

/-- `_finish`. -/
def finishOperation (env : Platform) (amb : Ambient) (scope : Scope) (operationId : Uuid)
    (state : OperationState) (evidence : Option Dict) (inputReason : Option String) :
    Tx Unit := do
  match checkEvidence state (evidence.getD []) with
  | some e => raise e
  | none => do
    let row ← findOperation scope operationId
    require (state ∈ transitions row.state) (.valueError "invalid_transition")
    updateOperation operationId fun o =>
      { o with state, evidence, updatedAt := amb.now, inputReason := inputReason <|> o.inputReason }
    onlyIf (state = .completed) do
      recordSubmission env amb scope row
      modify fun db =>
        { db with
          handoffs := Rows.updateWhere
            (fun h => h.scope = scope && h.operationId = operationId && h.state ≠ .resolved)
            (fun h => { h with state := .resolved }) db.handoffs }
    event scope (.operation operationId) state.name

def finish (env : Platform) (amb : Ambient) (scope : Scope) (operationId : Uuid)
    (state : OperationState) (evidence : Option Dict) : Tx Unit :=
  finishOperation env amb scope operationId state evidence none

def abandon (env : Platform) (amb : Ambient) (scope : Scope) (operationId : Uuid)
    (reason : String) : Tx Unit := do
  let row ← findOperation scope operationId
  require (row.state = .reconciling ∨ row.state = .awaitingInput)
    (.valueError "invalid_transition")
  finishOperation env amb scope operationId .failed none none
  event scope (.operation operationId) reason

def recordOperationEvent (scope : Scope) (operationId : Uuid) (text : String) : Tx Unit := do
  let _ ← findOperation scope operationId
  event scope (.operation operationId) text

end GenusOs.Autonomy
