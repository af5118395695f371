import GenusOs.Autonomy.Store

/-!
# Owner handoffs and the leased recovery of their checks

A handoff asks the owner to finish a submitted operation on a device. Acknowledging it can only
request reconciliation: neither a handoff nor a check of its outcome makes an operation fit to be
submitted again.
-/

namespace GenusOs.Autonomy

open GenusOs.Python Transaction

/-! ## Expiry -/

/-- `UPDATE autonomy_handoffs SET f WHERE p`. -/
def updateHandoffs (p : Handoff → Bool) (f : Handoff → Handoff) : Tx Unit :=
  modify fun db => { db with handoffs := Rows.updateWhere p f db.handoffs }

def findHandoff (db : DB) (scope : Scope) (handoffId : Uuid) : Option Handoff :=
  db.handoffs.find? fun h => h.id = handoffId && h.scope = scope

/-- `release_expired_handoff`. -/
def releaseExpiredHandoff (env : Platform) (amb : Ambient) (scope : Scope)
    (handoffId operationId : Uuid) : Tx Bool := do
  let db ← get
  let mine (h : Handoff) : Bool := h.scope = scope && h.id = handoffId && h.state.pending
  if db.handoffs.any mine then do
    updateHandoffs mine fun h =>
      { h with state := .expired, checkToken := none, checkLeaseUntil := none }
    event scope (.operation operationId) "external_action_expired"
    let db ← get
    if db.handoffs.any fun h => h.scope = scope && h.operationId = operationId && h.state.pending
    then pure true
    else do
      let op ← findOperation scope operationId
      onlyIf (op.state = .reconciling) <|
        finishOperation env amb scope operationId .awaitingInput none
          (some "external_verification_expired")
      pure true
  else pure false

/-! ## `HandoffStore` -/

/-- `observed_submission_pages`. -/
def observedSubmissionPages (op : Operation) : List String :=
  landedUrls (op.executionPlan.getD [])

/-- The public name of a handoff's state at a moment. -/
inductive PublicState | resolved | expired | unconfirmed | awaitingExternalAction | checking
  deriving DecidableEq, Repr

def MAX_CHECK_ATTEMPTS : Nat := 3

/-- `_public_state`. -/
def publicState (h : Handoff) (now : Instant) : PublicState :=
  if h.state = .resolved then .resolved
  else if h.expiresAt ≤ now.seconds then .expired
  else if h.state = .awaitingExternalAction ∧ MAX_CHECK_ATTEMPTS ≤ h.checkAttempts then
    .unconfirmed
  else
    match h.state with
    | .awaitingExternalAction => .awaitingExternalAction
    | .checking => .checking
    | .resolved => .resolved
    | .expired => .expired

/-- Selectors that match any page. -/
def BROAD_SELECTORS : List String := ["body", "html", "*", ":root"]

/-- `HandoffStore.create`. -/
def createHandoff (env : Platform) (amb : Ambient) (scope : Scope) (operationId : Uuid)
    (agentId : String) (spec : HandoffRequest) : Tx (Uuid × PublicState) := do
  let fingerprint := env.handoffDigest operationId agentId spec
  let op ← findOperation scope operationId
  require (op.agentId = agentId) (.permissionError "agent_not_allowed")
  checkSettings scope op.proposal
  let policy ← livePolicy amb scope op
  require (env.lower (strip (spec.confirmation.selector.getD "")) ∉ BROAD_SELECTORS)
    (.permissionError "use_automatic_or_specific_confirmation")
  require (op.proposal.action.spends = true → spec.confirmation.selector.isSome)
    (.permissionError "specific_confirmation_required_for_payment")
  require (op.state = .submitting ∨ op.state = .reconciling)
    (.permissionError "operation_not_pending")
  let origin ← fromExcept (env.urlOrigin spec.confirmation.url)
  require (origin = op.proposal.origin) (.permissionError "destination_mismatch")
  require ((observedSubmissionPages op).any (env.samePage spec.confirmation.url))
    (.permissionError "confirmation_page_not_observed")
  let decision ← budgetDecision env amb scope policy op.proposal agentId (some operationId)
  require (decision = "allow") (.permissionError decision)
  let db ← get
  match db.handoffs.find? fun h => h.scope = scope && h.spec.requestId = spec.requestId with
  | some prior => do
    require (prior.fingerprint = fingerprint) (.permissionError "handoff_request_changed")
    pure (prior.id, publicState prior (amb.utc 3))
  | none => do
    updateHandoffs
      (fun h => h.scope = scope && h.operationId = operationId && h.state.pending &&
        h.expiresAt ≤ amb.now.seconds)
      (fun h => { h with state := .expired })
    let db ← get
    require (db.handoffs.any (fun h => h.operationId = operationId && h.state.pending) = false)
      (.permissionError "handoff_already_pending")
    let row : Handoff :=
      { id := amb.uuid 1, scope, operationId, agentId, fingerprint,
        state := .awaitingExternalAction, spec,
        expiresAt := amb.now.seconds + spec.lifetimeSeconds }
    unused (fun db => db.handoffs.map (·.id)) row.id
    modify fun db => { db with handoffs := db.handoffs ++ [row] }
    -- through the transition table: reserved cannot become reconciling
    onlyIf (op.state ≠ .reconciling) <|
      finishOperation env amb scope operationId .reconciling none none
    event scope (.operation operationId) "external_action_requested"
    pure (row.id, publicState row (amb.utc 3))

/-- `HandoffStore.release_expired`. -/
def releaseExpired (env : Platform) (amb : Ambient) (scope : Scope) (handoffId : Uuid) :
    Tx Unit := do
  let db ← get
  match (findHandoff db scope handoffId).filter fun h =>
      h.expiresAt ≤ amb.now.seconds && h.state.pending with
  | some row => do
    let _ ← releaseExpiredHandoff env amb scope row.id row.operationId
    pure ()
  | none => pure ()

/-- The second transaction of `HandoffStore.acknowledge`, after `releaseExpired`. -/
def acknowledge (amb : Ambient) (scope : Scope) (handoffId : Uuid) :
    Tx (Uuid × String × Confirmation) := do
  let db ← get
  let row ← getOrRaise (findHandoff db scope handoffId) (.permissionError "handoff_not_found")
  require ((amb.utc 3).seconds < row.expiresAt) (.permissionError "handoff_expired")
  let op ← findOperation scope row.operationId
  require (row.state.pending = true ∧ op.state = .reconciling)
    (.permissionError "handoff_not_pending")
  checkSettings scope op.proposal
  let _ ← livePolicy amb scope op
  updateHandoffs (fun h => h.id = handoffId) fun h =>
    { h with
      checkAttempts := if h.state = .checking then h.checkAttempts else 0
      checkLeaseUntil := if h.state = .checking then h.checkLeaseUntil else none
      state := .checking }
  event scope (.operation row.operationId) "external_status_check_requested"
  pure (row.operationId, row.agentId, row.spec.confirmation)

/-! ## `HandoffChecks` -/

/-- `HandoffChecks.release_expired`. -/
def releaseAllExpired (env : Platform) (amb : Ambient) (scope : Scope) : Tx (List Bool) := do
  let db ← get
  let rows := db.handoffs.filter fun h =>
    h.scope = scope && h.expiresAt ≤ amb.now.seconds && h.state.pending
  rows.mapM fun row => releaseExpiredHandoff env amb scope row.id row.operationId

/-- The lease is free: `check_lease_until IS NULL OR check_lease_until<=now()`. -/
def Handoff.unleased (h : Handoff) (now : Instant) : Bool :=
  h.checkLeaseUntil.all (· ≤ now.seconds)

/-- `_still_authorized`: what it reads of the state, without changing it. -/
def stillAuthorized (amb : Ambient) (scope : Scope) (operationId : Uuid) (db : DB) : Bool :=
  let checks : Tx Unit := do
    let op ← findOperation scope operationId
    checkSettings scope op.proposal
    let _ ← livePolicy amb scope op
    pure ()
  match checks db with
  | .ok _ => true
  | .error _ => false

/-- The `UPDATE` of `claim` for a check that may start. -/
def startCheck (amb : Ambient) (scope : Scope) (handoffId : Uuid) :
    Tx (Option (Uuid × String × Uuid)) := do
  let db ← get
  let ready (h : Handoff) : Bool :=
    h.scope = scope && h.id = handoffId && h.state = .checking &&
      amb.now.seconds < h.expiresAt && h.checkAttempts < MAX_CHECK_ATTEMPTS &&
      h.unleased amb.now &&
      db.operations.any fun o =>
        o.id = h.operationId && o.scope = h.scope && o.state = .reconciling
  match db.handoffs.find? ready with
  | none => pure none
  | some row => do
    let token := amb.uuid 0
    updateHandoffs ready fun h =>
      { h with
        checkToken := some token
        checkLeaseUntil := some (amb.now.seconds + 240)
        checkAttempts := h.checkAttempts + 1 }
    event scope (.operation row.operationId) "external_status_check_started"
    pure (some (row.operationId, row.agentId, token))

/-- `HandoffChecks.claim`. -/
def claim (env : Platform) (amb : Ambient) (scope : Scope) (handoffId : Uuid) :
    Tx (Option (Uuid × String × Uuid)) := do
  let db ← get
  match findHandoff db scope handoffId with
  | none => startCheck amb scope handoffId
  | some record =>
    if record.state.pending ∧ record.expiresAt ≤ amb.now.seconds then do
      let _ ← releaseExpiredHandoff env amb scope record.id record.operationId
      pure none
    else do
      -- exhaustion returns to the owner without permitting a new submission
      onlyIf (record.state = .checking ∧ MAX_CHECK_ATTEMPTS ≤ record.checkAttempts) <|
        updateHandoffs (fun h => h.id = handoffId && h.state = .checking && h.unleased amb.now)
          fun h =>
            { h with state := .awaitingExternalAction, checkToken := none, checkLeaseUntil := none }
      let db ← get
      if stillAuthorized amb scope record.operationId db then startCheck amb scope handoffId
      else do
        let _ ← releaseExpiredHandoff env amb scope record.id record.operationId
        pure none

/-- `HandoffChecks.confirmation`, a read that takes no lock. -/
def confirmation (amb : Ambient) (scope : Scope) (handoffId token : Uuid) : Tx Confirmation := do
  let db ← get
  let row ← getOrRaise
    (db.handoffs.find? fun h => h.scope = scope && h.id = handoffId && h.checkToken = some token &&
      h.state = .checking && h.checkLeaseUntil.any (amb.now.seconds < ·) &&
      amb.now.seconds < h.expiresAt)
    (.permissionError "handoff_not_claimed")
  pure row.spec.confirmation

/-- `HandoffChecks.finish`. -/
def finishCheck (amb : Ambient) (scope : Scope) (handoffId token : Uuid) (retry : Bool) :
    Tx Unit := do
  let db ← get
  let mine (h : Handoff) : Bool :=
    h.scope = scope && h.id = handoffId && h.state = .checking && h.checkToken = some token
  match db.handoffs.find? mine with
  | none => pure ()
  | some row => do
    updateHandoffs mine fun h =>
      { h with
        state :=
          if h.expiresAt ≤ amb.now.seconds then .expired
          else if retry ∧ h.checkAttempts < MAX_CHECK_ATTEMPTS then .checking
          else .awaitingExternalAction
        checkToken := none
        checkLeaseUntil := if retry then some (amb.now.seconds + 20) else none }
    event scope (.operation row.operationId)
      (if retry then "external_status_check_retry" else "external_status_check_finished")

end GenusOs.Autonomy
