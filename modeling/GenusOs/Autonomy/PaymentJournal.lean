import GenusOs.Autonomy.Records

/-!
# The payment journal and the hold on a grant

Payment facts are appended and never changed. A fact that shows an overspend puts the operation's
grant on hold in the transaction that records it; the hold is the latest of the two hold events of
the grant.
-/

namespace GenusOs.Autonomy

open GenusOs.Python Transaction

/-! ## `payment_hold` -/

def HOLD_PLACED : String := "grant_payment_hold_placed"

def HOLD_CLEARED : String := "grant_payment_hold_cleared"

def REFUSAL : String := "grant_payment_hold"

/-- The event is one of the hold on this grant. -/
def Event.isHold (scope : Scope) (grantId : Uuid) (e : Event) : Bool :=
  e.scope = scope && e.subject = .grant grantId &&
    (e.event = HOLD_PLACED || e.event = HOLD_CLEARED)

def grantOnHold (db : DB) (scope : Scope) (grantId : Uuid) : Bool :=
  (db.events.filter (Event.isHold scope grantId)).getLast?.any (·.event = HOLD_PLACED)

/-- `place_hold`: only the first placement is recorded, with its reasons. -/
def DB.placeHold (db : DB) (scope : Scope) (grantId operationId : Uuid) (reasons : List String) :
    DB :=
  if grantOnHold db scope grantId then db
  else
    reasons.foldl
      (fun db reason => db.record scope (.operation operationId) ("payment_overspend:" ++ reason))
      (db.record scope (.grant grantId) HOLD_PLACED)

/-! ## `payment_journal` -/

/-- The rows of an operation in the order of their versions. -/
def DB.evidence (db : DB) (scope : Scope) (operationId : Uuid) : List PaymentEvent :=
  (db.paymentEvents.filter fun e => e.scope = scope && e.operationId = operationId).insertionSort
    fun e e' => e.version ≤ e'.version

/-- `_facts`. -/
def readFacts (scope : Scope) (operationId : Uuid) : Tx (List PaymentFact) := do
  let db ← get
  let rows := db.evidence scope operationId
  require (rows.map (·.version) = List.range' 1 rows.length)
    (.permissionError "payment_journal_incomplete")
  pure (rows.map (·.fact))

/-- `_flag_overspend`, without its alert. -/
def DB.flagOverspend (db : DB) (scope : Scope) (op : Operation) (facts : List PaymentFact) : DB :=
  let reasons := overspendReasons (summarizePayments op.proposal facts)
  if reasons = [] then db else db.placeHold scope op.grantId op.id reasons

/-- The new row violates a constraint of `autonomy_payment_events`. -/
def PaymentEvent.conflicts (row e : PaymentEvent) : Bool :=
  e.id = row.id ||
    (e.operationId = row.operationId &&
      (e.version = row.version || e.eventKeyDigest = row.eventKeyDigest))

/-- `_append`. -/
def appendFact (env : Platform) (amb : Ambient) (scope : Scope) (op : Operation)
    (fact : PaymentFact) : Tx Unit := do
  require (op.proposal.action.spends = true) (.permissionError "payment_operation_required")
  require (fact.source = .merchant → fact.kind = .submitted ∧ fact.amountMinor = 0)
    (.permissionError "issuer_evidence_required")
  let facts ← readFacts scope op.id
  match facts.find? (·.eventKey = fact.eventKey) with
  | some previous =>
    require (previous = fact) (.valueError "payment_event_conflict")
    modify fun db => db.flagOverspend scope op facts
  | none =>
    let row : PaymentEvent :=
      { id := amb.uuid 0, scope, operationId := op.id, version := facts.length + 1,
        eventKeyDigest := env.digest fact.eventKey, fact }
    let db ← get
    require (db.paymentEvents.any row.conflicts = false) .uniqueViolation
    modify fun db => { db with paymentEvents := db.paymentEvents ++ [row] }
    event scope (.operation op.id) "payment_evidence_recorded"
    modify fun db => db.flagOverspend scope op (facts ++ [fact])

/-- The transaction of `append`; where it raises, `recordRefusal` follows. -/
def append (env : Platform) (amb : Ambient) (scope : Scope) (operationId : Uuid)
    (fact : PaymentFact) : Tx Unit := do
  let op ← findOperation scope operationId
  let db ← get
  require (db.events.any fun e => e.scope = scope && e.subject = .operation operationId &&
      (e.event = "submitting" || e.event = "external_action_requested"))
    (.permissionError "payment_submission_not_started")
  require (fact.source = .merchant → op.state = .completed)
    (.permissionError "submission_confirmation_required")
  appendFact env amb scope op fact

/-- `_record_refusal`. -/
def recordRefusal (scope : Scope) (operationId : Uuid) (reason : String) : Tx Unit := do
  let _ ← findOperation scope operationId
  event scope (.operation operationId) ("payment_evidence_refused:" ++ reason)

/-- `record_submission`: never a settlement claim. -/
def recordSubmission (env : Platform) (amb : Ambient) (scope : Scope) (op : Operation) : Tx Unit :=
  onlyIf (op.proposal.action.spends = true) <|
    appendFact env amb scope op
      { eventKey := "broker-submission"
        kind := .submitted
        amountMinor := 0
        currency := op.proposal.currency
        source := .merchant }

end GenusOs.Autonomy
