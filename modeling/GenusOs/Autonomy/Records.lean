import GenusOs.Autonomy.Budget
import GenusOs.Autonomy.PaymentGroups
import GenusOs.Library.Rows
import GenusOs.Library.Transaction
import GenusOs.Python.Json

/-!
# The autonomy tables

The rows of the tables, and the statements that several modules share. Every method of the stores
is a transaction of its own; those that write an owner's operations hold the owner's advisory lock
from their first statement to their last, so that they run one after the other. Sealed values are
kept as what they seal. What a method reads of the world, the readings of the clocks and the
identities it draws, is its `Ambient`.
-/

namespace GenusOs.Autonomy

open GenusOs.Python

/-! ## Rows -/

structure Grant where
  id : Uuid
  scope : Scope
  version : Nat := 1
  policy : Delegation
  revoked : Bool := false

/-- The `state` of an operation as the journal writes it. -/
def OperationState.name : OperationState → String
  | .reserved => "reserved"
  | .submitting => "submitting"
  | .reconciling => "reconciling"
  | .completed => "completed"
  | .failed => "failed"
  | .cancelled => "cancelled"
  | .awaitingInput => "awaiting_input"

structure Operation where
  id : Uuid
  scope : Scope
  grantId : Uuid
  grantVersion : Nat
  agentId : String
  fingerprint : String
  proposal : WebOperation
  state : OperationState
  evidence : Option Dict := none
  executionPlan : Option Dict := none
  inputReason : Option String := none
  workflowId : Option Uuid := none
  updatedAt : Instant

/-- The row an event is about: the identities of different tables never coincide. -/
inductive Subject
  | grant (id : Uuid)
  | operation (id : Uuid)
  | workflow (id : Uuid)
  | settings (id : Uuid)
  deriving DecidableEq, Repr

structure Event where
  scope : Scope
  subject : Subject
  event : String
  deriving DecidableEq, Repr

structure PaymentEvent where
  id : Uuid
  scope : Scope
  operationId : Uuid
  version : Nat
  eventKeyDigest : String
  fact : PaymentFact

/-- `(tenant_id, owner_id)` and their settings. -/
structure Settings where
  scope : Scope
  settings : RuntimeSettings

structure Confirmation where
  url : String
  selector : Option String := none
  text : Option String := none
  sessionResourceId : Option Uuid := none
  /-- "confirmation_selector_and_text_required_together" -/
  paired : selector.isSome = text.isSome := by decide

inductive HandoffKind | sms | push | passkey | biometric | issuer | captcha
  deriving DecidableEq, Repr

structure HandoffRequest where
  requestId : Uuid
  kind : HandoffKind
  confirmation : Confirmation
  lifetimeSeconds : Nat := 900
  bounded : 60 ≤ lifetimeSeconds ∧ lifetimeSeconds ≤ 86400 := by decide

inductive HandoffState | awaitingExternalAction | checking | resolved | expired
  deriving DecidableEq, Repr

/-- `state IN ('awaiting_external_action','checking')`. -/
def HandoffState.pending : HandoffState → Bool
  | .awaitingExternalAction | .checking => true
  | _ => false

structure Handoff where
  id : Uuid
  scope : Scope
  operationId : Uuid
  agentId : String
  fingerprint : String
  state : HandoffState
  spec : HandoffRequest
  expiresAt : Nat
  checkToken : Option Uuid := none
  checkLeaseUntil : Option Nat := none
  checkAttempts : Nat := 0

inductive WorkflowState | open | completed | closed | lost
  deriving DecidableEq, Repr

structure Workflow where
  id : Uuid
  scope : Scope
  agentId : String
  operationId : Uuid
  instanceId : Uuid
  origin : String
  fingerprint : String
  state : WorkflowState := .open
  revision : Nat := 0
  deriving DecidableEq, Repr

inductive CommandState | running | completed
  deriving DecidableEq, Repr

structure Command where
  workflowId : Uuid
  commandId : Uuid
  scope : Scope
  fingerprint : String
  request : Dict
  state : CommandState
  result : Option Dict := none

structure DB where
  grants : List Grant := []
  operations : List Operation := []
  events : List Event := []
  paymentEvents : List PaymentEvent := []
  settings : List Settings := []
  handoffs : List Handoff := []
  workflows : List Workflow := []
  commands : List Command := []

/-- What the stores take from libraries: Unicode case mapping, the origin of a URL and whether two
URLs are the same page, and SHA-256 over canonical JSON. -/
structure Platform where
  casefold : String → String
  lower : String → String
  urlOrigin : String → Except Raised String
  samePage : String → String → Bool
  digest : String → String
  reserveDigest : Uuid → String → WebOperation → String
  handoffDigest : Uuid → String → HandoffRequest → String
  requestDigest : Dict → String

/-- The `n`th `datetime.now(UTC)` and the `n`th `uuid4()` of a method, and the database's `now()`,
which stands still during a transaction. -/
structure Ambient where
  utc : Nat → Instant
  now : Instant
  uuid : Nat → Uuid

abbrev Tx (α : Type) := Transaction DB Raised α

/-! ## Shared statements -/

open Transaction

/-- `_event`. -/
def DB.record (db : DB) (scope : Scope) (subject : Subject) (event : String) : DB :=
  { db with events := db.events ++ [{ scope, subject, event }] }

def event (scope : Scope) (subject : Subject) (text : String) : Tx Unit :=
  modify fun db => db.record scope subject text

/-- `_operation`. -/
def findOperation (scope : Scope) (operationId : Uuid) : Tx Operation := do
  let db ← get
  getOrRaise (db.operations.find? fun o => o.id = operationId && o.scope = scope)
    (.permissionError "operation_not_found")

/-- `UPDATE autonomy_operations SET f WHERE id=operation_id`. -/
def DB.updateOperation (db : DB) (operationId : Uuid) (f : Operation → Operation) : DB :=
  { db with operations := Rows.updateWhere (fun o => o.id = operationId) f db.operations }

def updateOperation (operationId : Uuid) (f : Operation → Operation) : Tx Unit :=
  modify fun db => db.updateOperation operationId f

/-- An `INSERT` violates the primary key where a row has its identity already. -/
def unused (ids : DB → List Uuid) (id : Uuid) : Tx Unit := do
  let db ← get
  require (id ∉ ids db) .uniqueViolation

end GenusOs.Autonomy
