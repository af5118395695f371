import GenusOs.Entity.Audit
import GenusOs.Library.HashChain
import GenusOs.Python.IsoFormat
import GenusOs.Python.JsonText
import Mathlib

/-!
# Append-only, hash-chained treasury events

`InMemoryAppendOnlyTreasuryLedger`: the list of events and the two indices by scoped idempotency
key. An append redacts the audit data again, answers a repeated draft with its first event, refuses
a different draft under a used key, and else adds an event to the chain. SHA-256, `uuid5` and the
text of a float are parameters; what is hashed is canonical JSON.
-/

namespace GenusOs.Entity

open GenusOs.Python

inductive TreasuryEventType
  | proposalEvaluated | approvalGranted | approvalRejected | authorizationRequested
  | authorizationRecorded | settlementRecorded | reversalRecorded
  deriving DecidableEq

def TreasuryEventType.value : TreasuryEventType → String
  | .proposalEvaluated => "proposal_evaluated"
  | .approvalGranted => "approval_granted"
  | .approvalRejected => "approval_rejected"
  | .authorizationRequested => "authorization_requested"
  | .authorizationRecorded => "authorization_recorded"
  | .settlementRecorded => "settlement_recorded"
  | .reversalRecorded => "reversal_recorded"

/-- A draft. The ledger does not rely on its validation, which `model_construct` skips. -/
structure LedgerEventDraft where
  tenantId : String
  organizationId : String
  eventType : TreasuryEventType
  actorId : String
  subjectId : String
  idempotencyKey : String
  auditData : AuditInput
  occurredAt : DateTime

structure LedgerEvent where
  sequence : Nat
  eventId : String
  tenantId : String
  organizationId : String
  eventType : TreasuryEventType
  actorId : String
  subjectId : String
  idempotencyKey : String
  occurredAt : DateTime
  previousHash : String
  eventHash : String
  auditDataJson : String
  deriving DecidableEq

/-- What the ledger takes from the platform. -/
structure LedgerPlatform extends TextPlatform where
  sha256 : String → String
  uuid5 : String → String
  floatText : Rat → String

variable (env : LedgerPlatform)

def GENESIS_HASH : String := String.ofList (List.replicate 64 '0')

/-- `hashlib.sha256(json.dumps(material, sort_keys=True, …).encode()).hexdigest()`. -/
def canonicalHash (material : Dict) : String := env.sha256 (material.dumps env.floatText)

/-- The semantics of a draft whose audit data prints as `auditJson`. -/
def LedgerEventDraft.semantic (draft : LedgerEventDraft) (auditJson : String) : Dict :=
  [("tenant_id", .str draft.tenantId), ("organization_id", .str draft.organizationId),
    ("event_type", .str draft.eventType.value), ("actor_id", .str draft.actorId),
    ("subject_id", .str draft.subjectId), ("idempotency_key", .str draft.idempotencyKey),
    ("audit_data", .str auditJson)]

def semanticHash (draft : LedgerEventDraft) (auditJson : String) : String :=
  canonicalHash env (draft.semantic auditJson)

/-- What `_event_hash` serialises. -/
def LedgerEvent.material (e : LedgerEvent) : Dict :=
  [("sequence", .int e.sequence), ("tenant_id", .str e.tenantId),
    ("organization_id", .str e.organizationId), ("event_type", .str e.eventType.value),
    ("actor_id", .str e.actorId), ("subject_id", .str e.subjectId),
    ("idempotency_key", .str e.idempotencyKey), ("occurred_at", .str e.occurredAt.isoformat),
    ("previous_hash", .str e.previousHash), ("audit_data", .str e.auditDataJson)]

def LedgerEvent.hashOf (e : LedgerEvent) : String := canonicalHash env e.material

/-- Tenant, organization and idempotency key. -/
abbrev LedgerKey := String × String × String

def LedgerEventDraft.key (draft : LedgerEventDraft) : LedgerKey :=
  (draft.tenantId, draft.organizationId, draft.idempotencyKey)

def LedgerEvent.key (e : LedgerEvent) : LedgerKey :=
  (e.tenantId, e.organizationId, e.idempotencyKey)

structure Ledger where
  events : List LedgerEvent := []
  semanticHashes : AList fun _ : LedgerKey => String := ∅
  byIdempotency : AList fun _ : LedgerKey => LedgerEvent := ∅

inductive LedgerError
  | auditDataNotAnObject | idempotencyConflict | keyError
  deriving DecidableEq

namespace Ledger

def lastHash (l : Ledger) : String := (l.events.getLast?.map (·.eventHash)).getD GENESIS_HASH

/-- The event of a new draft. -/
def newEvent (l : Ledger) (draft : LedgerEventDraft) (auditJson : String) : LedgerEvent :=
  let event : LedgerEvent :=
    { sequence := l.events.length + 1, eventId := "", tenantId := draft.tenantId
      organizationId := draft.organizationId, eventType := draft.eventType
      actorId := draft.actorId, subjectId := draft.subjectId
      idempotencyKey := draft.idempotencyKey, occurredAt := draft.occurredAt
      previousHash := l.lastHash, eventHash := "", auditDataJson := auditJson }
  { event with
    eventId := env.uuid5 (event.hashOf env)
    eventHash := event.hashOf env }

/-- The section under the lock. -/
def appendRedacted (l : Ledger) (draft : LedgerEventDraft) (redacted : Dict) :
    Ledger × Except LedgerError LedgerEvent :=
  let auditJson := redacted.dumps env.floatText
  let hash := semanticHash env draft auditJson
  match l.byIdempotency.lookup draft.key with
  | some existing =>
    match l.semanticHashes.lookup draft.key with
    | none => (l, .error .keyError)
    | some stored =>
      if stored ≠ hash then (l, .error .idempotencyConflict) else (l, .ok existing)
  | none =>
    let event := l.newEvent env draft auditJson
    ({ events := l.events ++ [event]
       semanticHashes := l.semanticHashes.insert draft.key hash
       byIdempotency := l.byIdempotency.insert draft.key event }, .ok event)

def append (l : Ledger) (draft : LedgerEventDraft) : Ledger × Except LedgerError LedgerEvent :=
  match redactForAudit env.toTextPlatform none draft.auditData with
  | .obj redacted => l.appendRedacted env draft redacted
  | _ => (l, .error .auditDataNotAnObject)

/-- The loop of `verify_chain`. -/
def verifyFrom (previousHash : String) (expectedSequence : Nat) : List LedgerEvent → Bool
  | [] => true
  | e :: rest =>
    if e.sequence ≠ expectedSequence || e.previousHash ≠ previousHash then false
    else if e.eventHash ≠ e.hashOf env then false
    else verifyFrom e.eventHash (expectedSequence + 1) rest

def verifyChain (l : Ledger) : Bool := verifyFrom env GENESIS_HASH 1 l.events

/-- The ledger after a history of appends. -/
def appendAll (drafts : List LedgerEventDraft) : Ledger :=
  drafts.foldl (fun l draft => (l.append env draft).1) {}

end Ledger

end GenusOs.Entity
