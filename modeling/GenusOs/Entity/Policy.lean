import GenusOs.Entity.Payments
import GenusOs.Entity.SpendLimits
import GenusOs.Python.DateTime
import Mathlib

/-!
# Deterministic, deny-by-default treasury policy decisions

`evaluate` looks the idempotency key up in the decision store, decides with the fixed-order table
of `evaluateUncached`, and stores the decision first-writer-wins. What the decision needs of the
platform (Unicode case folding, SHA-256 over the canonical JSON of a proposal and over a provider
token, `uuid5`) is a parameter.
-/

namespace GenusOs.Entity

open GenusOs.Python

/-! ## Values -/

/-- A finite, non-negative `Decimal` with at most four decimal places and at most
`99999999999999.9999`: `units` at `scale` decimal places. Equal values at different scales print
differently. -/
structure Money where
  units : Nat
  scale : Nat
  scale_le : scale ≤ 4
  bounded : units * 10 ^ 4 ≤ 999999999999999999 * 10 ^ scale
  deriving DecidableEq

def Money.value (m : Money) : Rat := (m.units : Rat) / 10 ^ m.scale

/-- `format(amount, "f")`. -/
def Money.format (m : Money) : String :=
  if m.scale = 0 then toString m.units
  else
    let digits := (toString m.units).toList
    let digits := List.replicate (m.scale + 1 - digits.length) '0' ++ digits
    let whole := digits.length - m.scale
    String.ofList (digits.take whole ++ '.' :: digits.drop whole)

/-- `^[a-z0-9][a-z0-9_-]*$`, 1 to 64 characters. -/
def isCategory (s : String) : Bool :=
  let letter := fun c : Char => c.isLower || c.isDigit
  match s.toList with
  | [] => false
  | c :: cs => letter c && cs.all (fun d => letter d || d = '_' || d = '-') && cs.length < 64

/-- `^[A-Z]{3}$`. -/
def isCurrency (s : String) : Bool := s.toList.length = 3 && s.toList.all Char.isUpper

def hasLength (minLength maxLength : Nat) (s : String) : Bool :=
  minLength ≤ s.toList.length && s.toList.length ≤ maxLength

abbrev Category := Valid isCategory
abbrev Currency := Valid isCurrency
abbrev Purpose := Valid (hasLength 3 500)
abbrev Vendor := Valid (hasLength 1 200)

/-- A timezone-aware `datetime`: its local date, the microsecond of that day and the offset. -/
structure AwareDateTime where
  date : Date
  micros : Nat
  offsetSeconds : Int
  deriving DecidableEq

/-! ## Proposals, policies, usage -/

/-- A proposed operational purchase, not a provider authorization. -/
structure SpendProposal where
  proposalId : Identifier
  tenantId : Identifier
  organizationId : Identifier
  actorId : Identifier
  instrument : OperationalVirtualCardReference
  purpose : Purpose
  vendor : Vendor
  category : Category
  currency : Currency
  amount : Money
  amount_pos : 0 < amount.units
  idempotencyKey : IdempotencyKey
  requestedAt : AwareDateTime

/-- What `fingerprint` serialises. -/
structure FingerprintPayload where
  proposalId : String
  tenantId : String
  organizationId : String
  actorId : String
  instrumentId : String
  instrumentTokenFingerprint : String
  purpose : String
  vendor : String
  category : String
  currency : String
  amount : String
  idempotencyKey : String
  requestedAt : AwareDateTime
  deriving DecidableEq

/-- Organization-owned spend authority. The limits are ordered where they are set. -/
structure TreasuryPolicy where
  policyId : Identifier
  version : Nat := 1
  tenantId : Identifier
  organizationId : Identifier
  enabled : Bool := false
  allowedCategories : List Category := []
  allowedVendors : List String := []
  allowedCurrencies : List Currency := []
  perTransactionLimit : Money
  dailyLimit : Money
  monthlyLimit : Money
  approvalThreshold : Money
  version_pos : 1 ≤ version
  transaction_le_daily : dailyLimit.value ≠ 0 → perTransactionLimit.value ≤ dailyLimit.value
  daily_le_monthly : monthlyLimit.value ≠ 0 → dailyLimit.value ≤ monthlyLimit.value
  threshold_le_transaction :
    perTransactionLimit.value ≠ 0 → approvalThreshold.value ≤ perTransactionLimit.value

def TreasuryPolicy.isComplete (p : TreasuryPolicy) : Bool :=
  !p.allowedCategories.isEmpty && !p.allowedVendors.isEmpty && !p.allowedCurrencies.isEmpty &&
    p.perTransactionLimit.value > 0 && p.dailyLimit.value > 0 && p.monthlyLimit.value > 0

/-- Committed-and-reserved spend for the proposal's accounting windows. -/
structure SpendUsage where
  tenantId : Identifier
  organizationId : Identifier
  usageDate : Date
  dailyCommitted : Money
  monthlyCommitted : Money

/-! ## Decisions and their store -/

structure PolicyDecision where
  decisionId : String
  proposalId : Identifier
  proposalFingerprint : String
  idempotencyKey : IdempotencyKey
  policyId : Option Identifier
  policyVersion : Option Nat
  outcome : DecisionOutcome
  reason : DecisionReason
  deriving DecidableEq

structure StoredDecision where
  proposalFingerprint : String
  decision : PolicyDecision
  deriving DecidableEq

/-- `InMemoryDecisionStore`: the records by scope string and idempotency key. -/
structure DecisionStore where
  records : List ((String × String) × StoredDecision) := []

namespace DecisionStore

def get (store : DecisionStore) (scope idempotencyKey : String) : Option StoredDecision :=
  store.records.lookup (scope, idempotencyKey)

/-- `setdefault`: the first record of a key stays, and is what the caller gets back. -/
def putIfAbsent (store : DecisionStore) (scope idempotencyKey : String)
    (record : StoredDecision) : DecisionStore × StoredDecision :=
  match store.get scope idempotencyKey with
  | some winner => (store, winner)
  | none => ({ records := ((scope, idempotencyKey), record) :: store.records }, record)

end DecisionStore

/-! ## The engine -/

/-- What the decision table needs of the platform. -/
structure Platform where
  casefold : String → String
  fingerprint : FingerprintPayload → String
  tokenFingerprint : String → String
  uuid5 : String → String

variable (env : Platform)

def SpendProposal.payload (p : SpendProposal) : FingerprintPayload where
  proposalId := p.proposalId.val
  tenantId := p.tenantId.val
  organizationId := p.organizationId.val
  actorId := p.actorId.val
  instrumentId := p.instrument.virtualCardId.val
  instrumentTokenFingerprint := env.tokenFingerprint p.instrument.providerVirtualCardToken
  purpose := p.purpose.val
  vendor := p.vendor.val
  category := p.category.val
  currency := p.currency.val
  amount := p.amount.format
  idempotencyKey := p.idempotencyKey.val
  requestedAt := p.requestedAt

def SpendProposal.fingerprint (p : SpendProposal) : String := env.fingerprint (p.payload env)

def usageMatches (proposal : SpendProposal) : Option SpendUsage → Bool
  | none => false
  | some usage =>
    usage.tenantId = proposal.tenantId && usage.organizationId = proposal.organizationId &&
      usage.usageDate = proposal.requestedAt.date

/-- The fixed-order, fail-closed decision table. -/
def evaluateUncached (proposal : SpendProposal) (policy : Option TreasuryPolicy)
    (usage : Option SpendUsage) : DecisionOutcome × DecisionReason :=
  match policy with
  | none => (.deny, .policyMissing)
  | some policy =>
    if !policy.enabled then (.deny, .policyDisabled)
    else if !policy.isComplete then (.deny, .policyIncomplete)
    else if proposal.tenantId ≠ policy.tenantId then (.deny, .policyTenantMismatch)
    else if proposal.organizationId ≠ policy.organizationId then
      (.deny, .policyOrganizationMismatch)
    else if proposal.instrument.tenantId ≠ proposal.tenantId ∨
        proposal.instrument.organizationId ≠ proposal.organizationId then
      (.deny, .instrumentOwnershipMismatch)
    else if !proposal.instrument.active then (.deny, .instrumentInactive)
    else if proposal.category ∉ policy.allowedCategories then (.deny, .categoryNotAllowed)
    else if env.casefold proposal.vendor.val ∉ policy.allowedVendors then
      (.deny, .vendorNotAllowed)
    else if proposal.currency ∉ policy.allowedCurrencies then (.deny, .currencyNotAllowed)
    else
      decideLimits proposal.amount.value policy.perTransactionLimit.value
        policy.monthlyLimit.value (usage.map (·.monthlyCommitted.value))
        (some policy.dailyLimit.value) (usage.map (·.dailyCommitted.value))
        (usageMatches proposal usage) (some policy.approvalThreshold.value)

def DecisionOutcome.text : DecisionOutcome → String
  | .allow => "allow"
  | .approvalRequired => "approval_required"
  | .deny => "deny"

def DecisionReason.text : DecisionReason → String
  | .withinPolicy => "within_policy"
  | .approvalThreshold => "approval_threshold"
  | .policyMissing => "policy_missing"
  | .policyDisabled => "policy_disabled"
  | .policyIncomplete => "policy_incomplete"
  | .policyTenantMismatch => "policy_tenant_mismatch"
  | .policyOrganizationMismatch => "policy_organization_mismatch"
  | .instrumentOwnershipMismatch => "instrument_ownership_mismatch"
  | .instrumentInactive => "instrument_inactive"
  | .categoryNotAllowed => "category_not_allowed"
  | .vendorNotAllowed => "vendor_not_allowed"
  | .currencyNotAllowed => "currency_not_allowed"
  | .perTransactionLimit => "per_transaction_limit"
  | .usageUnavailable => "usage_unavailable"
  | .usageSnapshotMismatch => "usage_snapshot_mismatch"
  | .dailyLimit => "daily_limit"
  | .monthlyLimit => "monthly_limit"
  | .idempotencyConflict => "idempotency_conflict"

/-- `_decision`: the decision id is a `uuid5` of fingerprint, policy identity and verdict. -/
def makeDecision (proposal : SpendProposal) (policy : Option TreasuryPolicy)
    (outcome : DecisionOutcome) (reason : DecisionReason) : PolicyDecision :=
  let policyIdentity := match policy with
    | none => "none"
    | some policy => policy.policyId.val ++ ":" ++ toString policy.version
  { decisionId := env.uuid5 (proposal.fingerprint env ++ ":" ++ policyIdentity ++ ":" ++
      outcome.text ++ ":" ++ reason.text)
    proposalId := proposal.proposalId
    proposalFingerprint := proposal.fingerprint env
    idempotencyKey := proposal.idempotencyKey
    policyId := policy.map (·.policyId)
    policyVersion := policy.map (·.version)
    outcome, reason }

/-- A tenant and an organization, as one store scope: `f"{tenant_id}:{organization_id}"`. -/
def scopeString (owner : Identifier × Identifier) : String :=
  owner.1.val ++ ":" ++ owner.2.val

def SpendProposal.owner (p : SpendProposal) : Identifier × Identifier :=
  (p.tenantId, p.organizationId)

/-- A stored decision answers its own proposal only; another one under the key is refused. -/
def answerFrom (proposal : SpendProposal) (policy : Option TreasuryPolicy)
    (stored : StoredDecision) : PolicyDecision :=
  if stored.proposalFingerprint = proposal.fingerprint env then stored.decision
  else makeDecision env proposal policy .deny .idempotencyConflict

/-- The record a call that found nothing stored tries to put. -/
def candidate (proposal : SpendProposal) (policy : Option TreasuryPolicy)
    (usage : Option SpendUsage) : StoredDecision :=
  let (outcome, reason) := evaluateUncached env proposal policy usage
  { proposalFingerprint := proposal.fingerprint env
    decision := makeDecision env proposal policy outcome reason }

def evaluate (store : DecisionStore) (proposal : SpendProposal) (policy : Option TreasuryPolicy)
    (usage : Option SpendUsage) : DecisionStore × PolicyDecision :=
  let scope := scopeString proposal.owner
  match store.get scope proposal.idempotencyKey.val with
  | some prior => (store, answerFrom env proposal policy prior)
  | none =>
    let (store, winner) :=
      store.putIfAbsent scope proposal.idempotencyKey.val (candidate env proposal policy usage)
    (store, answerFrom env proposal policy winner)

end GenusOs.Entity
