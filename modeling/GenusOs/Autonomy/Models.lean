import GenusOs.Entity.SpendLimits
import GenusOs.Python.DateTime
import GenusOs.Python.Str

/-!
# References, delegations and operations

The validated values of delegated execution. What a Pydantic validator requires across fields is a
field of the structure, so that a proposal that fails it cannot be built. Amounts are minor units,
instants that are only compared are seconds of the Unix epoch.
-/

namespace GenusOs.Autonomy

open GenusOs.Python GenusOs.Entity

/-- A `uuid4()`. -/
abbrev Uuid := Nat

structure Scope where
  tenantId : String
  ownerId : String
  deriving DecidableEq, Repr

/-- What a method raises; `uniqueViolation` comes from the database. -/
inductive Raised
  | permissionError (reason : String)
  | valueError (reason : String)
  | overflowError
  | typeError
  | uniqueViolation
  deriving DecidableEq, Repr

inductive Action | account | login | application | purchase | subscription
  deriving DecidableEq, Repr

/-- `action in {"purchase", "subscription"}`. -/
def Action.spends : Action → Bool
  | .purchase | .subscription => true
  | _ => false

/-- `Minor`: at most 10¹². -/
def maxMinor : Nat := 10 ^ 12

structure Recurrence where
  intervalMonths : Nat
  nextChargeOn : Date
  endsOn : Option Date := none
  supported : intervalMonths ∈ [1, 2, 3, 6, 12] := by decide
  orderedDates : ∀ e ∈ endsOn, nextChargeOn.toOrdinal ≤ e.toOrdinal := by decide
  deriving DecidableEq

theorem Recurrence.intervalMonths_pos (terms : Recurrence) : 0 < terms.intervalMonths := by
  have h := terms.supported
  simp only [List.mem_cons, List.not_mem_nil, or_false] at h
  omega

structure WebOperation where
  origin : String
  action : Action
  purpose : String
  idempotencyKey : String
  amountMinor : Nat := 0
  currency : String := "USD"
  recurringMinor : Nat := 0
  annualCommitmentMinor : Nat := 0
  recurrence : Option Recurrence := none
  minors : amountMinor ≤ maxMinor ∧ recurringMinor ≤ maxMinor ∧ annualCommitmentMinor ≤ maxMinor :=
    by decide
  /-- "nonpayment operation cannot spend" -/
  nonpayment : action.spends = false →
    amountMinor = 0 ∧ recurringMinor = 0 ∧ annualCommitmentMinor = 0 := by decide
  /-- "annual commitment must cover the recurring payment" -/
  covers : recurringMinor ≤ annualCommitmentMinor := by decide
  /-- "recurrence requires a recurring amount" -/
  recurs : recurrence.isSome → recurringMinor ≠ 0 := by decide
  /-- "subscription requires an annual commitment" -/
  commits : action = .subscription → annualCommitmentMinor ≠ 0 := by decide
  deriving DecidableEq

/-- The fields of a grant's policy that the store reads. -/
structure Delegation where
  enabled : Bool := true
  agentIds : List String
  origins : List String
  allowAnyWebsite : Bool := false
  actions : List Action
  expiresAt : Nat
  currency : String := "USD"
  perPurchaseMinor : Nat := 0
  monthlyMinor : Nat := 0
  recurringMinor : Nat := 0
  annualMinor : Nat := 0
  allowedPurposes : List String := []
  deriving DecidableEq, Repr

structure RuntimeSettings where
  enabled : Bool := false
  paymentProcessing : Bool := false
  deriving DecidableEq, Repr

/-! ## The decision of a delegation -/

/-- `next((reason for passed, reason in checks if not passed), None)`. -/
def firstFailed (checks : List (Bool × String)) : Option String :=
  (checks.find? fun check => !check.1).map Prod.snd

theorem mem_of_firstFailed {checks : List (Bool × String)} {reason : String}
    (h : firstFailed checks = some reason) : reason ∈ checks.map Prod.snd := by
  obtain ⟨check, hfind, rfl⟩ := Option.map_eq_some_iff.mp h
  exact List.mem_map_of_mem (List.mem_of_find?_eq_some hfind)

namespace Delegation

variable (casefold : String → String) (policy : Delegation)

def checks (operation : WebOperation) (agentId : String) (now : Instant) : List (Bool × String) :=
  [(policy.enabled, "grant_disabled"),
   (now.seconds < policy.expiresAt, "grant_expired"),
   (policy.agentIds.contains agentId, "agent_not_allowed"),
   (policy.allowAnyWebsite || policy.origins.contains operation.origin, "origin_not_allowed"),
   (policy.actions.contains operation.action, "action_not_allowed"),
   (policy.allowedPurposes.isEmpty ||
      (policy.allowedPurposes.map casefold).contains (casefold (strip operation.purpose)),
    "purpose_not_allowed"),
   (operation.currency = policy.currency, "currency_not_allowed")]

/-- `"allow"`, or the reason not to. -/
def decision (operation : WebOperation) (agentId : String) (usedMinor : Int) (now : Instant) :
    String :=
  match firstFailed (policy.checks casefold operation agentId now) with
  | some reason => reason
  | none =>
    match decideLimits (operation.amountMinor : Int) policy.perPurchaseMinor policy.monthlyMinor
        (some (if operation.action.spends then usedMinor else 0)) none none true none with
    | (.allow, _) =>
      if policy.recurringMinor < operation.recurringMinor then "recurring_limit"
      else if policy.annualMinor < operation.annualCommitmentMinor then "annual_limit"
      else "allow"
    | (_, reason) => if reason = .perTransactionLimit then "purchase_limit" else "monthly_limit"

variable {casefold policy}

/-- An allowed payment keeps within the monthly limit. -/
theorem within_of_decision {operation : WebOperation} {agentId : String} {usedMinor : Int}
    {now : Instant} (hs : operation.action.spends = true)
    (h : policy.decision casefold operation agentId usedMinor now = "allow") :
    withinLimit usedMinor (operation.amountMinor : Int) policy.monthlyMinor = true := by
  unfold decision at h
  split at h
  · next reason hreason =>
    have hmem := mem_of_firstFailed hreason
    rw [h] at hmem
    simp [checks] at hmem
  · split at h
    · next r hd =>
      obtain ⟨-, used, hused, hw⟩ := decideLimits_allow (congrArg Prod.fst hd)
      rw [hs, if_pos rfl, Option.some.injEq] at hused
      rw [hused]
      exact hw
    · split at h <;> simp at h

end Delegation

end GenusOs.Autonomy
