import Mathlib

/-!
# Shared exact-amount decisions

`withinLimit` and `decideLimits` are used by the treasury policy (exact decimals) and by the
delegated operations of an owner (integer minor units), so the amounts are any linearly ordered
type with addition. A missing amount is `none`; the source rejects it together with negative
values.
-/

namespace GenusOs.Entity

inductive DecisionOutcome | allow | approvalRequired | deny
  deriving DecidableEq, Repr

inductive DecisionReason
  | withinPolicy | approvalThreshold | policyMissing | policyDisabled | policyIncomplete
  | policyTenantMismatch | policyOrganizationMismatch | instrumentOwnershipMismatch
  | instrumentInactive | categoryNotAllowed | vendorNotAllowed | currencyNotAllowed
  | perTransactionLimit | usageUnavailable | usageSnapshotMismatch | dailyLimit | monthlyLimit
  | idempotencyConflict
  deriving DecidableEq, Repr

variable {α : Type*} [LinearOrder α] [Add α] [Zero α]

/-- `_valid`: amounts are exact by their type, what remains is that they are not negative. -/
def valid (value : Option α) : Bool :=
  match value with
  | some v => 0 ≤ v
  | none => false

/-- Negative inputs cannot grant authority. -/
def withinLimit (used amount limit : α) : Bool :=
  (valid (some used) && valid (some amount) && valid (some limit)) && used + amount ≤ limit

theorem withinLimit_iff {used amount limit : α} :
    withinLimit used amount limit = true ↔
      0 ≤ used ∧ 0 ≤ amount ∧ 0 ≤ limit ∧ used + amount ≤ limit := by
  simp [withinLimit, valid, and_assoc]

/-- `daily_used is None or not within_limit(...)`, and the monthly test of the same shape. -/
def exceeds (used : Option α) (amount limit : α) : Bool :=
  match used with
  | none => true
  | some used => !withinLimit used amount limit

def decideLimits (amount perTransactionLimit monthlyLimit : α) (monthlyUsed : Option α)
    (dailyLimit dailyUsed : Option α) (usageMatches : Bool) (approvalThreshold : Option α) :
    DecisionOutcome × DecisionReason :=
  if !withinLimit 0 amount perTransactionLimit then (.deny, .perTransactionLimit)
  else if !valid monthlyUsed || (dailyLimit.isSome && !valid dailyUsed) then
    (.deny, .usageUnavailable)
  else if !usageMatches then (.deny, .usageSnapshotMismatch)
  else if dailyLimit.any (fun limit => exceeds dailyUsed amount limit) then (.deny, .dailyLimit)
  else if exceeds monthlyUsed amount monthlyLimit then (.deny, .monthlyLimit)
  else match approvalThreshold with
    | none => (.allow, .withinPolicy)
    | some threshold =>
      if !valid (some threshold) then (.deny, .policyIncomplete)
      else if amount ≥ threshold then (.approvalRequired, .approvalThreshold)
      else (.allow, .withinPolicy)

/-- What an allowed decision has checked: the per-transaction and the monthly limit. -/
theorem decideLimits_allow {amount perTransactionLimit monthlyLimit : α}
    {monthlyUsed dailyLimit dailyUsed approvalThreshold : Option α} {usageMatches : Bool}
    (h : (decideLimits amount perTransactionLimit monthlyLimit monthlyUsed dailyLimit dailyUsed
      usageMatches approvalThreshold).1 = .allow) :
    withinLimit 0 amount perTransactionLimit = true ∧
      ∃ used, monthlyUsed = some used ∧ withinLimit used amount monthlyLimit = true := by
  unfold decideLimits at h
  split at h
  · cases h
  · next htransaction =>
    split at h
    · cases h
    · split at h
      · cases h
      · split at h
        · cases h
        · split at h
          · cases h
          · next hmonthly =>
            cases monthlyUsed with
            | none => simp [exceeds] at hmonthly
            | some used =>
              exact ⟨by simpa using htransaction, used, rfl, by simpa [exceeds] using hmonthly⟩

/-- What the limits have checked where they allow, all of them given. -/
theorem decideLimits_allow_iff {α : Type*} [LinearOrder α] [AddZeroClass α]
    {amount perTransaction monthly monthlyUsed daily dailyUsed threshold : α} {snapshot : Bool}
    (hamount : 0 ≤ amount) (hperTransaction : 0 ≤ perTransaction) (hmonthly : 0 ≤ monthly)
    (hmonthlyUsed : 0 ≤ monthlyUsed) (hdaily : 0 ≤ daily) (hdailyUsed : 0 ≤ dailyUsed)
    (hthreshold : 0 ≤ threshold) :
    (decideLimits amount perTransaction monthly (some monthlyUsed) (some daily) (some dailyUsed)
        snapshot (some threshold)).1 = .allow ↔
      snapshot = true ∧ amount ≤ perTransaction ∧ amount < threshold ∧ dailyUsed + amount ≤ daily ∧
        monthlyUsed + amount ≤ monthly := by
  have hperTransaction' : withinLimit 0 amount perTransaction =
      decide (amount ≤ perTransaction) := by
    simp [withinLimit, valid, hamount, hperTransaction]
  have hdaily' : withinLimit dailyUsed amount daily = decide (dailyUsed + amount ≤ daily) := by
    simp [withinLimit, valid, hamount, hdaily, hdailyUsed]
  have hmonthly' : withinLimit monthlyUsed amount monthly =
      decide (monthlyUsed + amount ≤ monthly) := by
    simp [withinLimit, valid, hamount, hmonthly, hmonthlyUsed]
  simp only [decideLimits, exceeds, valid, hperTransaction', hdaily', hmonthly', hmonthlyUsed,
    hdailyUsed, hthreshold, Option.any_some]
  by_cases h₁ : amount ≤ perTransaction
  · by_cases h₂ : snapshot = true
    · by_cases h₃ : dailyUsed + amount ≤ daily
      · by_cases h₄ : monthlyUsed + amount ≤ monthly
        · by_cases h₅ : amount < threshold
          · simp [h₁, h₂, h₃, h₄, h₅, not_le.mpr h₅]
          · simp [h₁, h₂, h₃, h₄, h₅, not_lt.mp h₅]
        · simp [h₁, h₂, h₃, h₄]
      · simp [h₁, h₂, h₃]
    · simp [h₁, h₂]
  · simp [h₁]

end GenusOs.Entity
