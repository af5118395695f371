import GenusOs.Autonomy.PaymentLifecycle

/-!
# Initial payments and issuer-identified recurring transactions

`summarizePayments` projects the non-renewal facts of an operation and each renewal by itself.
`overspendReasons` names what in a summary means that more money moved than was authorised.

* `overspendReasons_ne_nil_iff`: an overspend shows in the initial payment or in a renewal.
-/

namespace GenusOs.Autonomy

open GenusOs.Python

structure RenewalSummary where
  id : String
  position : Option PaymentPosition
  reconciliationRequired : Bool
  dueOn : Option Date
  scheduleMatches : Bool
  eventCount : Nat
  periodLimitExceeded : Bool := false
  deriving DecidableEq, Repr

structure Summary where
  position : Option PaymentPosition
  reconciliationRequired : Bool
  eventCount : Nat
  renewals : List RenewalSummary
  deriving DecidableEq, Repr

/-- `_position`: rejected facts have no position and require reconciliation. -/
def positionOf (facts : List PaymentFact) (limit : Nat) (currency : String) :
    Option PaymentPosition × Bool :=
  match projectPayment facts limit currency with
  | .ok p => (some p, p.limitExceeded || p.authorizationExceeded)
  | .error _ => (none, true)

/-- `_matches`. -/
def scheduleMatches (proposal : WebOperation) (due : Option Date) : Bool :=
  match proposal.action, due, proposal.recurrence with
  | .subscription, some due, some terms =>
    let anchor := terms.nextChargeOn
    let months : Int := ((due.year : Int) - anchor.year) * 12 + due.month - anchor.month
    0 ≤ months && months % terms.intervalMonths = 0 &&
      due.day = min anchor.day (daysInMonth due.year due.month) &&
      terms.endsOn.all fun endsOn => due.toOrdinal ≤ endsOn.toOrdinal
  | _, _, _ => false

/-- The facts of the initial payment. -/
def initialFacts (facts : List PaymentFact) : List PaymentFact :=
  facts.filter (·.renewalId = none)

def renewalSummary (proposal : WebOperation) (group : List PaymentFact) (index : Nat) :
    RenewalSummary :=
  let dates := (group.map (·.renewalOn)).eraseDups
  let due := if dates.length = 1 then dates.head?.join else none
  let position := positionOf group proposal.recurringMinor proposal.currency
  let matched := scheduleMatches proposal due
  { id := "renewal-" ++ toString (index + 1)
    position := position.1
    reconciliationRequired := position.2 || !matched
    dueOn := due
    scheduleMatches := matched
    eventCount := group.length }

/-- Gross charges of all renewals due on one date: refunds do not authorize another charge. -/
def periodTotal (renewals : List RenewalSummary) (due : Date) : Nat :=
  ((renewals.filter fun r => r.dueOn = some due).map fun r =>
    (r.position.map (·.chargedMinor)).getD 0).sum

def flagPeriod (proposal : WebOperation) (renewals : List RenewalSummary) (r : RenewalSummary) :
    RenewalSummary :=
  let exceeded := r.dueOn.any fun due => proposal.recurringMinor < periodTotal renewals due
  { r with
    periodLimitExceeded := exceeded
    reconciliationRequired := r.reconciliationRequired || exceeded }

/-- `(item["due_on"] or "", item["id"])`. -/
def RenewalSummary.sortKey (r : RenewalSummary) : String × String :=
  ((r.dueOn.map Date.isoformat).getD "", r.id)

/-- The renewals of the facts, in the order of their first facts. -/
def renewalsOf (proposal : WebOperation) (facts : List PaymentFact) : List RenewalSummary :=
  let ids := (facts.filterMap (·.renewalId)).eraseDups
  let renewals := ids.mapIdx fun index id =>
    renewalSummary proposal (facts.filter (·.renewalId = some id)) index
  renewals.map (flagPeriod proposal renewals)

def summarizePayments (proposal : WebOperation) (facts : List PaymentFact) : Summary :=
  let initial := positionOf (initialFacts facts) proposal.amountMinor proposal.currency
  let renewals := renewalsOf proposal facts
  { position := initial.1
    reconciliationRequired := initial.2 || renewals.any (·.reconciliationRequired)
    eventCount := facts.length
    renewals := renewals.insertionSort fun r r' =>
      r.sortKey.1 < r'.sortKey.1 ∨ r.sortKey.1 = r'.sortKey.1 ∧ r.sortKey.2 ≤ r'.sortKey.2 }

/-! ## Overspend reasons -/

def positionReasons (limitReason authorizationReason : String) (position : Option PaymentPosition) :
    List String :=
  match position with
  | none => []
  | some p =>
    (if p.limitExceeded then [limitReason] else []) ++
      (if p.authorizationExceeded then [authorizationReason] else [])

def renewalReasons (r : RenewalSummary) : List String :=
  (if r.periodLimitExceeded then ["renewal_period_limit_exceeded:" ++ r.id] else []) ++
    positionReasons ("renewal_limit_exceeded:" ++ r.id) ("renewal_authorization_exceeded:" ++ r.id)
      r.position

/-- Only signals that more money moved than was authorised: inconsistent evidence is none. -/
def overspendReasons (summary : Summary) : List String :=
  positionReasons "limit_exceeded" "authorization_exceeded" summary.position ++
    summary.renewals.flatMap renewalReasons

/-- The position shows an overspend. -/
def Flagged (position : Option PaymentPosition) : Prop :=
  ∃ p ∈ position, p.limitExceeded = true ∨ p.authorizationExceeded = true

theorem positionReasons_ne_nil_iff (limitReason authorizationReason : String)
    {position : Option PaymentPosition} :
    positionReasons limitReason authorizationReason position ≠ [] ↔ Flagged position := by
  cases position with
  | none => simp [positionReasons, Flagged]
  | some p =>
    cases hl : p.limitExceeded <;> cases ha : p.authorizationExceeded <;>
      simp [positionReasons, Flagged, hl, ha]

/-- A renewal shows an overspend. -/
def RenewalFlagged (r : RenewalSummary) : Prop :=
  r.periodLimitExceeded = true ∨ Flagged r.position

theorem renewalReasons_ne_nil_iff {r : RenewalSummary} :
    renewalReasons r ≠ [] ↔ RenewalFlagged r := by
  unfold renewalReasons RenewalFlagged
  rw [← positionReasons_ne_nil_iff ("renewal_limit_exceeded:" ++ r.id)
    ("renewal_authorization_exceeded:" ++ r.id)]
  cases r.periodLimitExceeded <;> simp

theorem overspendReasons_ne_nil_iff {proposal : WebOperation} {facts : List PaymentFact} :
    overspendReasons (summarizePayments proposal facts) ≠ [] ↔
      Flagged (summarizePayments proposal facts).position ∨
        ∃ r ∈ renewalsOf proposal facts, RenewalFlagged r := by
  unfold overspendReasons
  rw [ne_eq, List.append_eq_nil_iff, not_and_or, ← ne_eq, positionReasons_ne_nil_iff]
  refine or_congr Iff.rfl ?_
  simp only [List.flatMap_eq_nil_iff, not_forall, ← ne_eq, renewalReasons_ne_nil_iff]
  constructor
  · rintro ⟨r, hr, hflag⟩
    exact ⟨r, (List.perm_insertionSort _ _).mem_iff.mp hr, hflag⟩
  · rintro ⟨r, hr, hflag⟩
    exact ⟨r, (List.perm_insertionSort _ _).mem_iff.mpr hr, hflag⟩

end GenusOs.Autonomy
