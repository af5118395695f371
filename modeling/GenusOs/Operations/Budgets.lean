import GenusOs.Operations.Values
import GenusOs.Library.Rows
import GenusOs.Library.Run
import Mathlib

/-!
# Budgets

A call that costs money reserves its amount in all of its scopes before it is made, and settles what
it has really cost after it. Amounts are integer micro-USD.
-/

namespace GenusOs.Operations

open Rows

/-- A row of `operation_budgets`. What is reserved and what is spent are kept beside the limit, and
are not computed from the reservations: that they agree with them is proved of every run. -/
structure Budget where
  scope : String
  limitUnits : Int
  spentUnits : Int := 0
  reservedUnits : Int := 0
  deriving DecidableEq, Repr

/-- A row of `operation_reservations`: `actualUnits` is `none` until it is settled. -/
structure Reservation where
  id : Uuid
  scope : String
  dedupKey : String
  reservedUnits : Int
  actualUnits : Option Int := none
  deriving DecidableEq, Repr

/-- The two tables. -/
structure Accounts where
  budgets : List Budget := []
  reservations : List Reservation := []
  deriving DecidableEq, Repr

variable (s : Accounts)

/-- The checks of the table. -/
def Budget.checked (b : Budget) : Bool :=
  0 ≤ b.limitUnits && 0 ≤ b.spentUnits && 0 ≤ b.reservedUnits

/-- An update of the budget of a scope. -/
def updateBudget (scope : String) (f : Budget → Budget) : Except Raised Accounts :=
  let budgets := updateWhere (·.scope = scope) f s.budgets
  if budgets.all Budget.checked then .ok { s with budgets } else .error .integrityError

/-- What `set_budget` writes to a budget that is there. -/
def Budget.relimit (limit : Int) (b : Budget) : Budget := { b with limitUnits := limit }

/-- `set_budget`: reducing a limit never erases consumption. -/
def setBudget (scope : String) (limit : Int) : Except Raised Accounts :=
  if limit < 0 then .error (.valueError "Budget must be nonnegative integer micro-USD")
  else if s.budgets.any (·.scope = scope) then updateBudget s scope (Budget.relimit limit)
  else .ok { s with budgets := s.budgets ++ [{ scope, limitUnits := limit }] }

/-! ## `reserve_many` -/

/-- The reservation of a scope and a key. A worker that comes back uses its key again. -/
def reservationOf (scope key : String) : Option Reservation :=
  s.reservations.find? fun r => r.scope = scope ∧ r.dedupKey = key

/-- The amount is set aside; the checks were made on the row that was locked. -/
def Budget.reserve (amount : Int) (b : Budget) :
    Budget := { b with reservedUnits := b.reservedUnits + amount }

/-- One scope of `reserve_many`, whose reservation gets the new id. A key that is reserved already
is answered with its reservation, if it has the same amount. -/
def reserveScope (key : String) (amount : Int) (activeOnly : Bool) (newId : Uuid) (scope : String) :
    Except Raised (Uuid × Accounts) :=
  match s.budgets.find? (·.scope = scope) with
  | none => .error (.budgetExceeded "No configured budget")
  | some budget =>
    match reservationOf s scope key with
    | some existing =>
      if existing.reservedUnits ≠ amount then
        .error (.conflict "Reservation key reused with a different amount")
      else if activeOnly ∧ existing.actualUnits.isSome then
        .error (.conflict "Settled reservation cannot authorize new work")
      else .ok (existing.id, s)
    | none =>
      if budget.limitUnits < budget.spentUnits + budget.reservedUnits + amount then
        .error (.budgetExceeded "Spending allowance exhausted")
      else if s.reservations.any (·.id = newId) then .error .integrityError
      else
        let reservation : Reservation :=
          { id := newId, scope, dedupKey := key, reservedUnits := amount }
        (updateBudget { s with reservations := s.reservations ++ [reservation] } scope
          (Budget.reserve amount)).map fun t => (newId, t)

/-- The loop over the scopes. -/
def reserveScopes (key : String) (amount : Int) (activeOnly : Bool) (newId : String → Uuid) :
    List String → Accounts → Except Raised (List Uuid × Accounts)
  | [], s => .ok ([], s)
  | scope :: scopes, s =>
    match reserveScope s key amount activeOnly (newId scope) scope with
    | .error error => .error error
    | .ok (id, t) => (reserveScopes key amount activeOnly newId scopes t).map fun rest =>
        (id :: rest.1, rest.2)

/-- `reserve_many`: every scope, or none. -/
def reserveMany (scopes : List String) (key : String)
    (amount : Int) (activeOnly : Bool) (newId : String → Uuid) :
    Except Raised (List Uuid × Accounts) :=
  if amount < 0 then .error (.valueError "Reservation must be nonnegative integer micro-USD")
  else if scopes = [] ∨ "" ∈ scopes then .error (.valueError "At least one budget scope required")
  else reserveScopes key amount activeOnly newId (scopes.dedup.insertionSort (· ≤ ·)) s

/-! ## `settle_many` -/

/-- The reservation is released and the real cost is added, which may be more than what was
released. -/
def Budget.settle (reserved actual : Int) (b : Budget) : Budget :=
  { b with reservedUnits := b.reservedUnits - reserved, spentUnits := b.spentUnits + actual }

def Reservation.settled (actual : Int) (r : Reservation) :
    Reservation := { r with actualUnits := some actual }

/-- One row of `settle_many`; one that is settled already is left alone. -/
def settleRow (actual : Int) (row : Reservation) : Except Raised Accounts :=
  if row.actualUnits.isSome then .ok s
  else (updateBudget s row.scope (Budget.settle row.reservedUnits actual)).map fun t =>
    { t with
      reservations := updateWhere (·.id = row.id) (Reservation.settled actual) t.reservations }

/-- The rows that are settled together, in the order of their ids. -/
def settledRows (reservations : List Uuid) : List Reservation :=
  (s.reservations.filter (·.id ∈ reservations)).insertionSort (·.id ≤ ·.id)

/-- `settle_many`: what a call has really cost, which may be more than it reserved. -/
def settleMany (reservations : List Uuid) (actual : Int) : Except Raised Accounts :=
  if actual < 0 then .error (.valueError "Actual spend must be nonnegative integer micro-USD")
  else if reservations = [] then .error (.valueError "At least one reservation required")
  else
    let rows := settledRows s reservations
    if rows.length ≠ reservations.toFinset.card then .error (.conflict "Unknown reservation")
    else if rows.any fun r => r.actualUnits.any (· ≠ actual) then
      .error (.conflict "Reservation already settled")
    else rows.foldlM (fun s row => settleRow s actual row) s

/-! ## The calls -/

/-- The calls of any number of workers. A new reservation gets its id from `newId`. -/
inductive BudgetCall
  | setBudget (scope : String) (limit : Int)
  | reserveMany (scopes : List String) (key : String)
      (amount : Int) (activeOnly : Bool) (newId : String → Uuid)
  | settleMany (reservations : List Uuid) (actual : Int)

/-- A call, whatever it answers. What raises changes nothing. -/
def BudgetCall.run (s : Accounts) : BudgetCall → Except Raised Accounts
  | .setBudget scope limit => Operations.setBudget s scope limit
  | .reserveMany scopes key amount activeOnly newId =>
    (Operations.reserveMany s scopes key amount activeOnly newId).map (·.2)
  | .settleMany reservations actual => Operations.settleMany s reservations actual

/-- The calls on the budgets of one tenant, from empty tables. -/
def budgetSystem : System Accounts BudgetCall where
  init s := s = {}
  step s call t := call.run s = .ok t

end GenusOs.Operations
