import GenusOs.Library.TwoPhase
import GenusOs.Operations.Budgets
import Mathlib

/-!
# The statements of the calls on budgets

Each call on the budgets is a transaction of several statements. It locks the rows that it reads,
and it keeps them until it commits. `reserve_many` takes its scopes in the order of Python's
`sorted`, `settle_many` in the order of the database, `collation`.
-/

namespace GenusOs.Operations

open TwoPhase

/-- What a statement waits for: a row of one of the two tables. -/
inductive LockedRow
  | reservation (id : Uuid)
  | budget (scope : String)
  deriving DecidableEq

/-- A transaction on the budgets, and the reservations that it answers with. -/
abbrev BudgetScript := Script Accounts LockedRow (List Uuid)

/-! ## `reserve_many` -/

/-- What the loop of `reserve_many` reads of a scope: its reservation, if it has one already. The
checks are made on the row as it is once its lock is held. -/
def admission (s : Accounts) (key : String) (amount : Int) (activeOnly : Bool) (scope : String) :
    Except Raised (Option Uuid) :=
  match s.budgets.find? (·.scope = scope) with
  | none => .error (.budgetExceeded "No configured budget")
  | some budget =>
    match reservationOf s scope key with
    | some existing =>
      if existing.reservedUnits ≠ amount then
        .error (.conflict "Reservation key reused with a different amount")
      else if activeOnly ∧ existing.actualUnits.isSome then
        .error (.conflict "Settled reservation cannot authorize new work")
      else .ok (some existing.id)
    | none =>
      if budget.limitUnits < budget.spentUnits + budget.reservedUnits + amount then
        .error (.budgetExceeded "Spending allowance exhausted")
      else .ok none

/-- A new reservation. The budget is not looked at again. -/
def insertReservation (s : Accounts) (key : String) (amount : Int) (newId : Uuid) (scope : String) :
    Except Raised Accounts :=
  if s.reservations.any (·.id = newId) then .error .integrityError
  else
    updateBudget
      { s with reservations := s.reservations ++
          [{ id := newId, scope, dedupKey := key, reservedUnits := amount }] }
      scope (Budget.reserve amount)

/-- What the loop writes for a scope that it has admitted, and the reservation of the scope. -/
def record (s : Accounts) (key : String) (amount : Int) (newId : Uuid) (scope : String) :
    Option Uuid → Except Raised (Uuid × Accounts)
  | some existing => .ok (existing, s)
  | none => (insertReservation s key amount newId scope).map fun t => (newId, t)

/-- The writes so far, and those of one more scope. The writes of a transaction are seen by nobody
before it commits, and so a script gathers them as one function of the tables. -/
def recordAfter (key : String) (amount : Int) (newId : Uuid)
    (scope : String) (existing : Option Uuid)
    (write : Accounts → Option (List Uuid × Accounts)) (s : Accounts) :
    Option (List Uuid × Accounts) :=
  (write s).bind fun w => ((record w.2 key amount newId scope existing).toOption).map fun r =>
    (w.1 ++ [r.1], r.2)

/-- The loop of `reserve_many`: each scope is locked, read and admitted before the next one. -/
def reserveScript (key : String) (amount : Int) (activeOnly : Bool) (newId : String → Uuid) :
    (Accounts → Option (List Uuid × Accounts)) → List String → BudgetScript
  | write, [] => .finish write
  | write, scope :: scopes => .lock (.budget scope) fun s =>
    match admission s key amount activeOnly scope with
    | .error _ => .raise
    | .ok existing =>
      reserveScript key amount activeOnly newId
        (recordAfter key amount (newId scope) scope existing write) scopes

/-! ## `settle_many` -/

def lockBudgets (script : BudgetScript) : List String → BudgetScript
  | [] => script
  | scope :: scopes => .lock (.budget scope) fun _ => lockBudgets script scopes

variable (collation : String → String → Prop) [DecidableRel collation]

/-- The writes of `settle_many`, to the rows that it has read. -/
def settleWrite (actual : Int) (rows : List Reservation) (s : Accounts) :
    Option (List Uuid × Accounts) :=
  ((rows.foldlM (fun s row => settleRow s actual row) s).toOption).map fun t => ([], t)

/-- `settle_many` once it has locked its reservations. -/
def settleRest (count : Nat) (actual : Int) (rows : List Reservation) : BudgetScript :=
  if rows.length ≠ count then .raise
  else if rows.any fun r => r.actualUnits.any (· ≠ actual) then .raise
  else lockBudgets (.finish (settleWrite actual rows))
    ((rows.map (·.scope)).dedup.insertionSort collation)

/-- `settle_many` locks the reservations that it finds, one after the other, and then their
budgets. -/
def settleScript (count : Nat) (actual : Int) : List Reservation → List Uuid → BudgetScript
  | rows, [] => settleRest collation count actual rows
  | rows, id :: ids => .lock (.reservation id) fun s =>
    settleScript count actual (rows ++ (s.reservations.find? (·.id = id)).toList) ids

/-! ## The calls -/

/-- A call as a transaction. What a call raises is left out: a transaction that raises writes
nothing and lets its locks go. -/
def BudgetCall.script : BudgetCall → BudgetScript
  | .setBudget scope limit =>
    if limit < 0 then .raise
    else .lock (.budget scope) fun _ => .finish fun s =>
      ((Operations.setBudget s scope limit).toOption).map fun t => ([], t)
  | .reserveMany scopes key amount activeOnly newId =>
    if amount < 0 then .raise
    else if scopes = [] ∨ "" ∈ scopes then .raise
    else reserveScript key amount activeOnly newId
      (fun s => some ([], s)) (scopes.dedup.insertionSort (· ≤ ·))
  | .settleMany ids actual =>
    if actual < 0 then .raise
    else if ids = [] then .raise
    else settleScript collation ids.dedup.length actual [] (ids.dedup.insertionSort (· ≤ ·))

/-- A call as one step, with the reservations that it answers with. -/
def BudgetCall.answer (s : Accounts) : BudgetCall → Except Raised (List Uuid × Accounts)
  | .setBudget scope limit => (Operations.setBudget s scope limit).map fun t => ([], t)
  | .reserveMany scopes key amount activeOnly newId =>
      Operations.reserveMany s scopes key amount activeOnly newId
  | .settleMany ids actual => (Operations.settleMany s ids actual).map fun t => ([], t)

/-- The calls one after the other, with their answers. -/
def answering : System (Accounts × List (BudgetCall × List Uuid)) BudgetCall where
  init X := X = ({}, [])
  step X call Y := ∃ ids, call.answer X.1 = .ok (ids, Y.1) ∧ Y.2 = X.2 ++ [(call, ids)]

/-- The statements of the calls, interleaved. -/
def budgetStatements : System (State Accounts LockedRow (List Uuid) BudgetCall Nat)
    (Step BudgetCall Nat) :=
  interleaved (BudgetCall.script collation) (· = {})

end GenusOs.Operations
