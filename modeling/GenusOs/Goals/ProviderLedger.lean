import GenusOs.Goals.Control
import Mathlib

/-!
# The tokens of an attempt

`DurableAttemptBudget` and its reservations, beside the other transactions of the store.
-/

namespace GenusOs.Goals

open Rows

/-- A row of `pursuit_goal_provider_reservations`. -/
structure Reservation where
  attemptId : AttemptId
  callId : String
  reserved : Int
  actual : Option Int := none
  deriving DecidableEq, Repr

/-- The store, with the reservations of its attempts. -/
structure Ledger where
  store : Store := {}
  reservations : List Reservation := []
  deriving DecidableEq

variable (env : Env)

/-- `_attempt`: the attempt and its goal. -/
def Store.attemptOf (goalId : String) (attempt : AttemptId) (s : Store) :
    Except String (Attempt × Goal) :=
  match s.attempts.find? fun a => a.id = attempt ∧ env.uuid goalId = some a.goalId with
  | none => .error "goal attempt not found"
  | some a =>
    match row s.goals a.goalId with
    | none => .error "goal attempt not found"
    | some g => .ok (a, g)

/-- The parent of a goal, if it has one. -/
def parentOf (goals : List Goal) (g : Goal) : Except String (List Goal) :=
  g.parentGoalId.elim (.ok []) fun text => (locked env goals text).map ([·])

/-- `_authorized_attempt`: a reservation is made under the lease of the goal only, before it runs
out. -/
def Store.authorizedAttempt (now : Nat) (goalId : String) (attempt : AttemptId) (s : Store) :
    Except String (Attempt × Goal) :=
  match s.attemptOf env goalId attempt with
  | .error error => .error error
  | .ok (a, g) =>
    if a.status ≠ .running ∨ g.leaseId ≠ some attempt ∨ ¬ g.leaseUntil.any (now < ·) ∨ !s.enabled ∨
        ¬ (g.status = .running ∨ g.status = .queued) then
      .error "goal lease no longer authorizes provider spending"
    else
      match parentOf env s.goals g with
      | .error error => .error error
      | .ok parent =>
        if parent.any (·.status.inactive) then
          .error "goal family authority exhausted" else .ok (a, g)

/-- The tokens of a running attempt. -/
def charge (attempt : AttemptId) (tokens : Attempt → Int) (s : Store) : Store :=
  { s with
    attempts :=
      updateWhere (·.id = attempt) (fun a => { a with tokens := tokens a }) s.attempts }

/-- `reserve`: the maximum of a call is added to what the attempt has used, if the budgets of the
goal and of its parent have room. A call that is reserved already is not reserved again. -/
def Ledger.reserve (now : Nat) (goalId : String) (attempt : AttemptId)
    (callId : String) (maximum : Int)
    (l : Ledger) : Except String Ledger :=
  if callId = "" ∨ maximum ≤ 0 then .error "call identity and positive bound required"
  else
    match l.store.authorizedAttempt env now goalId attempt with
    | .error error => .error error
    | .ok (a, g) =>
      let reservations := l.reservations.filter (·.attemptId = attempt)
      if reservations.any (·.callId = callId) then
        .error "provider call already reserved; do not redispatch"
      else if reservations.any fun r => r.actual.any (r.reserved < ·) then
        .error "provider overrun closes further admission"
      else
        match parentOf env l.store.goals g with
        | .error error => .error error
        | .ok parent =>
          let total := a.tokens + maximum
          if (g :: parent).any fun g => g.status.inactive ∨
              (g.tokenBudgetOf : Int) < g.tokensUsed + total then
            .error "goal family budget or authority exhausted"
          else .ok {
            store := charge attempt (fun _ => total) l.store
            reservations :=
              l.reservations ++ [{ attemptId := attempt, callId, reserved := maximum }] }

/-- `settle`: what a call has not used is given back. An overrun is committed before it is
raised. -/
def Ledger.settle (goalId : String) (attempt : AttemptId) (callId : String) (actual : Option Int)
    (l : Ledger) : Except String Ledger :=
  if actual.any (· < 0) then .error "invalid usage"
  else
    match l.store.attemptOf env goalId attempt with
    | .error error => .error error
    | .ok (a, g) =>
      match l.reservations.find? fun r => r.attemptId = attempt ∧ r.callId = callId with
      | none => .error "provider call was not reserved"
      | some r =>
        match actual with
        | none => .ok l
        | some actual =>
          match r.actual with
          | some before => if before ≠ actual then .error "conflicting usage event" else .ok l
          | none =>
            if a.status ≠ .running ∨ g.leaseId ≠ some attempt then
              .error "closed attempt requires explicit usage reconciliation"
            else .ok {
              store := charge attempt (fun a => a.tokens + (actual - r.reserved)) l.store
              reservations := updateWhere (fun r => r.attemptId = attempt ∧ r.callId = callId)
                (fun r => { r with actual := some actual }) l.reservations }

/-- The transactions of the store, and those on the reservations. -/
inductive LedgerOp
  | store (op : Op)
  | reserve (goalId : String) (attempt : AttemptId) (callId : String) (maximum : Int)
  | settle (goalId : String) (attempt : AttemptId) (callId : String) (actual : Option Int)

/-- A transaction; an error rolls it back. -/
def Ledger.transact (now : Nat) (l : Ledger) : LedgerOp → Except String Ledger
  | .store op => (l.store.transact env now op).map fun store => { l with store }
  | .reserve goalId attempt callId maximum => l.reserve env now goalId attempt callId maximum
  | .settle goalId attempt callId actual => l.settle env goalId attempt callId actual

/-- The transactions that go through, the id of an attempt being a primary key. -/
def ledger : System Ledger (Nat × LedgerOp) where
  init l := l = {}
  step l op l' := l.transact env op.1 op.2 = .ok l' ∧ KeyUnique Attempt.id l'.store.attempts

end GenusOs.Goals
