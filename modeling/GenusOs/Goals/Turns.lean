import GenusOs.Goals.Family
import Mathlib

/-!
# Turns

What happens to the turns of the goals is noted beside the store, from the calls alone: which goal a
claim has given its lease to, whether anything was recorded since, how the run ended, and when the
operator has resumed the goal. The counters that the program keeps in the rows do not occur here;
that they say the same is a theorem about the transactions.

* `noted`: what a transaction adds to the history.
* `tally`: what the history of a goal comes to.
* `HeldUntilResumed`: nothing happens to a goal after three such turns before it is resumed.
-/

namespace GenusOs.Goals

open Rows

inductive TurnEvent
  /-- A claim has given the goal the lease of a new attempt. -/
  | dispatched (goal : GoalId) (attempt : AttemptId)
  /-- A new checkpoint or an evidence is recorded. -/
  | progressed (goal : GoalId)
  /-- The run that holds the lease ends, the goal being still `running`. -/
  | ended (goal : GoalId) (failed : Bool)
  /-- The operator has resumed the goal. -/
  | resumed (goal : GoalId)
  deriving DecidableEq, Repr

namespace TurnEvent

def goal : TurnEvent → GoalId
  | dispatched goal _ | progressed goal | ended goal _ | resumed goal => goal

/-- The attempt that begins, and the goal it is of. -/
def run : TurnEvent → Option (AttemptId × GoalId)
  | dispatched goal attempt => some (attempt, goal)
  | _ => none

end TurnEvent

/-- The attempt and the goal it is of. -/
def Attempt.run (a : Attempt) : AttemptId × GoalId := (a.id, a.goalId)

/-- What a command that goes through adds to the history of its goal. Only the operator resumes. -/
def Goal.noted (g : Goal) (change : GoalUpdate) (operator : Bool) : List TurnEvent :=
  match change.action with
  | .progress => if change.note ≠ g.checkpoint then [.progressed g.id] else []
  | .evidence => [.progressed g.id]
  | .resume => if operator then [.resumed g.id] else []
  | _ => []

/-- What a transaction that goes through adds to the history. A run that ends while its goal waits,
or is queued again, or is held, is no turn of the goal: the program counts it as little. -/
def noted (env : Env) (s : Store) (op : Nat × Op) : List TurnEvent :=
  match op.2 with
  | .claim tie attempt =>
    match s.claim env op.1 tie attempt with
    | .ok t => (t.attempts.drop s.attempts.length).map fun a => .dispatched a.goalId a.id
    | .error _ => []
  | .finish goalId attempt report =>
    match s.goals.find? fun g => env.uuid goalId = some g.id ∧ g.leaseId = some attempt with
    | some g => if g.status = .running then [.ended g.id (report.error ≠ "")] else []
    | none => []
  | .update goalId change operator _ =>
    match locked env s.goals goalId with
    | .ok g => g.noted change operator
    | .error _ => []
  | _ => []

/-- The transactions, and the history of the turns. -/
def history (env : Env) : System (Store × List TurnEvent) (Nat × Op) :=
  (transactions env).record (noted env)

/-! ## What a history comes to -/

structure Tally where
  /-- Something was recorded since the last dispatch. -/
  moved : Bool := false
  /-- The turns that have failed since the last one that has not. -/
  failures : Nat := 0
  /-- The turns that have ended with nothing recorded since the last one that ended with something
  recorded, those that failed left out. -/
  idle : Nat := 0
  deriving DecidableEq, Repr

def Tally.next (n : Tally) : TurnEvent → Tally
  | .dispatched _ _ => { n with moved := false }
  | .progressed _ => { n with moved := true }
  | .ended _ true => { n with failures := n.failures + 1 }
  | .ended _ false => { n with failures := 0, idle := if n.moved then 0 else n.idle + 1 }
  | .resumed _ => { n with failures := 0, idle := 0 }

/-- What the events of a goal make of its tally. -/
def Tally.after (n : Tally) (id : GoalId) (events : List TurnEvent) : Tally :=
  (events.filter (·.goal = id)).foldl Tally.next n

def tally (log : List TurnEvent) (id : GoalId) : Tally := Tally.after {} id log

/-- Since the operator has last resumed the goal, three turns in a row have failed, or three in a
row have made no progress. -/
def Exhausted (log : List TurnEvent) (id : GoalId) : Prop :=
  3 ≤ (tally log id).failures ∨ 3 ≤ (tally log id).idle

/-- A goal that is exhausted has no turn, no claim gives it a lease and nothing is recorded of it,
until the operator resumes it. -/
def HeldUntilResumed (log : List TurnEvent) : Prop :=
  ∀ before during rest id, log = before ++ during ++ rest →
    Exhausted before id → .resumed id ∉ during →
    ∀ e ∈ during, e.goal ≠ id

variable {n : Tally} {id : GoalId} {events events' log : List TurnEvent} {e : TurnEvent}

@[simp]
theorem Tally.after_nil : n.after id [] = n := rfl

theorem Tally.after_append : n.after id
    (events ++ events') = (n.after id events).after id events' := by
  unfold Tally.after
  rw [List.filter_append, List.foldl_append]

/-- The events of the others. -/
theorem Tally.after_other (h : ∀ e ∈ events, e.goal ≠ id) : n.after id events = n := by
  unfold Tally.after
  rw [List.filter_eq_nil_iff.mpr fun e he => by simpa using h e he]
  rfl

theorem Tally.after_own (n : Tally) (e : TurnEvent) (h : e.goal = id) :
    n.after id [e] = n.next e := by
  unfold Tally.after
  rw [List.filter_cons_of_pos (by simpa using h)]
  rfl

theorem tally_append : tally (log ++ events) id = (tally log id).after id events :=
  Tally.after_append

/-- A goal stays exhausted while nothing is noted of it. -/
theorem Exhausted.append (h : Exhausted log id) (hother : ∀ e ∈ events, e.goal ≠ id) :
    Exhausted (log ++ events) id := by
  unfold Exhausted
  rw [tally_append, Tally.after_other hother]
  exact h

theorem heldUntilResumed_nil : HeldUntilResumed [] := by
  intro before during rest id hlog _ _ e he
  obtain ⟨hfront, -⟩ := List.append_eq_nil_iff.mp hlog.symm
  obtain ⟨-, rfl⟩ := List.append_eq_nil_iff.mp hfront
  cases he

theorem HeldUntilResumed.concat (h : HeldUntilResumed log)
    (he : Exhausted log e.goal → e = .resumed e.goal) : HeldUntilResumed (log ++ [e]) := by
  intro before during rest id hlog hspent hnot
  induction rest using List.reverseRecOn with
  | append_singleton rest _ _ =>
    rw [← List.append_assoc] at hlog
    exact h before during rest id (List.append_inj_left' hlog rfl) hspent hnot
  | nil =>
    rw [List.append_nil] at hlog
    induction during using List.reverseRecOn with
    | nil => exact fun _ hmem => absurd hmem List.not_mem_nil
    | append_singleton during last _ =>
      rw [← List.append_assoc] at hlog
      obtain ⟨rfl, hlast⟩ := List.append_inj' hlog rfl
      obtain rfl : e = last := List.singleton_inj.mp hlast
      have hduring : ∀ d ∈ during, d.goal ≠ id :=
        h before during [] id (List.append_nil _).symm hspent fun hmem =>
          hnot (List.mem_append_left _ hmem)
      intro d hd
      rcases List.mem_append.mp hd with hd | hd
      · exact hduring d hd
      · -- the last event is of the goal only if it resumes it, which it does not
        obtain rfl := List.mem_singleton.mp hd
        intro hgoal
        subst hgoal
        exact hnot
          (List.mem_append_right _ (List.mem_singleton.mpr (he (hspent.append hduring)).symm))

end GenusOs.Goals
