import GenusOs.Goals.Model
import GenusOs.Library.Rows
import Mathlib

/-!
# The store of goals

The transactions on the goals of one tenant, which take its lock one after the other. What they ask
of other tables (whether actions are settled, what `verify` finds, whether a task exists) is an
answer that comes with the call.
-/

namespace GenusOs.Goals

/-- What has become of an attempt. -/
inductive AttemptStatus
  | running
  | interrupted
  | finished
  | failed
  deriving DecidableEq, Repr

/-- A row of `pursuit_goal_attempts`: a run of a worker, with what it has used. -/
structure Attempt where
  id : AttemptId
  goalId : GoalId
  status : AttemptStatus := .running
  tokens : Int := 0
  costUsd : ℚ := 0
  deriving DecidableEq, Repr

/-- A row of `pursuit_goal_events`; the payload is the texts of its values. -/
structure Event where
  id : String
  eventType : String
  payload : List (String × String)
  createdAt : Nat
  processed : Bool := false
  deriving DecidableEq, Repr

/-- The tables of one tenant. Its transactions take one lock, so that they are made whole one after
the other. -/
structure Store where
  goals : List Goal := []
  links : List (GoalId × String) := []
  attempts : List Attempt := []
  events : List Event := []
  enabled : Bool := false
  deriving DecidableEq

/-- The row of an id. -/
def row (goals : List Goal) (id : GoalId) : Option Goal := goals.find? (·.id = id)

/-- `save`, which leaves the lease. -/
def save (g : Goal) (goals : List Goal) : List Goal :=
  Rows.updateWhere (·.id = g.id)
    (fun r => { g with leaseId := r.leaseId, leaseUntil := r.leaseUntil })
    goals

variable (env : Env)

/-- `locked`: the row that a text names, under whatever spelling of its id. -/
def locked (goals : List Goal) (goalId : String) : Except String Goal :=
  match env.uuid goalId with
  | none => .error "badly formed hexadecimal UUID string"
  | some id =>
    match row goals id with
    | none => .error "goal not found"
    | some g => .ok g

/-! ## `create` -/

/-- `_create`, for a new id. -/
def Store.create (now : Nat) (spec : CreateGoal) (newId : GoalId) (s : Store) :
    Except String Store :=
  match spec.validate with
  | .error error => .error error
  | .ok spec =>
    match spec.parentGoalId with
    | none =>
      let key := spec.requestKey.map RequestKey.given
      let taken := key.isSome && s.goals.any (·.requestKey = key)
      if spec.requestKey.getD "" ≠ "" ∧ taken then .ok s
      else if taken ∨ s.goals.any (·.id = newId) then .error "duplicate key value"
      else .ok { s with goals := s.goals ++ [spec.newGoal now newId key] }
    | some text =>
      -- `parent_uuid` stores the text of the id
      match (env.uuid text).map env.idText with
      | none => .error "badly formed hexadecimal UUID string"
      | some parentGoalId =>
        match locked env s.goals parentGoalId with
        | .error error => .error error
        | .ok parent =>
          let key := some ((spec.requestKey.filter (· ≠ "")).elim
            (.child parentGoalId spec.objective spec.successCriteria
              (parent.assessment.map (·.at_)))
            RequestKey.given)
          if s.goals.any (·.requestKey = key) then .ok s
          else if parent.kind ≠ .long ∨ parent.status.inactive then
            .error "parent must be an active long-term goal"
          else if spec.kind ≠ .short then .error "execution children must be short-term goals"
          else if s.goals.any (·.id = newId) then .error "duplicate key value"
          else .ok { s with
            goals :=
              s.goals ++ [{ spec with parentGoalId := some parentGoalId }.newGoal now newId key] }

/-! ## `update` -/

/-- What the other tables answer while an update is made. -/
structure Asked where
  /-- `require_settled` passes. -/
  settled : Bool := true
  /-- `reconcile_family` passes. -/
  reconciles : Bool := true
  verification : Verification := { method := "none", independent := false }
  taskFound : Bool := true
  /-- The attempt of the run that updates its own goal. -/
  attempt : Option AttemptId := none

/-- Children that are not closed. -/
def outstanding (goals : List Goal) (goalId : String) : Bool :=
  goals.any fun child => child.parentGoalId = some goalId ∧ ¬ child.status.terminal

/-- What is refused before the transition. -/
def refusedBefore (goals : List Goal) (goalId : String) (change : GoalUpdate) (asked : Asked) :
    Option String :=
  if change.action = .complete ∧ outstanding goals goalId then
    some "finish or cancel outstanding execution children before completing"
  else if (change.action = .complete ∨ change.action = .approve ∨ change.action = .assess) ∧
      !asked.settled then
    some "earlier goal-family actions still require audit readback"
  else if change.action = .reconciled ∧ !asked.reconciles then
    some "operator reconciliation with an audit note is required for unknown actions"
  else none

/-- What is refused after it. -/
def refusedAfter (goals : List Goal) (g : Goal) (change : GoalUpdate)
    (asked : Asked) : Option String :=
  match (if change.action = .resume then g.parentGoalId else none) with
  | some parentGoalId =>
    match locked env goals parentGoalId with
    | .error error => some error
    | .ok parent =>
      if parent.status.inactive then some "make the parent active before resuming this child goal"
      else none
  | none =>
    if change.action = .unlinkTask ∧ change.taskId.getD "" = "" then
      some "unlink_task needs the task to release"
    else if (change.action = .linkTask ∨ change.action = .wait ∧ change.taskId.getD "" ≠ "") ∧
        !asked.taskFound then
      some "task not found in this tenant"
    else none

/-- The verification of new evidence, and the attempt that reports a blocker. -/
def annotate (g : Goal) (change : GoalUpdate) (asked : Asked) : Goal :=
  match change.action with
  | .evidence => { g with
      evidence := g.evidence.dropLast ++ (g.evidence.getLast?.map fun e => { e with
        verification := some (if e.satisfied then asked.verification
          else { method := "negative_assessment", independent := false }) }).toList }
  | .block => { g with lastBlockAttempt := asked.attempt.or g.lastBlockAttempt }
  | _ => g

/-- The tasks that a goal is linked to, whose events wake it. -/
def relink (links : List (GoalId × String)) (g : Goal) (change : GoalUpdate) :
    List (GoalId × String) :=
  let task := change.taskId.getD ""
  if change.action = .unlinkTask then links.filter (· ≠ (g.id, task))
  else if change.action = .linkTask ∨ change.action = .wait ∧ task ≠ "" then
    if (g.id, task) ∈ links then links else links ++ [(g.id, task)]
  else links

/-- A child that waits, closes or stops wakes its active parent. -/
def wakeParent (now : Nat) (g : Goal) (goals : List Goal) : Except String (List Goal) :=
  match g.parentGoalId with
  | none => .ok goals
  | some parentGoalId =>
    if g.status = .waiting ∨ g.status = .complete ∨ g.status = .blocked ∨ g.status = .canceled ∨
        g.status = .review then
      match locked env goals parentGoalId with
      | .error error => .error error
      | .ok parent =>
        if parent.status.inactive then .ok goals
        else .ok
          (save { parent with status := .queued, readyAt := now, version := parent.version + 1 }
          goals)
    else .ok goals

/-- A child that its parent has paused, once the parent is resumed. -/
def Goal.restored (child : Goal) : Goal :=
  let before := child.beforeParentPause.getD .queued
  { child with
    status := if before = .running then .queued else before
    version := child.version + 1
    pausedByParent := none
    beforeParentPause := none }

def restoreChildren (goalId : String) (goals : List Goal) : List Goal :=
  Rows.updateWhere (fun child => child.pausedByParent = some goalId ∧ child.status = .paused)
    Goal.restored goals

/-- A child that follows its parent into a pause or a cancellation. -/
def Goal.followed (goalId : String) (action : Action) (status : Status) (child : Goal) : Goal :=
  let child := if action = .pause ∧ child.status ≠ .paused then
      { child with pausedByParent := some goalId, beforeParentPause := some child.status }
    else child
  { child with status := status, version := child.version + 1 }

def cascade (goalId : String) (action : Action) (status : Status) (goals : List Goal) : List Goal :=
  Rows.updateWhere (fun child => child.parentGoalId = some goalId ∧ ¬ child.status.terminal)
    (Goal.followed goalId action status) goals

/-- What becomes of the children. -/
def moveChildren (goalId : String) (action : Action)
    (status : Status) (goals : List Goal) : List Goal :=
  match action with
  | .resume => restoreChildren goalId goals
  | .pause | .cancel => cascade goalId action status goals
  | _ => goals

/-- `update` -/
def Store.update (now : Nat) (goalId : String) (change : GoalUpdate)
    (operator : Bool) (asked : Asked)
    (s : Store) : Except String Store :=
  match locked env s.goals goalId with
  | .error error => .error error
  | .ok before =>
    match refusedBefore s.goals goalId change asked with
    | some error => .error error
    | none =>
      match before.transition env now change operator with
      | .error error => .error error
      | .ok g =>
        match refusedAfter env s.goals g change asked with
        | some error => .error error
        | none =>
          if change.action = .block ∧ asked.attempt.isSome ∧
              before.lastBlockAttempt = asked.attempt ∧ before.blocker = change.note then .ok s
          else
            let g := annotate g change asked
            match wakeParent env now g (save g s.goals) with
            | .error error => .error error
            | .ok goals => .ok { s with
                goals := moveChildren goalId change.action g.status goals
                links := relink s.links g change }

/-! ## `reconcile` and `claim` -/

/-- The tokens and the cost of an attempt, added to those of a goal. -/
def Goal.charge (tokens : Int) (cost : ℚ) (g : Goal) : Goal :=
  { g with tokensUsed := g.tokensUsed + tokens, costUsd := g.costUsd + cost }

/-- The parent is charged too. -/
def chargeParent (tokens : Int) (cost : ℚ) (g : Goal) (goals : List Goal) :
    Except String (List Goal) :=
  match g.parentGoalId with
  | none => .ok goals
  | some parentGoalId =>
    match locked env goals parentGoalId with
    | .error error => .error error
    | .ok parent =>
        .ok (save { parent.charge tokens cost with version := parent.version + 1 } goals)

/-- A goal whose lease has run out, from the row that was read: its attempt is closed and charged
with what it has used, and the goal is queued again unless it is held or closed. -/
def recover (now : Nat) (s : Store) (r : Goal) : Except String Store :=
  let usage := s.attempts.find? fun a => some a.id = r.leaseId ∧ a.status = .running
  let charged := match usage with
    | some a => r.charge a.tokens a.costUsd
    | none => r
  let parents := match usage with
    | some a => chargeParent env a.tokens a.costUsd r s.goals
    | none => .ok s.goals
  match parents with
  | .error error => .error error
  | .ok goals =>
    let g := { charged with
      recoveryRequired := true
      version := charged.version + 1
      status := if charged.status.inactive then charged.status else .queued
      readyAt := if charged.status.inactive then charged.readyAt else now }
    .ok { s with
      goals := Rows.updateWhere (·.id = g.id)
        (fun r => { r with leaseId := none, leaseUntil := none })
        (save g goals)
      attempts := Rows.updateWhere (fun a => some a.id = r.leaseId ∧ a.status = .running)
        (fun a => { a with status := .interrupted }) s.attempts }

/-- An event that a goal waits for: of its type and with its match, or of a task that it is linked
to. -/
def wakes (links : List (GoalId × String)) (g : Goal) (event : Event) : Bool :=
  let wait := g.wait.getD { reason := "" }
  let task := List.lookup "task_id" event.payload
  let taskMatch := task.getD "" ≠ "" && task = wait.taskId
  let linked := event.eventType = "task.changed" && links.any fun l => l.1 = g.id && some l.2 = task
  let eventMatch := wait.eventType = some event.eventType &&
    wait.eventMatch.all fun m => List.lookup m.1 event.payload = some m.2
  wait.registeredAt.all (· ≤ event.createdAt) && (taskMatch || linked || eventMatch)

/-- The events that are read. -/
def inbox (events : List Event) : List Event :=
  ((events.filter (!·.processed)).insertionSort fun a b => a.createdAt ≤ b.createdAt).take 500

/-- The waiting goals that an event has woken. The events that were read are retired whether or not
they have woken anybody, and where no goal is waiting all of them are. -/
def wakeWaiting (now : Nat) (s : Store) : Store :=
  let waiting := s.goals.filter (·.status = .waiting)
  if waiting = [] then { s with events := s.events.map fun e => { e with processed := true } }
  else
    let events := inbox s.events
    { s with
      goals := (waiting.filter fun g => events.any (wakes s.links g)).foldl
        (fun goals g =>
          save { g with status := .queued, readyAt := now, version := g.version + 1 } goals)
        s.goals
      events := s.events.map fun e => if events.any (·.id = e.id) then
        { e with processed := true } else e }

/-- `reconcile` -/
def reconcile (now : Nat) (s : Store) : Except String Store :=
  ((s.goals.filter fun g => g.leaseUntil.any (· < now)).foldlM (recover env now) s).map
    (wakeWaiting now)

/-- The goals that can be dispatched. -/
def ready (now : Nat) (goals : List Goal) : List Goal :=
  goals.filter fun g => (g.status = .queued ∨ g.status = .waiting) ∧ g.readyAt ≤ now ∧
    ¬ goals.any fun p => some (env.idText p.id) = g.parentGoalId ∧ p.status.inactive

/-- `ORDER BY priority DESC,ready_at ASC LIMIT 1`, `tie` being how the database orders the rest. -/
def firstReady (tie : Goal → Nat) (goals : List Goal) : Option Goal :=
  goals.argmin fun g => toLex (OrderDual.toDual g.priority, toLex (g.readyAt, tie g))

def maxCeilingSweep : Nat := 50

/-- The goal to dispatch, after goals that have reached a ceiling are blocked: the first one that is
ready is asked for its ceilings, and if it has reached one, it is blocked and the next one is
asked. -/
def sweep (now : Nat) (tie : Goal → Nat) : Nat → List Goal → Option Goal × List Goal
  | 0, goals => (none, goals)
  | turns + 1, goals =>
    match firstReady tie (ready env now goals) with
    | none => (none, goals)
    | some g =>
      let reached := g.exceeded env now
      if reached = "" then (some g, goals)
      else sweep now tie turns
        (save { g with status := .blocked, blocker := reached, version := g.version + 1 } goals)

/-- How long a lease holds without a heartbeat. -/
def leaseSeconds : Nat := 90

/-- `claim`, for a new attempt. -/
def Store.claim (now : Nat) (tie : Goal → Nat) (attempt : AttemptId) (s : Store) :
    Except String Store :=
  if !s.enabled then .ok s
  else
    match reconcile env now s with
    | .error error => .error error
    | .ok s =>
      if s.goals.any (·.leaseId.isSome) then .ok s
      else
        match sweep env now tie maxCeilingSweep s.goals with
        | (none, goals) => .ok { s with goals := goals }
        | (some g, goals) =>
          let dispatched := { g with
            status := .running
            version := g.version + 1
            attempts := g.attempts + 1
            attemptProgress := g.progressRevision }
          .ok { s with
            goals := Rows.updateWhere (·.id = g.id)
              (fun r =>
                { r with leaseId := some attempt, leaseUntil := some (future now leaseSeconds) })
              (save dispatched goals)
            attempts := s.attempts ++ [{ id := attempt, goalId := g.id }] }

/-! ## `heartbeat` and `finish` -/

/-- `heartbeat` -/
def Store.heartbeat (now : Nat) (goalId : String) (attempt : AttemptId) (usage : Option (Int × ℚ))
    (s : Store) : Store :=
  let holds (g : Goal) : Bool := env.uuid goalId = some g.id ∧
    g.leaseId = some attempt ∧ s.enabled ∧
    ¬ (g.status = .paused ∨ g.status = .canceled ∨ g.status = .blocked)
  let charged := match usage with
    | some (tokens, cost) =>
      Rows.updateWhere (fun a => a.id = attempt ∧ a.status = .running)
        (fun a => { a with tokens := max a.tokens tokens, costUsd := max a.costUsd cost })
        s.attempts
    | none => s.attempts
  { s with
    goals := Rows.updateWhere holds
      (fun g => { g with leaseUntil := some (future now leaseSeconds) }) s.goals
    attempts := if s.goals.any holds then charged else s.attempts }

/-- What a worker reports at its end. -/
structure Report where
  tokens : Int := 0
  cost : ℚ := 0
  error : String := ""
  budgetExhausted : Bool := false
  interrupted : Bool := false

/-- The goal that was running, after its turn. A turn that fails counts as a failure, and one that
has left no progress as a run without progress; three in a row block the goal. -/
def Goal.endTurn (now : Nat) (report : Report) (g : Goal) : Goal :=
  let queued := { g with status := .queued, readyAt := now }
  let turned := if report.error ≠ "" then
      let failures := g.failures + 1
      let later :=
        { queued with failures, readyAt := future now (min 300 (15 * 2 ^ min failures 4)) }
      if 3 ≤ failures then { later with status := .blocked, blocker := report.error } else later
    else
      let runs := if g.progressRevision = g.attemptProgress then g.noProgressRuns + 1 else 0
      let quiet := { queued with failures := 0, noProgressRuns := runs }
      if 3 ≤ runs then { quiet with
        status := .blocked, blocker := "No progress checkpoint or evidence in three runs" }
      else quiet
  let reached := if report.budgetExhausted then "execution budget exhausted"
    else turned.exceeded env now
  if reached = "" then turned else { turned with status := .blocked, blocker := reached }

/-- A child that its run has blocked wakes its active parent. -/
def wakeBlocked (now : Nat) (was : Status) (g : Goal) (goals : List Goal) :
    Except String (List Goal) :=
  match (if was ≠ .blocked ∧ g.status = .blocked then g.parentGoalId else none) with
  | none => .ok goals
  | some parentGoalId =>
    match locked env goals parentGoalId with
    | .error error => .error error
    | .ok parent =>
      if parent.status.inactive then .ok goals
      else
        .ok (save
          { parent with status := .queued, readyAt := now, version := parent.version + 1 } goals)

/-- `finish` -/
def Store.finish (now : Nat) (goalId : String) (attempt : AttemptId) (report : Report) (s : Store) :
    Except String Store :=
  match s.goals.find? fun g => env.uuid goalId = some g.id ∧ g.leaseId = some attempt with
  | none => .ok s
  | some r =>
    let tokens := max 0 report.tokens
    let cost := max 0 report.cost
    match chargeParent env tokens cost r s.goals with
    | .error error => .error error
    | .ok goals =>
      let charged : Goal := { r.charge tokens cost with
        recoveryRequired := r.recoveryRequired || report.interrupted }
      let turned := if charged.status = .running then charged.endTurn env now report else charged
      let g := { turned with version := turned.version + 1 }
      match wakeBlocked env now r.status g goals with
      | .error error => .error error
      | .ok goals => .ok { s with
          goals := Rows.updateWhere (·.id = g.id)
            (fun r => { r with leaseId := none, leaseUntil := none })
            (save g goals)
          attempts := Rows.updateWhere (·.id = attempt) (fun a => { a with
            status := if report.error ≠ "" then .failed else .finished
            tokens := report.tokens
            costUsd := report.cost }) s.attempts }

/-- `reserve_provider_usage` -/
def Store.reserve (now : Nat) (goalId : String) (attempt : AttemptId) (tokens : Int) (s : Store) :
    Except String Store :=
  match s.goals.find? fun g => env.uuid goalId = some g.id ∧ g.leaseId = some attempt ∧
      g.leaseUntil.any (now < ·) ∧ s.enabled ∧ (g.status = .running ∨ g.status = .queued) with
  | none => .error "goal lease no longer authorizes provider spending"
  | some g =>
    match g.parentGoalId.elim (.ok []) fun text => (locked env s.goals text).map ([·]) with
    | .error error => .error error
    | .ok parent =>
      if (g :: parent).any fun g => g.status.inactive ∨
        (g.tokenBudgetOf : Int) < g.tokensUsed + tokens then
        .error "goal family budget or authority exhausted"
      else if s.attempts.any fun a => a.id = attempt ∧ a.status = .running then
        .ok { s with
          attempts := Rows.updateWhere (fun a => a.id = attempt ∧ a.status = .running)
            (fun a => { a with tokens := max a.tokens tokens }) s.attempts }
      else .error "goal attempt no longer active"

/-! ## The transactions -/

/-- The transactions that agents, operators, workers and the engine make. -/
inductive Op
  | create (spec : CreateGoal) (newId : GoalId)
  | update (goalId : String) (change : GoalUpdate) (operator : Bool) (asked : Asked)
  | claim (tie : Goal → Nat) (attempt : AttemptId)
  | heartbeat (goalId : String) (attempt : AttemptId) (usage : Option (Int × ℚ))
  | finish (goalId : String) (attempt : AttemptId) (report : Report)
  | reserve (goalId : String) (attempt : AttemptId) (tokens : Int)
  | ingest (event : Event)
  | setEnabled (value : Bool)

/-- A transaction; an error rolls it back. -/
def Store.transact (s : Store) (now : Nat) : Op → Except String Store
  | .create spec newId => s.create env now spec newId
  | .update goalId change operator asked => s.update env now goalId change operator asked
  | .claim tie attempt => s.claim env now tie attempt
  | .heartbeat goalId attempt usage => .ok (s.heartbeat env now goalId attempt usage)
  | .finish goalId attempt report => s.finish env now goalId attempt report
  | .reserve goalId attempt tokens => s.reserve env now goalId attempt tokens
  | .ingest event =>
    .ok (if s.events.any (·.id = event.id) then s
      else { s with events := s.events ++ [{ event with createdAt := now, processed := false }] })
  | .setEnabled value => .ok { s with enabled := value }

end GenusOs.Goals
