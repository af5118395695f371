import GenusOs.Library.Rows
import GenusOs.Library.Run
import GenusOs.Python.Json
import GenusOs.Python.Str

/-!
# Durable effect attempts

The `agent_runtime_effects` table and the functions that write it, at the grain of their SQL
statements: `begin` is a transaction of three statements under an advisory lock on its tenant and
principal, `resolve` reads a record, asks a verifier outside the transaction and then compares and
sets; every other function is one statement. What `record` and `resolve` store is redacted, and
arguments are fingerprinted by a digest: both are parameters.
-/

namespace GenusOs.Engine.Runtime

open GenusOs.Python

/-! ## Records -/

inductive EffectState
  | prepared
  | dispatching
  | uncertain
  | finished
  | confirmed
  | notApplied
  deriving DecidableEq, Repr

/-- `state IN ('prepared','dispatching','uncertain')`. -/
def EffectState.unresolved : EffectState → Bool
  | .prepared | .dispatching | .uncertain => true
  | .finished | .confirmed | .notApplied => false

/-- `state IN ('prepared','dispatching')`. -/
def EffectState.active : EffectState → Bool
  | .prepared | .dispatching => true
  | _ => false

/-- A row of `agent_runtime_effects`; times are microseconds. -/
structure Effect where
  id : String
  tenantId : String
  principalId : String
  requestId : String
  runId : String
  agentId : String
  goalId : Option String
  budgetId : Option String
  toolName : String
  fingerprint : String
  state : EffectState
  version : Nat := 1
  resolution : Option Json := none
  createdAt : Int
  updatedAt : Int
  deriving Repr

/-- The tenant and the principal an effect belongs to. -/
abbrev Scope := String × String

def Effect.scope (e : Effect) : Scope := (e.tenantId, e.principalId)

/-- The columns of `agent_runtime_effects_unresolved_intent`. -/
def Effect.intent (e : Effect) : Scope × String := (e.scope, e.fingerprint)

/-- What a request asks for once. -/
def Effect.key (e : Effect) : Scope × String × String := (e.scope, e.requestId, e.fingerprint)

def Effect.unresolved (e : Effect) : Bool := e.state.unresolved

structure ExecutionContext where
  tenantId : String
  principalId : String
  requestId : String
  goalId : Option String := none
  budgetId : Option String := none
  deriving DecidableEq, Repr

def ExecutionContext.scope (c : ExecutionContext) : Scope := (c.tenantId, c.principalId)

/-- `resolution->>'source'`. -/
def source (resolution : Option Json) : Option String :=
  match resolution with
  | some (.obj entries) =>
    match List.lookup "source" entries with
    | some (.str s) => some s
    | _ => none
  | _ => none

/-- `state='confirmed' OR state='finished' AND resolution->>'source'='tool_response'`. -/
def Effect.stored (e : Effect) : Bool :=
  e.state = .confirmed || (e.state = .finished && source e.resolution = some "tool_response")

/-- `a = b` between two nullable columns: not true where either is `NULL`. -/
def sqlEq (a b : Option String) : Bool :=
  match a, b with
  | some x, some y => x = y
  | _, _ => false

def READBACK_TOOLS : List String := ["create_task", "create_note"]

def HOST_LOCAL_TOOLS : List String := ["exec", "execute_code", "browser", "write_file"]

/-- 24 hours. -/
def UNCERTAIN_FENCE_WINDOW : Int := 24 * 60 * 60 * 1000000

/-- SHA-256 over the canonical JSON of `[tool_name, arguments]`, and `redact_tool_result`. -/
structure Platform where
  digest : String → Json → String
  redact : Json → Json

def fingerprint (env : Platform) (toolName : String) (arguments : Json) : String :=
  match toolName, arguments with
  | "create_task", .obj entries =>
    env.digest "create_task" (.obj (entries.filter fun e => e.1 ≠ "finalReport"))
  | _, _ => env.digest toolName arguments

/-! ## `begin` -/

/-- A call of `begin`, with its arguments fingerprinted. -/
structure BeginCall where
  context : ExecutionContext
  runId : String
  agentId : String
  toolName : String
  digest : String
  deriving DecidableEq, Repr

/-- The arguments of `begin`, fingerprinted. -/
def BeginCall.of (env : Platform) (context : ExecutionContext) (runId agentId toolName : String)
    (arguments : Json) : BeginCall :=
  { context, runId, agentId, toolName, digest := fingerprint env toolName arguments }

def BeginCall.key (c : BeginCall) : Scope × String × String :=
  (c.context.scope, c.context.requestId, c.digest)

/-- The statement `begin` runs next. -/
inductive BeginPhase
  | find
  | fence
  | insert
  deriving DecidableEq, Repr

/-- The first `SELECT`: the newest stored result of this fingerprint in this request. -/
def findStored (rows : List Effect) (c : BeginCall) : Option Effect :=
  Rows.newest (·.createdAt) (rows.filter fun e => e.scope = c.context.scope &&
    e.requestId = c.context.requestId && e.fingerprint = c.digest && e.stored)

/-- The record fences the call. -/
def fences (c : BeginCall) (now : Int) (e : Effect) : Bool :=
  e.scope = c.context.scope &&
    ((e.state.unresolved && e.fingerprint = c.digest) ||
      (e.state = .uncertain &&
        (e.requestId = c.context.requestId || sqlEq e.goalId c.context.goalId ||
          sqlEq e.budgetId c.context.budgetId ||
          (e.goalId.isNone && e.budgetId.isNone && e.toolName = c.toolName &&
            !(HOST_LOCAL_TOOLS.contains c.toolName) &&
            (READBACK_TOOLS.contains c.toolName ||
              e.updatedAt > now - UNCERTAIN_FENCE_WINDOW)))))

/-- The second `SELECT`: the oldest record that fences the call. -/
def findPending (rows : List Effect) (c : BeginCall) (now : Int) : Option Effect :=
  Rows.oldest (·.createdAt) (rows.filter (fences c now))

/-- The row the `INSERT` adds. -/
def BeginCall.row (c : BeginCall) (id : String) (now : Int) : Effect where
  id := id
  tenantId := c.context.tenantId
  principalId := c.context.principalId
  requestId := c.context.requestId
  runId := c.runId
  agentId := c.agentId
  goalId := c.context.goalId
  budgetId := c.context.budgetId
  toolName := c.toolName
  fingerprint := c.digest
  state := .prepared
  createdAt := now
  updatedAt := now

/-- The `INSERT` violates the primary key or the partial unique index. -/
def violatesUnique (rows : List Effect) (row : Effect) : Bool :=
  rows.any fun e => e.id = row.id || (e.unresolved && e.intent = row.intent)

/-! ## The single-statement functions -/

/-- `SET state, version=version+1, updated_at=now()`. -/
def Effect.moveTo (e : Effect) (state : EffectState) (now : Int) : Effect :=
  { e with state := state, version := e.version + 1, updatedAt := now }

/-- The row is the run's own: `id`, tenant, principal, request and run agree. -/
def Effect.ownedBy (e : Effect) (context : ExecutionContext) (effectId runId : String) : Bool :=
  e.id = effectId && e.scope = context.scope && e.requestId = context.requestId && e.runId = runId

def markDispatched (context : ExecutionContext) (effectId runId : String) (now : Int)
    (rows : List Effect) : List Effect × Bool :=
  let mine (e : Effect) := e.ownedBy context effectId runId && e.state = .prepared
  (Rows.updateWhere mine (·.moveTo .dispatching now) rows, Rows.rowcount mine rows = 1)

def record (env : Platform) (context : ExecutionContext) (effectId runId : String) (result : Json)
    (now : Int) (rows : List Effect) : List Effect × Bool :=
  let mine (e : Effect) := e.ownedBy context effectId runId && e.state = .dispatching
  let stored := Json.obj [("source", .str "tool_response"), ("result", env.redact result)]
  (Rows.updateWhere mine (fun e => { e.moveTo .finished now with resolution := some stored }) rows,
    Rows.rowcount mine rows = 1)

def finish (context : ExecutionContext) (effectId runId : String) (uncertain : Bool) (now : Int)
    (rows : List Effect) : List Effect × Bool :=
  let mine (e : Effect) := e.ownedBy context effectId runId && e.state.active
  (Rows.updateWhere mine (·.moveTo (if uncertain then .uncertain else .finished) now) rows,
    Rows.rowcount mine rows = 1)

/-- `CASE WHEN state='prepared' THEN 'not_applied' ELSE 'uncertain' END`. -/
def Effect.withdraw (e : Effect) (now : Int) : Effect :=
  e.moveTo (if e.state = .prepared then .notApplied else .uncertain) now

def abandonRun (context : ExecutionContext) (runId : String) (now : Int) (rows : List Effect) :
    List Effect × Nat :=
  let lost (e : Effect) := e.scope = context.scope && e.runId = runId && e.state.active
  (Rows.updateWhere lost (·.withdraw now) rows, Rows.rowcount lost rows)

/-- The statement of `sweep_terminal`: of the active records whose run has ended, those `chosen`
by its `LIMIT 100 … SKIP LOCKED`. -/
def sweepTerminal (tenantId : String) (endedRuns chosen : List String) (now : Int)
    (rows : List Effect) : List Effect × Nat :=
  let abandoned (e : Effect) := e.tenantId = tenantId && e.state.active &&
    endedRuns.contains e.runId && chosen.contains e.id
  (Rows.updateWhere abandoned (·.withdraw now) rows, Rows.rowcount abandoned rows)

/-- The rotation at the end of `note_recovery.sweep` and `task_recovery.sweep`: an unresolved
readback goes to the back of the queue, its version unchanged. -/
def rotate (tenantId effectId : String) (now : Int) (rows : List Effect) : List Effect :=
  Rows.updateWhere (fun e => e.id = effectId && e.tenantId = tenantId && e.state = .uncertain)
    ({ · with updatedAt := now }) rows

/-- `chat_effect_recovery.reconcile_record` on a record whose own run has ended. -/
def revokeAdmission (scope : Scope) (effectId : String) (endedRuns : List String) (now : Int)
    (rows : List Effect) : List Effect :=
  Rows.updateWhere
    (fun e => e.id = effectId && e.scope = scope && e.state.active && endedRuns.contains e.runId)
    (·.withdraw now) rows

/-- `task_receipts._bind`: the existing task a dispatched `create_task` was deduplicated to. -/
def bindReceipt (effectId runId : String) (scope : Scope) (taskId : String) (now : Int)
    (rows : List Effect) : List Effect :=
  let lookup := Json.obj [("lookup", .obj [("task_id", .str taskId)])]
  Rows.updateWhere
    (fun e => e.id = effectId && e.scope = scope && e.runId = runId && e.state = .dispatching &&
      e.toolName = "create_task" && (e.resolution.isNone || e.resolution.any (boundTo taskId)))
    (fun e => { e.moveTo .dispatching now with resolution := some lookup }) rows
where
  /-- `resolution->'lookup'->>'task_id' = task_id`. -/
  boundTo (taskId : String) : Json → Bool
    | .obj entries =>
      match List.lookup "lookup" entries with
      | some (.obj found) =>
        match List.lookup "task_id" found with
        | some (.str id) => id = taskId
        | _ => false
      | _ => false
    | _ => false

/-! ## Settling an uncertain record -/

structure Verification where
  outcome : String
  settled : Bool := false
  reference : String := ""
  result : Json := .null

/-- What `resolve` makes of its verifier's answer: an error, no verdict, or the state and the
resolution to set. -/
def Verification.verdict (env : Platform) (v : Verification) :
    Except String (Option (EffectState × Json)) :=
  if v.outcome ∉ ["applied", "not_applied", "unknown"] then
    .error "invalid provider verification"
  else if v.outcome = "unknown" || !v.settled then .ok none
  else if v.reference = "" then .error "provider evidence reference required"
  else if v.outcome = "applied" && !(isResult v.result) then .error "verified result required"
  else
    .ok (some (if v.outcome = "applied" then .confirmed else .notApplied,
      .obj [("reference", .str v.reference), ("result", env.redact v.result)]))
where
  /-- A dict without an error. -/
  isResult : Json → Bool
    | .obj entries => !(Dict.get entries "error" .null).truthy
    | _ => false

/-- `read`. -/
def read (scope : Scope) (effectId : String) (rows : List Effect) : Option Effect :=
  rows.find? fun e => e.id = effectId && e.scope = scope

/-- The compare-and-set of `resolve`, for the record it read. -/
def compareAndSet (scope : Scope) (was : Effect) (state : EffectState) (resolution : Json)
    (now : Int) (rows : List Effect) : List Effect × Bool :=
  let same (e : Effect) := e.id = was.id && e.scope = scope && e.version = was.version &&
    e.state = .uncertain
  (Rows.updateWhere same (fun e => { e.moveTo state now with resolution := some resolution }) rows,
    Rows.rowcount same rows = 1)

/-- `_release`. -/
def release (scope : Scope) (effectId src actor note : String) (now : Int) (rows : List Effect) :
    Except String (List Effect × Bool) :=
  if strip actor = "" || strip note = "" then
    .error "reconciliation requires an actor and an audit note"
  else
    let mine (e : Effect) := e.id = effectId && e.scope = scope && e.goalId.isNone &&
      e.state = .uncertain
    let resolution := Json.obj [("source", .str src), ("verified", .bool false),
      ("actor", .str actor), ("note", .str note)]
    .ok (Rows.updateWhere mine
      (fun e => { e.moveTo .finished now with resolution := some resolution }) rows,
      Rows.rowcount mine rows = 1)

def attest (scope : Scope) (effectId actor note : String) :=
  release scope effectId "reconciled" actor note

def expire (scope : Scope) (effectId actor note : String) :=
  release scope effectId "expired" actor note

/-- `effect_summary.reconcile_family`, for the goals of the family: one transaction, whose
`SELECT … FOR UPDATE` keeps the records from changing before its `UPDATE`. -/
def reconcileFamily (tenantId : String) (family : List String) (actor note : String)
    (operator : Bool) (now : Int) (rows : List Effect) : Except String (List Effect) :=
  let pending := rows.filter fun e =>
    e.tenantId = tenantId && e.goalId.any family.contains && e.unresolved
  if pending.isEmpty then .ok rows
  else if !operator || strip actor = "" || strip note = "" then
    .error "operator reconciliation with an audit note is required for unknown actions"
  else if pending.any (·.state ≠ .uncertain) then
    .error "stop active dispatches before reconciliation"
  else
    let resolution := Json.obj [("source", .str "reconciled"), ("verified", .bool false),
      ("actor", .str actor), ("note", .str note)]
    .ok (Rows.updateWhere
      (fun e => e.tenantId = tenantId && (pending.map (·.id)).contains e.id &&
        e.state = .uncertain)
      (fun e => { e.moveTo .finished now with resolution := some resolution }) rows)

/-! ## The ledger and its writers -/

/-- A `begin` that holds its advisory lock. -/
structure Admission where
  ticket : Nat
  call : BeginCall
  phase : BeginPhase

/-- What a `begin` answers; `failed` where the `INSERT` violates a constraint. -/
inductive BeginResult
  | stored (e : Effect)
  | pending (effectId : String)
  | fresh (e : Effect)
  | failed

/-- The answer of the `begin` that was given `ticket` when it took its lock. -/
structure Answer where
  ticket : Nat
  call : BeginCall
  result : BeginResult

/-- The table, the `begin` in progress for each tenant and principal, the records that `resolve`
calls wait for a verdict on, and the answers given so far. -/
structure Ledger where
  rows : List Effect := []
  locks : Scope → Option Admission := fun _ => none
  reads : List (Scope × Effect) := []
  ticket : Nat := 0
  answers : List Answer := []

/-- One statement of one call, by whichever run makes it. -/
inductive Action
  | lock (context : ExecutionContext) (runId agentId toolName : String) (arguments : Json)
  | find (scope : Scope)
  | fence (scope : Scope) (now : Int)
  | insert (scope : Scope) (id : String) (now : Int)
  | crash (scope : Scope)
  | markDispatched (context : ExecutionContext) (effectId runId : String) (now : Int)
  | record (context : ExecutionContext) (effectId runId : String) (result : Json) (now : Int)
  | finish (context : ExecutionContext) (effectId runId : String) (uncertain : Bool) (now : Int)
  | abandonRun (context : ExecutionContext) (runId : String) (now : Int)
  | read (scope : Scope) (effectId : String)
  | verdict (i : Nat) (v : Verification) (now : Int)
  | attest (scope : Scope) (effectId actor note : String) (now : Int)
  | expire (scope : Scope) (effectId actor note : String) (now : Int)
  | sweepTerminal (tenantId : String) (endedRuns chosen : List String) (now : Int)
  | rotate (tenantId effectId : String) (now : Int)
  | revokeAdmission (scope : Scope) (effectId : String) (endedRuns : List String) (now : Int)
  | bindReceipt (effectId runId : String) (scope : Scope) (taskId : String) (now : Int)
  | reconcileFamily (tenantId : String) (family : List String) (actor note : String)
      (operator : Bool) (now : Int)

namespace Ledger

variable (s : Ledger)

/-- The transaction ends: the lock is free, and the call has its answer. -/
def answer (a : Admission) (result : BeginResult) : Ledger :=
  { s with
    locks := Function.update s.locks a.call.context.scope none
    answers := s.answers ++ [{ ticket := a.ticket, call := a.call, result := result }] }

def goOn (a : Admission) (phase : BeginPhase) : Ledger :=
  { s with
    locks := Function.update s.locks a.call.context.scope (some { a with phase := phase }) }

/-- The `begin` in progress for `scope`, where its next statement is that of `phase`. -/
def admission (scope : Scope) (phase : BeginPhase) : Option Admission :=
  (s.locks scope).filter (·.phase = phase)

/-- A transaction that raises is rolled back. -/
def orUnchanged (rows : Except String (List Effect)) : Ledger :=
  match rows with
  | .ok rows => { s with rows := rows }
  | .error _ => s

def beginLock (call : BeginCall) : Option Ledger :=
  match s.locks call.context.scope with
  | some _ => none
  | none => some { s with
      locks := Function.update s.locks call.context.scope
        (some { ticket := s.ticket, call := call, phase := .find })
      ticket := s.ticket + 1 }

def beginFind (scope : Scope) : Option Ledger :=
  (s.admission scope .find).map fun a =>
    match findStored s.rows a.call with
    | some e => s.answer a (.stored e)
    | none => s.goOn a .fence

def beginFence (scope : Scope) (now : Int) : Option Ledger :=
  (s.admission scope .fence).map fun a =>
    match findPending s.rows a.call now with
    | some e => s.answer a (.pending e.id)
    | none => s.goOn a .insert

def beginInsert (scope : Scope) (id : String) (now : Int) : Option Ledger :=
  (s.admission scope .insert).map fun a =>
    let row := a.call.row id now
    if violatesUnique s.rows row then s.answer a .failed
    else { s.answer a (.fresh row) with rows := s.rows ++ [row] }

/-- `resolve`, up to its call of the verifier. -/
def resolveRead (scope : Scope) (effectId : String) : Ledger :=
  match read scope effectId s.rows with
  | some e => if e.state = .uncertain then { s with reads := s.reads ++ [(scope, e)] } else s
  | none => s

/-- `resolve`, from its verifier's answer on. -/
def resolveVerdict (env : Platform) (i : Nat) (v : Verification) (now : Int) : Option Ledger :=
  (s.reads[i]?).map fun (scope, was) =>
    let s := { s with reads := s.reads.eraseIdx i }
    match v.verdict env with
    | .ok (some (state, resolution)) =>
      { s with rows := (compareAndSet scope was state resolution now s.rows).1 }
    | .ok none | .error _ => s

def step (env : Platform) (s : Ledger) : Action → Option Ledger
  | .lock context runId agentId toolName arguments =>
    s.beginLock (.of env context runId agentId toolName arguments)
  | .find scope => s.beginFind scope
  | .fence scope now => s.beginFence scope now
  | .insert scope id now => s.beginInsert scope id now
  | .crash scope => some { s with locks := Function.update s.locks scope none }
  | .markDispatched context effectId runId now =>
    some { s with rows := (markDispatched context effectId runId now s.rows).1 }
  | .record context effectId runId result now =>
    some { s with rows := (record env context effectId runId result now s.rows).1 }
  | .finish context effectId runId uncertain now =>
    some { s with rows := (finish context effectId runId uncertain now s.rows).1 }
  | .abandonRun context runId now => some { s with rows := (abandonRun context runId now s.rows).1 }
  | .read scope effectId => some (s.resolveRead scope effectId)
  | .verdict i v now => s.resolveVerdict env i v now
  | .attest scope effectId actor note now =>
    some (s.orUnchanged ((attest scope effectId actor note now s.rows).map (·.1)))
  | .expire scope effectId actor note now =>
    some (s.orUnchanged ((expire scope effectId actor note now s.rows).map (·.1)))
  | .sweepTerminal tenantId endedRuns chosen now =>
    some { s with rows := (sweepTerminal tenantId endedRuns chosen now s.rows).1 }
  | .rotate tenantId effectId now => some { s with rows := rotate tenantId effectId now s.rows }
  | .revokeAdmission scope effectId endedRuns now =>
    some { s with rows := revokeAdmission scope effectId endedRuns now s.rows }
  | .bindReceipt effectId runId scope taskId now =>
    some { s with rows := bindReceipt effectId runId scope taskId now s.rows }
  | .reconcileFamily tenantId family actor note operator now =>
    some (s.orUnchanged (reconcileFamily tenantId family actor note operator now s.rows))

end Ledger

/-- The ledger from its empty table on, under any interleaving of its writers. -/
def effectSystem (env : Platform) : System Ledger Action :=
  .ofStep (· = {}) (Ledger.step env)

end GenusOs.Engine.Runtime
