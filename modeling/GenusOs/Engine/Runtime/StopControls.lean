import GenusOs.Library.Closure
import GenusOs.Library.Rows
import GenusOs.Library.Run

/-!
# Durable stop authority

`issue`, `issue_request` and `stopped_for_iteration` of one process over the shared tables, at the
grain of their transactions and lock sections: an issue commits, bumps the generation and empties
the cache, signals the local sessions and returns; a verdict is asked for under the lock, read from
the database without it, and stored under it again if the generation is still the same. Calls are
in flight in any number, other processes commit stops of their own, and runs are recorded.

The local signals of `signal_stopped` read the database and touch neither the tables nor the cache.
-/

namespace GenusOs.Engine.Runtime.Controls

/-! ## The tables -/

/-- A row of `agent_runs`. The optional texts come from its `runtime_context`. -/
structure RunRow where
  tenant : String
  id : String
  parentRunId : Option String := none
  resumeFromRunId : Option String := none
  requestId : Option String := none
  deriving DecidableEq

/-- `'^[0-9a-fA-F]{8}(-[0-9a-fA-F]{4}){3}-[0-9a-fA-F]{12}$'`. -/
def isUuidText (s : String) : Bool :=
  let hex := fun c : Char => c.isDigit || ('a' ≤ c && c ≤ 'f') || ('A' ≤ c && c ≤ 'F')
  s.toList.length = 36 &&
    s.toList.zipIdx.all fun (c, i) => if i ∈ [8, 13, 18, 23] then c = '-' else hex c

/-- `CASE WHEN … ~ pattern THEN (…)::uuid END`; a uuid prints in lower case. -/
def RunRow.resumeLink (r : RunRow) : Option String :=
  (r.resumeFromRunId.filter isUuidText).map String.toLower

/-- `r.id IN (f.parent_run_id, …)`. -/
def RunRow.links (f r : RunRow) : Bool := f.parentRunId = some r.id || f.resumeLink = some r.id

/-- The recursive query: a run, its ancestors and the runs they resumed. -/
def family (runs : List RunRow) (tenant : String) (runId : Option String) : List RunRow :=
  let own := runs.filter (·.tenant = tenant)
  closure RunRow.links (own.filter fun r => runId = some r.id) own

inductive StopAction | pause | cancel
  deriving DecidableEq

/-- A row of `agent_runtime_controls`. -/
structure Control where
  tenant : String
  runId : String
  action : StopAction
  note : String
  version : Nat := 1
  deriving DecidableEq

/-- A row of `agent_runtime_request_stops`. -/
structure RequestStop where
  tenant : String
  requestId : String
  note : String
  deriving DecidableEq

structure Database where
  runs : List RunRow := []
  controls : List Control := []
  requestStops : List RequestStop := []

/-- A call of `issue` or of `issue_request`. -/
inductive StopCall
  | run (tenant runId : String) (action : StopAction) (note : String)
  | request (tenant requestId note : String)
  deriving DecidableEq

def Control.isFor (tenant runId : String) (c : Control) :
    Bool := c.tenant = tenant && c.runId = runId

/-- `ON CONFLICT … DO UPDATE`: a recorded cancel stays a cancel. -/
def Control.reissued (action : StopAction) (note : String) (c : Control) : Control :=
  { c with
    action := if c.action = .cancel then .cancel else action
    note, version := c.version + 1 }

/-- The transaction of a call; a `ValueError` is `none`. -/
def Database.commit (db : Database) : StopCall → Option Database
  | .run tenant runId action note =>
    if !db.runs.any fun r => r.tenant = tenant && r.id = runId then none
    else if db.controls.any (Control.isFor tenant runId) then
      some { db with
        controls := Rows.updateWhere (Control.isFor tenant runId) (Control.reissued action note)
          db.controls }
    else some { db with controls := db.controls ++ [{ tenant, runId, action, note }] }
  | .request tenant requestId note =>
    if tenant = "" || requestId = "" then none
    else if db.requestStops.any fun c => c.tenant = tenant && c.requestId = requestId then some db
    else some { db with requestStops := db.requestStops ++ [{ tenant, requestId, note }] }

/-- What a verdict is cached for; an empty run id is `none`. -/
structure Key where
  tenant : String
  runId : Option String
  requestId : Option String
  deriving DecidableEq

/-- `stopped`. -/
def Database.stopped (db : Database) (key : Key) : Bool :=
  let members := family db.runs key.tenant key.runId
  (db.controls.any fun c => c.tenant = key.tenant && members.any (·.id = c.runId)) ||
    db.requestStops.any fun c => c.tenant = key.tenant &&
      (key.requestId = some c.requestId || members.any (·.requestId = some c.requestId))

/-- The recorded control of a run. -/
def Database.action (db : Database) (tenant runId : String) : Option StopAction :=
  (db.controls.find? (Control.isFor tenant runId)).map (·.action)

/-! ## The process -/

/-- How long a tool call may reuse a verdict. -/
def STOP_REUSE_SECONDS : Rat := 10

def STOP_CACHE_MAX : Nat := 4096

structure Entry where
  stopped : Bool
  generation : Nat
  checkedAt : Rat
  deriving DecidableEq

/-- What a call has stopped: a run or a request. -/
inductive Stop
  | run (tenant runId : String)
  | request (tenant requestId : String)
  deriving DecidableEq

def StopCall.stop : StopCall → Stop
  | .run tenant runId _ _ => .run tenant runId
  | .request tenant requestId _ => .request tenant requestId

/-- Where a call in flight has come to. `before` are the stops whose issue had returned when the
call was made. -/
inductive Call
  | committed (stop : Stop)
  | signalling (stop : Stop)
  | reading (key : Key) (generation : Nat) (before : List Stop)
  | storing (key : Key) (generation : Nat) (verdict : Bool) (before : List Stop)
  deriving DecidableEq

/-- An answered call of `stopped_for_iteration`. -/
structure Answer where
  key : Key
  before : List Stop
  verdict : Bool
  deriving DecidableEq

/-- The tables, the process and its calls, and what has happened so far: the stops the cache was
emptied for, the stops whose issue has returned, the keys asked for and the answers. -/
structure State where
  db : Database := {}
  generation : Nat := 0
  cache : AList fun _ : Key => Entry := ∅
  calls : Nat → Option Call := fun _ => none
  settled : List Stop := []
  issued : List Stop := []
  asked : List Key := []
  answers : List Answer := []

inductive Action
  | record (row : RunRow)
  | elsewhere (call : StopCall)
  | commit (id : Nat) (call : StopCall)
  | invalidate (id : Nat)
  | finish (id : Nat)
  | ask (id : Nat) (key : Key) (refresh : Bool) (now : Rat)
  | read (id : Nat)
  | store (id : Nat) (now : Rat)

/-- A run is recorded under a new id, which no recorded run refers to and nobody asked about. -/
def State.records (s : State) (row : RunRow) : Bool :=
  s.db.runs.all (fun r => r.id ≠ row.id && !r.links row) && s.asked.all (·.runId ≠ some row.id)

/-- The cached verdict of a key, where it may be reused. -/
def State.reusable (s : State) (key : Key) (refresh : Bool) (now : Rat) : Option Entry :=
  (s.cache.lookup key).filter fun hit =>
    !refresh && hit.generation = s.generation &&
      (hit.stopped || now - hit.checkedAt < STOP_REUSE_SECONDS)

def State.setCall (s : State) (id : Nat) (call : Option Call) : State :=
  { s with calls := Function.update s.calls id call }

def State.answer (s : State) (key : Key) (before : List Stop) (verdict : Bool) : State :=
  { s with answers := s.answers ++ [{ key, before, verdict }] }

/-- `_stop_cache[key] = …`, after the cache was emptied if it is full. -/
def State.cached (s : State) (key : Key) (entry : Entry) : State :=
  { s with
    cache := (if STOP_CACHE_MAX ≤ s.cache.entries.length then ∅ else s.cache).insert key entry }

def step (s : State) : Action → Option State
  | .record row =>
    if s.records row then some { s with db := { s.db with runs := s.db.runs ++ [row] } } else none
  | .elsewhere call => (s.db.commit call).map fun db => { s with db }
  | .commit id call =>
    if (s.calls id).isSome then none
    else (s.db.commit call).map fun db => { s with db }.setCall id (some (.committed call.stop))
  | .invalidate id =>
    match s.calls id with
    | some (.committed stop) =>
      some ({ s with
        generation := s.generation + 1
        cache := ∅
        settled := stop :: s.settled }.setCall id (some (.signalling stop)))
    | _ => none
  | .finish id =>
    match s.calls id with
    | some (.signalling stop) => some ({ s with issued := stop :: s.issued }.setCall id none)
    | _ => none
  | .ask id key refresh now =>
    if (s.calls id).isSome then none
    else
      let s := { s with asked := key :: s.asked }
      match s.reusable key refresh now with
      | some hit => some (s.answer key s.issued hit.stopped)
      | none => some (s.setCall id (some (.reading key s.generation s.issued)))
  | .read id =>
    match s.calls id with
    | some (.reading key generation before) =>
      some (s.setCall id (some (.storing key generation (s.db.stopped key) before)))
    | _ => none
  | .store id now =>
    match s.calls id with
    | some (.storing key generation verdict before) =>
      let s := (s.setCall id none).answer key before verdict
      some (if generation = s.generation then
        s.cached key { stopped := verdict, generation, checkedAt := now } else s)
    | _ => none

def stopSystem : System State Action := .ofStep (fun s => ∃ db, s = { db }) step

end GenusOs.Engine.Runtime.Controls
