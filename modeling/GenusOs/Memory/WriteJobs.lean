import GenusOs.Library.Rows
import GenusOs.Library.Run
import GenusOs.Python.Str
import Mathlib

/-!
# Deferred memory writes

The queue `memory_write_jobs`, with detached workers and sweepers at the granularity of their SQL
statements. Instants are counted in microseconds. What the extraction brings, how long it takes and
when a process dies is open.
-/

namespace GenusOs.Memory.WriteJobs

open Python

inductive JobStatus
  | pending
  | running
  | done
  | failed
  deriving DecidableEq, Repr

/-- A row of `memory_write_jobs`. -/
structure Job where
  id : Nat
  tenantId : String := "default"
  content : String
  contentType : String := "conversation"
  status : JobStatus := .pending
  attempts : Int := 0
  factIds : Option (List Nat) := none
  error : Option String := none
  updatedAt : Int
  deriving DecidableEq, Repr

/-- What the extraction ends with. -/
inductive Outcome
  | done (factIds : List Nat)
  | failed (error : String)
  deriving DecidableEq, Repr

/-- The next statement of a process, `rest` being what a sweeper still has on its list. -/
inductive Phase
  | idle
  | selecting (staleAfterMinutes maxAttempts : Int) (limit : Nat)
  | claiming (jobId : Nat) (rest : List Nat)
  | extracting (jobId : Nat) (rest : List Nat)
  | finishing (jobId : Nat) (outcome : Outcome) (rest : List Nat)
  deriving DecidableEq, Repr

/-- The loop over the list of a sweeper. -/
def Phase.next : List Nat → Phase
  | [] => .idle
  | jobId :: rest => .claiming jobId rest

/-! ## Statements -/

/-- What a sweep looks for. -/
def Job.stale (now staleAfterMinutes maxAttempts : Int) (job : Job) : Bool :=
  (job.status = .pending ∨ job.status = .running) ∧ job.attempts < maxAttempts ∧
    job.updatedAt < now - staleAfterMinutes * 60000000

/-- `ORDER BY updated_at LIMIT …`, `tie` being how the database orders the rest. -/
def selectStale (now staleAfterMinutes maxAttempts : Int) (limit : Nat) (tie : Job → Nat)
    (jobs : List Job) : List Job :=
  ((jobs.filter (Job.stale now staleAfterMinutes maxAttempts)).insertionSort
    fun a b => toLex (a.updatedAt, tie a) ≤ toLex (b.updatedAt, tie b)).take limit

def Job.claimed (now : Int) (job : Job) : Job :=
  { job with status := .running, attempts := job.attempts + 1, updatedAt := now }

/-- `error[:2000] or None` -/
def errorColumn (error : String) : Option String :=
  if slice error 2000 = "" then none else some (slice error 2000)

/-- `_finish` -/
def Job.finished (now : Int) (job : Job) : Outcome → Job
  | .done factIds => { job with
      status := .done, factIds := some factIds, error := errorColumn "", updatedAt := now }
  | .failed error => { job with
      status := .failed, factIds := none, error := errorColumn error, updatedAt := now }

/-! ## Processes -/

structure State where
  jobs : List Job := []
  procs : Nat → Phase := fun _ => .idle

inductive Act
  | enqueue (job : Job) (now : Int)
  /-- `process_write_job`, detached. -/
  | spawn (pid jobId : Nat)
  /-- `sweep_stale_jobs` -/
  | sweep (pid : Nat) (staleAfterMinutes maxAttempts : Int) (limit : Nat)
  | select (pid : Nat) (now : Int) (tie : Job → Nat)
  | claim (pid : Nat) (now : Int)
  | extract (pid : Nat) (outcome : Outcome)
  | finish (pid : Nat) (now : Int)
  /-- The process dies, or its connection does. -/
  | crash (pid : Nat)

def State.setPhase (s : State) (pid : Nat) (phase : Phase) : State :=
  { s with procs := Function.update s.procs pid phase }

/-- The write of a statement to the row of a job. -/
def State.write (s : State) (jobId : Nat) (f : Job → Job) : State :=
  { s with jobs := Rows.updateWhere (·.id = jobId) f s.jobs }

/-- A process that is in another phase cannot take the step. -/
def step (s : State) : Act → Option State
  | .enqueue job now =>
    if s.jobs.any (·.id = job.id) then none
    else some { s with jobs := s.jobs ++ [{ job with
      status := .pending, attempts := 0, factIds := none, error := none, updatedAt := now }] }
  | .spawn pid jobId =>
    match s.procs pid with
    | .idle => some (s.setPhase pid (.claiming jobId []))
    | _ => none
  | .sweep pid staleAfterMinutes maxAttempts limit =>
    match s.procs pid with
    | .idle => some (s.setPhase pid (.selecting staleAfterMinutes maxAttempts limit))
    | _ => none
  | .select pid now tie =>
    match s.procs pid with
    | .selecting staleAfterMinutes maxAttempts limit =>
      some (s.setPhase pid
        (.next ((selectStale now staleAfterMinutes maxAttempts limit tie s.jobs).map Job.id)))
    | _ => none
  | .claim pid now =>
    match s.procs pid with
    | .claiming jobId rest =>
      -- a job that has vanished is passed over
      if s.jobs.any (·.id = jobId) then
        some ((s.write jobId (Job.claimed now)).setPhase pid (.extracting jobId rest))
      else some (s.setPhase pid (.next rest))
    | _ => none
  | .extract pid outcome =>
    match s.procs pid with
    | .extracting jobId rest => some (s.setPhase pid (.finishing jobId outcome rest))
    | _ => none
  | .finish pid now =>
    match s.procs pid with
    | .finishing jobId outcome rest =>
      some ((s.write jobId fun job => job.finished now outcome).setPhase pid (.next rest))
    | _ => none
  | .crash pid => some (s.setPhase pid .idle)

/-- The queue, from the empty table. -/
def queue : System State Act := System.ofStep (fun s => s = {}) step

end GenusOs.Memory.WriteJobs
