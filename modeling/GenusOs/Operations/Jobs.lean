import GenusOs.Operations.Values
import GenusOs.Library.Rows
import GenusOs.Library.Run
import Mathlib

/-!
# Jobs and fragments

Workers claim jobs for a while and are fenced by the token of their claim: what they write later is
refused once another worker has claimed the job. `now` is the start of a transaction and `clock` the
time of a statement.
-/

namespace GenusOs.Operations

open GenusOs.Python Rows

inductive JobStatus
  | pending
  | running
  | completed
  | failed
  deriving DecidableEq, Repr

/-- A row of `operation_jobs`. -/
structure Job where
  id : Uuid
  kind : String
  dedupKey : String
  payload : Json
  result : Option Json := none
  status : JobStatus := .pending
  attempts : Int := 0
  maxAttempts : Int
  availableAt : Instant
  deadline : Instant
  leaseUntil : Option Instant := none
  leaseToken : Option Uuid := none
  error : String := ""
  createdAt : Instant

/-- A row of `operation_fragments`. -/
structure Fragment where
  jobId : Uuid
  fragmentKey : String
  inputHash : String
  payload : Json
  payloadHash : String

/-- The two tables. -/
structure Work where
  jobs : List Job := []
  fragments : List Fragment := []

variable (env : Env) (now clock : Instant) (s : Work)

/-! ## `enqueue` -/

/-- `enqueue`, for a new id: idempotent in the kind and the key. -/
def enqueue (newId : Uuid) (kind key : String) (payload : Json)
    (maxAttempts deadlineSeconds : Int) :
    Except Raised (Uuid × Work) :=
  if maxAttempts < 1 ∨ deadlineSeconds < 1 then
    .error (.valueError "Positive attempts and deadline required")
  else
    match s.jobs.find? fun j => j.kind = kind ∧ j.dedupKey = key with
    | some row =>
      if row.payload.eq payload then .ok (row.id, s)
      else .error (.conflict "Idempotency key already has a different payload")
    | none =>
      if s.jobs.any (·.id = newId) then .error .integrityError
      else
        let job : Job :=
          { id := newId, kind, dedupKey := key, payload, maxAttempts, availableAt := now
            deadline := now + seconds deadlineSeconds, createdAt := now }
        .ok (newId, { s with jobs := s.jobs ++ [job] })

/-! ## `claim` -/

/-- Waiting, or left by a worker whose lease has run out: such a worker may still be at work, and is
fenced by its token. -/
def Job.free (j : Job) : Bool :=
  j.status = .pending || j.status = .running && j.leaseUntil.any (· < now)

/-- What a claim retires: a free job without attempts left, or past its deadline. -/
def Job.exhausted (kind : String) (j : Job) : Bool :=
  j.kind = kind && j.free now && (j.deadline ≤ now || j.maxAttempts ≤ j.attempts)

/-- It has failed for good. -/
def Job.retired (j : Job) : Job :=
  { j with status := .failed, error := "deadline or attempts exhausted" }

/-- What a claim may take. -/
def Job.ready (kind : String) (j : Job) : Bool :=
  j.kind = kind && j.availableAt ≤ now && now < j.deadline &&
    j.attempts < j.maxAttempts && j.free now

/-- `ORDER BY created_at … SKIP LOCKED LIMIT 1`: other transactions hold the `locked` rows, and
`tie` is how the database orders the rest. -/
def nextJob (kind : String) (locked : Uuid → Bool)
    (tie : Job → Nat) (jobs : List Job) : Option Job :=
  let candidates := jobs.filter fun j => j.ready now kind && !locked j.id
  (candidates.insertionSort fun a b =>
    a.createdAt < b.createdAt ∨ a.createdAt = b.createdAt ∧ tie a ≤ tie b).head?

/-- A new token for the worker, which fences every earlier one. -/
def Job.claimed (token : Uuid) (leaseSeconds : Int) (j : Job) : Job :=
  { j with
    status := .running
    attempts := j.attempts + 1
    leaseToken := some token
    leaseUntil := some (now + seconds leaseSeconds) }

/-- `claim`, for a new token: one ready job, after the exhausted ones are retired. -/
def claim (kind : String) (leaseSeconds : Int) (token : Uuid)
    (locked : Uuid → Bool) (tie : Job → Nat) :
    Except Raised (Option Job × Work) :=
  if leaseSeconds < 1 then .error (.valueError "Positive lease required")
  else
    let jobs := updateWhere (·.exhausted now kind) Job.retired s.jobs
    match nextJob now kind locked tie jobs with
    | none => .ok (none, { s with jobs })
    | some j => .ok (some (j.claimed now token leaseSeconds),
        { s with jobs := updateWhere (·.id = j.id) (Job.claimed now token leaseSeconds) jobs })

/-! ## What the holder of a lease writes -/

/-- The lease of a token, at a time: the `WHERE` of everything that a worker writes. -/
def Job.holds (job token : Uuid) (time : Instant) (j : Job) : Bool :=
  j.id = job && j.leaseToken = some token && j.status = .running && j.leaseUntil.any (time < ·)

/-- What `complete` writes. -/
def Job.completed (result : Json) (j : Job) : Job :=
  { j with status := .completed, result := some result }

/-- `complete` -/
def complete (job token : Uuid) (result : Json) : Except Raised Work :=
  match updateOne (Job.holds job token clock) (Job.completed result) s.jobs with
  | some jobs => .ok { s with jobs }
  | none => .error (.conflict "Work lease expired or replaced")

/-- What `checkpoint` writes. -/
def Job.checkpointed (payload : Json) (j : Job) : Job := { j with result := some payload }

/-- `checkpoint`: paid work, which a replacement may reuse. -/
def checkpoint (job token : Uuid) (payload : Json) : Except Raised Work :=
  match updateOne (fun j => j.holds job token clock && j.result.all (env.jsonbEq · payload))
      (Job.checkpointed payload) s.jobs with
  | some jobs => .ok { s with jobs }
  | none => .error (.conflict "Work lease expired, replaced, or checkpoint changed")

/-- What `defer` writes; a deferral as busy gives its attempt back. -/
def Job.deferred (reason : String) (delaySeconds : Int) (busy : Bool) (j : Job) : Job :=
  { j with
    status := .pending
    error := String.ofList (reason.toList.take 500)
    leaseToken := none
    leaseUntil := none
    attempts := j.attempts - if busy then 1 else 0
    availableAt := now + seconds (max 1 delaySeconds) }

/-- `defer`: busy admission does not consume an attempt. -/
def defer (job token : Uuid) (reason : String) (delaySeconds : Int) (busy : Bool) :
    Except Raised Work :=
  match updateOne (Job.holds job token now) (Job.deferred now reason delaySeconds busy) s.jobs with
  | some jobs => .ok { s with jobs }
  | none => .error (.conflict "Work lease expired or replaced")

/-! ## Fragments -/

/-- `[0-9a-f]{64}` -/
def isHash (text : String) : Bool :=
  text.toList.length = 64 && text.toList.all fun c => '0' ≤ c && c ≤ '9' || 'a' ≤ c && c ≤ 'f'

/-- The clocks of the statements of `put`. -/
structure Readings where
  acquire : Instant
  recheck : Instant
  persist : Instant

/-- `_read`: the fragments of a job under its lease. -/
def readFragments (job token : Uuid) (inputHash : String) (r : Readings) :
    Except Raised (List Fragment) :=
  if !isHash inputHash then .error (.valueError "Invalid fragment input hash")
  else if !s.jobs.any fun j => j.holds job token r.acquire && r.acquire < j.deadline then
    .error (.conflict "Fragment work lease expired or replaced")
  else if !s.jobs.any fun j => j.id = job && j.leaseUntil.any (r.recheck < ·) &&
    r.recheck < j.deadline then
    .error (.conflict "Fragment lease expired while acquiring the work lock")
  else
    let rows := s.fragments.filter (·.jobId = job)
    if rows.any fun f => f.inputHash ≠ inputHash || digest env f.payload ≠ f.payloadHash then
      .error (.conflict "Fragment inputs or stored content changed; review required")
    else .ok rows

/-- `put`; a key has from one to a hundred characters. -/
def put (job token : Uuid) (key inputHash : String) (payload : Dict) (r : Readings) :
    Except Raised Work :=
  if key.toList.length = 0 ∨ 100 < key.toList.length then
    .error (.valueError "Invalid fragment key or payload")
  else
    match readFragments env s job token inputHash r with
    | .error error => .error error
    | .ok rows =>
      match rows.find? (·.fragmentKey = key) with
      | some f =>
        if digest env f.payload ≠ digest env (.obj payload) then
          .error (.conflict "A paid fragment cannot be replaced")
        else .ok s
      | none =>
        if s.jobs.any fun j => j.id = job && j.leaseUntil.any (r.persist < ·) &&
          r.persist < j.deadline then
          let fragment : Fragment :=
            { jobId := job, fragmentKey := key, inputHash, payload := .obj payload
              payloadHash := digest env (.obj payload) }
          .ok { s with fragments := s.fragments ++ [fragment] }
        else .error (.conflict "Fragment lease expired before persistence")

end GenusOs.Operations
