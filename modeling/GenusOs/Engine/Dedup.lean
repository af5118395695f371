import GenusOs.Library.Run
import Mathlib

/-!
# Cross-trigger dedup

The entries of one agent in `_running` and `_owners`, in one process, and its key in Redis, which
the other processes use too. Any number of calls of `try_acquire`, `release` and `release_sync` go
on at once. A step is what runs between two places where another coroutine, or a thread, can come
in: what is sent to Redis, what Redis does with it, and what is done with the answer.

`async with _lock` never waits, since no section under it is left at an `await`. The renewal loop
only moves the expiry of the lease; here a lease may be lost at any time.
-/

namespace GenusOs.Engine.Dedup

/-! ## The lease -/

/-- A key in Redis: its value, and the call of this process that has set it. -/
structure Lease where
  owner : String
  setBy : Option Nat
  deriving DecidableEq

/-- `redis_lease.acquire`: `SET key owner NX PX ttl_ms`. -/
def acquireLease (owner : String) (call : Nat) : Option Lease → Option String × Option Lease
  | none => (some owner, some ⟨owner, some call⟩)
  | some lease => (none, some lease)

/-- `redis_lease.release`: the key is deleted if its value is still `owner`. -/
def releaseLease (owner : String) : Option Lease → Bool × Option Lease
  | none => (false, none)
  | some lease => if lease.owner = owner then (true, none) else (false, some lease)

/-- A call to Redis is answered, or it raises before or after it had its effect. -/
inductive Fate
  | answered
  | raised
  | raisedAfter
  deriving DecidableEq

/-! ## The calls -/

/-- How far a call of `try_acquire` is. -/
inductive Acquiring
  | fresh
  | asking
  | answered (token : Option String)
  | failed
  | returned (acquired : Bool)
  deriving DecidableEq

/-- How far a call of `release` or `release_sync` is. -/
inductive Releasing
  | fresh
  | asking (token : String)
  | answered (confirmed : Bool)
  | discarding
  | returned
  deriving DecidableEq

/-- A call of `release`, or of `release_sync`: who makes it, if it is one whose `try_acquire` has
succeeded, and the acquisitions that were not released when it began. -/
structure Release where
  phase : Releasing := .fresh
  sync : Bool := false
  holder : Option Nat := none
  frees : List Nat := []
  deriving DecidableEq

def Release.UnderWay (r : Release) : Prop := r.phase ≠ .fresh ∧ r.phase ≠ .returned

instance (r : Release) : Decidable r.UnderWay := inferInstanceAs (Decidable (_ ∧ _))

/-- What the process and Redis hold for the agent, the calls, and what the source does not keep: the
acquisitions in their order, newest first, and those that no release has released. -/
structure State where
  running : Bool := false
  owner : Option String := none
  lease : Option Lease := none
  acquires : Nat → Acquiring := fun _ => .fresh
  releases : Nat → Release := fun _ => {}
  acquired : List Nat := []
  held : List Nat := []

def State.setAcquire (s : State) (c : Nat) (phase : Acquiring) : State :=
  { s with acquires := Function.update s.acquires c phase }

def State.setRelease (s : State) (r : Nat) (release : Release) : State :=
  { s with releases := Function.update s.releases r release }

/-- The call returns True: the agent is in `_running`. -/
def State.succeed (s : State) (c : Nat) : State :=
  { s.setAcquire c (.returned true) with
    running := true
    acquired := c :: s.acquired
    held := c :: s.held }

/-- The in-process branch of `try_acquire`. -/
def State.tryInProcess (s : State) (c : Nat) : State :=
  if s.running then s.setAcquire c (.returned false) else s.succeed c

/-- `try_acquire` after `redis_lease.acquire`: only without an answer is `_running` looked at. -/
def State.resume (s : State) (c : Nat) : Option State :=
  match s.acquires c with
  | .answered (some token) => some ({ s with owner := some token }.succeed c)
  | .answered none => some (s.setAcquire c (.returned false))
  | .failed => some (s.tryInProcess c)
  | _ => none

/-- `_running.discard`, with which a release returns. -/
def State.discard (s : State) (r : Nat) : State :=
  { s.setRelease r { s.releases r with phase := .returned } with
    running := false
    held := s.held.filter (· ∉ (s.releases r).frees) }

/-- `release` goes on to its end, where `release_sync` can be overtaken by the event loop. -/
def State.goOn (s : State) (r : Nat) : State := if (s.releases r).sync then s else s.discard r

/-- The start of `release` and of `release_sync`. -/
def State.beginRelease (s : State) (r : Nat) (sync : Bool) (holder : Option Nat) : State :=
  match s.owner with
  | some token => s.setRelease r { phase := .asking token, sync, holder, frees := s.held }
  | none => (s.setRelease r { phase := .discarding, sync, holder, frees := s.held }).goOn r

/-- The lease is forgotten only once Redis has confirmed. -/
def State.settle (s : State) (r : Nat) (confirmed : Bool) : State :=
  ({ s with owner := if confirmed then none else s.owner }.setRelease r
    { s.releases r with phase := .discarding }).goOn r

/-! ## The steps -/

inductive Act
  /-- `try_acquire`, with what `_ha_enabled` says. -/
  | tryAcquire (c : Nat) (ha : Bool)
  | set (c : Nat) (fate : Fate)
  | resume (c : Nat)
  /-- `release` or `release_sync`, called by whoever `holder` says, or by another party. -/
  | release (r : Nat) (sync : Bool) (holder : Option Nat)
  | delete (r : Nat) (fate : Fate)
  | settle (r : Nat)
  | discard (r : Nat)
  /-- The key expires or is lost, or another process deletes its own. -/
  | lost
  /-- Another process sets the key. -/
  | taken (owner : String)

def step (token : String) (s : State) : Act → Option State
  | .tryAcquire c ha =>
    if s.acquires c = .fresh then
      some (if ha then s.setAcquire c .asking else s.tryInProcess c)
    else none
  | .set c fate =>
    if s.acquires c = .asking then
      let (answer, lease) := acquireLease token c s.lease
      match fate with
      | .answered => some ({ s with lease := lease }.setAcquire c (.answered answer))
      | .raised => some (s.setAcquire c .failed)
      | .raisedAfter => some ({ s with lease := lease }.setAcquire c .failed)
    else none
  | .resume c => s.resume c
  | .release r sync holder =>
    if (s.releases r).phase = .fresh ∧ ∀ c ∈ holder, s.acquires c = .returned true then
      some (s.beginRelease r sync holder)
    else none
  | .delete r fate =>
    match (s.releases r).phase with
    | .asking owner =>
      let lease := if fate = .raised then s.lease else (releaseLease owner s.lease).2
      some ({ s with lease := lease }.setRelease r
        { s.releases r with phase := .answered (fate = Fate.answered) })
    | _ => none
  | .settle r =>
    match (s.releases r).phase with
    | .answered confirmed => some (s.settle r confirmed)
    | _ => none
  | .discard r => if (s.releases r).phase = .discarding then some (s.discard r) else none
  | .lost => some { s with lease := none }
  | .taken owner =>
    if s.lease = none ∧ owner ≠ token then some { s with lease := some ⟨owner, none⟩ } else none

/-- One agent in a process that starts. `token` is the one owner token of the process. -/
def dedup (token : String) : System State Act :=
  .ofStep (fun s => ∃ lease : Option Lease, s = { lease } ∧ ∀ l ∈ lease, l.setBy = none)
    (step token)

/-! ## The law -/

/-- Redis has granted the lease to the call, which is still to go on. -/
def State.Granted (s : State) (c : Nat) : Prop := ∃ token, s.acquires c = .answered (some token)

/-- `d` is an acquisition after `c`, or is about to be one. -/
def State.Later (s : State) (c d : Nat) : Prop :=
  s.Granted d ∨ ∃ after before, s.acquired = after ++ d :: before ∧ c ∈ before

/-- The release is made by `c`, which had not been released when it began. -/
def Release.ByHolder (r : Release) (c : Nat) : Prop := r.holder = some c ∧ c ∈ r.frees

/-- What the claim of exclusion asks of a step. -/
structure Lawful (s : State) (a : Act) (t : State) : Prop where
  /-- No `try_acquire` returns True while an acquisition is not released. -/
  exclusive : ∀ c, s.acquires c ≠ .returned true → t.acquires c = .returned true → s.held = []
  /-- A holder does not delete the lease of a later acquisition. -/
  lease : ∀ r fate c l d, a = .delete r fate → (s.releases r).ByHolder c → s.lease = some l →
    t.lease = none → l.setBy = some d → ¬ s.Later c d
  /-- A holder does not take the running mark from a later acquisition. -/
  mark : ∀ r c, (s.releases r).phase ≠ .returned → (t.releases r).phase = .returned →
    (t.releases r).ByHolder c → ∀ d ∈ s.held, ¬ s.Later c d

/-- `try_acquire` is about to return True. -/
def State.Succeeding (s : State) : Act → Prop
  | .tryAcquire _ ha => ha = false ∧ s.running = false
  | .resume c => s.Granted c ∨ s.acquires c = .failed ∧ s.running = false
  | _ => False

/-- **The steps at which the two locks agree**: an acquisition finds the agent out of `_running`,
also where Redis has granted it, and no release still under way; and a lease is not deleted between
its grant and the answer's arrival. -/
structure Calm (s : State) (a : Act) : Prop where
  clear : s.Succeeding a → s.running = false ∧ ∀ r, ¬ (s.releases r).UnderWay
  spares : ∀ r fate l d, a = .delete r fate → fate ≠ .raised → s.lease = some l →
    l.setBy = some d → ¬ s.Granted d

end GenusOs.Engine.Dedup
