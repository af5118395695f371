import GenusOs.Operations.Values
import GenusOs.Python.Str
import GenusOs.Library.Rows
import GenusOs.Library.Run
import Mathlib

/-!
# Actions

An external effect is proposed as a draft, decided by an operator or by the policy of the plugin
that proposed it, claimed by an executor, and finished. A claim that has run out is unknown and
never claimed again. The payload is stored in a `jsonb` column and its digest beside it, so that a
claim, which takes the digest of what the column gives back, can find another one.
-/

namespace GenusOs.Operations

open GenusOs.Python Rows

inductive ActionStatus
  | review
  | approved
  | rejected
  | executing
  | completed
  | unknown
  | cancelled
  | failed
  deriving DecidableEq, Repr

/-- A row of `operation_actions`; the payload is what its column gives back. -/
structure DraftAction where
  id : Uuid
  kind : String
  dedupKey : String
  payload : Json
  payloadHash : String
  status : ActionStatus := .review
  approvedHash : Option String := none
  decidedBy : Option String := none
  expiresAt : Instant
  leaseToken : Option Uuid := none
  leaseUntil : Option Instant := none
  receipt : Option Json := none
  createdAt : Instant
  proposedBy : Option String := none

/-- `s.partition(":")`, without the separator. -/
def partitionColon (cs : List Char) : List Char × List Char :=
  (cs.takeWhile (· ≠ ':'), (cs.dropWhile (· ≠ ':')).drop 1)

/-- `_policy`: the plugin and the version of `policy:<plugin>:<version>`. -/
def policyOf (actor : String) : Option (String × String) :=
  let (start, rest) := partitionColon actor.toList
  let (plugin, version) := partitionColon rest
  if start ≠ "policy".toList ∨ stripChars plugin = [] ∨ stripChars version = [] then none
  else some (String.ofList plugin, String.ofList version)

variable (env : Env) (now : Instant) (actions : List DraftAction)

/-- `propose`, for a new id: changed content needs a new key. -/
def propose (newId : Uuid) (kind key : String) (payload : Json) (expiresSeconds : Int)
    (proposedBy : Option String) : Except Raised (Uuid × List DraftAction) :=
  if proposedBy.any fun name => strip name = "" then
    .error (.valueError "Proposer must be a plugin name or None")
  else
    match actions.find? fun a => a.kind = kind ∧ a.dedupKey = key with
    | some row =>
      if row.payloadHash ≠ digest env payload then
        .error (.conflict "Draft key already bound to different content")
      else if row.proposedBy ≠ proposedBy then
        .error (.conflict "Draft key already bound to a different proposer")
      else .ok (row.id, actions)
    | none =>
      if actions.any (·.id = newId) then .error .integrityError
      else
        let draft : DraftAction :=
          { id := newId, kind, dedupKey := key, payload := env.jsonb payload
            payloadHash := digest env payload, expiresAt := now + seconds expiresSeconds
            createdAt := now, proposedBy }
        .ok (newId, actions ++ [draft])

/-! ## `decide` -/

/-- A draft that waits for its decision. -/
def DraftAction.undecided (action : Uuid) (a : DraftAction) : Bool :=
  a.id = action && a.status = .review && now < a.expiresAt

/-- What a decision writes. The hash that is approved is the one that the row was proposed with. -/
def DraftAction.decided (approved : Bool) (actor : String) (a : DraftAction) : DraftAction :=
  { a with
    status := if approved then .approved else .rejected
    approvedHash := some a.payloadHash
    decidedBy := some actor }

/-- `decide` -/
def decideAction (action : Uuid) (approved : Bool) (actor : String) :
    Except Raised (List DraftAction) :=
  let policy := policyOf actor
  if policy = none ∧ ¬ startsWith actor "operator:" then
    .error (.conflict "Human operator decision required")
  else
    match actions.find? (·.undecided now action) with
    | none => .error (.conflict "Draft is missing, expired, or already decided")
    | some row =>
      if policy.any fun p => row.proposedBy ≠ some p.1 then
        .error (.conflict "A policy may decide only its own plugin's drafts")
      else
        match updateOne (·.undecided now action) (DraftAction.decided approved actor) actions with
        | some actions => .ok actions
        | none => .error (.conflict "Draft is missing, expired, or already decided")

/-! ## `claim_action` -/

/-- A claim that has run out. -/
def DraftAction.overdue (a : DraftAction) : Bool :=
  a.status = .executing && a.leaseUntil.any (· < now)

/-- Nobody knows whether the executor of a claim that has run out has called the provider, so the
action is not offered again. -/
def DraftAction.lost (a : DraftAction) : DraftAction := { a with status := .unknown }

/-- `_expire_leases` -/
def expireLeases : List DraftAction := updateWhere
    (DraftAction.overdue now) DraftAction.lost actions

/-- What a claim writes: the token is what the executor shows when it finishes. -/
def DraftAction.leased (token : Uuid) (leaseSeconds : Int) (a : DraftAction) : DraftAction :=
  { a with
    status := .executing
    leaseToken := some token
    leaseUntil := some (now + seconds leaseSeconds) }

/-- `_lease`: a new token for a locked row. -/
def lease (token : Uuid) (leaseSeconds : Int) (row : DraftAction) :
    Except Raised (DraftAction × List DraftAction) :=
  if some (digest env row.payload) ≠ row.approvedHash then
    .error (.conflict "Approved payload changed")
  else .ok (row.leased now token leaseSeconds,
    updateWhere (·.id = row.id) (DraftAction.leased now token leaseSeconds) actions)

/-- An approval does not outlive the draft: one that has expired is passed over. -/
def DraftAction.claimable (a : DraftAction) : Bool := a.status = .approved && now < a.expiresAt

/-- The approved action that a claim takes: of a kind, the oldest first, or the one of an id. Other
transactions hold the `locked` rows, and `tie` is how the database orders the rest. -/
structure Wanted where
  kind : Option String := none
  id : Option Uuid := none
  locked : Uuid → Bool := fun _ => false
  tie : DraftAction → Nat := fun a => a.id

/-- The condition of the `SELECT` of a claim. -/
def Wanted.takes (w : Wanted) (a : DraftAction) : Bool :=
  a.claimable now && w.kind.all (· = a.kind) && w.id.all (· = a.id) && !w.locked a.id

/-- `FOR UPDATE SKIP LOCKED` with `ORDER BY … LIMIT 1`. -/
def nextAction (w : Wanted) : Option DraftAction :=
  ((actions.filter (w.takes now)).insertionSort fun a b =>
    a.createdAt < b.createdAt ∨ a.createdAt = b.createdAt ∧ w.tie a ≤ w.tie b).head?

/-- `claim_action` and `claim_action_by_id`, for a new token. -/
def claimAction (w : Wanted) (token : Uuid) (leaseSeconds : Int) :
    Except Raised (Option DraftAction × List DraftAction) :=
  let actions := expireLeases now actions
  match nextAction now actions w with
  | none => .ok (none, actions)
  | some row => (lease env now actions token leaseSeconds row).map fun answer =>
      (some answer.1, answer.2)

/-! ## `cancel_action` and `finish_action` -/

/-- What `cancel_action` writes. -/
def DraftAction.withdrawn (a : DraftAction) : DraftAction := { a with status := .cancelled }

/-- `cancel_action`: a draft, or an approval that nobody has claimed. -/
def cancelAction (action : Uuid) (reason : String) (proposedBy actor : Option String) :
    Except Raised (List DraftAction) :=
  if strip reason = "" then .error (.valueError "Cancellation reason required")
  else
    match actions.find? (·.id = action) with
    | none => .error (.conflict "Action is missing")
    | some row =>
      if row.proposedBy.isSome ∧ proposedBy ≠ row.proposedBy then
        .error (.conflict "Only the proposer may cancel an action")
      else if row.proposedBy = none ∧
        (proposedBy.isSome ∨ ¬ startsWith (actor.getD "") "operator:") then
        .error (.conflict "Human operator decision required")
      else if row.status ≠ .review ∧ row.status ≠ .approved then
        .error (.conflict "Only a draft or an unclaimed approval can be cancelled")
      else .ok (updateWhere (·.id = action) DraftAction.withdrawn actions)

/-- An action that an executor holds. -/
def DraftAction.heldBy (action token : Uuid) (status : ActionStatus) (a : DraftAction) : Bool :=
  a.id = action && a.leaseToken = some token && a.status = .executing &&
    (status ≠ .completed || a.leaseUntil.any (now < ·))

/-- What `finish_action` writes; the receipt goes through a `jsonb` column as the payload did. -/
def DraftAction.finished (env : Env) (status : ActionStatus) (receipt : Json) (a : DraftAction) :
    DraftAction :=
  { a with status, receipt := some (env.jsonb receipt) }

/-- `finish_action` -/
def finishAction (action token : Uuid) (status : ActionStatus) (receipt : Json) :
    Except Raised (List DraftAction) :=
  if ¬ (status = .completed ∨ status = .unknown ∨ status = .cancelled ∨ status = .failed) then
    .error (.valueError "Invalid action outcome")
  else if status = .completed ∧ !acknowledged receipt then
    .error (.conflict "Provider acknowledgement ID required")
  else
    match updateOne (DraftAction.heldBy now action token status)
        (DraftAction.finished env status receipt) actions with
    | some actions => .ok actions
    | none => .error (.conflict "Action is no longer owned by this executor")

end GenusOs.Operations
