import GenusOs.Library.Run
import Mathlib

/-!
# Permission escalation

`PermissionEscalationManager`: calls of `request_approval` that wait for a person, and everything
that can settle them. A step is what runs between two `await`s. The tap on a keyboard and the answer
from the web are calls of `resolve`; the answer over a channel is the return of `Channel.ask`.

`asyncio.wait_for` raises `TimeoutError` once its timer has fired before the coroutine runs again,
also where the event was set in between. The texts of the prompts are left out.
-/

namespace GenusOs.Engine.Escalation

def APPROVE : String := "Approve"

def APPROVE_ALL : String := "Approve All"

def DENY : String := "Deny"

/-- Where a call of `request_approval` is. -/
inductive Phase
  | fresh
  /-- `_announce` -/
  | announcing
  /-- `_send_prompt` -/
  | sending
  /-- `Channel.ask` -/
  | asking
  /-- `wait_for(request.result.wait(), …)`, and whether its timer has fired. -/
  | waiting (timedOut : Bool)
  | returned (approved : Bool)
  | cancelled
  deriving DecidableEq

/-- A call of `request_approval` and the `EscalationRequest` it has built. -/
structure Request where
  agentId : String := ""
  guardrailName : String := ""
  toolName : String := ""
  timeoutSeconds : Rat := 0
  createdAt : Rat := 0
  expiresAt : Option Rat := none
  /-- `result.is_set()` -/
  isSet : Bool := false
  approved : Option Bool := none
  phase : Phase := .fresh

/-- The manager, and what persons have said: the calls of `resolve` that returned True, the requests
approved, and what was approved for the session. -/
structure Manager where
  hasBot : Bool
  hasChannel : Bool
  pending : List Nat := []
  sessionGrants : List (String × String) := []
  requests : Nat → Request := fun _ => {}
  settled : List (Nat × Bool) := []
  approvals : List Nat := []
  sessionApprovals : List (String × String × String) := []

def grantKey (agentId guardrailName : String) : String := agentId ++ ":" ++ guardrailName

def Request.grant (q : Request) : String × String :=
  (grantKey q.agentId q.guardrailName, q.toolName)

def Request.subject (q : Request) : String × String × String :=
  (q.agentId, q.guardrailName, q.toolName)

/-- Older than `max_age`, and past its own budget. -/
def Request.reapable (q : Request) (now maxAge : Rat) : Bool :=
  maxAge < now - q.createdAt && q.expiresAt.all (· ≤ now)

namespace Manager

def update (m : Manager) (r : Nat) (q : Request) : Manager :=
  { m with requests := Function.update m.requests r q }

/-- `_cleanup` and the return. -/
def answer (m : Manager) (r : Nat) (approved : Bool) : Manager :=
  { m.update r { m.requests r with phase := .returned approved } with
    pending := m.pending.filter (· ≠ r) }

/-- A person approves the request, or all of its kind for the session. -/
def approve (m : Manager) (r : Nat) (session : Bool) : Manager :=
  { m with
    approvals := r :: m.approvals
    sessionApprovals :=
      if session then (m.requests r).subject :: m.sessionApprovals else m.sessionApprovals }

/-- `self._session_grants.setdefault(grant_key, set()).add(request.tool_name)`. -/
def saveGrant (m : Manager) (r : Nat) : Manager :=
  { m with sessionGrants := (m.requests r).grant :: m.sessionGrants }

/-- `request_approval` up to `_announce`. -/
def requestApproval (m : Manager) (r : Nat) (agentId guardrailName toolName : String)
    (timeoutSeconds now : Rat) : Manager :=
  let q : Request := { agentId, guardrailName, toolName, timeoutSeconds }
  if q.grant ∈ m.sessionGrants then
    m.update r { q with phase := .returned true }
  else
    { m.update r { q with
        createdAt := now
        expiresAt := some (now + max 1 timeoutSeconds)
        phase := .announcing } with
      pending := m.pending ++ [r] }

/-- `_ask_over_channel` up to `channel.ask`. `telegram` says if `get_channel` knows the channel. -/
def askOverChannel (m : Manager) (r : Nat) (telegram : Bool) : Manager :=
  let hasChannel := m.hasChannel || m.hasBot && telegram
  let m := { m with hasChannel := hasChannel }
  if hasChannel then m.update r { m.requests r with phase := .asking } else m.answer r false

/-- After `_announce`, which never raises. -/
def announced (m : Manager) (r : Nat) (telegram : Bool) : Manager :=
  if m.hasBot then m.update r { m.requests r with phase := .sending }
  else m.askOverChannel r telegram

/-- `wait_for`: without a budget it is over at once, and an event that is set is not waited for. -/
def wait (m : Manager) (r : Nat) : Manager :=
  let q := m.requests r
  if q.timeoutSeconds ≤ 0 then m.update r { q with phase := .waiting true }
  else if q.isSet then m.answer r (q.approved = some true)
  else m.update r { q with phase := .waiting false }

/-- After `_send_prompt`, which may have raised. -/
def sent (m : Manager) (r : Nat) (prompted telegram : Bool) : Manager :=
  if prompted then m.wait r else m.askOverChannel r telegram

/-- The coroutine goes on after `wait_for`. -/
def wake (m : Manager) (r : Nat) (timedOut : Bool) : Manager :=
  if timedOut then
    (m.update r { m.requests r with approved := some false }).answer r false
  else
    m.answer r ((m.requests r).approved = some true)

/-- What `Channel.ask` does. -/
inductive Reply
  | answered (answer : Option String)
  | notImplemented
  | raised

/-- `_ask_over_channel` after `channel.ask`. -/
def channelAnswered (m : Manager) (r : Nat) (reply : Reply) : Manager :=
  match reply with
  | .answered (some answer) =>
    if answer = APPROVE_ALL then ((m.saveGrant r).approve r true).answer r true
    else if answer = APPROVE then (m.approve r false).answer r true
    else m.answer r false
  | _ => m.answer r false

/-- The state and the return value of `resolve`. -/
def resolve (m : Manager) (r : Nat) (approved rememberSession : Bool) : Bool × Manager :=
  if r ∉ m.pending then (false, m)
  else if (m.requests r).isSet then (false, m)
  else
    let m := m.update r { m.requests r with approved := some approved, isSet := true }
    let m := if rememberSession then m.saveGrant r else m
    let m := if approved then m.approve r rememberSession else m
    (true, { m with settled := (r, approved) :: m.settled })

/-- `cleanup_expired`: how many requests were removed, and the state. -/
def cleanupExpired (m : Manager) (now maxAge : Rat) : Nat × Manager :=
  let expired := m.pending.filter fun r => (m.requests r).reapable now maxAge
  (expired.length, { m with
    pending := m.pending.filter (· ∉ expired)
    requests := fun r =>
      if r ∈ expired ∧ (m.requests r).isSet = false then
        { m.requests r with approved := some false, isSet := true }
      else m.requests r })

end Manager

/-! ## The steps -/

inductive Act
  | request (r : Nat) (agentId guardrailName toolName : String) (timeoutSeconds now : Rat)
  | announced (r : Nat) (telegram : Bool)
  | sent (r : Nat) (prompted telegram : Bool)
  | channelAnswered (r : Nat) (reply : Manager.Reply)
  | timer (r : Nat)
  | wake (r : Nat)
  | resolve (r : Nat) (approved rememberSession : Bool)
  | cleanupExpired (now maxAge : Rat)
  | cancel (r : Nat)

def step (m : Manager) : Act → Option Manager
  | .request r agentId guardrailName toolName timeoutSeconds now =>
    if (m.requests r).phase = .fresh then
      some (m.requestApproval r agentId guardrailName toolName timeoutSeconds now)
    else none
  | .announced r telegram =>
    if (m.requests r).phase = .announcing then some (m.announced r telegram) else none
  | .sent r prompted telegram =>
    if (m.requests r).phase = .sending then some (m.sent r prompted telegram) else none
  | .channelAnswered r reply =>
    if (m.requests r).phase = .asking then some (m.channelAnswered r reply) else none
  | .timer r =>
    if (m.requests r).phase = .waiting false then
      some (m.update r { m.requests r with phase := .waiting true })
    else none
  | .wake r =>
    match (m.requests r).phase with
    | .waiting timedOut =>
      if timedOut ∨ (m.requests r).isSet then some (m.wake r timedOut) else none
    | _ => none
  | .resolve r approved rememberSession => some (m.resolve r approved rememberSession).2
  | .cleanupExpired now maxAge => some (m.cleanupExpired now maxAge).2
  | .cancel r =>
    match (m.requests r).phase with
    | .fresh | .returned _ | .cancelled => none
    | _ => some (m.update r { m.requests r with phase := .cancelled })

/-- One manager, over a bot, a channel, both or neither. -/
def escalation : System Manager Act :=
  .ofStep (fun m => ∃ hasBot hasChannel, m = { hasBot, hasChannel }) step

/-! ## The law -/

structure Manager.Lawful (m : Manager) : Prop where
  /-- Nothing is approved without a person. -/
  approved : ∀ r, (m.requests r).phase = .returned true →
    r ∈ m.approvals ∨ (m.requests r).subject ∈ m.sessionApprovals
  /-- One call of `resolve` at most returns True for a request. -/
  once : (m.settled.map Prod.fst).Nodup
  /-- Its answer is the one that `request_approval` returns. -/
  honoured : ∀ r decided answer, (r, decided) ∈ m.settled →
    (m.requests r).phase = .returned answer → answer = decided

/-- No call of `resolve` has returned True for the request. -/
def Manager.Unsettled (m : Manager) (r : Nat) : Prop := ∀ decided, (r, decided) ∉ m.settled

/-- **The steps at which the answer of a person reaches the call**: `resolve` does not settle a
request that is asked over a channel or whose timer has fired, a request it has settled does not
time out and is not asked over a channel, only approvals are remembered, and what was approved for
the session under the key of a call was approved for its agent and guardrail. -/
def Calm (m : Manager) : Act → Prop
  | .request _ agentId guardrailName toolName _ _ => ∀ a g, (a, g, toolName) ∈ m.sessionApprovals →
      grantKey a g = grantKey agentId guardrailName → a = agentId ∧ g = guardrailName
  | .announced r _ => m.hasBot = true ∨ m.Unsettled r
  | .sent r prompted _ =>
      prompted = true ∧ 0 < (m.requests r).timeoutSeconds ∨ m.Unsettled r
  | .timer r => m.Unsettled r
  | .resolve r approved rememberSession => r ∈ m.pending → (m.requests r).isSet = false →
      (rememberSession = true → approved = true) ∧ (m.requests r).phase ≠ .asking ∧
        (m.requests r).phase ≠ .waiting true
  | _ => True

end GenusOs.Engine.Escalation
