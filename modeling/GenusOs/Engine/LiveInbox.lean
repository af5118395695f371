import GenusOs.Library.Drain
import GenusOs.Library.Run
import GenusOs.Python.Json
import GenusOs.Python.Str
import Mathlib

/-!
# Messages for a run that is working

What an operator sends while a run works comes in over two mailboxes: follow-ups are pushed to the
`LiveInbox` of the run's channel, steers are joined to the one pending steer of the session. The run
reads both at the top of its loop and where the model has answered without tools; the channel closes
the inbox and keeps what the run never took.

* `Session`, `LiveInbox`: the mailboxes and the conversation they go into.
* `step`: the operator, the channel and the run, in any order.
-/

namespace GenusOs.Engine.Live

open GenusOs.Python

/-- A message of the conversation; `pin` and `superseded` are the keys of the engine. -/
structure Message where
  role : String
  content : String
  pin : Option String
  superseded : Bool
deriving DecidableEq

structure FollowUp where
  text : String
  info : Dict

/-! ## The inbox -/

structure LiveInbox where
  items : List FollowUp
  isOpen : Bool
  hasInterim : Bool
  taken : List FollowUp

namespace LiveInbox

def push (inbox : LiveInbox) (text : String) (info : Dict) : Bool × LiveInbox :=
  if inbox.isOpen = false ∨ strip text = "" then (false, inbox)
  else (true, { inbox with items := inbox.items ++ [⟨text, info⟩] })

def take (inbox : LiveInbox) : List FollowUp × LiveInbox :=
  (inbox.items, { inbox with items := [], taken := inbox.taken ++ inbox.items })

def close (inbox : LiveInbox) : List FollowUp × LiveInbox :=
  (inbox.items, { inbox with isOpen := false, items := [] })

end LiveInbox

/-! ## The session -/

structure Session where
  messages : List Message
  pendingSteer : Option String
  liveInbox : Option LiveInbox
  steersTaken : Option (List String)
  /-- The texts of the run steps of type STEER. -/
  steerSteps : List String
  turnsSinceMemory : Nat
  lateExtensions : Nat
  routineOperationBound : Bool
  interruptRequested : Bool

def MAX_LATE_EXTENSIONS : Nat := 3

def FOLLOWUP_PIN : String := "live_followup"

def FRAMING : String :=
  "[Follow-up from the user, sent while you were working. Take it into account and continue; " ++
    "do not redo work that is already done.]"

def STEERING_HEAD : String := "[operator steering update]\n"

/-- `if text:` of an optional text. -/
def present (text : Option String) : Option String := text.filter (· ≠ "")

variable (protect : String → String) (record : String → String → String)

namespace Session

/-- `protect` is `protect_if_human_chat` for the trigger of the run. -/
def steer (s : Session) (text : String) : Session :=
  if text = "" then s
  else
    match present s.pendingSteer with
    | some prior => { s with pendingSteer := some (prior ++ "\n\n" ++ protect text) }
    | none => { s with pendingSteer := some (protect text) }

/-- `record_steering`: the task record stands in the system message, which it rewrites. -/
def recordSteering (messages : List Message) (text : String) : List Message :=
  messages.modifyHead fun m =>
    if m.role = "system" then { m with content := record m.content text } else m

def consumePendingSteer (s : Session) : Option String × Session :=
  match present s.pendingSteer with
  | some text =>
    (some text, { s with pendingSteer := none, messages := recordSteering record s.messages text })
  | none => (none, { s with pendingSteer := none })

def hasPendingControl (s : Session) : Bool :=
  (present s.pendingSteer).isSome || s.interruptRequested ||
    s.liveInbox.any fun inbox => inbox.items ≠ []

end Session

open Session

def steeringTurn (text : String) : Message := ⟨"user", STEERING_HEAD ++ text, none, false⟩

def followUpTurn (texts : List String) : Message :=
  ⟨"user", FRAMING ++ "\n" ++ "\n\n".intercalate texts, some FOLLOWUP_PIN, false⟩

def absorbOperatorSteer (s : Session) : Session :=
  match consumePendingSteer record s with
  | (some text, s) =>
    { s with
      messages := s.messages ++ [steeringTurn text]
      steerSteps := s.steerSteps ++ [text]
      liveInbox := s.liveInbox.map fun inbox =>
        { inbox with taken := inbox.taken ++ [⟨text, [("steer", .bool true)]⟩] }
      steersTaken := if s.liveInbox.isSome then s.steersTaken else s.steersTaken.map (· ++ [text])
      turnsSinceMemory := s.turnsSinceMemory + 1 }
  | (none, s) => s

def absorbFollowups (s : Session) : Bool × Session :=
  match s.liveInbox with
  | none => (false, s)
  | some inbox =>
    if s.routineOperationBound then (false, s)
    else
      let items := inbox.take.1
      let s := { s with liveInbox := some inbox.take.2 }
      if items = [] then (false, s)
      else
        let texts := items.map fun item => protect item.text
        let messages := s.messages ++ [followUpTurn texts]
        (true, { s with
          messages := texts.foldl (recordSteering record) messages
          turnsSinceMemory := s.turnsSinceMemory + 1 })

def absorbLateFollowups (s : Session) : Bool × Session :=
  if MAX_LATE_EXTENSIONS ≤ s.lateExtensions then (false, s)
  else
    let steered := absorbOperatorSteer record s
    let followed := absorbFollowups protect record steered
    if s.messages.length < steered.messages.length ∨ followed.1 = true then
      (true, { followed.2 with lateExtensions := followed.2.lateExtensions + 1 })
    else (false, followed.2)

/-- The newest assistant turn is marked as superseded. -/
def supersede : List Message → List Message
  | [] => []
  | m :: messages =>
    if messages.any (·.role = "assistant") then m :: supersede messages
    else if m.role = "assistant" then { m with superseded := true } :: messages
    else m :: messages

/-! ## The run -/

/-- Where the run is. -/
inductive Phase
  /-- At the top of the loop. -/
  | top
  /-- In an iteration: calls, tools, notes. -/
  | working
  /-- `deliver_interim` waits for the channel's callback. -/
  | delivering
  /-- The loop has returned with a final answer. -/
  | answered
  /-- `execute` has returned with it. -/
  | returned
  /-- The run ended otherwise. -/
  | stopped
deriving DecidableEq

/-- The run with what happened to it: the messages it began with, the follow-ups for which `push`
and the steers for which `steer` was done before the run returned, and what `close` gave back. -/
structure LiveRun where
  session : Session
  phase : Phase
  initial : List Message
  pushed : List FollowUp
  steered : List String
  closed : List FollowUp

inductive Act
  /-- The operator's side, and the channel's. -/
  | push (text : String) (info : Dict)
  | steer (text : String)
  | close
  | interrupt
  /-- `check_iteration_guards`: whether the clock stops it before the steer is read, and whether
  anything does behind it. -/
  | guards (expired halted : Bool)
  /-- Messages of the engine and the model; `next` is the way back to the top of the loop. -/
  | work (messages : List Message)
  | next
  /-- `keep_going_after_answer`: whether the answer is sent back for repair. -/
  | answer (sentBack : Bool)
  /-- The callback has returned, or there was none or nothing to deliver. -/
  | delivered (shown : Bool)
  /-- `finish_goal_report` and the other ways the loop returns with a text behind a tool turn. -/
  | report (message : Message)
  | finish (message : Message)
  /-- The verification sends the answer back into the loop, with its feedback. -/
  | retry (feedback : Message)
  | ret
  | stop

def isSteering (m : Message) : Bool :=
  m.role = "user" ∧ m.pin = none ∧ startsWith m.content STEERING_HEAD = true

def isFollowUps (m : Message) : Bool := m.role = "user" ∧ m.pin = some FOLLOWUP_PIN

/-- Messages that are none of the operator's mid-run turns. -/
def Ordinary (messages : List Message) : Prop :=
  ∀ m ∈ messages, isSteering m = false ∧ isFollowUps m = false

instance (messages : List Message) : Decidable (Ordinary messages) :=
  inferInstanceAs (Decidable (∀ m ∈ messages, _))

namespace LiveRun

def withSession (r : LiveRun) (s : Session) (phase : Phase) : LiveRun :=
  { r with session := s, phase := phase }

def push (r : LiveRun) (text : String) (info : Dict) : LiveRun :=
  match r.session.liveInbox with
  | none => r
  | some inbox =>
    let pushed := inbox.push text info
    { r with
      session := { r.session with liveInbox := some pushed.2 }
      pushed := if pushed.1 then r.pushed ++ [⟨text, info⟩] else r.pushed }

def steer (r : LiveRun) (text : String) : LiveRun :=
  { r with
    session := r.session.steer protect text
    steered := if text = "" ∨ r.phase = .returned then r.steered else r.steered ++ [text] }

def close (r : LiveRun) : LiveRun :=
  match r.session.liveInbox with
  | none => r
  | some inbox =>
    { r with
      session := { r.session with liveInbox := some inbox.close.2 }
      closed := r.closed ++ inbox.close.1 }

def guards (r : LiveRun) (expired halted : Bool) : LiveRun :=
  if expired then r.withSession r.session .stopped
  else
    let s := absorbOperatorSteer record r.session
    if halted || s.interruptRequested then r.withSession s .stopped
    else r.withSession (absorbFollowups protect record s).2 .working

def work (r : LiveRun) (messages : List Message) (phase : Phase) : LiveRun :=
  r.withSession { r.session with messages := r.session.messages ++ messages } phase

/-- The final-answer guard: an answer that is sent back goes round the loop; else what came late is
absorbed and the run goes on, or the loop returns. -/
def answer (r : LiveRun) (sentBack : Bool) : LiveRun :=
  if sentBack then r.withSession r.session .top
  else
    let late := absorbLateFollowups protect record r.session
    if late.1 then r.withSession late.2 .delivering else r.withSession late.2 .answered

def delivered (r : LiveRun) (shown : Bool) : LiveRun :=
  if shown then
    r.withSession { r.session with messages := supersede r.session.messages } .top
  else r.withSession r.session .top

end LiveRun

/-- What the operator, the channel and the run do; `none` where the run is not there. -/
def step (r : LiveRun) : Act → Option LiveRun
  | .push text info => some (r.push text info)
  | .steer text => some (r.steer protect text)
  | .close => some r.close
  | .interrupt =>
    some { r with session := { r.session with interruptRequested := true } }
  | .guards expired halted =>
    if r.phase = .top then some (r.guards protect record expired halted) else none
  | .work messages =>
    if (r.phase = .top ∨ r.phase = .working) ∧ Ordinary messages then
      some (r.work messages r.phase)
    else none
  | .next => if r.phase = .working then some (r.withSession r.session .top) else none
  | .answer sentBack =>
    if r.phase = .working then some (r.answer protect record sentBack) else none
  | .delivered shown => if r.phase = .delivering then some (r.delivered shown) else none
  | .report message =>
    if r.phase = .working ∧ Ordinary [message] ∧ r.session.hasPendingControl = false then
      some (r.work [message] .answered)
    else none
  | .finish message =>
    if r.phase = .working ∧ Ordinary [message] then some (r.work [message] .answered) else none
  | .retry feedback =>
    if r.phase = .answered ∧ Ordinary [feedback] then some (r.work [feedback] .top) else none
  | .ret => if r.phase = .answered then some (r.withSession r.session .returned) else none
  | .stop =>
    if r.phase = .returned then none else some (r.withSession r.session .stopped)

/-- A run begins with its channel's fresh inbox, if it has one, and nothing pending. -/
structure Begins (r : LiveRun) : Prop where
  phase : r.phase = .top
  pendingSteer : r.session.pendingSteer = none
  inbox : ∀ inbox ∈ r.session.liveInbox, inbox.items = [] ∧ inbox.isOpen = true
  initial : r.session.messages = r.initial
  pushed : r.pushed = []
  steered : r.steered = []
  closed : r.closed = []

def system : System LiveRun Act := System.ofStep Begins (step protect record)

end GenusOs.Engine.Live
