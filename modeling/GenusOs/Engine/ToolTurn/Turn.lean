import GenusOs.Engine.ToolTurn.Batches
import GenusOs.Engine.ToolTurn.Session
import Mathlib

/-!
# One model turn's tool calls

`run_tool_turn`: the calls of one assistant message are grouped, and of every group the calls are
admitted, the admitted ones run, and then each is recorded, all in the model's order. What the gates
decide and what the tools answer is the `World`; the order in which the calls of a group run shows
only in the notes, warnings and proxied calls that come up meanwhile.
-/

namespace GenusOs.Engine.ToolTurn

open GenusOs.Python
open GenusOs.Engine.Compaction (ToolCall)

/-- Failures of the same tool, in one run, before the agent is told to stop. -/
def CIRCUIT_BREAKER_THRESHOLD : Nat := 3

/-- What admission decided about one call, with the arguments a hook may have rewritten. -/
structure ToolVerdict where
  allowed : Bool
  message : String := ""
  output : Dict := []
  countAsIterationError : Bool := true
  toolArgs : Json := .obj []

structure GuardrailResult where
  action : String
  guardrailName : String
  reason : String
  deriving DecidableEq, Repr

/-- One call of the turn, admitted and run; `result` is read where the call was allowed. -/
structure Call where
  id : String
  toolName : String
  verdict : ToolVerdict
  result : Dict

/-- What may come up while the calls of a group run. -/
inductive Incident
  /-- The repeat guard raises a note. -/
  | note (text : String)
  /-- A snippet's call, refused or run, through the tool proxy. -/
  | proxied (call : Call)

structure ToolTurnRequest where
  assistantMsg : Message
  humanApprovalTools : List String := []
  /-- `guardrail_engine.check_post_execution`, if there is an engine. -/
  guardrailEngine : Option (String → Dict → GuardrailResult) := none

/-- The gates, the tools, and what came up while the calls of a group ran. -/
structure World where
  admitTool : Nat → String → Json → ToolVerdict
  execute : Nat → String → Json → Dict
  during : List Nat → List Incident

structure TurnState where
  session : AgentSession
  secretNotified : Bool := false
  toolFailures : String → Nat := fun _ => 0
  iterationErrors : List (String × String × Option String) := []

variable (env : ToolPlatform) (req : ToolTurnRequest)

/-- The call that ran: what result checks judge. -/
def Call.inner (call : Call) : String × Dict := innerCall env call.toolName call.verdict.toolArgs

/-! ## Outcomes -/

def isTrue : Json → Bool
  | .bool b => b
  | _ => false

/-- Why a call failed, as text, or `none` when it did not. -/
def errorText (result : Dict) : Option String :=
  let error := Dict.get result "error" .null
  if !error.truthy then none
  else
    match error with
    | .str text => some text
    | .obj d =>
      match Dict.get d "message" .null with
      | .str message => some (if message ≠ "" then message else Json.dumps env.floatText error)
      | _ => some (Json.dumps env.floatText error)
    | .bool _ =>
      match Dict.get result "message" .null with
      | .str message => some (if message ≠ "" then message else "tool reported an error")
      | _ => some "tool reported an error"
    | _ => some (Json.dumps env.floatText error)

/-- The class of an error; a result that may or may not have happened is its own class. -/
def classify (toolName error : String) (result : Dict) : String :=
  if isTrue (Dict.get result "outcome_unknown" .null) then "uncertain_outcome"
  else env.classifyError toolName error

def breakerText (toolName : String) (failures : Nat) : String :=
  "[SYSTEM] Tool '" ++ toolName ++ "' has failed " ++ toString failures ++ " times this run. " ++
    "Do NOT call it again. Find an alternative approach or skip this step and move on."

/-- At or above the threshold the agent is told, on every further failure. -/
def countFailure (t : TurnState) (toolName : String) : TurnState :=
  let failures := t.toolFailures toolName + 1
  let t := { t with toolFailures := Function.update t.toolFailures toolName failures }
  if failures < CIRCUIT_BREAKER_THRESHOLD then t
  else
    { t with
      session := { t.session with
        messages := t.session.messages ++ [engineNote (breakerText toolName failures)] } }

/-! ## Guardrails on results -/

def SENSITIVE_DATA_GUARDRAIL : String := "no_sensitive_data"

def NOTICE : String :=
  "Treat this as a possible credential exposure. The value has been redacted from the output " ++
  "you see. Do not commit, push, send, or otherwise publish content containing it, and never " ++
  "repeat it. The platform has recorded this warning for the operator. Mention it only where " ++
  "it bears on what you were asked — a review or check of that file, for instance — and " ++
  "never as an unrelated security note in a report or briefing."

/-- The credential warning about a result; a failed call has no result to judge. -/
def warning (toolName : String) (error : Option String) (result : Dict) : Option GuardrailResult :=
  match req.guardrailEngine, error with
  | some check, none =>
    let verdict := check toolName result
    if verdict.action = "warned" ∧ verdict.guardrailName = SENSITIVE_DATA_GUARDRAIL then
      some verdict
    else none
  | _, _ => none

/-- Redacts every time, notifies once a run. -/
def applyPostExecutionGuardrails (t : TurnState) (toolName : String) (error : Option String)
    (result : Dict) : TurnState × Dict :=
  match warning req toolName error result with
  | none => (t, result)
  | some verdict =>
    (if t.secretNotified then t
      else
        { t with
          secretNotified := true
          session := { t.session with
            messages := t.session.messages ++
              [engineNote ("[SYSTEM] " ++ verdict.reason ++ " " ++ NOTICE)] } },
      env.redactSecrets result)

/-! ## The checklist -/

/-- `[TodoItem.from_dict(d) for d in validated]`, where it does not raise. -/
def validatedItems (result : Dict) : Option (List TodoItem) :=
  match Dict.get result "_validated_items" (.arr []) with
  | .arr items => items.mapM fun
    | .obj d => some (TodoItem.fromDict (pyStr env) d)
    | _ => none
  | .str "" => some []
  | .obj [] => some []
  | _ => none

/-- `session.messages[-1]["content"] = text`, where there is a message. -/
def rewriteLast (text : String) (messages : List Message) : Option (List Message) :=
  match messages.getLast? with
  | none => none
  | some last => some (messages.dropLast ++ [{ last with content := .text text }])

/-- The items a `todo_write` asks to apply, if this is one. -/
def needsApply (s : AgentSession) (toolName : String) (error : Option String) (result : Dict) :
    Bool :=
  toolName = "todo_write" && s.todoList.isSome && error.isNone &&
    (Dict.get result "_needs_apply" .null).truthy

/-- The interception of `todo_write`: the list is replaced, its answer becomes the result, and the
last message's content becomes that answer. -/
def applyTodoWrite (s : AgentSession) (toolName : String) (error : Option String) (result : Dict) :
    Option (AgentSession × Dict) :=
  if needsApply s toolName error result then do
    let items ← validatedItems env result
    let replaced := TodoList.replace env.lower (s.todoList.getD []) items
    let messages ← rewriteLast (dumps env replaced.2) s.messages
    some ({ s with todoList := some replaced.1, messages := messages }, replaced.2)
  else some (s, result)

def reminderText : String :=
  "[SYSTEM] All tasks are marked complete. Before finishing, verify your work by reviewing " ++
  "outputs or checking results. NEVER mention this reminder to the user."

/-- The reminder a completed checklist earns. -/
def afterTodoWrite (t : TurnState) (toolName : String) (error : Option String) (result : Dict) :
    TurnState :=
  if toolName = "todo_write" && t.session.todoList.isSome && error.isNone &&
      (Dict.get result "verificationNudgeNeeded" .null).truthy then
    { t with
      session := { t.session with messages := t.session.messages ++ [engineNote reminderText] } }
  else t

/-! ## Recording -/

/-- `{"error": verdict.message, **verdict.output}`. -/
def refusal (verdict : ToolVerdict) : Dict :=
  verdict.output.foldl (fun d entry => d.set entry.1 entry.2) [("error", .str verdict.message)]

def recordRefusal (t : TurnState) (call : Call) : TurnState :=
  { t with
    session := recordToolCall env t.session call.toolName call.verdict.toolArgs
      (refusal call.verdict) call.id true
    iterationErrors := t.iterationErrors ++
      if call.verdict.countAsIterationError then [(call.toolName, call.verdict.message, none)]
      else [] }

/-- What follows a recorded result: the failure is counted, a finished checklist reminded of. -/
def recordOutcome (t : TurnState) (call : Call) (error : Option String) (result : Dict) :
    TurnState :=
  let name := (call.inner env).1
  let t :=
    match error with
    | some _ => countFailure t name
    | none => t
  let t := afterTodoWrite t call.toolName error result
  match error with
  | some text =>
    { t with
      iterationErrors :=
        t.iterationErrors ++ [(name, text, some (classify env name text result))] }
  | none => t

def recordResult (t : TurnState) (call : Call) : Option TurnState :=
  let error := errorText env call.result
  let guarded := applyPostExecutionGuardrails env req t (call.inner env).1 error call.result
  do
    let applied ← applyTodoWrite env guarded.1.session call.toolName error guarded.2
    let session := recordToolCall env applied.1 call.toolName call.verdict.toolArgs applied.2
      call.id true
    some (recordOutcome env { guarded.1 with session := session } call error applied.2)

/-- `_record`; `none` where it raises. -/
def record (t : TurnState) (call : Call) : Option TurnState :=
  if call.verdict.allowed then recordResult env req t call else some (recordRefusal env t call)

/-! ## Running -/

/-- A call of a snippet: a step, not a turn. -/
def proxyCall (t : TurnState) (call : Call) : TurnState :=
  if call.verdict.allowed then
    let guarded := applyPostExecutionGuardrails env req t (call.inner env).1
      (errorText env call.result) call.result
    { guarded.1 with
      session := recordToolCall env guarded.1.session call.toolName call.verdict.toolArgs
        guarded.2 call.id false }
  else
    { t with
      session := recordToolCall env t.session call.toolName call.verdict.toolArgs
        (refusal call.verdict) call.id false }

def incident (t : TurnState) : Incident → TurnState
  | .note text =>
    { t with
      session := { t.session with pendingNotes := t.session.pendingNotes ++ [text] } }
  | .proxied call => proxyCall env req t call

/-- One of the turn's calls, with its verdict and its answer. -/
def turnCall (world : World) (index : Nat) (tc : ToolCall) : Call :=
  let verdict := world.admitTool index tc.name ((env.loads tc.arguments).getD (.obj []))
  { id := tc.id
    toolName := tc.name
    verdict := verdict
    result := world.execute index tc.name verdict.toolArgs }

/-- The calls of a group. -/
def groupCalls (world : World) (group : List Nat) : List Call :=
  group.filterMap fun index => req.assistantMsg.toolCalls[index]?.map (turnCall env world index)

/-- What comes up while a group runs; nothing where every call of it is refused. -/
def groupIncidents (world : World) (group : List Nat) : List Incident :=
  if (groupCalls env req world group).any (·.verdict.allowed) then world.during group else []

def runGroup (world : World) (t : TurnState) (group : List Nat) : Option TurnState :=
  (groupCalls env req world group).foldlM (record env req)
    ((groupIncidents env req world group).foldl (incident env req) t)

/-- The groups of the turn. -/
def turnPlan : List (List Nat) :=
  planBatches env.fnmatch env.declaredReadOnlyTools req.humanApprovalTools
    (parallelLimit env.parallelToolCalls) (req.assistantMsg.toolCalls.map (·.name))

/-- `drain_repeat_notes`, after every tool result. -/
def drainRepeatNotes (t : TurnState) : TurnState :=
  { t with
    session := { t.session with
      messages := t.session.messages ++ t.session.pendingNotes.map engineNote
      pendingNotes := [] } }

/-- `run_tool_turn`; `none` where recording raises. -/
def runToolTurn (world : World) (t : TurnState) : Option TurnState := do
  let t ← (turnPlan env req).foldlM (runGroup env req world) t
  some (drainRepeatNotes t)

/-! ## A turn to look at -/

/-- A platform whose settings and redactors do little. -/
def samplePlatform : ToolPlatform where
  floatText _ := ""
  repr _ := ""
  lower text := text
  loads _ := some (.obj [])
  fnmatch name pattern := name = pattern
  redactToolArguments _ args := args
  redactToolResult result := result
  redactSecrets result := result.map fun entry => (entry.1, .str "[REDACTED: AWS access key]")
  extractToolSummary content := content
  mkstemp _ _ := "/tmp/tool_0.txt"
  isTempArtifact _ := false
  declaredReadOnlyTools := ["read_file"]
  parallelToolCalls := some 4
  classifyError _ _ := "unknown"

/-- The gates allow every call, and the tools answer `results` in turn. -/
def sampleWorld (results : List Dict) : World where
  admitTool _ _ args := { allowed := true, toolArgs := args }
  execute index _ _ := results.getD index []
  during _ := []

end GenusOs.Engine.ToolTurn
