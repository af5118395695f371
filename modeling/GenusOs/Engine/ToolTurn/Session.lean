import GenusOs.Engine.Compaction.Messages
import GenusOs.Engine.Todolist
import GenusOs.Python.JsonText
import Mathlib

/-!
# The session a turn is recorded in

`AgentSession.record_tool_call` redacts a call and its result, and appends the tool message: an
image block where the result carries one, else the JSON text of the result, offloaded to a file
where it is long and tagged where it comes from outside. The step row, the observation ledgers and
the symbol graph are written beside the conversation and read nothing back from it.
-/

namespace GenusOs.Engine.ToolTurn

open GenusOs.Python
open GenusOs.Engine.Compaction (ToolCall)

/-! ## Messages -/

inductive Block
  | imageUrl (url : String)
  | text (s : String)
  deriving DecidableEq, Repr

inductive Content
  | text (s : String)
  | blocks (bs : List Block)
  | none
  deriving DecidableEq, Repr

/-- A chat message; `toolCalls` is empty where it carries no `tool_calls`. -/
structure Message where
  role : String
  content : Content := .none
  toolCalls : List ToolCall := []
  toolCallId : Option String := none
  offloadReadback : Bool := false
  deriving DecidableEq, Repr

namespace Message

def isTool (m : Message) : Bool := m.role = "tool"

def callIds (m : Message) : List String := m.toolCalls.map (·.id)

/-- Role and ids. -/
def shape (m : Message) : String × List String × Option String := (m.role, m.callIds, m.toolCallId)

end Message

/-- A turn of the engine's own. -/
def ENGINE_CONTEXT_ROLE : String := "developer"

def engineNote (text : String) : Message := { role := ENGINE_CONTEXT_ROLE, content := .text text }

/-! ## Sessions -/

structure AgentSession where
  messages : List Message
  /-- The items of `todo_list`, if the run has one. -/
  todoList : Option (List TodoItem) := none
  offloadedPaths : List String := []
  toolOffloadThreshold : Nat := 0
  /-- `repeat_guard.pending_notes`. -/
  pendingNotes : List String := []
  deriving DecidableEq, Repr

/-- What a turn takes from the platform: the standard library, the redactors, the settings. -/
structure ToolPlatform where
  floatText : Rat → String
  /-- `str(v)` of a value that is no string. -/
  repr : Json → String
  lower : String → String
  /-- `json.loads`, if it does not raise. -/
  loads : String → Option Json
  fnmatch : String → String → Bool
  redactToolArguments : String → Json → Json
  redactToolResult : Dict → Dict
  redactSecrets : Dict → Dict
  extractToolSummary : String → String
  mkstemp : String → List String → String
  /-- The file is named and placed as an offloaded result is. -/
  isTempArtifact : String → Bool
  declaredReadOnlyTools : List String
  /-- `settings.engine.parallel_tool_calls`, if it can be read. -/
  parallelToolCalls : Option Int
  /-- `classify_error(tool_name, error_msg)`. -/
  classifyError : String → String → String

variable (env : ToolPlatform)

/-- `str(v)`. -/
def pyStr : Json → String
  | .str s => s
  | v => env.repr v

def dumps (d : Dict) : String := Json.dumps env.floatText (.obj d)

/-! ## The call a `tool_call` wraps -/

def WRAPPER_TOOL : String := "tool_call"

/-- The arguments the model sent as an object, or as the JSON string of one. -/
def explicitArguments : Json → Option Dict
  | .obj d => some d
  | .str s =>
    match env.loads s with
    | some (.obj d) => some d
    | _ => none
  | _ => none

/-- Missing or empty arguments mean none. -/
def wrappedArguments : Json → Option Dict
  | .null => some []
  | .str "" => some []
  | raw => explicitArguments env raw

def asDict : Json → Dict
  | .obj d => d
  | _ => []

/-- `(name, arguments)` of the call that actually runs. -/
def innerCall (name : String) (arguments : Json) : String × Dict :=
  let args := asDict arguments
  if name ≠ WRAPPER_TOOL then (name, args)
  else
    match Dict.get args "name" .null with
    | .str inner =>
      if strip inner = "" ∨ strip inner = WRAPPER_TOOL then (name, args)
      else (strip inner, (wrappedArguments env (Dict.get args "arguments" .null)).getD [])
    | _ => (name, args)

/-- The tool a call reaches, as the redaction of results judges it. -/
def effectiveTool (toolName : String) (toolInput : Json) : String :=
  match toolInput with
  | .obj d =>
    if strip toolName = WRAPPER_TOOL then
      let inner := Dict.get d "name" .null
      strip (if inner.truthy then pyStr env inner else "")
    else strip toolName
  | _ => strip toolName

/-! ## Recording a call -/

/-- Tools whose output holds untrusted external content. -/
def EXTERNAL_DATA_TOOLS : List String :=
  ["web_fetch", "web_render", "web_search", "search_memory", "get_entity", "get_conversation",
    "list_messages", "n8n_list_workflows", "n8n_recent_failures"]

/-- Tools whose result the model is handed as it is. -/
def SECRET_RESULT_TOOLS : List String := []

/-- `a or b`. -/
def pyOr (a b : Json) : Json := if a.truthy then a else b

/-- The image a result carries. -/
def imageData (output : Dict) : Option String :=
  match pyOr (output.get "image_base64" .null) (output.get "screenshot_base64" .null) with
  | .str s => if s = "" then none else some s
  | _ => none

/-- What survives where the picture is stripped. -/
def imageCaption (output : Dict) : String :=
  "Image (" ++ pyStr env (output.get "width" (.str "?")) ++ "x" ++
    pyStr env (output.get "height" (.str "?")) ++ ")" ++
    (if (output.get "path" .null).truthy then " from " ++ pyStr env (output.get "path" .null)
      else "") ++
    (if (output.get "note" .null).truthy then " — " ++ pyStr env (output.get "note" .null) else "")

def imageMessage (toolCallId data : String) (output : Dict) : Message where
  role := "tool"
  toolCallId := some toolCallId
  content := .blocks
    [.imageUrl ("data:" ++ pyStr env (pyOr (output.get "image_mime" .null) (.str "image/png")) ++
      ";base64," ++ data),
    .text (imageCaption env output)]

/-- `read_file` of an offloaded result must never be offloaded again. -/
def isOffloadReadback (s : AgentSession) (toolName : String) (toolInput : Dict) : Bool :=
  if toolName ≠ "read_file" then false
  else
    let path := pyStr env (pyOr (toolInput.get "path" .null) (.str ""))
    if path = "" then false
    else s.offloadedPaths.contains path || env.isTempArtifact path

/-- The spilled streams of an `exec` count as offloaded. -/
def rememberSpills (s : AgentSession) (output : Dict) : AgentSession :=
  let spilled := ["stdout_path", "stderr_path"].filterMap fun key =>
    match output.get key .null with
    | .str path => if path = "" then none else some path
    | _ => none
  { s with offloadedPaths := s.offloadedPaths ++ spilled }

/-- The content of the tool message, and the file a long result went to. -/
def textContent (s : AgentSession) (toolName callName : String) (isReadback : Bool)
    (output : Dict) : String × List String :=
  let content := dumps env output
  let offloads := s.toolOffloadThreshold ≠ 0 && s.toolOffloadThreshold < content.toList.length &&
    !isReadback
  let path := env.mkstemp toolName s.offloadedPaths
  let content := if offloads then env.extractToolSummary content ++ "\n[Full output: " ++ path ++
    " — use read_file to retrieve if needed]" else content
  let content := if EXTERNAL_DATA_TOOLS.contains callName then "<untrusted_content source=\"" ++
    callName ++ "\">\n" ++ content ++ "\n</untrusted_content>" else content
  (content, if offloads then [path] else [])

/-- The arguments as they are stored, and the call they are of. -/
def redactedCall (toolName : String) (toolInput : Json) : Json × String × Dict :=
  let toolInput := env.redactToolArguments toolName toolInput
  let call := innerCall env toolName toolInput
  if call.1 ≠ toolName ∧
      (explicitArguments env (Dict.get (asDict toolInput) "arguments" .null)).isSome then
    let callArgs := asDict (env.redactToolArguments call.1 (.obj call.2))
    (.obj (Dict.set (asDict toolInput) "arguments" (.obj callArgs)), call.1, callArgs)
  else (toolInput, call.1, call.2)

/-- `record_tool_call`; a proxied call is a step but not a turn, and appends no message. -/
def recordToolCall (s : AgentSession) (toolName : String) (toolInput : Json) (toolOutput : Dict)
    (toolCallId : String) (appendMessage : Bool) : AgentSession :=
  let call := redactedCall env toolName toolInput
  let redacted := env.redactToolResult toolOutput
  let modelOutput :=
    if SECRET_RESULT_TOOLS.contains (effectiveTool env toolName call.1) then toolOutput
    else redacted
  let s := rememberSpills s redacted
  if !appendMessage then s
  else
    match imageData modelOutput with
    | some data =>
      { s with messages := s.messages ++ [imageMessage env toolCallId data redacted] }
    | none =>
      let isReadback := isOffloadReadback env s call.2.1 call.2.2
      let content := textContent env s toolName call.2.1 isReadback modelOutput
      { s with
        offloadedPaths := s.offloadedPaths ++ content.2
        messages := s.messages ++
          [{ role := "tool", toolCallId := some toolCallId, content := .text content.1
             offloadReadback := isReadback }] }

/-! ## What recording a call does to the conversation -/

variable {env} {s : AgentSession} {toolName toolCallId : String} {toolInput : Json}
  {toolOutput : Dict}

/-- A recorded call appends its result. -/
theorem recordToolCall_messages :
    ∃ m : Message, m.shape = ("tool", [], some toolCallId) ∧
      (recordToolCall env s toolName toolInput toolOutput toolCallId true).messages =
        s.messages ++ [m] := by
  unfold recordToolCall
  simp only [Bool.not_true, Bool.false_eq_true, ↓reduceIte]
  split
  · exact ⟨_, rfl, rfl⟩
  · exact ⟨_, rfl, rfl⟩

@[simp] theorem recordToolCall_proxied :
    (recordToolCall env s toolName toolInput toolOutput toolCallId false).messages =
      s.messages := by
  unfold recordToolCall
  rfl

@[simp] theorem recordToolCall_todoList (append : Bool) :
    (recordToolCall env s toolName toolInput toolOutput toolCallId append).todoList =
      s.todoList := by
  unfold recordToolCall
  simp only
  split
  · rfl
  · split <;> rfl

@[simp] theorem recordToolCall_pendingNotes (append : Bool) :
    (recordToolCall env s toolName toolInput toolOutput toolCallId append).pendingNotes =
      s.pendingNotes := by
  unfold recordToolCall
  simp only
  split
  · rfl
  · split <;> rfl

end GenusOs.Engine.ToolTurn
