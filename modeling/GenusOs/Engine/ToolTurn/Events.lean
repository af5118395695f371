import GenusOs.Engine.ToolTurn.Turn
import Mathlib

/-!
# A turn, event by event

A turn is a sequence of events: what comes up while a group runs, then the recording of its calls.
`Event.step` is one of them, and `runToolTurn_eq` says that the turn is the run of its events.

* `Stepped`: what an event appends to the conversation, by role and ids, and what it counts; all of
  it is read off the event, the flag and the counters before it.
* `step_stepped`: every event does exactly that.
-/

namespace GenusOs.Engine.ToolTurn

open GenusOs.Python
open GenusOs.Engine.Compaction (ToolCall)

inductive Event
  | incident (i : Incident)
  | record (call : Call)

variable (env : ToolPlatform) (req : ToolTurnRequest)

/-- `none` where recording raises. -/
def Event.step (t : TurnState) : Event → Option TurnState
  | .incident i => some (ToolTurn.incident env req t i)
  | .record call => ToolTurn.record env req t call

def groupEvents (world : World) (group : List Nat) : List Event :=
  (groupIncidents env req world group).map .incident ++
    (groupCalls env req world group).map .record

def turnEvents (world : World) : List Event :=
  (turnPlan env req).flatMap (groupEvents env req world)

/-- The calls of the turn, in the model's order. -/
def turnCalls (world : World) : List Call :=
  (List.range req.assistantMsg.toolCalls.length).filterMap fun index =>
    req.assistantMsg.toolCalls[index]?.map (turnCall env world index)

/-! ## The turn is the run of its events -/

variable {env req} {world : World} {t t' : TurnState}

theorem runGroup_eq (group : List Nat) : runGroup env req world t group =
    (groupEvents env req world group).foldlM (Event.step env req) t := by
  unfold runGroup groupEvents
  rw [List.foldlM_append, List.foldlM_map]
  have hincidents : ∀ (is : List Incident) (t : TurnState),
      is.foldlM (fun t i => Event.step env req t (.incident i)) t =
        some (is.foldl (incident env req) t) := by
    intro is
    induction is with
    | nil => exact fun t => rfl
    | cons i is ih => exact fun t => ih (incident env req t i)
  rw [hincidents]
  show _ = ((groupCalls env req world group).map Event.record).foldlM (Event.step env req) _
  rw [List.foldlM_map]
  rfl

theorem runToolTurn_eq : runToolTurn env req world t =
    ((turnEvents env req world).foldlM (Event.step env req) t).map drainRepeatNotes := by
  have hgroups : ∀ (groups : List (List Nat)) (t : TurnState),
      groups.foldlM (runGroup env req world) t =
        (groups.flatMap (groupEvents env req world)).foldlM (Event.step env req) t := by
    intro groups
    induction groups with
    | nil => exact fun t => rfl
    | cons group groups ih =>
      intro t
      rw [List.flatMap_cons, List.foldlM_append, List.foldlM_cons, runGroup_eq]
      exact congrArg _ (funext ih)
  unfold runToolTurn turnEvents
  rw [hgroups]
  cases (List.flatMap (groupEvents env req world) (turnPlan env req)).foldlM
    (Event.step env req) t with
  | none => rfl
  | some t' => rfl

def Event.call? : Event → Option Call
  | .incident _ => none
  | .record call => some call

/-- **The calls are recorded in the model's order, each once.** -/
theorem turnEvents_calls :
    (turnEvents env req world).filterMap Event.call? = turnCalls env req world := by
  have hgroup : ∀ group, (groupEvents env req world group).filterMap Event.call? =
      groupCalls env req world group := by
    intro group
    unfold groupEvents
    rw [List.filterMap_append, List.filterMap_map, List.filterMap_map]
    have hnone : (groupIncidents env req world group).filterMap (Event.call? ∘ .incident) = [] :=
      List.filterMap_eq_nil_iff.mpr fun i _ => rfl
    rw [hnone, List.nil_append]
    exact List.filterMap_some
  unfold turnEvents turnCalls
  rw [List.filterMap_flatMap]
  simp only [hgroup]
  unfold groupCalls
  rw [List.flatMap_def, ← List.filterMap_flatten, turnPlan, planBatches_flatten, List.length_map]

/-! ## What an event appends and counts -/

/-- Role, ids of the calls, id of the call answered. -/
abbrev Shape := String × List String × Option String

def AgentSession.shapes (s : AgentSession) : List Shape := s.messages.map Message.shape

def resultShape (id : String) : Shape := ("tool", [], some id)

def noteShape : Shape := (ENGINE_CONTEXT_ROLE, [], none)

/-- A turn of the engine's own, where one is raised. -/
def notes (raised : Bool) : List Shape := if raised then [noteShape] else []

variable (env req)

/-- The call ran, and the guardrails find a credential in its result. -/
def Call.warned (call : Call) : Bool :=
  call.verdict.allowed &&
    (warning req (call.inner env).1 (errorText env call.result) call.result).isSome

/-- The tool that ran and failed. -/
def Call.failure (call : Call) : Option String :=
  if call.verdict.allowed && (errorText env call.result).isSome then some (call.inner env).1
  else none

/-- The result the guardrails let through. -/
def Call.guarded (call : Call) : Dict :=
  if call.warned env req then env.redactSecrets call.result else call.result

/-- The answer asks for the reminder: that of the list it applies, else its own. -/
def earnsReminder (result : Dict) : Bool :=
  if (Dict.get result "_needs_apply" .null).truthy then
    match validatedItems env result with
    | some items =>
      (TodoList.validate items).isNone && TodoList.checkVerificationNudge env.lower items
    | none => false
  else (Dict.get result "verificationNudgeNeeded" .null).truthy

/-- The call ran and completes the checklist. -/
def Call.completes (call : Call) : Bool :=
  call.verdict.allowed && call.toolName = "todo_write" && (errorText env call.result).isNone &&
    earnsReminder env (call.guarded env req)

/-- This failure reaches the threshold. -/
def trips (failures : String → Nat) : Option String → Bool
  | some name => CIRCUIT_BREAKER_THRESHOLD ≤ failures name + 1
  | none => false

/-- The agent is told after this call: to give the tool up, or to verify its work. -/
def Call.nudges (failures : String → Nat) (listed : Bool) (call : Call) : Bool :=
  trips failures (call.failure env) || (listed && call.completes env req)

def Event.warned : Event → Bool
  | .incident (.note _) => false
  | .incident (.proxied call) => call.warned env req
  | .record call => call.warned env req

def Event.failure : Event → Option String
  | .incident _ => none
  | .record call => call.failure env

/-- What is appended after the warning, if there is one. -/
def Event.outcome (failures : String → Nat) (listed : Bool) : Event → List Shape
  | .incident _ => []
  | .record call => resultShape call.id :: notes (call.nudges env req failures listed)

/-- What an event does to the conversation, to the flag and to the counters. -/
structure Stepped (t : TurnState) (e : Event) (t' : TurnState) : Prop where
  shapes : t'.session.shapes = t.session.shapes ++
    (notes (!t.secretNotified && e.warned env req) ++
      e.outcome env req t.toolFailures t.session.todoList.isSome)
  notified : t'.secretNotified = (t.secretNotified || e.warned env req)
  failures : ∀ name, t'.toolFailures name =
    t.toolFailures name + if e.failure env = some name then 1 else 0
  listed : t'.session.todoList.isSome = t.session.todoList.isSome

/-! ## Stage by stage -/

variable {env req} {s s' : AgentSession} {call : Call} {toolName : String} {error : Option String}
  {result result' : Dict}

theorem shapes_append (ms : List Message) :
    AgentSession.shapes { s with messages := s.messages ++ ms } =
      s.shapes ++ ms.map Message.shape :=
  List.map_append

theorem recordToolCall_shapes {toolInput : Json} {id : String} :
    (recordToolCall env s toolName toolInput result id true).shapes =
      s.shapes ++ [resultShape id] := by
  obtain ⟨m, hm, hs⟩ := @recordToolCall_messages env s toolName id
    toolInput result
  unfold AgentSession.shapes
  rw [hs, List.map_append, List.map_singleton, hm]
  rfl

/-- The warning of a result, if it is the first of the run, is all that the guardrails append. -/
theorem guardrails_messages : ∃ notice : List Message,
    (applyPostExecutionGuardrails env req t toolName error result).1.session.messages =
        t.session.messages ++ notice ∧
      notice.map Message.shape =
        notes (!t.secretNotified && (warning req toolName error result).isSome) := by
  unfold applyPostExecutionGuardrails
  cases warning req toolName error result with
  | none => exact ⟨[], (List.append_nil _).symm, by simp [notes]⟩
  | some verdict =>
    cases hn : t.secretNotified with
    | true => exact ⟨[], (List.append_nil _).symm, by simp [notes]⟩
    | false => exact ⟨[_], rfl, rfl⟩

theorem guardrails_shapes :
    (applyPostExecutionGuardrails env req t toolName error result).1.session.shapes =
      t.session.shapes ++
        notes (!t.secretNotified && (warning req toolName error result).isSome) := by
  obtain ⟨notice, hmessages, hnotice⟩ := @guardrails_messages env req t
    toolName error result
  unfold AgentSession.shapes
  rw [hmessages, List.map_append, hnotice]

theorem guardrails_notified :
    (applyPostExecutionGuardrails env req t toolName error result).1.secretNotified =
      (t.secretNotified || (warning req toolName error result).isSome) := by
  unfold applyPostExecutionGuardrails
  cases warning req toolName error result with
  | none => simp
  | some verdict =>
    cases hn : t.secretNotified with
    | true => simp [hn]
    | false => simp

@[simp] theorem guardrails_todoList :
    (applyPostExecutionGuardrails env req t toolName error result).1.session.todoList =
      t.session.todoList := by
  unfold applyPostExecutionGuardrails
  cases warning req toolName error result with
  | none => rfl
  | some verdict =>
    show (if _ then _ else _ : TurnState).session.todoList = _
    split <;> rfl

@[simp] theorem guardrails_toolFailures :
    (applyPostExecutionGuardrails env req t toolName error result).1.toolFailures =
      t.toolFailures := by
  unfold applyPostExecutionGuardrails
  cases warning req toolName error result with
  | none => rfl
  | some verdict =>
    show (if _ then _ else _ : TurnState).toolFailures = _
    split <;> rfl

theorem guardrails_result :
    (applyPostExecutionGuardrails env req t toolName error result).2 =
      if (warning req toolName error result).isSome then env.redactSecrets result else result := by
  unfold applyPostExecutionGuardrails
  cases warning req toolName error result with
  | none => rfl
  | some verdict => rfl

/-- The rewritten message keeps its role and its ids. -/
theorem rewriteLast_shapes {text : String} {ms ms' : List Message}
    (h : rewriteLast text ms = some ms') : ms'.map Message.shape = ms.map Message.shape := by
  unfold rewriteLast at h
  cases hlast : ms.getLast? with
  | none =>
    rw [hlast] at h
    cases h
  | some last =>
    rw [hlast] at h
    cases h
    obtain ⟨init, rfl⟩ := List.getLast?_eq_some_iff.mp hlast
    rw [List.dropLast_concat, List.map_append, List.map_append]
    rfl

/-- The interception rewrites a content and the list; the answer asks for the reminder where the
result earns it. -/
theorem applyTodoWrite_spec (h : applyTodoWrite env s toolName error result = some (s', result')) :
    s'.shapes = s.shapes ∧ s'.todoList.isSome = s.todoList.isSome ∧
      (toolName = "todo_write" → s.todoList.isSome = true → error = none →
        (Dict.get result' "verificationNudgeNeeded" .null).truthy = earnsReminder env result) := by
  unfold applyTodoWrite at h
  split at h
  · next happly =>
    unfold needsApply at happly
    simp only [Bool.and_eq_true] at happly
    obtain ⟨⟨⟨-, hlisted⟩, -⟩, htruthy⟩ := happly
    obtain ⟨items, hitems, h⟩ := Option.bind_eq_some_iff.mp h
    obtain ⟨messages, hmessages, h⟩ := Option.bind_eq_some_iff.mp h
    cases h
    refine ⟨rewriteLast_shapes hmessages, hlisted.symm, fun _ _ _ => ?_⟩
    unfold earnsReminder
    rw [if_pos htruthy, hitems]
    exact TodoList.replace_reminds
  · next hskip =>
    cases h
    refine ⟨rfl, rfl, fun hname hlisted herror => ?_⟩
    unfold needsApply at hskip
    unfold earnsReminder
    rw [if_neg]
    intro htruthy
    exact hskip (by simp [hname, hlisted, herror, htruthy])

/-- Whether the checklist is completed, as `afterTodoWrite` reads it. -/
def reminded (s : AgentSession) (toolName : String)
    (error : Option String) (result : Dict) : Bool :=
  toolName = "todo_write" && s.todoList.isSome && error.isNone &&
    (Dict.get result "verificationNudgeNeeded" .null).truthy

theorem countFailure_shapes (name : String) : (countFailure t name).session.shapes =
    t.session.shapes ++ notes (trips t.toolFailures (some name)) := by
  unfold countFailure trips
  simp only
  split
  · next h => simp [notes, Nat.not_le.mpr h]
  · next h =>
    rw [decide_eq_true (Nat.le_of_not_lt h)]
    exact shapes_append _

theorem countFailure_toolFailures (name other : String) :
    (countFailure t name).toolFailures other =
      t.toolFailures other + if name = other then 1 else 0 := by
  have hupdate : (countFailure t name).toolFailures =
      Function.update t.toolFailures name (t.toolFailures name + 1) := by
    unfold countFailure
    simp only
    split <;> rfl
  rw [hupdate, Function.update_apply]
  by_cases h : name = other
  · rw [if_pos h, if_pos h.symm, h]
  · rw [if_neg h, if_neg (Ne.symm h), Nat.add_zero]

@[simp] theorem countFailure_todoList (name : String) :
    (countFailure t name).session.todoList = t.session.todoList := by
  unfold countFailure
  simp only
  split <;> rfl

@[simp] theorem countFailure_secretNotified (name : String) :
    (countFailure t name).secretNotified = t.secretNotified := by
  unfold countFailure
  simp only
  split <;> rfl

theorem afterTodoWrite_eq : afterTodoWrite t toolName error result =
    { t with
      session := { t.session with
        messages := t.session.messages ++
          if reminded t.session toolName error result then [engineNote reminderText]
            else [] } } := by
  unfold afterTodoWrite reminded
  split
  · rfl
  · rw [List.append_nil]

/-- What follows a recorded result. -/
theorem recordOutcome_spec :
    (recordOutcome env t call error result).session.shapes = t.session.shapes ++
        (notes (trips t.toolFailures (error.map fun _ => (call.inner env).1)) ++
          notes (reminded t.session call.toolName error result)) ∧
      (recordOutcome env t call error result).secretNotified = t.secretNotified ∧
      (recordOutcome env t call error result).session.todoList = t.session.todoList ∧
      ∀ name, (recordOutcome env t call error result).toolFailures name = t.toolFailures name +
        if (error.map fun _ => (call.inner env).1) = some name then 1 else 0 := by
  have hreminder : ∀ b : Bool, (if b then [engineNote reminderText] else []).map Message.shape =
      notes b := by
    intro b
    cases b <;> rfl
  cases error with
  | none =>
    unfold recordOutcome
    simp only [afterTodoWrite_eq, Option.map_none, reduceCtorEq, if_false, Nat.add_zero,
      implies_true, and_true]
    rw [shapes_append, hreminder]
    rfl
  | some text =>
    unfold recordOutcome
    simp only [afterTodoWrite_eq, Option.map_some, Option.some.injEq]
    refine ⟨?_, countFailure_secretNotified _, countFailure_todoList _,
      countFailure_toolFailures _⟩
    rw [shapes_append, hreminder, countFailure_shapes, List.append_assoc]
    congr 3
    unfold reminded
    rw [countFailure_todoList]

/-! ## Event by event -/

theorem recordRefusal_stepped (hrefused : call.verdict.allowed = false) :
    Stepped env req t (.record call) (recordRefusal env t call) := by
  have hwarned : call.warned env req = false := by
    unfold Call.warned
    rw [hrefused, Bool.false_and]
  have hfailure : call.failure env = none := by
    unfold Call.failure
    rw [hrefused, Bool.false_and, if_neg Bool.false_ne_true]
  have hcompletes : call.completes env req = false := by
    unfold Call.completes
    simp [hrefused]
  constructor
  · show (recordToolCall _ _ _ _ _ _ _).shapes = _ ++ (notes (_ && call.warned env req) ++
      resultShape call.id :: notes (call.nudges env req _ _))
    rw [recordToolCall_shapes, hwarned, Call.nudges, hfailure, hcompletes, Bool.and_false,
      Bool.and_false]
    rfl
  · show t.secretNotified = (t.secretNotified || call.warned env req)
    rw [hwarned, Bool.or_false]
  · intro name
    show t.toolFailures name = t.toolFailures name + if call.failure env = some name then 1 else 0
    simp [hfailure]
  · show (recordToolCall _ _ _ _ _ _ _).todoList.isSome = _
    rw [recordToolCall_todoList]

/-- The reminder after a recorded call is the one the call earns. -/
theorem reminded_eq (hallowed : call.verdict.allowed = true)
    (happlied : applyTodoWrite env s call.toolName (errorText env call.result)
      (call.guarded env req) = some (s', result'))
    {s'' : AgentSession} (hlisted : s''.todoList.isSome = s.todoList.isSome) :
    reminded s'' call.toolName (errorText env call.result) result' =
      (s.todoList.isSome && call.completes env req) := by
  obtain ⟨-, -, hearns⟩ := applyTodoWrite_spec happlied
  unfold reminded Call.completes
  rw [hallowed, hlisted, Bool.true_and]
  by_cases hname : call.toolName = "todo_write"
  · cases hl : s.todoList.isSome with
    | false => simp
    | true =>
      cases he : errorText env call.result with
      | some text => simp
      | none => simp [hname, hearns hname hl he]
  · simp [hname]

/-- A failed call completes no checklist, so at most one of the two is said. -/
theorem nudges_notes {failures : String → Nat} {listed : Bool} :
    notes (call.nudges env req failures listed) =
      notes (trips failures (call.failure env)) ++ notes (listed && call.completes env req) := by
  unfold Call.nudges
  cases hf : call.failure env with
  | none => simp [trips, notes]
  | some name =>
    have hcompletes : call.completes env req = false := by
      unfold Call.failure at hf
      unfold Call.completes
      cases he : errorText env call.result with
      | none => simp [he] at hf
      | some text => simp
    rw [hcompletes, Bool.and_false, Bool.or_false]
    simp [notes]

theorem recordResult_stepped (hallowed : call.verdict.allowed = true)
    (h : recordResult env req t call = some t') : Stepped env req t (.record call) t' := by
  have hwarned : (warning req (call.inner env).1 (errorText env call.result) call.result).isSome =
      call.warned env req := by
    unfold Call.warned
    rw [hallowed, Bool.true_and]
  have hfailure : (errorText env call.result).map (fun _ => (call.inner env).1) =
      call.failure env := by
    unfold Call.failure
    rw [hallowed, Bool.true_and]
    cases errorText env call.result <;> rfl
  obtain ⟨applied, happlied, h⟩ := Option.bind_eq_some_iff.mp h
  cases h
  rw [guardrails_result, hwarned] at happlied
  obtain ⟨hshapes, hlisted, -⟩ := applyTodoWrite_spec happlied
  rw [guardrails_todoList] at hlisted
  obtain ⟨hout, hnotified, htodo, hcounted⟩ := @recordOutcome_spec env
    { (applyPostExecutionGuardrails env req t (call.inner env).1
      (errorText env call.result) call.result).1 with
      session := recordToolCall env applied.1 call.toolName call.verdict.toolArgs applied.2
        call.id true }
    call (errorText env call.result) applied.2
  have hreminded : reminded (recordToolCall env applied.1 call.toolName call.verdict.toolArgs
      applied.2 call.id true) call.toolName (errorText env call.result) applied.2 = _ :=
    reminded_eq hallowed happlied (by rw [recordToolCall_todoList, hlisted, guardrails_todoList])
  constructor
  · rw [hout, recordToolCall_shapes, hshapes, guardrails_shapes, hwarned, hfailure, hreminded,
      guardrails_toolFailures, guardrails_todoList]
    show _ = _ ++ (notes (_ && call.warned env req) ++
      resultShape call.id :: notes (call.nudges env req _ _))
    rw [nudges_notes]
    simp
  · rw [hnotified, guardrails_notified, hwarned]
    rfl
  · intro name
    rw [hcounted, hfailure, guardrails_toolFailures]
    rfl
  · rw [htodo, recordToolCall_todoList, hlisted]

theorem proxyCall_stepped : Stepped env req t (.incident (.proxied call))
    (proxyCall env req t call) := by
  unfold proxyCall
  cases hallowed : call.verdict.allowed with
  | false =>
    have hwarned : Event.warned env req (.incident (.proxied call)) = false := by
      show call.warned env req = false
      unfold Call.warned
      rw [hallowed, Bool.false_and]
    constructor
    · rw [hwarned, Bool.and_false]
      show (recordToolCall _ _ _ _ _ _ _).messages.map Message.shape = _
      rw [recordToolCall_proxied]
      exact (List.append_nil _).symm
    · rw [hwarned, Bool.or_false]
      rfl
    · exact fun name => rfl
    · show (recordToolCall _ _ _ _ _ _ _).todoList.isSome = _
      rw [recordToolCall_todoList]
  | true =>
    have hwarned : Event.warned env req (.incident (.proxied call)) =
        (warning req (call.inner env).1 (errorText env call.result) call.result).isSome := by
      show call.warned env req = _
      unfold Call.warned
      rw [hallowed, Bool.true_and]
    constructor
    · rw [hwarned]
      show (recordToolCall _ _ _ _ _ _ _).messages.map Message.shape = _ ++ (_ ++ [])
      rw [recordToolCall_proxied, List.append_nil]
      exact guardrails_shapes
    · rw [hwarned]
      exact guardrails_notified
    · intro name
      show (applyPostExecutionGuardrails _ _ _ _ _ _).1.toolFailures name = _
      rw [guardrails_toolFailures]
      rfl
    · show (recordToolCall _ _ _ _ _ _ _).todoList.isSome = _
      rw [recordToolCall_todoList, guardrails_todoList]

/-- **What an event appends and counts is read off the event, the flag and the counters.** -/
theorem step_stepped {e : Event} (h : e.step env req t = some t') : Stepped env req t e t' := by
  cases e with
  | incident i =>
    cases h
    cases i with
    | note text =>
      constructor
      · show t.session.shapes = _ ++ (notes (_ && false) ++ [])
        rw [Bool.and_false]
        exact (List.append_nil _).symm
      · exact (Bool.or_false _).symm
      · exact fun name => rfl
      · rfl
    | proxied call => exact proxyCall_stepped
  | record call =>
    replace h : record env req t call = some t' := h
    unfold record at h
    cases hallowed : call.verdict.allowed with
    | true =>
      rw [hallowed, if_pos rfl] at h
      exact recordResult_stepped hallowed h
    | false =>
      rw [hallowed, if_neg Bool.false_ne_true] at h
      cases h
      exact recordRefusal_stepped hallowed

end GenusOs.Engine.ToolTurn
