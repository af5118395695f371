import GenusOs.Engine.ToolTurn.Events
import Mathlib

/-!
# What recording a call does to what was said

Recording appends, with one exception: the interception of `todo_write` writes its answer over the
content of the last message, and the call's own result is not there yet. What it hits is the
result before, a notice after it, or the assistant message (`KeepsHistory`).

* `recorded_prefix_iff`: the calls that only append, in every state.
* `history_kept_iff`: the same over the calls a turn records.
* `turn_extends`: a turn of such calls extends the conversation.
-/

namespace GenusOs.Engine.ToolTurn

open GenusOs.Python

variable (env : ToolPlatform) (req : ToolTurnRequest)

/-- The call ran and its result replaces the checklist. -/
def Call.applies (t : TurnState) (call : Call) : Bool :=
  call.verdict.allowed && needsApply t.session call.toolName (errorText env call.result)
    (call.guarded env req)

/-- The last message says already what the replaced checklist answers. -/
def SaidAlready (t : TurnState) (call : Call) : Prop :=
  ∃ items last, validatedItems env (call.guarded env req) = some items ∧
    t.session.messages.getLast? = some last ∧ last.content = .text (dumps env
      (TodoList.replace env.lower (t.session.todoList.getD []) items).2)

/-- The call replaces no checklist; or a warning is appended first and takes the rewriting; or the
rewriting changes nothing. -/
def KeepsHistory (t : TurnState) (call : Call) : Prop :=
  call.applies env req t = false ∨ (t.secretNotified = false ∧ call.warned env req = true) ∨
    SaidAlready env req t call

/-! ## One call -/

variable {env req} {t t' : TurnState} {call : Call} {toolName : String} {error : Option String}
  {result : Dict}

/-- Only the last message can be another. -/
theorem rewriteLast_eq {text : String} {ms ms' : List Message}
    (h : rewriteLast text ms = some ms') : ∃ init last, ms = init ++ [last] ∧
      ms' = init ++ [{ last with content := .text text }] := by
  unfold rewriteLast at h
  cases hlast : ms.getLast? with
  | none =>
    rw [hlast] at h
    cases h
  | some last =>
    rw [hlast] at h
    cases h
    obtain ⟨init, rfl⟩ := List.getLast?_eq_some_iff.mp hlast
    exact ⟨init, last, rfl, by rw [List.dropLast_concat]⟩

theorem rewriteLast_prefix_iff {text : String} {ms ms' : List Message}
    (h : rewriteLast text ms = some ms') :
    ms <+: ms' ↔ ∃ last, ms.getLast? = some last ∧ last.content = .text text := by
  obtain ⟨init, last, rfl, rfl⟩ := rewriteLast_eq h
  rw [List.prefix_append_right_inj, List.getLast?_concat]
  constructor
  · intro hleads
    have heq := hleads.eq_of_length rfl
    refine ⟨last, rfl, ?_⟩
    exact congrArg Message.content (List.cons.inj heq).1
  · rintro ⟨last', hlast, hcontent⟩
    obtain rfl := Option.some.inj hlast
    rw [← hcontent]

/-- In front of the rewritten message nothing changes. -/
theorem rewriteLast_append_leads {text : String} {ms notice ms' : List Message}
    (hne : notice ≠ []) (h : rewriteLast text (ms ++ notice) = some ms') : ms <+: ms' := by
  obtain ⟨init, last, hsplit, rfl⟩ := rewriteLast_eq h
  obtain ⟨notice, last', rfl⟩ := (List.eq_nil_or_concat' notice).resolve_left hne
  rw [← List.append_assoc] at hsplit
  obtain ⟨rfl, -⟩ := List.append_inj' hsplit rfl
  rw [List.append_assoc]
  exact List.prefix_append _ _

theorem recordOutcome_prefix :
    t.session.messages <+: (recordOutcome env t call error result).session.messages := by
  have hafter : ∀ t : TurnState, t.session.messages <+:
      (afterTodoWrite t call.toolName error result).session.messages := by
    intro t
    rw [afterTodoWrite_eq]
    exact List.prefix_append _ _
  cases error with
  | none => exact hafter t
  | some text =>
    apply List.IsPrefix.trans _ (hafter (countFailure t (call.inner env).1))
    unfold countFailure
    simp only
    split
    · exact List.prefix_rfl
    · exact List.prefix_append _ _

theorem recordRefusal_prefix :
    t.session.messages <+: (recordRefusal env t call).session.messages := by
  obtain ⟨m, -, hs⟩ := @recordToolCall_messages env t.session
    call.toolName call.id call.verdict.toolArgs (refusal call.verdict)
  show _ <+: (recordToolCall _ _ _ _ _ _ _).messages
  rw [hs]
  exact List.prefix_append _ _

/-- What the interception does to the messages of `ms`, with a warning appended or not. -/
theorem applied_prefix_iff {s : AgentSession} {applied : AgentSession × Dict}
    {ms notice : List Message} (hmessages : s.messages = ms ++ notice)
    (h : applyTodoWrite env s toolName error result = some applied) :
    ms <+: applied.1.messages ↔ needsApply s toolName error result = false ∨ notice ≠ [] ∨
      ∃ items last, validatedItems env result = some items ∧ ms.getLast? = some last ∧
        last.content = .text (dumps env
          (TodoList.replace env.lower (s.todoList.getD []) items).2) := by
  unfold applyTodoWrite at h
  cases happly : needsApply s toolName error result with
  | false =>
    rw [happly, if_neg Bool.false_ne_true] at h
    cases h
    rw [hmessages]
    exact iff_of_true (List.prefix_append _ _) (.inl rfl)
  | true =>
    rw [happly, if_pos rfl] at h
    obtain ⟨items, hitems, h⟩ := Option.bind_eq_some_iff.mp h
    obtain ⟨messages, hrewrite, h⟩ := Option.bind_eq_some_iff.mp h
    cases h
    rw [hmessages] at hrewrite
    show ms <+: messages ↔ _
    by_cases hne : notice = []
    · rw [hne, List.append_nil] at hrewrite
      rw [rewriteLast_prefix_iff hrewrite]
      constructor
      · rintro ⟨last, hlast, hcontent⟩
        exact .inr (.inr ⟨items, last, hitems, hlast, hcontent⟩)
      · rintro (hfalse | hnotice | ⟨items', last, hitems', hlast, hcontent⟩)
        · cases hfalse
        · exact absurd hne hnotice
        · rw [hitems] at hitems'
          obtain rfl := Option.some.inj hitems'
          exact ⟨last, hlast, hcontent⟩
    · exact iff_of_true (rewriteLast_append_leads hne hrewrite) (.inr (.inl hne))

/-- What is appended after the interception decides nothing. -/
theorem prefix_through {ms ns ns' : List Message} (hlen : ms.length ≤ ns.length)
    (hns : ns <+: ns') : ms <+: ns' ↔ ms <+: ns := by
  constructor
  · intro h
    exact List.prefix_of_prefix_length_le h hns hlen
  · intro h
    exact h.trans hns

theorem applyTodoWrite_length {s : AgentSession} {applied : AgentSession × Dict}
    (h : applyTodoWrite env s toolName error result = some applied) :
    applied.1.messages.length = s.messages.length := by
  have hshapes := congrArg List.length (applyTodoWrite_spec h).1
  unfold AgentSession.shapes at hshapes
  rwa [List.length_map, List.length_map] at hshapes

theorem recordResult_prefix_iff (hallowed : call.verdict.allowed = true)
    (h : recordResult env req t call = some t') :
    t.session.messages <+: t'.session.messages ↔ KeepsHistory env req t call := by
  obtain ⟨applied, happlied, h⟩ := Option.bind_eq_some_iff.mp h
  cases h
  have hwarned : (warning req (call.inner env).1 (errorText env call.result) call.result).isSome =
      call.warned env req := by
    unfold Call.warned
    rw [hallowed, Bool.true_and]
  obtain ⟨notice, hmessages, hnotice⟩ := @guardrails_messages env req t
    (call.inner env).1 (errorText env call.result) call.result
  rw [hwarned] at hnotice
  rw [guardrails_result, hwarned] at happlied
  obtain ⟨m, -, hrecorded⟩ := @recordToolCall_messages env applied.1
    call.toolName call.id call.verdict.toolArgs applied.2
  have hthrough : applied.1.messages <+: (recordOutcome env
      { (applyPostExecutionGuardrails env req t (call.inner env).1 (errorText env call.result)
          call.result).1 with
        session := recordToolCall env applied.1 call.toolName call.verdict.toolArgs applied.2
          call.id true } call (errorText env call.result) applied.2).session.messages := by
    apply List.IsPrefix.trans _ recordOutcome_prefix
    show _ <+: (recordToolCall _ _ _ _ _ _ _).messages
    rw [hrecorded]
    exact List.prefix_append _ _
  have hlen : t.session.messages.length ≤ applied.1.messages.length := by
    rw [applyTodoWrite_length happlied, hmessages, List.length_append]
    exact Nat.le_add_right _ _
  rw [prefix_through hlen hthrough, applied_prefix_iff hmessages happlied]
  have hempty : notice ≠ [] ↔ t.secretNotified = false ∧ call.warned env req = true := by
    rw [ne_eq, ← List.map_eq_nil_iff (f := Message.shape), hnotice]
    unfold notes
    cases t.secretNotified <;> cases call.warned env req <;> simp
  have happlies : needsApply (applyPostExecutionGuardrails env req t (call.inner env).1
      (errorText env call.result) call.result).1.session call.toolName
      (errorText env call.result) (call.guarded env req) = call.applies env req t := by
    unfold Call.applies needsApply
    rw [guardrails_todoList, hallowed, Bool.true_and]
  rw [hempty, guardrails_todoList]
  unfold KeepsHistory
  rw [← happlies]
  rfl

/-- **Recording a call only appends where the call keeps history, and only there.** -/
theorem recorded_prefix_iff (h : record env req t call = some t') :
    t.session.messages <+: t'.session.messages ↔ KeepsHistory env req t call := by
  unfold record at h
  cases hallowed : call.verdict.allowed with
  | true =>
    rw [hallowed, if_pos rfl] at h
    exact recordResult_prefix_iff hallowed h
  | false =>
    rw [hallowed, if_neg Bool.false_ne_true] at h
    cases h
    refine iff_of_true recordRefusal_prefix (.inl ?_)
    unfold Call.applies
    rw [hallowed, Bool.false_and]

/-! ## A turn of calls -/

/-- Among `events` from `t` on, the call is recorded in `t₁`, which makes it `t₂`. -/
def Recorded (env : ToolPlatform) (req : ToolTurnRequest) (events : List Event) (t : TurnState)
    (call : Call) (t₁ t₂ : TurnState) : Prop :=
  ∃ before after, events = before ++ .record call :: after ∧
    before.foldlM (Event.step env req) t = some t₁ ∧ record env req t₁ call = some t₂

/-- **In every turn, every recording only appends where every recorded call keeps history, and
only there.** -/
theorem history_kept_iff (world : World) (t : TurnState) :
    (∀ call t₁ t₂, Recorded env req (turnEvents env req world) t call t₁ t₂ →
        t₁.session.messages <+: t₂.session.messages) ↔
      ∀ call t₁ t₂, Recorded env req (turnEvents env req world) t call t₁ t₂ →
        KeepsHistory env req t₁ call := by
  constructor
  · intro h call t₁ t₂ hrecorded
    have hleads := h call t₁ t₂ hrecorded
    obtain ⟨before, after, -, -, hstep⟩ := hrecorded
    exact (recorded_prefix_iff hstep).mp hleads
  · intro h call t₁ t₂ hrecorded
    have hkeeps := h call t₁ t₂ hrecorded
    obtain ⟨before, after, -, -, hstep⟩ := hrecorded
    exact (recorded_prefix_iff hstep).mpr hkeeps

def planRequest : ToolTurnRequest where
  assistantMsg :=
    { role := "assistant", content := .text "On it."
      toolCalls := [{ id := "call_1", name := "todo_write" }] }

def planTurn : TurnState where
  session := { messages := [planRequest.assistantMsg], todoList := some [] }

/-- What the handler of `todo_write` answers: one item, to be applied. -/
def planResult : Dict :=
  [("_validated_items", TodoList.itemsJson [⟨"read the log", "reading the log", "in_progress"⟩]),
    ("_needs_apply", .bool true)]

def planCall : Call :=
  turnCall samplePlatform (sampleWorld [planResult]) 0 { id := "call_1", name := "todo_write" }

/-- The only call of the turn, and the assistant message says something else afterwards. -/
theorem plan_overwrites_assistant : ∃ t₂, Recorded samplePlatform planRequest
      (turnEvents samplePlatform planRequest (sampleWorld [planResult])) planTurn planCall
      planTurn t₂ ∧
    ¬ planTurn.session.messages <+: t₂.session.messages := by
  have hrecord : (record samplePlatform planRequest planTurn planCall).isSome = true := rfl
  obtain ⟨t₂, hrecord⟩ := Option.isSome_iff_exists.mp hrecord
  refine ⟨t₂, ⟨[], [], rfl, rfl, hrecord⟩, ?_⟩
  rw [recorded_prefix_iff hrecord]
  rintro (happlies | ⟨-, hwarned⟩ | ⟨items, last, hitems, hlast, hcontent⟩)
  · exact absurd happlies (by decide)
  · exact absurd hwarned (by decide)
  · cases hitems
    cases hlast
    exact absurd hcontent (by decide)

/-- What comes up while a group runs only appends. -/
theorem incident_prefix (i : Incident) :
    t.session.messages <+: (incident env req t i).session.messages := by
  cases i with
  | note text => exact List.prefix_rfl
  | proxied call =>
    show _ <+: (proxyCall env req t call).session.messages
    unfold proxyCall
    split
    · show _ <+: (recordToolCall _ _ _ _ _ _ _).messages
      rw [recordToolCall_proxied]
      obtain ⟨notice, hmessages, -⟩ := @guardrails_messages env req t
        (call.inner env).1 (errorText env call.result) call.result
      rw [hmessages]
      exact List.prefix_append _ _
    · show _ <+: (recordToolCall _ _ _ _ _ _ _).messages
      rw [recordToolCall_proxied]

/-- **A run of events whose recorded calls keep history extends the conversation.** -/
theorem run_extends {events : List Event}
    (hkeeps : ∀ call t₁ t₂, Recorded env req events t call t₁ t₂ → KeepsHistory env req t₁ call)
    (h : events.foldlM (Event.step env req) t = some t') :
    t.session.messages <+: t'.session.messages := by
  induction events generalizing t with
  | nil =>
    cases h
    exact List.prefix_rfl
  | cons e events ih =>
    obtain ⟨t₁, hstep, hrun⟩ := Option.bind_eq_some_iff.mp h
    have hhead : t.session.messages <+: t₁.session.messages := by
      cases e with
      | incident i =>
        cases hstep
        exact incident_prefix i
      | record call =>
        exact (recorded_prefix_iff hstep).mpr
          (hkeeps call t t₁ ⟨[], events, rfl, rfl, hstep⟩)
    apply hhead.trans (ih _ hrun)
    rintro call t₂ t₃ ⟨before, after, rfl, hbefore, hcall⟩
    refine hkeeps call t₂ t₃ ⟨e :: before, after, rfl, ?_, hcall⟩
    rw [List.foldlM_cons, hstep]
    exact hbefore

/-- **A turn whose recorded calls keep history extends the conversation.** -/
theorem turn_extends {world : World}
    (hkeeps : ∀ call t₁ t₂, Recorded env req (turnEvents env req world) t call t₁ t₂ →
      KeepsHistory env req t₁ call)
    (h : runToolTurn env req world t = some t') :
    t.session.messages <+: t'.session.messages := by
  rw [runToolTurn_eq] at h
  obtain ⟨t₁, hrun, rfl⟩ := Option.map_eq_some_iff.mp h
  exact (run_extends hkeeps hrun).trans (List.prefix_append _ _)

end GenusOs.Engine.ToolTurn
