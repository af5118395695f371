import GenusOs.Autonomy.System

/-!
# Managers over one journal

Any number of managers call `begin`, `finish` and `close`, which lock their workflow's row and
interleave statement by statement, while the other stores go on. A manager may be lost between any
two statements.

* `begin_atomic`, `finishRow_ok`, `closeRow_ok`: what the calls do as whole transactions.
* `Effect`, `call_effect`, `outside_effect`: all that happens to workflows and their commands.
* `journal_guarded`: the row lock guards a workflow and its commands.
-/

namespace GenusOs.Autonomy.Workflows

open GenusOs.Python GenusOs.RowLock Transaction

/-! ## Calls -/

/-- What a manager asks of a workflow. -/
inductive Request
  | begin (instanceId commandId : Uuid) (request : Dict)
  | finish (commandId : Uuid) (result : Dict) (advance : Bool)
  | close (amb : Ambient) (closing : Closing)

structure ManagerCall where
  scope : Scope
  agentId : String
  workflowId : Uuid
  request : Request

inductive Answer
  /-- `begin` returned `None`: the caller runs the command now. -/
  | started
  | result (result : Dict)
  | done

def Answer.ofBegin : Option Dict → Answer
  | none => .started
  | some r => .result r

def ManagerCall.script (env : Platform) (call : ManagerCall) : Script Answer :=
  match call.request with
  | .begin instanceId commandId request =>
    (Workflows.begin env call.scope call.agentId call.workflowId instanceId commandId request).map
      .ofBegin
  | .finish commandId result advance =>
    (Workflows.finish call.scope call.agentId call.workflowId commandId result advance).map
      fun _ => .done
  | .close amb closing =>
    (Workflows.close env amb call.scope call.agentId call.workflowId closing).map fun _ => .done

/-- The calls that managers make. -/
def ofManager : Call → Bool
  | .beginCommand .. | .finishCommand .. | .closeWorkflow .. => true
  | _ => false

/-- The managers' calls under the locks of their workflows, between the other steps of the stores.
-/
def journal (env : Platform) : Locked DB Raised Answer Uuid ManagerCall Autonomy.Step where
  key := ManagerCall.workflowId
  body := ManagerCall.script env
  outside a s := if ofManager a.call then none else some ((a.tx env).commit s)

abbrev JournalState := RowLock.State DB Raised Answer Uuid ManagerCall

/-- Interleavings over a fresh database. -/
abbrev journalSystem (env : Platform) :
    System JournalState (RowLock.Step Uuid ManagerCall Autonomy.Step) :=
  (journal env).system fun db => db = {}

/-- A workflow and its commands. -/
def part (workflowId : Uuid) (s : DB) : List Workflow × List Command :=
  (s.workflows.filter (·.id = workflowId), s.commands.filter (·.workflowId = workflowId))

/-- The workflow's row is there. -/
def present (p : List Workflow × List Command) : Prop := p.1 ≠ []

/-! ## Reads look at their own workflow only -/

variable {env : Platform} {amb : Ambient} {scope : Scope} {agentId : String}
  {workflowId instanceId commandId : Uuid} {request result : Dict} {advance : Bool} {s t : DB}

theorem find?_of_imp {α : Type} {p q : α → Bool} (h : ∀ a, q a = true → p a = true) (l : List α) :
    (l.filter p).find? q = l.find? q := by
  rw [List.find?_filter]
  congr 1
  funext a
  cases hq : q a with
  | false => simp
  | true => simp [h a hq]

theorem findWorkflow_congr (h : part workflowId s = part workflowId t) :
    findWorkflow s scope agentId workflowId = findWorkflow t scope agentId workflowId := by
  have hpart : ∀ u : DB, (part workflowId u).1.find? (fun w : Workflow =>
      w.id = workflowId && (w.scope = scope && w.agentId = agentId)) =
        findWorkflow u scope agentId workflowId :=
    fun u => find?_of_imp (fun w hw => (Bool.and_eq_true_iff.mp hw).1) _
  rw [← hpart s, ← hpart t, h]

theorem findCommand_congr (h : part workflowId s = part workflowId t) :
    findCommand s workflowId commandId = findCommand t workflowId commandId := by
  have hpart : ∀ u : DB, (part workflowId u).2.find? (fun c : Command =>
      c.workflowId = workflowId && c.commandId = commandId) =
        findCommand u workflowId commandId :=
    fun u => find?_of_imp (fun c hc => (Bool.and_eq_true_iff.mp hc).1) _
  rw [← hpart s, ← hpart t, h]

theorem commandRunning_congr (h : part workflowId s = part workflowId t) :
    commandRunning s workflowId = commandRunning t workflowId := by
  have hpart : ∀ u : DB, (part workflowId u).2.any (fun c : Command =>
      c.workflowId = workflowId && c.state = .running) = commandRunning u workflowId := by
    intro u
    rw [part, List.any_filter, commandRunning]
    simp only [← Bool.and_assoc, Bool.and_self]
  rw [← hpart s, ← hpart t, h]

theorem findWorkflow_some {row : Workflow}
    (h : findWorkflow s scope agentId workflowId = some row) :
    row ∈ s.workflows ∧ row.id = workflowId ∧ row.scope = scope ∧ row.agentId = agentId := by
  have hrow := List.find?_some h
  simp only [Bool.and_eq_true, decide_eq_true_eq] at hrow
  exact ⟨List.mem_of_find?_eq_some h, hrow⟩

theorem findCommand_some {c : Command} (h : findCommand s workflowId commandId = some c) :
    c ∈ s.commands ∧ c.workflowId = workflowId ∧ c.commandId = commandId := by
  have hc := List.find?_some h
  simp only [Bool.and_eq_true, decide_eq_true_eq] at hc
  exact ⟨List.mem_of_find?_eq_some h, hc⟩

/-! ## The calls as whole transactions -/

/-- `begin`: what was begun before is answered from the journal, and nothing starts twice. -/
theorem begin_atomic :
    (begin env scope agentId workflowId instanceId commandId request).atomic s =
      match findWorkflow s scope agentId workflowId with
      | none => .error (.permissionError "workflow_not_found")
      | some row =>
        match findCommand s workflowId commandId with
        | some prior =>
          (answerPrior (fingerprint env (request.without ["verification_code"])) prior).map
            fun r => (some r, s)
        | none =>
          match refuseBegin row instanceId request with
          | some e => .error e
          | none =>
            if commandRunning s workflowId then .error (.permissionError "command_in_progress")
            else .ok (none,
              { s with
                commands := s.commands ++
                  [{ workflowId, commandId, scope, state := .running
                     fingerprint := fingerprint env (request.without ["verification_code"])
                     request := request.without ["verification_code"] }] }) := by
  simp only [begin, lockWorkflow, Script.atomic]
  cases findWorkflow s scope agentId workflowId with
  | none => rfl
  | some row =>
    simp only [Script.atomic]
    cases findCommand s workflowId commandId with
    | some prior =>
      simp only [Script.atomic]
      cases answerPrior (fingerprint env (request.without ["verification_code"])) prior <;> rfl
    | none =>
      simp only []
      cases refuseBegin row instanceId request with
      | some e => rfl
      | none =>
        simp only [Script.atomic]
        cases commandRunning s workflowId <;> rfl

/-- The rows of the workflow, with its revision moved on. -/
def revise (workflowId : Uuid) (advance : Bool) (workflows : List Workflow) : List Workflow :=
  Rows.updateWhere (fun w => w.id = workflowId)
    (fun w => { w with revision := w.revision + if advance then 1 else 0 }) workflows

/-- The rows of the commands, with one completed. -/
def complete (workflowId commandId : Uuid) (result : Dict) (commands : List Command) :
    List Command :=
  Rows.updateWhere (Command.isRunning workflowId commandId)
    (fun c => { c with state := .completed, result := some result }) commands

/-- `finish` completes the command that is running. -/
theorem finishRow_ok {x : Unit}
    (h : finishRow scope workflowId commandId result advance s = .ok (x, t)) :
    Rows.rowcount (Command.isRunning workflowId commandId) s.commands = 1 ∧
      t.workflows = revise workflowId advance s.workflows ∧
      t.commands = complete workflowId commandId result s.commands := by
  simp only [finishRow, bind_ok, get_ok, modify_ok, require_ok, event] at h
  obtain ⟨_, _, ⟨rfl, rfl⟩, _, _, rfl, _, _, ⟨hone, rfl⟩, _, _, rfl, rfl⟩ := h
  exact ⟨hone, rfl, rfl⟩

theorem journal_kept (h : Writes amb False s t) :
    t.workflows = s.workflows ∧ t.commands = s.commands := by
  induction h with
  | refl => exact ⟨rfl, rfl⟩
  | tail _ hw ih =>
    rw [← ih.1, ← ih.2]
    cases hw with
    | journal h => exact h.elim
    | operation | event | submission | grants | settings | handoffs => exact ⟨rfl, rfl⟩

/-- The rows of the workflow, closed. -/
def closeAs (workflowId : Uuid) (closing : Closing) (workflows : List Workflow) : List Workflow :=
  Rows.updateWhere (fun w => w.id = workflowId)
    (fun w => { w with state := closing.state }) workflows

/-- `close` changes the state of its workflow at most. -/
theorem closeRow_ok {row : Workflow} {closing : Closing} {x : Unit}
    (h : closeRow env amb scope row closing s = .ok (x, t)) :
    t.commands = s.commands ∧
      (t.workflows = s.workflows ∨ t.workflows = closeAs row.id closing s.workflows) := by
  unfold closeRow at h
  split at h
  · obtain rfl := (pure_ok.mp h).2
    exact ⟨rfl, .inl rfl⟩
  · simp only [bind_ok, modify_ok, event] at h
    obtain ⟨_, s₁, hcheck, _, s₂, rfl, _, s₃, hlost, rfl⟩ := h
    have h₁ : s₁ = s := by
      unfold onlyIf at hcheck
      split at hcheck
      · exact Reads.bind (findOperation_reads _) (fun _ => .require _ _) _ _ _ hcheck
      · exact (pure_ok.mp hcheck).2
    subst h₁
    have hkeeps := Keeps.onlyIf (R := Writes amb False) (p := closing = .lost)
      (fun _ => .read (findOperation_reads _) fun op _ => by
        cases hafter : afterLoss op.state with
        | some after => simpa only [hafter] using keeps_finishOperation (by simp)
        | none => simpa only [hafter] using .pure _) _ _ hlost
    obtain ⟨hworkflows, hcommands⟩ := journal_kept hkeeps
    exact ⟨hcommands, .inr hworkflows⟩

/-- `open` adds a workflow at most. -/
theorem openWorkflow_ok {operationId : Uuid} {row : Workflow}
    (h : openWorkflow env amb scope agentId operationId instanceId request s = .ok (row, t)) :
    t.commands = s.commands ∧ (t.workflows = s.workflows ∨
      row.id ∉ s.workflows.map (·.id) ∧ t.workflows = s.workflows ++ [row]) := by
  simp only [openWorkflow, bind_ok, require_ok] at h
  obtain ⟨op, _, hop, _, _, ⟨-, rfl⟩, h⟩ := h
  obtain rfl := findOperation_reads _ _ _ _ hop
  cases hworkflow : op.workflowId with
  | some workflowId =>
    simp only [hworkflow, bind_ok, get_ok, getOrRaise_ok, require_ok, pure_ok] at h
    obtain ⟨_, _, ⟨rfl, rfl⟩, _, _, ⟨-, rfl⟩, _, _, ⟨-, rfl⟩, -, rfl⟩ := h
    exact ⟨rfl, .inl rfl⟩
  | none =>
    simp only [hworkflow, bind_ok, get_ok, require_ok, modify_ok, updateOperation, event,
      pure_ok] at h
    obtain ⟨_, _, ⟨rfl, rfl⟩, _, _, ⟨hfresh, rfl⟩, _, _, rfl, _, _, rfl, _, _, rfl, rfl, rfl⟩ := h
    exact ⟨rfl, .inr ⟨hfresh.1, rfl⟩⟩

/-! ## All that happens to workflows and commands -/

inductive Effect (s : DB) : DB → Prop
  | nothing {t : DB} (hw : t.workflows = s.workflows) (hc : t.commands = s.commands) : Effect s t
  | opened {t : DB} {row : Workflow} (hfresh : row.id ∉ s.workflows.map (·.id))
      (hw : t.workflows = s.workflows ++ [row]) (hc : t.commands = s.commands) : Effect s t
  | started {t : DB} {c : Command} (hstate : c.state = .running)
      (hnew : findCommand s c.workflowId c.commandId = none)
      (hidle : commandRunning s c.workflowId = false) (hw : t.workflows = s.workflows)
      (hc : t.commands = s.commands ++ [c]) : Effect s t
  | finished {t : DB} {workflowId commandId : Uuid} {result : Dict} {advance : Bool}
      (hone : Rows.rowcount (Command.isRunning workflowId commandId) s.commands = 1)
      (hw : t.workflows = revise workflowId advance s.workflows)
      (hc : t.commands = complete workflowId commandId result s.commands) : Effect s t
  | closed {t : DB} {workflowId : Uuid} {closing : Closing}
      (hw : t.workflows = closeAs workflowId closing s.workflows)
      (hc : t.commands = s.commands) : Effect s t

theorem begin_effect {r : Option Dict}
    (h : (begin env scope agentId workflowId instanceId commandId request).atomic s = .ok (r, t)) :
    Effect s t := by
  rw [begin_atomic] at h
  split at h
  · cases h
  · split at h
    · next prior _ =>
      cases hprior :
        answerPrior (fingerprint env (request.without ["verification_code"])) prior with
      | error e =>
        rw [hprior] at h
        cases h
      | ok answer =>
        rw [hprior] at h
        obtain ⟨-, rfl⟩ := Prod.mk.inj (Except.ok.inj h)
        exact .nothing rfl rfl
    · next hnew =>
      split at h
      · cases h
      · split at h
        · cases h
        · next hidle =>
          obtain ⟨-, rfl⟩ := Prod.mk.inj (Except.ok.inj h)
          exact .started rfl hnew (Bool.eq_false_of_not_eq_true hidle) rfl rfl

theorem lockWorkflow_ok {α : Type} {script : Workflow → Script α} {a : α}
    (h : (lockWorkflow scope agentId workflowId script).atomic s = .ok (a, t)) :
    ∃ row, findWorkflow s scope agentId workflowId = some row ∧
      (script row).atomic s = .ok (a, t) := by
  simp only [lockWorkflow, Script.atomic] at h
  cases hfind : findWorkflow s scope agentId workflowId with
  | none => simp [hfind, Script.atomic] at h
  | some row =>
    rw [hfind] at h
    exact ⟨row, rfl, h⟩

/-- A manager's call has one of the effects. -/
theorem call_effect (call : ManagerCall) : Effect s (((call.script env).atomic).commit s) := by
  refine commit_induction (.nothing rfl rfl) fun a t h => ?_
  obtain ⟨scope, agentId, workflowId, request⟩ := call
  cases request with
  | begin instanceId commandId request =>
    obtain ⟨r, hr, -⟩ := atomic_of_map h
    exact begin_effect hr
  | finish commandId result advance =>
    obtain ⟨_, hx, -⟩ := atomic_of_map h
    obtain ⟨row, -, hrow⟩ := lockWorkflow_ok hx
    obtain ⟨hone, hw, hc⟩ := finishRow_ok hrow
    exact .finished hone hw hc
  | close amb closing =>
    obtain ⟨_, hx, -⟩ := atomic_of_map h
    obtain ⟨row, -, hrow⟩ := lockWorkflow_ok hx
    obtain ⟨hc, hw | hw⟩ := closeRow_ok hrow
    · exact .nothing hw hc
    · exact .closed hw hc

theorem stepCase_journal_kept {a : Autonomy.Step} (h : StepCase env False s a t) :
    t.workflows = s.workflows ∧ t.commands = s.commands := by
  cases h with
  | writes h => exact journal_kept h
  | reserve | submit | clear => exact ⟨rfl, rfl⟩
  | @note u _ _ _ _ h => exact journal_kept (t := u) h
  | append _ _ _ _ h =>
    rcases h.split a.amb False with hw | ⟨row, -, -, hw⟩
    · exact journal_kept hw
    · exact journal_kept (s := s.insertEvidence row) hw

/-- The other steps open workflows at most. -/
theorem outside_ok {a : Autonomy.Step} (h : (journal env).outside a s = some t) :
    t.commands = s.commands ∧ (t.workflows = s.workflows ∨
      ∃ row : Workflow, row.id ∉ s.workflows.map (·.id) ∧ t.workflows = s.workflows ++ [row]) := by
  simp only [journal] at h
  split at h
  · cases h
  · next hmanager =>
    obtain rfl := Option.some.inj h
    by_cases hjournal : a.call.ofJournal = true
    · refine commit_induction (P := fun t : DB => t.commands = s.commands ∧
        (t.workflows = s.workflows ∨
        ∃ row : Workflow, row.id ∉ s.workflows.map (·.id) ∧
          t.workflows = s.workflows ++ [row])) ⟨rfl, .inl rfl⟩ fun _ t ht => ?_
      obtain ⟨scope, amb, call⟩ := a
      cases call with
      | openWorkflow agentId operationId instanceId request =>
        obtain ⟨row, u, hopen, hdone⟩ := bind_ok.mp ht
        obtain rfl := (pure_ok.mp hdone).2
        obtain ⟨hc, hw | hw⟩ := openWorkflow_ok hopen
        · exact ⟨hc, .inl hw⟩
        · exact ⟨hc, .inr ⟨row, hw⟩⟩
      | beginCommand | finishCommand | closeWorkflow => exact absurd rfl hmanager
      | _ => cases hjournal
    · obtain ⟨hw, hc⟩ := stepCase_journal_kept
        (show StepCase env False s a ((a.tx env).commit s) from
          stepCase_of (fun h => absurd h hjournal) rfl)
      exact ⟨hc, .inl hw⟩

theorem outside_effect {a : Autonomy.Step} (h : (journal env).outside a s = some t) :
    Effect s t := by
  obtain ⟨hc, hw | ⟨row, hfresh, hw⟩⟩ := outside_ok h
  · exact .nothing hw hc
  · exact .opened hfresh hw hc

/-! ## The row lock guards its workflow -/

theorem lockWorkflow_local {α : Type} {script : Workflow → Script α}
    (h : ∀ row, row.id = workflowId → (script row).Local part workflowId) :
    (lockWorkflow scope agentId workflowId script).Local part workflowId := by
  refine .read (fun s s' hs => ?_) fun s => ?_
  · rw [findWorkflow_congr hs]
  · cases hfind : findWorkflow s scope agentId workflowId with
    | none => exact .done fun _ _ _ ht => (raise_ok.mp ht).elim
    | some row => exact h row (findWorkflow_some hfind).2.1

theorem begin_local :
    (begin env scope agentId workflowId instanceId commandId request).Local part workflowId := by
  refine lockWorkflow_local fun row _ => .read (fun s s' hs => ?_) fun s => ?_
  · rw [findCommand_congr hs]
  · cases findCommand s workflowId commandId with
    | some prior => exact .done fun u _ u' hu _ _ => by rw [Reads.fromExcept _ _ _ _ hu]
    | none =>
      dsimp only
      cases refuseBegin row instanceId request with
      | some e => exact .done fun _ _ _ ht => (raise_ok.mp ht).elim
      | none =>
        refine .read (fun s s' hs => ?_) fun s => ?_
        · rw [commandRunning_congr hs]
        · split
          · exact .done fun _ _ _ ht => (raise_ok.mp ht).elim
          · refine .done fun u _ u' hu w hw => ?_
            simp only [bind_ok, modify_ok, pure_ok] at hu
            obtain ⟨_, _, rfl, -, rfl⟩ := hu
            simp [part, Ne.symm hw]

theorem finish_local :
    (finish scope agentId workflowId commandId result advance).Local part workflowId := by
  refine lockWorkflow_local fun row _ => .read (fun _ _ _ => rfl) fun _ => .done ?_
  intro u _ u' hu w hw
  obtain ⟨-, hworkflows, hcommands⟩ := finishRow_ok hu
  rw [part, hworkflows, hcommands, part, revise, complete, Rows.filter_updateWhere,
    Rows.filter_updateWhere]
  · intro c hc
    simp only [Command.isRunning, Bool.and_eq_true, decide_eq_true_eq] at hc
    simpa [hc.1.1] using Ne.symm hw
  · exact fun _ => rfl
  · intro r hr
    simpa [of_decide_eq_true hr] using Ne.symm hw
  · exact fun _ => rfl

theorem close_local {closing : Closing} :
    (close env amb scope agentId workflowId closing).Local part workflowId := by
  refine lockWorkflow_local fun row hrow => .read (fun _ _ _ => rfl) fun _ => .done ?_
  intro u _ u' hu w hw
  obtain ⟨hcommands, hworkflows | hworkflows⟩ := closeRow_ok hu
  · rw [part, hworkflows, hcommands, part]
  · rw [part, hworkflows, hcommands, part, closeAs, Rows.filter_updateWhere]
    · intro r hr
      simpa [of_decide_eq_true hr, hrow] using Ne.symm hw
    · exact fun _ => rfl

theorem lockWorkflow_found {α : Type} {script : Workflow → Script α} {f : α → Answer}
    {next : DB → Script Answer}
    (h : (lockWorkflow scope agentId workflowId script).map f = .read next) (s : DB) :
    present (part workflowId s) ∨ ∃ t, next s = .done t := by
  obtain rfl := RowLock.Script.read.inj h
  cases hfind : findWorkflow s scope agentId workflowId with
  | none =>
    refine .inr ⟨f <$> raise (.permissionError "workflow_not_found"), ?_⟩
    simp only [hfind, RowLock.Script.map]
  | some row =>
    obtain ⟨hmem, hid, -⟩ := findWorkflow_some hfind
    refine .inl fun hnil => ?_
    have : row ∈ s.workflows.filter (·.id = workflowId) :=
      List.mem_filter.mpr ⟨hmem, decide_eq_true hid⟩
    rw [show s.workflows.filter (·.id = workflowId) = [] from hnil] at this
    cases this

/-- **The row lock guards a workflow and its commands.** -/
theorem journal_guarded (env : Platform) : (journal env).Guarded part present where
  isLocal call := by
    obtain ⟨scope, agentId, workflowId, request⟩ := call
    cases request with
    | begin instanceId commandId request => exact begin_local.map _
    | finish commandId result advance => exact finish_local.map _
    | close amb closing => exact close_local.map _
  found call next s h := by
    obtain ⟨scope, agentId, workflowId, request⟩ := call
    cases request with
    | begin | finish | close => exact lockWorkflow_found h s
  outside a s t h workflowId hpresent := by
    obtain ⟨hc, hw | ⟨row, hfresh, hw⟩⟩ := outside_ok h
    · rw [part, hw, hc, part]
    · obtain ⟨r, hr⟩ := List.exists_mem_of_ne_nil _ hpresent
      obtain ⟨hmem, hid⟩ := List.mem_filter.mp hr
      have hne : row.id ≠ workflowId := by
        intro heq
        rw [← of_decide_eq_true hid] at heq
        exact hfresh (heq ▸ List.mem_map_of_mem hmem)
      simp [part, hw, hc, hne]

end GenusOs.Autonomy.Workflows
