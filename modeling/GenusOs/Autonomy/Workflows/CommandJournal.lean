import GenusOs.Autonomy.Workflows.Managers

/-!
# The command journal

* `JournalInv`, `Effect.inv`: one row for a command, and one running command for a workflow.
* `Grows`, `Effect.grows`: what is in the journal stays, and revisions rise with completed commands
  only.
* `Replays`: how a command that was begun before is answered.
* `commands_run_once`: exactly once, over every interleaving of managers.
-/

namespace GenusOs.Autonomy.Workflows

open GenusOs.Python GenusOs.RowLock Transaction

variable {env : Platform} {scope : Scope} {agentId : String}
  {workflowId instanceId commandId : Uuid} {request : Dict} {s t u : DB}

/-! ## One row for a command, one running command for a workflow -/

def Command.key (c : Command) : Uuid × Uuid := (c.workflowId, c.commandId)

def Command.running (c : Command) : Bool := c.state = .running

structure JournalInv (s : DB) : Prop where
  workflows : Rows.KeyUnique Workflow.id s.workflows
  commands : Rows.KeyUnique Command.key s.commands
  running : Rows.IndexUnique Command.key Command.running Command.workflowId s.commands

theorem JournalInv.initial : JournalInv {} where
  workflows := List.nodup_nil
  commands := List.nodup_nil
  running := by simp [Rows.IndexUnique]

theorem ne_key_of_findCommand {c : Command} (h : findCommand s c.workflowId c.commandId = none) :
    ∀ c' ∈ s.commands, Command.key c' ≠ Command.key c := by
  intro c' hc' heq
  obtain ⟨hw, hk⟩ := Prod.mk.inj heq
  have := List.find?_eq_none.mp h c' hc'
  simp [hw, hk] at this

theorem isRunning_iff {c : Command} : Command.isRunning workflowId commandId c = true ↔
    (c.workflowId = workflowId ∧ c.commandId = commandId) ∧ c.state = .running := by
  simp [Command.isRunning]

/-- **Step lemma.** -/
theorem Effect.inv (h : Effect s t) (hi : JournalInv s) : JournalInv t := by
  obtain ⟨hworkflows, hcommands, hrunning⟩ := hi
  cases h with
  | nothing hw hc => exact ⟨hw ▸ hworkflows, hc ▸ hcommands, hc ▸ hrunning⟩
  | opened hfresh hw hc =>
    refine ⟨hw ▸ hworkflows.insert fun r hr heq => hfresh ?_, hc ▸ hcommands, hc ▸ hrunning⟩
    exact heq ▸ List.mem_map_of_mem hr
  | @started c hstate hnew hidle hw hc =>
    refine ⟨hw ▸ hworkflows, hc ▸ hcommands.insert (ne_key_of_findCommand hnew),
      hc ▸ hrunning.insert fun c' hc' hrun heq => ?_⟩
    have := List.any_eq_false.mp hidle c' hc'
    simp [heq, of_decide_eq_true hrun] at this
  | finished hone hw hc =>
    refine ⟨hw ▸ hworkflows.updateWhere fun _ _ => rfl, hc ▸ hcommands.updateWhere fun _ _ => rfl,
      hc ▸ hrunning.updateWhere (fun _ _ => rfl) (fun _ _ => rfl) fun c _ hrun => ?_⟩
    simp [Command.running] at hrun
  | closed hw hc =>
    exact ⟨hw ▸ hworkflows.updateWhere fun _ _ => rfl, hc ▸ hcommands, hc ▸ hrunning⟩

/-! ## What is in the journal stays -/

/-- The running commands of a workflow. -/
def runningCommands (s : DB) (workflowId : Uuid) : Nat :=
  s.commands.countP fun c => Command.running c && c.workflowId = workflowId

/-- The completed commands of a workflow. -/
def completedCommands (s : DB) (workflowId : Uuid) : Nat :=
  s.commands.countP fun c => c.workflowId = workflowId && c.state = .completed

structure Grows (s t : DB) : Prop where
  workflow : ∀ row ∈ s.workflows, ∃ row' ∈ t.workflows,
    row'.id = row.id ∧ row'.scope = row.scope ∧ row'.agentId = row.agentId ∧
      row.revision ≤ row'.revision ∧
        row'.revision + completedCommands s row.id ≤ row.revision + completedCommands t row.id
  command : ∀ workflowId commandId c, findCommand s workflowId commandId = some c →
    ∃ c', findCommand t workflowId commandId = some c' ∧ c'.fingerprint = c.fingerprint ∧
      (c.state = .completed → c' = c)

theorem Grows.refl (s : DB) : Grows s s where
  workflow row hrow := ⟨row, hrow, rfl, rfl, rfl, Nat.le_refl _, Nat.le_refl _⟩
  command _ _ c hc := ⟨c, hc, rfl, fun _ => rfl⟩

theorem Grows.trans (h : Grows s t) (h' : Grows t u) : Grows s u where
  workflow row hrow := by
    obtain ⟨row', hrow', hid, hscope, hagent, hle, hbound⟩ := h.workflow row hrow
    obtain ⟨row'', hrow'', hid', hscope', hagent', hle', hbound'⟩ := h'.workflow row' hrow'
    rw [hid] at hbound'
    exact ⟨row'', hrow'', hid'.trans hid, hscope'.trans hscope, hagent'.trans hagent, by omega,
      by omega⟩
  command workflowId commandId c hc := by
    obtain ⟨c', hc', hsame, hdone⟩ := h.command _ _ c hc
    obtain ⟨c'', hc'', hsame', hdone'⟩ := h'.command _ _ c' hc'
    refine ⟨c'', hc'', hsame'.trans hsame, fun hcompleted => ?_⟩
    rw [hdone hcompleted] at hdone'
    exact hdone' hcompleted

/-- A step that completes no command. -/
theorem grows_of_commands {f : Workflow → Workflow}
    (hw : ∀ row ∈ s.workflows, row ∈ t.workflows ∨ f row ∈ t.workflows)
    (hid : ∀ row, (f row).id = row.id) (hscope : ∀ row, (f row).scope = row.scope)
    (hagent : ∀ row, (f row).agentId = row.agentId)
    (hrevision : ∀ row, (f row).revision = row.revision)
    (hc : t.commands = s.commands) : Grows s t where
  workflow row hrow := by
    have hsame : completedCommands t row.id = completedCommands s row.id := by
      unfold completedCommands
      rw [hc]
    rcases hw row hrow with hrow' | hrow'
    · exact ⟨row, hrow', rfl, rfl, rfl, Nat.le_refl _, by rw [hsame]⟩
    · exact ⟨f row, hrow', hid row, hscope row, hagent row, (hrevision row).ge,
        by rw [hsame, hrevision]⟩
  command _ _ c hfind := by
    refine ⟨c, ?_, rfl, fun _ => rfl⟩
    unfold findCommand at hfind ⊢
    rwa [hc]

theorem completed_complete {result : Dict} (hone : Rows.rowcount
      (Command.isRunning workflowId commandId) s.commands = 1)
    (hc : t.commands = complete workflowId commandId result s.commands) (w : Uuid) :
    completedCommands t w = completedCommands s w + if w = workflowId then 1 else 0 := by
  unfold completedCommands
  rw [hc, complete]
  by_cases hw : w = workflowId
  · rw [if_pos hw, ← hone, Rows.rowcount, Rows.countP_updateWhere]
    · intro c hrun
      simp [(isRunning_iff.mp hrun).2]
    · intro c hrun
      simp [(isRunning_iff.mp hrun).1.1, hw]
  · rw [if_neg hw, Nat.add_zero, Rows.countP_updateWhere_of_same]
    intro c hrun
    simp [(isRunning_iff.mp hrun).1.1, Ne.symm hw]

/-- **Step lemma.** -/
theorem Effect.grows (h : Effect s t) : Grows s t := by
  cases h with
  | nothing hw hc =>
    exact grows_of_commands (f := id) (fun row hrow => .inl (hw ▸ hrow)) (fun _ => rfl)
      (fun _ => rfl) (fun _ => rfl) (fun _ => rfl) hc
  | opened hfresh hw hc =>
    exact grows_of_commands (f := id) (fun row hrow => .inl (hw ▸ List.mem_append_left _ hrow))
      (fun _ => rfl) (fun _ => rfl) (fun _ => rfl) (fun _ => rfl) hc
  | @started c hstate hnew hidle hw hc =>
    refine ⟨fun row hrow => ⟨row, hw ▸ hrow, rfl, rfl, rfl, Nat.le_refl _, ?_⟩, ?_⟩
    · unfold completedCommands
      rw [hc, List.countP_append]
      omega
    · intro w k c' hc'
      refine ⟨c', ?_, rfl, fun _ => rfl⟩
      unfold findCommand at hc' ⊢
      rw [hc, List.find?_append, hc']
      rfl
  | @finished w k result advance hone hw hc =>
    refine ⟨fun row hrow => ?_, fun w' k' c hfind => ?_⟩
    · rw [completed_complete hone hc]
      by_cases hid : row.id = w
      · refine ⟨{ row with revision := row.revision + if advance then 1 else 0 }, ?_, rfl, rfl, rfl,
          Nat.le_add_right _ _, ?_⟩
        · rw [hw]
          exact Rows.mem_updateWhere.mpr ⟨row, hrow, by simp [hid]⟩
        · rw [if_pos hid]
          cases advance
          · simp
          · simp only [if_true]
            omega
      · refine ⟨row, ?_, rfl, rfl, rfl, Nat.le_refl _, by rw [if_neg hid, Nat.add_zero]⟩
        rw [hw]
        exact Rows.mem_updateWhere_of_not hrow (by simp [hid])
    · refine ⟨if Command.isRunning w k c then
          { c with state := .completed, result := some result } else c, ?_, ?_, ?_⟩
      · unfold findCommand at hfind ⊢
        rw [hc, complete, Rows.find?_updateWhere, hfind, Option.map_some]
        exact fun _ _ => rfl
      · split <;> rfl
      · intro hdone
        rw [if_neg]
        intro hrun
        rw [(isRunning_iff.mp hrun).2] at hdone
        cases hdone
  | @closed w closing hw hc =>
    refine grows_of_commands (f := fun row => { row with state := closing.state })
      (fun row hrow => ?_) (fun _ => rfl) (fun _ => rfl) (fun _ => rfl) (fun _ => rfl) hc
    by_cases hid : row.id = w
    · exact .inr (hw ▸ Rows.mem_updateWhere.mpr ⟨row, hrow, by simp [hid]⟩)
    · exact .inl (hw ▸ Rows.mem_updateWhere_of_not hrow (by simp [hid]))

/-! ## Answers -/

/-- What the journal `s` promises of the answer to a command that was begun before. -/
def Promises (env : Platform) (s : DB) (call : ManagerCall)
    (answer : Except Raised Answer) : Prop :=
  ∀ instanceId commandId request c, call.request = .begin instanceId commandId request →
    findCommand s call.workflowId commandId = some c →
      answer ≠ .ok .started ∧
        ((findWorkflow s call.scope call.agentId call.workflowId).isSome →
          (c.fingerprint ≠ fingerprint env (request.without ["verification_code"]) →
            answer = .error (.permissionError "command_changed")) ∧
          (c.fingerprint = fingerprint env (request.without ["verification_code"]) →
            c.state = .completed → answer = .ok (.result (c.result.getD []))))

/-- What an older journal promises, a later one does. -/
theorem Promises.mono {call : ManagerCall} {answer : Except Raised Answer} (h : Grows s t)
    (hp : Promises env t call answer) : Promises env s call answer := by
  intro instanceId commandId request c hbegin hc
  obtain ⟨c', hc', hsame, hdone⟩ := h.command _ _ c hc
  obtain ⟨hnever, hanswer⟩ := hp instanceId commandId request c' hbegin hc'
  refine ⟨hnever, fun hfound => ?_⟩
  obtain ⟨row, hrow⟩ := Option.isSome_iff_exists.mp hfound
  obtain ⟨hmem, hid, hscope, hagent⟩ := findWorkflow_some hrow
  obtain ⟨row', hmem', hid', hscope', hagent', -⟩ := h.workflow row hmem
  have hfound' : (findWorkflow t call.scope call.agentId call.workflowId).isSome := by
    refine List.find?_isSome.mpr ⟨row', hmem', ?_⟩
    simp [hid', hid, hscope', hscope, hagent', hagent]
  obtain ⟨hchanged, hstored⟩ := hanswer hfound'
  rw [hsame] at hchanged hstored
  exact ⟨hchanged, fun hfp hcompleted =>
    by rw [hdone hcompleted] at hstored; exact hstored hfp hcompleted⟩

/-- **A call keeps the promises** of the journal it is served from. -/
theorem promises_call (call : ManagerCall) :
    Promises env s call (((call.script env).atomic s).map Prod.fst) := by
  intro instanceId commandId request c hbegin hc
  obtain ⟨scope, agentId, workflowId, _⟩ := call
  obtain rfl : _ = Request.begin instanceId commandId request := hbegin
  simp only [ManagerCall.script, RowLock.Script.atomic_map, begin_atomic]
  cases findWorkflow s scope agentId workflowId with
  | none => exact ⟨by simp [Except.map], fun h => by cases h⟩
  | some row =>
    simp only [hc, answerPrior]
    by_cases hfp : c.fingerprint = fingerprint env (request.without ["verification_code"])
    · rw [if_neg (not_not.mpr hfp)]
      split
      · exact ⟨by simp [Except.map, Answer.ofBegin],
          fun _ => ⟨fun h => absurd hfp h, fun _ _ => rfl⟩⟩
      · next hrunning =>
        exact ⟨by simp [Except.map, Answer.ofBegin],
          fun _ => ⟨fun h => absurd hfp h, fun _ h => absurd h hrunning⟩⟩
    · rw [if_pos hfp]
      exact ⟨by simp [Except.map], fun _ => ⟨fun _ => rfl, fun h => absurd h hfp⟩⟩

/-- What a command that starts has passed: it is new, and its revision is the workflow's. -/
theorem started_ok (h : (begin env scope agentId workflowId instanceId commandId request).atomic s =
      .ok (none, t)) :
    (∃ row, findWorkflow s scope agentId workflowId = some row ∧
      refuseBegin row instanceId request = none) ∧
      findCommand s workflowId commandId = none ∧
        (findCommand t workflowId commandId).isSome = true := by
  rw [begin_atomic] at h
  cases hrow : findWorkflow s scope agentId workflowId with
  | none =>
    rw [hrow] at h
    cases h
  | some row =>
    cases hnew : findCommand s workflowId commandId with
    | some prior =>
      simp only [hrow, hnew] at h
      cases hprior :
        answerPrior (fingerprint env (request.without ["verification_code"])) prior with
      | error e =>
        rw [hprior] at h
        cases h
      | ok answer =>
        rw [hprior] at h
        cases h
    | none =>
      cases hrefuse : refuseBegin row instanceId request with
      | some e =>
        simp only [hrow, hnew, hrefuse] at h
        cases h
      | none =>
        simp only [hrow, hnew, hrefuse] at h
        split at h
        · cases h
        · obtain ⟨-, rfl⟩ := Prod.mk.inj (Except.ok.inj h)
          exact ⟨⟨row, rfl, hrefuse⟩, rfl, List.find?_isSome.mpr
            ⟨_, List.mem_append_right _ (List.mem_singleton_self _), by simp⟩⟩

theorem revision_of_refuseBegin {row : Workflow} (h : refuseBegin row instanceId request = none) :
    row.instanceId = instanceId ∧ row.state = .open ∧
      (request.get "revision" .null).eqInt row.revision = true := by
  unfold refuseBegin at h
  split at h
  · cases h
  · next hinstance =>
    split at h
    · cases h
    · next hopen =>
      split at h
      · cases h
      · next hrevision =>
        exact ⟨not_not.mp hinstance, not_not.mp hopen, Bool.eq_true_of_not_eq_false hrevision⟩

/-! ## Over runs of whole transactions -/

/-- `begin` returned `None` for the command. -/
def startedBy (workflowId commandId : Uuid) (served : ManagerCall × Except Raised Answer) : Bool :=
  match served.1.request, served.2 with
  | .begin _ commandId' _, .ok .started =>
    served.1.workflowId = workflowId && commandId' = commandId
  | _, _ => false

/-- The invariant of the journal and the answers given from it. -/
structure ServedInv (X : DB × List (ManagerCall × Except Raised Answer)) : Prop where
  journal : JournalInv X.1
  once : ∀ workflowId commandId, X.2.countP (startedBy workflowId commandId) ≤
    if (findCommand X.1 workflowId commandId).isSome = true then 1 else 0

variable {X Y : DB × List (ManagerCall × Except Raised Answer)}

theorem Grows.findCommand_isSome (h : Grows s t)
    (hs : (findCommand s workflowId commandId).isSome = true) :
    (findCommand t workflowId commandId).isSome = true := by
  obtain ⟨c, hc⟩ := Option.isSome_iff_exists.mp hs
  obtain ⟨c', hc', -⟩ := h.command _ _ c hc
  rw [hc']
  rfl

/-- A count of at most one for a row that stays. -/
theorem once_mono {n : Nat} (h : Grows s t)
    (hn : n ≤ if (findCommand s workflowId commandId).isSome = true then 1 else 0) :
    n ≤ if (findCommand t workflowId commandId).isSome = true then 1 else 0 := by
  split at hn
  · next hs => rwa [if_pos (h.findCommand_isSome hs)]
  · exact hn.trans (Nat.zero_le _)

theorem startedBy_iff {call : ManagerCall} {answer : Except Raised Answer} :
    startedBy workflowId commandId (call, answer) = true ↔
      (∃ instanceId request, call.request = .begin instanceId commandId request) ∧
        call.workflowId = workflowId ∧ answer = .ok .started := by
  obtain ⟨scope, agentId, w, request⟩ := call
  unfold startedBy
  cases request with
  | begin i k r =>
    cases answer with
    | error e => simp
    | ok answer => cases answer <;> simp [and_comm]
  | finish | close => simp

theorem ServedInv.call (hi : ServedInv (s, answers)) (call : ManagerCall) :
    ServedInv ((call.script env).atomic.commit s,
      answers ++ [(call, ((call.script env).atomic s).map Prod.fst)]) where
  journal := (call_effect call).inv hi.journal
  once workflowId commandId := by
    have hgrows := (show Effect s ((call.script env).atomic.commit s) from call_effect call).grows
    rw [List.countP_append, List.countP_singleton]
    by_cases hstarted : startedBy workflowId commandId
        (call, ((call.script env).atomic s).map Prod.fst) = true
    · obtain ⟨⟨instanceId, request, hbegin⟩, rfl, hanswer⟩ := startedBy_iff.mp hstarted
      obtain ⟨⟨answer, t⟩, hatomic⟩ : ∃ p, (call.script env).atomic s = .ok p := by
        cases h : (call.script env).atomic s with
        | error e => simp [h, Except.map] at hanswer
        | ok p => exact ⟨p, rfl⟩
      obtain rfl : answer = .started := by simpa [hatomic, Except.map] using hanswer
      have hscript := hatomic
      simp only [ManagerCall.script, hbegin] at hscript
      obtain ⟨r, hr, hstart⟩ := atomic_of_map hscript
      obtain rfl : r = none := by cases r <;> simp_all [Answer.ofBegin]
      obtain ⟨-, hnew, hfound⟩ := started_ok hr
      have hzero := hi.once call.workflowId commandId
      rw [hnew] at hzero
      rw [commit_of_ok hatomic, if_pos hfound, if_pos hstarted]
      exact Nat.succ_le_succ hzero
    · rw [if_neg hstarted, Nat.add_zero]
      exact once_mono hgrows (hi.once workflowId commandId)

/-- **Step lemma** of the whole transactions. -/
theorem atomicStep_ok {b : ManagerCall ⊕ Autonomy.Step}
    (h : (journal env).atomicStep X b = some Y) :
    (ServedInv X → ServedInv Y) ∧ Grows X.1 Y.1 ∧
      ∃ new, Y.2 = X.2 ++ new ∧ ∀ p ∈ new, Promises env X.1 p.1 p.2 := by
  obtain ⟨s, answers⟩ := X
  cases b with
  | inl call =>
    obtain rfl := Option.some.inj h
    refine ⟨fun hi => hi.call call, (call_effect call).grows, [_], rfl, fun p hp => ?_⟩
    obtain rfl := List.mem_singleton.mp hp
    exact promises_call call
  | inr a =>
    obtain ⟨t, ht, rfl⟩ := Option.map_eq_some_iff.mp h
    have heffect := outside_effect ht
    exact ⟨fun hi => ⟨heffect.inv hi.journal, fun w k => once_mono heffect.grows (hi.once w k)⟩,
      heffect.grows, [], (List.append_nil _).symm, by simp⟩

/-- **Run lemma**: the journal grows, and keeps all its promises. -/
theorem atomicRun_ok {init : DB → Prop} {bs : List (ManagerCall ⊕ Autonomy.Step)}
    (h : ((journal env).atomicSystem init).Run X bs Y) :
    (ServedInv X → ServedInv Y) ∧ Grows X.1 Y.1 ∧
      ∃ new, Y.2 = X.2 ++ new ∧ ∀ p ∈ new, Promises env X.1 p.1 p.2 := by
  induction h with
  | nil X => exact ⟨id, .refl _, [], (List.append_nil _).symm, by simp⟩
  | cons hs _ ih =>
    obtain ⟨hinv, hgrows, new, hnew, hpromises⟩ := atomicStep_ok hs
    obtain ⟨hinv', hgrows', new', hnew', hpromises'⟩ := ih
    refine ⟨hinv' ∘ hinv, hgrows.trans hgrows', new ++ new', ?_, fun p hp => ?_⟩
    · rw [hnew', hnew, List.append_assoc]
    · rcases List.mem_append.mp hp with hp | hp
      · exact hpromises p hp
      · exact (hpromises' p hp).mono hgrows

theorem reachable_servedInv {Z : JournalState} (h : (journalSystem env).Reachable Z) :
    ServedInv Z.visible := by
  obtain ⟨X₀, bs, ⟨hshared, hanswers⟩, hrun⟩ :=
    Locked.reachable_visible (journal_guarded env) h
  refine (atomicRun_ok hrun).1 ⟨?_, fun w k => ?_⟩
  · rw [hshared]
    exact .initial
  · rw [hanswers]
    exact Nat.zero_le _

/-! ## Exactly once -/

/-- What holds of a command between two states of an interleaving, `X` and a later `Y`. -/
structure RunsOnce (env : Platform) (X Y : JournalState) (workflowId commandId : Uuid) : Prop where
  /-- At most one command of the workflow is running. -/
  oneRunning : runningCommands Y.shared workflowId ≤ 1
  /-- The command was started at most once. -/
  startedOnce : Y.answers.countP (startedBy workflowId commandId) ≤ 1
  /-- Where it is in the journal at `X`, it is not started again by `Y`, another request under its
  id is refused, and once it has completed the same request is answered with its result. -/
  replays : ∃ new, Y.answers = X.answers ++ new ∧
    ∀ c, findCommand X.shared workflowId commandId = some c →
      ∀ call instanceId request answer, (call, answer) ∈ new → call.workflowId = workflowId →
        call.request = .begin instanceId commandId request →
          answer ≠ .ok .started ∧
            ((findWorkflow X.shared call.scope call.agentId workflowId).isSome = true →
              (c.fingerprint ≠ fingerprint env (request.without ["verification_code"]) →
                answer = .error (.permissionError "command_changed")) ∧
              (c.fingerprint = fingerprint env (request.without ["verification_code"]) →
                c.state = .completed → answer = .ok (.result (c.result.getD []))))
  /-- The result that is stored is the one it finished with. -/
  stored : ∀ a Z call result advance, (journal env).step Y a = some Z →
    Z.answers = Y.answers ++ [(call, .ok .done)] → call.workflowId = workflowId →
      call.request = .finish commandId result advance →
        ∃ c, findCommand Z.shared workflowId commandId = some c ∧ c.state = .completed ∧
          c.result = some result
  /-- It starts only on the revision that the workflow is at. -/
  fresh : ∀ a Z call instanceId request, (journal env).step Y a = some Z →
    Z.answers = Y.answers ++ [(call, .ok .started)] → call.workflowId = workflowId →
      call.request = .begin instanceId commandId request →
        ∃ row ∈ Y.shared.workflows, row.id = workflowId ∧
          (request.get "revision" .null).eqInt row.revision = true
  /-- The revision does not fall, and rises by no more than the commands completed. -/
  revision : ∀ row ∈ X.shared.workflows, row.id = workflowId →
    ∃ row' ∈ Y.shared.workflows, row'.id = workflowId ∧ row.revision ≤ row'.revision ∧
      row'.revision + completedCommands X.shared workflowId ≤
        row.revision + completedCommands Y.shared workflowId

theorem finish_stores (hi : JournalInv s) {x : Unit} {result : Dict} {advance : Bool}
    (h : (finish scope agentId workflowId commandId result advance).atomic s = .ok (x, t)) :
    ∃ c, findCommand t workflowId commandId = some c ∧ c.state = .completed ∧
      c.result = some result := by
  obtain ⟨row, -, hrow⟩ := lockWorkflow_ok h
  obtain ⟨hone, -, hcommands⟩ := finishRow_ok hrow
  obtain ⟨c, hc, hrun⟩ := List.countP_pos_iff.mp (Nat.lt_of_lt_of_eq Nat.one_pos hone.symm)
  obtain ⟨⟨hw, hk⟩, -⟩ := isRunning_iff.mp hrun
  have hfound : findCommand s workflowId commandId = some c := by
    obtain ⟨c', hc'⟩ := Option.isSome_iff_exists.mp (List.find?_isSome (p := fun c : Command =>
      c.workflowId = workflowId && c.commandId = commandId).mpr ⟨c, hc, by simp [hw, hk]⟩)
    obtain ⟨hmem, hw', hk'⟩ := findCommand_some hc'
    have hkey : Command.key c' = Command.key c := by simp [Command.key, hw, hk, hw', hk']
    rw [← hi.commands.eq hmem hc hkey]
    exact hc'
  refine ⟨{ c with state := .completed, result := some result }, ?_, rfl, rfl⟩
  unfold findCommand at hfound ⊢
  rw [hcommands, complete, Rows.find?_updateWhere, hfound, Option.map_some, if_pos hrun]
  exact fun _ _ => rfl

/-- **Commands run exactly once.** In every interleaving of `begin`, `finish` and `close` by any
number of managers, statement by statement and with any of them lost on the way. -/
theorem commands_run_once {X Y : JournalState}
    {as : List (RowLock.Step Uuid ManagerCall Autonomy.Step)}
    (hX : (journalSystem env).Reachable X) (h : (journalSystem env).Run X as Y)
    (workflowId commandId : Uuid) : RunsOnce env X Y workflowId commandId := by
  have hguarded := journal_guarded env
  have hY := hX.run h
  have hinv := reachable_servedInv hY
  obtain ⟨bs, hbs⟩ := Locked.refines hguarded (Locked.reachable_inv hguarded hX) h
  obtain ⟨-, hgrows, new, hnew, hpromises⟩ := atomicRun_ok hbs
  refine ⟨?_, ?_, ⟨new, hnew, ?_⟩, ?_, ?_, ?_⟩
  · exact hinv.journal.running.countP_le_one hinv.journal.commands workflowId
  · refine (hinv.once workflowId commandId).trans ?_
    split <;> decide
  · rintro c hc call instanceId request answer hmem rfl hbegin
    exact hpromises _ hmem instanceId commandId request c hbegin hc
  · rintro a Z ⟨scope, agentId, _, _⟩ result advance hstep hanswers rfl rfl
    have hatomic := Locked.served_ok (Locked.reachable_inv hguarded hY) hstep hanswers
    obtain ⟨x, hx, -⟩ := atomic_of_map hatomic
    exact finish_stores hinv.journal hx
  · rintro a Z ⟨scope, agentId, _, _⟩ instanceId request hstep hanswers rfl rfl
    have hatomic := Locked.served_ok (Locked.reachable_inv hguarded hY) hstep hanswers
    obtain ⟨r, hr, hstart⟩ := atomic_of_map hatomic
    obtain rfl : r = none := by
      cases r with
      | none => rfl
      | some r => cases hstart
    obtain ⟨⟨row, hrow, hrefuse⟩, -, -⟩ := started_ok hr
    obtain ⟨hmem, hid, -⟩ := findWorkflow_some hrow
    exact ⟨row, hmem, hid, (revision_of_refuseBegin hrefuse).2.2⟩
  · rintro row hrow rfl
    obtain ⟨row', hrow', hid, -, -, hle, hbound⟩ := hgrows.workflow row hrow
    exact ⟨row', hrow', hid, hle, hbound⟩

/-- The state after the statements. -/
def interleave (as : List (RowLock.Step Uuid ManagerCall Autonomy.Step)) : Option JournalState :=
  as.foldlM (journal samplePlatform).step ⟨{}, fun _ => none, []⟩

def sampleCall (request : Request) : ManagerCall :=
  ⟨⟨"tenant", "owner"⟩, "agent", 9, request⟩

/-- Workflow 9 is opened for an operation that is reserved, and a first attempt at command 7 is lost
on the way. The second one starts it, and another manager finishes it. -/
def finishedSteps : List (RowLock.Step Uuid ManagerCall Autonomy.Step) :=
  (purchaseSteps.take 3).map .outside ++
    [.outside (sampleStep 9 (.openWorkflow "agent" 3 50 [])),
     .start (sampleCall (.begin 50 7 [("revision", .int 0)])), .next 9, .crash 9,
     .start (sampleCall (.begin 50 7 [("revision", .int 0)])), .next 9, .next 9, .next 9,
     .start (sampleCall (.finish 7 [("state", .str "ok")] true)), .next 9, .next 9]

/-- It is begun once more, under a revision that is stale by now. -/
def replaySteps : List (RowLock.Step Uuid ManagerCall Autonomy.Step) :=
  [.start (sampleCall (.begin 50 7 [("revision", .int 0)])), .next 9, .next 9]

theorem first_command_runs_once : ∃ X Y,
    interleave finishedSteps = some X ∧
      replaySteps.foldlM (journal samplePlatform).step X = some Y ∧
      completedCommands X.shared 9 = 1 ∧ Y.answers.length = 3 ∧
        RunsOnce samplePlatform X Y 9 7 := by
  have hruns : (interleave finishedSteps).any (fun X => completedCommands X.shared 9 = 1 &&
      (replaySteps.foldlM (journal samplePlatform).step X).any fun Y => Y.answers.length = 3) =
        true := by
    decide +kernel
  obtain ⟨X, hX, hboth⟩ := (Option.any_eq_true _ _).mp hruns
  rw [Bool.and_eq_true] at hboth
  obtain ⟨Y, hY, hlength⟩ := (Option.any_eq_true _ _).mp hboth.2
  refine ⟨X, Y, hX, hY, of_decide_eq_true hboth.1, of_decide_eq_true hlength, ?_⟩
  exact commands_run_once ⟨_, _, ⟨rfl, rfl, rfl⟩, System.run_of_foldlM hX⟩
    (System.run_of_foldlM hY) 9 7

end GenusOs.Autonomy.Workflows
