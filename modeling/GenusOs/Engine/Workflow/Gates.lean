import GenusOs.Engine.Workflow.StepRows
import GenusOs.Library.Stutter
import Mathlib

/-!
# Gates

What a visit of a gate does to the run, before its question is decided and after.

* `sitting_suspends`: a gate that is found undecided waits.
* `executeStep_decided`: a decided gate is any other step.
-/

namespace GenusOs.Engine.Workflow

open GenusOs.Stutter WorkflowRun

variable {wf : WorkflowDef} {w : World} {step : WorkflowStepDef} {run : WorkflowRun}
  {stepId : String} {ran : Ran}

/-! ## A gate that is found undecided -/

/-- An attempt at this step that is not stored yet. -/
def InFlight (stepId : String) (run : WorkflowRun) : Prop :=
  stepId ∈ run.dispatchedSteps ∧
    ∃ r ∈ run.rows, r.status = .running ∧ (stepId = "" ∨ r.stepId = stepId)

theorem not_inFlight_of_tidy (h : run.Tidy []) : ¬ InFlight stepId run := by
  rintro ⟨_, r, hr, hrun, _⟩
  cases h r hr hrun

theorem inFlight_executeSingleStep : InFlight stepId (executeSingleStep stepId ran run).1 := by
  rw [executeSingleStep_fst]
  refine ⟨?_, ⟨stepId, .running⟩,
    List.mem_append_right _ (List.mem_singleton_self _), rfl, .inr rfl⟩
  unfold persistStepStart
  dsimp only
  split <;> exact mem_dispatch

theorem dispatchedSteps_executeSingleStep :
    (executeSingleStep stepId ran run).1.dispatchedSteps =
      (run.dispatch stepId).dispatchedSteps := by
  rw [executeSingleStep_fst]
  unfold persistStepStart
  dsimp only
  split <;> rfl

theorem dispatch_of_mem (h : stepId ∈ run.dispatchedSteps) : run.dispatch stepId = run :=
  if_pos h

/-- To dispatch a step fails the attempt that is still in flight, and no other row. -/
theorem failedRow_executeSingleStep :
    (executeSingleStep stepId ran run).1.failedRow = true ↔
      run.failedRow = true ∨ InFlight stepId run := by
  rw [executeSingleStep_fst]
  by_cases hmem : stepId ∈ run.dispatchedSteps
  · rw [dispatch_of_mem hmem]
    simp only [hmem, decide_true, failedRow_iff, persistStepStart, if_true, closeRunningSteps]
    constructor
    · rintro ⟨r, hr, hfailed⟩
      rcases List.mem_append.mp hr with hr | hr
      · obtain ⟨r₀, hr₀, rfl⟩ := List.mem_map.mp hr
        by_cases hrun : r₀.status = .running ∧ (stepId = "" ∨ r₀.stepId = stepId)
        · exact .inr ⟨hmem, r₀, hr₀, hrun⟩
        · rw [if_neg hrun] at hfailed
          exact .inl ⟨r₀, hr₀, hfailed⟩
      · rw [List.mem_singleton.mp hr] at hfailed
        cases hfailed
    · rintro (⟨r, hr, hfailed⟩ | ⟨_, r, hr, hrun⟩)
      · exact ⟨r, List.mem_append_left _ (List.mem_map.mpr ⟨r, hr, by simp [hfailed]⟩), hfailed⟩
      · refine ⟨{ r with status := .failed }, List.mem_append_left _ ?_, rfl⟩
        exact List.mem_map.mpr ⟨r, hr, if_pos hrun⟩
  · have hno : ¬ InFlight stepId run := fun h => hmem h.1
    simp [persistStepStart, hmem, failedRow, hno]

/-- A step that nothing runs for does not tell whether it was dispatched before. -/
theorem executeSingleStep_dispatch (h : run.Tidy []) :
    executeSingleStep stepId ran (run.dispatch stepId) = executeSingleStep stepId ran run := by
  have hsettled : ∀ r ∈ (run.dispatch stepId).rows, r.status ≠ .running := by
    rw [rows_dispatch]
    intro r hr hrun
    cases h r hr hrun
  have hclose : (run.dispatch stepId).closeRunningSteps .failed stepId = run.dispatch stepId := by
    rw [closeRunningSteps, map_settled hsettled fun r hr => if_neg fun hrun => hr hrun.1]
  have hstart (redispatch : Bool) : (run.dispatch stepId).persistStepStart stepId redispatch =
      { run.dispatch stepId with rows := (run.dispatch stepId).rows ++ [⟨stepId, .running⟩] } := by
    cases redispatch with
    | false => rfl
    | true => rw [persistStepStart, if_pos rfl, hclose]
  unfold executeSingleStep
  dsimp only
  rw [dispatch_of_mem mem_dispatch, hstart, hstart]

theorem retried_congr {once : Nat → WorkflowRun → WorkflowRun × Option StepResult}
    {run' : WorkflowRun} {attempt : Nat} (h : once attempt run = once attempt run') (more : Nat) :
    retried once more attempt run = retried once more attempt run' := by
  cases more with
  | zero => exact h
  | succ more => rw [retried, retried, h]

theorem executeStep_approval {visit sitting attempt : Nat} (h : step.type = .approval) :
    executeStep w visit sitting step attempt =
      executeSingleStep step.id (runApprovalStep w visit sitting step attempt) := by
  unfold executeStep
  rw [h]

/-- **A gate that is found undecided waits**, and only attempts to ask that failed leave failed
rows. -/
theorem sitting_suspends {visit sitting : Nat} (htype : step.type = .approval)
    (hwaits : sitting < w.waits visit) {more attempt left : Nat} (hle : left ≤ more)
    (hleft : attempt + left = w.asksFailed visit sitting step) :
    ∃ run', retried (executeStep w visit sitting step) more attempt run =
        (run', some { stepId := step.id, status := .waiting }) ∧
      run'.dispatchedSteps = (run.dispatch step.id).dispatchedSteps ∧
      (run'.failedRow = true ↔
        run.failedRow = true ∨ InFlight step.id run ∨ 0 < left) := by
  induction left generalizing run more attempt with
  | zero =>
    have hran : runApprovalStep w visit sitting step attempt = .returned .waiting none .plain := by
      unfold runApprovalStep
      rw [if_pos hwaits, if_neg (by omega)]
    refine ⟨(executeSingleStep step.id (.returned .waiting none .plain) run).1, ?_,
      dispatchedSteps_executeSingleStep, ?_⟩
    · cases more with
      | zero => rw [retried, executeStep_approval htype, hran]; rfl
      | succ more => rw [retried, executeStep_approval htype, hran]; rfl
    · simp [failedRow_executeSingleStep]
  | succ left ih =>
    cases more with
    | zero => omega
    | succ more =>
      have hran : runApprovalStep w visit sitting step attempt = .raised := by
        unfold runApprovalStep
        rw [if_pos hwaits, if_pos (by omega)]
      obtain ⟨run', hrun', hdispatched, hfailed⟩ := @ih
        (executeSingleStep step.id .raised run).1 more (attempt + 1)
        (by omega) (by omega)
      refine ⟨run', ?_, ?_, ?_⟩
      · rw [retried, executeStep_approval htype, hran, ← hrun']
        rfl
      · rw [hdispatched, dispatch_of_mem inFlight_executeSingleStep.1,
          dispatchedSteps_executeSingleStep]
      · rw [hfailed]
        exact ⟨fun _ => .inr (.inr left.succ_pos), fun _ => .inr (.inl inFlight_executeSingleStep)⟩

/-! ## The run without suspensions -/

theorem runApprovalStep_decided {visit sitting attempt : Nat} (h : w.waits visit ≤ sitting) :
    runApprovalStep w visit sitting step attempt =
      runApprovalStep w.decidedBefore visit 0 step attempt := by
  unfold runApprovalStep
  rw [if_neg (Nat.not_lt.mpr h),
    if_neg (show ¬ 0 < w.decidedBefore.waits visit from Nat.lt_irrefl 0)]
  rfl

theorem runBranches_decided {visit round : Nat} (i : Nat) (branches : List BranchDef) :
    runBranches w visit round i branches = runBranches w.decidedBefore visit round i branches := by
  induction branches generalizing i with
  | nil => rfl
  | cons branch branches ih =>
    funext run
    rw [runBranches, runBranches, ih]
    rfl

/-- Once the gate is decided, the step does what it does in the run without suspensions. -/
theorem executeStep_decided {visit sitting : Nat}
    (h : step.type = .approval → w.waits visit ≤ sitting) :
    executeStep w visit sitting step = executeStep w.decidedBefore visit 0 step := by
  funext attempt
  by_cases htype : step.type = .approval
  · rw [executeStep_approval htype, executeStep_approval htype, runApprovalStep_decided (h htype)]
  · unfold executeStep
    split
    · funext run
      unfold executeParallel
      rw [runBranches_decided]
    · contradiction
    all_goals rfl

/-- A result that does not say that the step waits. -/
def NotWaiting (result : StepResult) : Prop := result.status ≠ .waiting

theorem executeSingleStep_not_waiting (h : ∀ status conditionBranch toolOutput,
    ran = .returned status conditionBranch toolOutput → status ≠ .waiting) :
    Keeps (fun _ => True) NotWaiting (executeSingleStep stepId ran) := by
  intro run _ result hresult
  refine ⟨trivial, ?_⟩
  unfold executeSingleStep at hresult
  cases ran with
  | returned status _ _ =>
    cases hresult
    exact h _ _ _ rfl
  | raised =>
    cases hresult
    exact nofun
  | deadline =>
    cases hresult
    exact nofun
  | interrupted => cases hresult

theorem not_waiting_of_ordinary {status : StepStatus} {conditionBranch : Option String}
    {toolOutput : ToolOutput} (h : ran.ordinary = true)
    (hran : ran = .returned status conditionBranch toolOutput) : status ≠ .waiting := by
  rintro rfl
  rw [hran] at h
  cases h

theorem actOnDecision_not_waiting {decision : ApprovalDecision} {status : StepStatus}
    {conditionBranch : Option String} {toolOutput : ToolOutput}
    (h : actOnDecision step decision = .returned status conditionBranch toolOutput) :
    status ≠ .waiting := by
  rintro rfl
  unfold actOnDecision at h
  dsimp only at h
  grind

/-- Without suspensions no step waits. -/
theorem executeStep_not_waiting {visit attempt : Nat} :
    Keeps (fun _ => True) NotWaiting (executeStep w.decidedBefore visit 0 step attempt) := by
  unfold executeStep
  split
  · intro run _ result hresult
    refine ⟨trivial, ?_⟩
    unfold executeParallel at hresult
    revert hresult
    rcases runBranches w.decidedBefore visit attempt 0 step.parallelSteps run with ⟨_, _ | more⟩
    · nofun
    · intro hresult
      cases hresult
      unfold NotWaiting
      dsimp only
      split <;> nofun
  · refine executeSingleStep_not_waiting fun status conditionBranch toolOutput hran => ?_
    unfold runApprovalStep at hran
    rw [if_neg (show ¬ 0 < w.decidedBefore.waits visit from Nat.lt_irrefl 0)] at hran
    split at hran
    · cases hran
    · cases hran
    · exact actOnDecision_not_waiting hran
  · exact executeSingleStep_not_waiting fun _ _ _ hran => by cases hran; nofun
  all_goals
    exact executeSingleStep_not_waiting fun _ _ _ hran =>
      not_waiting_of_ordinary (w.run visit attempt).property hran

/-- What follows on a step that does not wait: the run is left, or it goes on to the next step. -/
theorem afterStep_cases {result : StepResult} (h : NotWaiting result) :
    (∃ status ∈ [RunStatus.cancelled, .failed, .timeout],
      ∀ e, ∃ last, afterStep wf step result e = .stop ⟨status, last⟩ ∧
        last.resumed = e.resumed) ∨
    ∃ kept, (kept = result ∨ kept = result.absorbed) ∧
      ∀ e, afterStep wf step result e =
        .next
          { e with
            currentIdx := nextIdx wf step result e.currentIdx
            visit := e.visit + 1
            sitting := 0
            run := { e.run with stepResults := e.run.stepResults ++ [kept] } } := by
  unfold afterStep
  simp only [show ¬ result.status = .waiting from h, if_false]
  split
  · exact .inl ⟨.cancelled, by decide, fun e => ⟨_, rfl, rfl⟩⟩
  · exact .inl ⟨.failed, by decide, fun e => ⟨_, rfl, rfl⟩⟩
  · split
    · exact .inl ⟨.timeout, by decide, fun e => ⟨_, rfl, rfl⟩⟩
    · split
      · exact .inl ⟨.failed, by decide, fun e => ⟨_, rfl, rfl⟩⟩
      · refine .inr ⟨_, ?_, fun e => rfl⟩
        split
        · exact .inr rfl
        · exact .inl rfl

end GenusOs.Engine.Workflow
