import Mathlib

/-!
# Workflow definitions

What `parse_workflow` accepts, as far as the flow of control reads it.
-/

namespace GenusOs.Engine.Workflow

inductive RunStatus
  | pending | running | completed | failed | timeout | cancelled | skipped | awaitingApproval
  deriving DecidableEq, Repr

/-- `WorkflowStepStatus`. -/
inductive StepStatus
  | pending | running | completed | failed | skipped | waiting | timeout
  deriving DecidableEq, Repr

/-- `WorkflowStepType` -/
inductive StepType | agent | tool | condition | transform | noop | parallel | approval
  deriving DecidableEq, Repr

/-- What a step inside a parallel one may be: conditions, approvals and parallel steps are refused
there. -/
inductive BranchType | agent | tool | transform | noop
  deriving DecidableEq, Repr

structure BranchDef where
  id : String
  type : BranchType := .noop
  onFailure : String := "abort"
  retryCount : Nat := 0
  deriving DecidableEq, Repr

structure WorkflowStepDef where
  id : String
  type : StepType := .noop
  parallelSteps : List BranchDef := []
  onTimeout : String := "abort"
  onReject : String := ""
  onFailure : String := "abort"
  retryCount : Nat := 0
  next : String := ""
  deriving DecidableEq, Repr

/-- The ids of a step: its own and those of its branches. -/
def WorkflowStepDef.ids (step : WorkflowStepDef) : List String :=
  step.id :: step.parallelSteps.map (·.id)

structure WorkflowDef where
  steps : List WorkflowStepDef
  /-- "duplicate step id … in workflow …" -/
  distinct : (steps.flatMap (·.ids)).Nodup

/-- `step_index.get(id)`. -/
def WorkflowDef.stepIndex (wf : WorkflowDef) (id : String) : Option Nat :=
  wf.steps.findIdx? (·.id = id)

variable {wf : WorkflowDef} {step : WorkflowStepDef} {i : Nat}

/-- A step is found by its id. -/
theorem stepIndex_id (h : wf.steps[i]? = some step) : wf.stepIndex step.id = some i := by
  obtain ⟨hi, hstep⟩ := List.getElem?_eq_some_iff.mp h
  unfold WorkflowDef.stepIndex
  rw [List.findIdx?_eq_some_iff_getElem]
  refine ⟨hi, by simp [hstep], fun j hj => ?_⟩
  simp only [decide_eq_true_eq]
  intro heq
  have hdisjoint := (List.nodup_flatMap.mp wf.distinct).2
  rw [List.pairwise_iff_getElem] at hdisjoint
  refine hdisjoint j i (hj.trans hi) hi hj (a := step.id) ?_ ?_
  · rw [← heq]
    exact List.mem_cons_self
  · rw [hstep]
    exact List.mem_cons_self

end GenusOs.Engine.Workflow
