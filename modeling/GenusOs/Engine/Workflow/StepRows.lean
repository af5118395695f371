import GenusOs.Engine.Workflow.Steps
import Mathlib

/-!
# The stored rows of a run

A step leaves no running row behind, every failed result it keeps in memory has a failed row, and
what it does to the results and the rows does not depend on those that were there before.

* `Framed`, `Keeps`: what a step adds, and what it keeps.
* `visit_kept`: a visited step leaves a tidy run.
-/

namespace GenusOs.Engine.Workflow

variable {w : World} {step : WorkflowStepDef} {run : WorkflowRun} {ids : List String}
  {results : List StepResult} {rows : List StepRow} {stepId : String} {ran : Ran}

namespace WorkflowRun

/-- The rows that still run are rows of these steps. -/
def Tidy (ids : List String) (run : WorkflowRun) : Prop :=
  ∀ r ∈ run.rows, r.status = .running → r.stepId ∈ ids

/-- A failed result has a failed row. -/
def Stored (run : WorkflowRun) : Prop := run.failedResult = true → run.failedRow = true

/-- The run with results and rows before its own. -/
def after (results : List StepResult) (rows : List StepRow) (run : WorkflowRun) : WorkflowRun :=
  { run with stepResults := results ++ run.stepResults, rows := rows ++ run.rows }

theorem Tidy.mono {ids' : List String} (h : run.Tidy ids) (hsub : ids ⊆ ids') : run.Tidy ids' :=
  fun r hr hrun => hsub (h r hr hrun)

theorem failedRow_iff : run.failedRow = true ↔ ∃ r ∈ run.rows, r.status = .failed := by
  simp [failedRow]

theorem failedResult_iff :
    run.failedResult = true ↔ ∃ r ∈ run.stepResults, r.status = .failed := by
  simp [failedResult]

@[simp] theorem failedResult_loadSuspendedRun :
    run.loadSuspendedRun.failedResult = run.failedRow := by
  simp [loadSuspendedRun, failedResult, failedRow, Function.comp_def]

@[simp] theorem failedRow_loadSuspendedRun : run.loadSuspendedRun.failedRow = run.failedRow := rfl

@[simp] theorem rows_dispatch : (run.dispatch stepId).rows = run.rows := by
  unfold dispatch
  split <;> rfl

@[simp] theorem stepResults_dispatch : (run.dispatch stepId).stepResults = run.stepResults := by
  unfold dispatch
  split <;> rfl

theorem mem_dispatch : stepId ∈ (run.dispatch stepId).dispatchedSteps := by
  unfold dispatch
  split
  · assumption
  · simp

end WorkflowRun

open WorkflowRun

/-! ## The statements -/

/-- What concerns running rows only leaves settled ones alone. -/
theorem map_settled {f : StepRow → StepRow} (h : ∀ r ∈ rows, r.status ≠ .running)
    (hf : ∀ r, r.status ≠ .running → f r = r) : rows.map f = rows := by
  conv_rhs => rw [← List.map_id rows]
  apply List.map_congr_left
  intro r hr
  exact hf r (h r hr)

/-- Rows that are settled stay as they are when a step is dispatched. -/
theorem persistStepStart_after (h : ∀ r ∈ rows, r.status ≠ .running) {redispatch : Bool} :
    (run.after results rows).persistStepStart stepId redispatch =
      (run.persistStepStart stepId redispatch).after results rows := by
  cases redispatch with
  | false => simp [persistStepStart, after]
  | true =>
    simp only [persistStepStart, closeRunningSteps, after, if_true, List.map_append]
    rw [map_settled h fun r hr => if_neg fun hrun => hr hrun.1, List.append_assoc]

theorem persistStep_after (h : ∀ r ∈ rows, r.status ≠ .running) {result : StepResult} :
    (run.after results rows).persistStep result = (run.persistStep result).after results rows := by
  have hany : (rows.any fun r => r.stepId = result.stepId ∧ r.status = .running) = false := by
    simpa using fun r hr _ => h r hr
  unfold persistStep after
  simp only [List.any_append, hany, Bool.false_or, List.map_append]
  rw [map_settled h fun r hr => if_neg fun hrun => hr hrun.2]
  split <;> simp

theorem dispatch_after : (run.after results rows).dispatch stepId =
    (run.dispatch stepId).after results rows := by
  unfold dispatch
  show (if stepId ∈ run.dispatchedSteps then _ else _) = _
  split <;> rfl

/-- A dispatched step has the one row that it runs in, if nothing ran before. -/
theorem persistStepStart_tidy {redispatch : Bool} (h : run.Tidy ids) :
    (run.persistStepStart stepId redispatch).Tidy (stepId :: ids) := by
  intro r hr hrun
  unfold persistStepStart at hr
  rcases List.mem_append.mp hr with hr | hr
  · cases redispatch with
    | false => exact List.mem_cons_of_mem _ (h r hr hrun)
    | true =>
      obtain ⟨r₀, hr₀, rfl⟩ := List.mem_map.mp hr
      split at hrun
      · cases hrun
      · rw [if_neg ‹_›]
        exact List.mem_cons_of_mem _ (h r₀ hr₀ hrun)
  · rw [List.mem_singleton.mp hr]
    exact List.mem_cons_self

theorem persistStepStart_failedRow {redispatch : Bool} (h : run.failedRow = true) :
    (run.persistStepStart stepId redispatch).failedRow = true := by
  obtain ⟨r, hr, hfailed⟩ := failedRow_iff.mp h
  refine failedRow_iff.mpr ⟨r, List.mem_append_left _ ?_, hfailed⟩
  cases redispatch with
  | false => exact hr
  | true => exact List.mem_map.mpr ⟨r, hr, by simp [hfailed]⟩

/-- A stored step runs no longer. -/
theorem persistStep_tidy {result : StepResult} (h : run.Tidy ids)
    (hstatus : result.status ≠ .running) :
    (run.persistStep result).Tidy (ids.filter (· ≠ result.stepId)) := by
  intro r hr hrun
  unfold persistStep at hr
  dsimp only at hr
  split at hr
  · obtain ⟨r₀, hr₀, rfl⟩ := List.mem_map.mp hr
    split at hrun
    · exact absurd hrun hstatus
    · next hne =>
      rw [if_neg hne]
      have hid : r₀.stepId ≠ result.stepId := fun heq => hne ⟨heq, hrun⟩
      exact List.mem_filter.mpr ⟨h r₀ hr₀ hrun, by simpa using hid⟩
  · next hnone =>
    rcases List.mem_append.mp hr with hr | hr
    · have hid : r.stepId ≠ result.stepId := by
        intro heq
        exact hnone (List.any_eq_true.mpr ⟨r, hr, by simp [heq, hrun]⟩)
      exact List.mem_filter.mpr ⟨h r hr hrun, by simpa using hid⟩
    · rw [List.mem_singleton.mp hr] at hrun
      exact absurd hrun hstatus

theorem persistStep_failedRow {result : StepResult} :
    (run.persistStep result).failedRow = true ↔
      run.failedRow = true ∨ result.status = .failed := by
  simp only [failedRow_iff]
  unfold persistStep
  dsimp only
  split
  · next hany =>
    obtain ⟨r₀, hr₀, hmatch⟩ := List.any_eq_true.mp hany
    constructor
    · rintro ⟨r, hr, hfailed⟩
      obtain ⟨r', hr', rfl⟩ := List.mem_map.mp hr
      split at hfailed
      · exact .inr hfailed
      · exact .inl ⟨r', hr', hfailed⟩
    · rintro (⟨r, hr, hfailed⟩ | hfailed)
      · exact ⟨r, List.mem_map.mpr ⟨r, hr, by simp [hfailed]⟩, hfailed⟩
      · refine ⟨{ r₀ with status := result.status }, List.mem_map.mpr ⟨r₀, hr₀, ?_⟩, hfailed⟩
        rw [if_pos (by simpa using hmatch)]
  · constructor
    · rintro ⟨r, hr, hfailed⟩
      rcases List.mem_append.mp hr with hr | hr
      · exact .inl ⟨r, hr, hfailed⟩
      · rw [List.mem_singleton.mp hr] at hfailed
        exact .inr hfailed
    · rintro (⟨r, hr, hfailed⟩ | hfailed)
      · exact ⟨r, List.mem_append_left _ hr, hfailed⟩
      · exact ⟨⟨result.stepId, result.status⟩, by simp, hfailed⟩

/-! ## What was there before -/

/-- The step does to a run with settled rows what it does to the run without them. -/
def Framed {α : Type} (f : WorkflowRun → WorkflowRun × α) : Prop :=
  ∀ run results rows, (∀ r ∈ rows, r.status ≠ StepStatus.running) →
    f (run.after results rows) = ((f run).1.after results rows, (f run).2)

theorem executeSingleStep_framed : Framed (executeSingleStep stepId ran) := by
  intro run results rows h
  unfold executeSingleStep
  have hsame : (run.after results rows).dispatchedSteps = run.dispatchedSteps := rfl
  dsimp only
  rw [hsame, dispatch_after, persistStepStart_after h]
  cases ran <;> rfl

theorem retried_framed {once : Nat → WorkflowRun → WorkflowRun × Option StepResult}
    (honce : ∀ attempt, Framed (once attempt)) (more attempt : Nat) :
    Framed (retried once more attempt) := by
  induction more generalizing attempt with
  | zero => exact honce attempt
  | succ more ih =>
    intro run results rows h
    rw [retried, retried, honce attempt run results rows h]
    rcases once attempt run with ⟨run', _ | result⟩
    · rfl
    · dsimp only
      split
      · exact ih (attempt + 1) run' results rows h
      · rfl

theorem runBranch_framed {visit round i : Nat} {branch : BranchDef} :
    Framed (runBranch w visit round i branch) := by
  intro run results rows h
  unfold runBranch
  dsimp only
  rw [retried_framed (fun attempt => executeSingleStep_framed) _ _ run results rows h]

theorem runBranches_framed {visit round : Nat} (i : Nat) (branches : List BranchDef) :
    Framed (runBranches w visit round i branches) := by
  induction branches generalizing i with
  | nil => exact fun run results rows h => rfl
  | cons branch branches ih =>
    intro run results rows h
    rw [runBranches, runBranches, runBranch_framed run results rows h]
    rcases runBranch w visit round i branch run with ⟨run', _ | result⟩
    · rfl
    · dsimp only
      rw [ih (i + 1) run' results rows h]
      rcases runBranches w visit round (i + 1) branches run' with ⟨run'', _ | rest⟩ <;> rfl

theorem foldl_persistStep_after (h : ∀ r ∈ rows, r.status ≠ .running) (more : List StepResult) :
    more.foldl persistStep (run.after results rows) =
      (more.foldl persistStep run).after results rows := by
  induction more generalizing run with
  | nil => rfl
  | cons result more ih => rw [List.foldl_cons, persistStep_after h, ih, List.foldl_cons]

theorem executeParallel_framed {visit round : Nat} :
    Framed (executeParallel w visit step round) := by
  intro run results rows h
  unfold executeParallel
  rw [runBranches_framed 0 step.parallelSteps run results rows h]
  rcases runBranches w visit round 0 step.parallelSteps run with ⟨run', _ | branchResults⟩
  · rfl
  · dsimp only
    rw [foldl_persistStep_after h]
    simp [after, List.append_assoc]

theorem executeStep_framed {visit sitting attempt : Nat} :
    Framed (executeStep w visit sitting step attempt) := by
  unfold executeStep
  split
  · exact executeParallel_framed
  all_goals exact executeSingleStep_framed

/-! ## What a step leaves behind -/

/-- Only these steps run, the failures are stored, and a failure stored before is stored still. -/
structure Kept (ids : List String) (before : Bool) (run : WorkflowRun) : Prop where
  tidy : run.Tidy ids
  stored : run.Stored
  failed : before = true → run.failedRow = true

variable {before : Bool}

theorem Kept.mono {ids' : List String} (h : Kept ids before run) (hsub : ids ⊆ ids') :
    Kept ids' before run :=
  ⟨h.tidy.mono hsub, h.stored, h.failed⟩

/-- The result is one of that step, which runs no longer. -/
def Finished (stepId : String) (result : StepResult) : Prop :=
  result.stepId = stepId ∧ result.status ≠ .running

/-- A `_run_…_step` sets no step to running. -/
def Ran.finished : Ran → Prop
  | .returned status _ _ => status ≠ .running
  | _ => True

theorem finished_of_ordinary (h : ran.ordinary = true) : ran.finished := by
  cases ran with
  | returned status _ _ =>
    intro hstatus
    rw [hstatus] at h
    cases h
  | raised => trivial
  | deadline => trivial
  | interrupted => trivial

theorem executeSingleStep_fst : (executeSingleStep stepId ran run).1 =
    (run.dispatch stepId).persistStepStart stepId (stepId ∈ run.dispatchedSteps) := by
  unfold executeSingleStep
  cases ran <;> rfl

theorem executeSingleStep_kept (h : Kept ids before run) (hid : stepId ∈ ids) :
    Kept ids before (executeSingleStep stepId ran run).1 := by
  have htidy : (run.dispatch stepId).Tidy ids := by
    intro r hr
    exact h.tidy r (rows_dispatch ▸ hr)
  have hfailed : run.failedRow = true → ((run.dispatch stepId).persistStepStart stepId
      (stepId ∈ run.dispatchedSteps)).failedRow = true := by
    intro hrow
    apply persistStepStart_failedRow
    unfold failedRow
    rwa [rows_dispatch]
  rw [executeSingleStep_fst]
  refine ⟨(persistStepStart_tidy htidy).mono (List.cons_subset.mpr ⟨hid, List.Subset.refl _⟩),
    fun hres => hfailed (h.stored ?_), fun hb => hfailed (h.failed hb)⟩
  unfold persistStepStart at hres
  unfold failedResult at hres ⊢
  split at hres
  · exact @stepResults_dispatch run _ ▸ hres
  · exact @stepResults_dispatch run _ ▸ hres

theorem executeSingleStep_finished (hran : ran.finished) :
    ∀ result ∈ (executeSingleStep stepId ran run).2, Finished stepId result := by
  intro result hresult
  unfold executeSingleStep at hresult
  cases ran with
  | returned status _ _ =>
    cases hresult
    exact ⟨rfl, hran⟩
  | raised =>
    cases hresult
    exact ⟨rfl, nofun⟩
  | deadline =>
    cases hresult
    exact ⟨rfl, nofun⟩
  | interrupted => cases hresult

/-- Where the step gets to a result, it keeps `P`, and its result meets `Q`. -/
def Keeps {α : Type} (P : WorkflowRun → Prop) (Q : α → Prop)
    (f : WorkflowRun → WorkflowRun × Option α) : Prop :=
  ∀ run, P run → ∀ a ∈ (f run).2, P (f run).1 ∧ Q a

theorem executeSingleStep_keeps (hran : ran.finished) (hid : stepId ∈ ids) :
    Keeps (Kept ids before) (Finished stepId) (executeSingleStep stepId ran) :=
  fun _ h result hresult =>
    ⟨executeSingleStep_kept h hid, executeSingleStep_finished hran result hresult⟩

/-- What one attempt keeps, the retries keep. -/
theorem retried_keeps {once : Nat → WorkflowRun → WorkflowRun × Option StepResult}
    {P : WorkflowRun → Prop} {Q : StepResult → Prop}
    (honce : ∀ attempt, Keeps P Q (once attempt)) (more attempt : Nat) :
    Keeps P Q (retried once more attempt) := by
  induction more generalizing attempt with
  | zero => exact honce attempt
  | succ more ih =>
    intro run h
    have hkeeps := honce attempt run h
    rw [retried]
    revert hkeeps
    rcases once attempt run with ⟨run', _ | result⟩
    · exact id
    · intro hkeeps
      dsimp only
      split
      · exact ih (attempt + 1) run' (hkeeps result rfl).1
      · exact hkeeps

theorem absorbed_finished {result : StepResult} (h : Finished stepId result) :
    Finished stepId result.absorbed := by
  unfold StepResult.absorbed
  split
  · exact ⟨h.1, nofun⟩
  · exact h

theorem runBranch_keeps {visit round i : Nat} {branch : BranchDef} (hid : branch.id ∈ ids) :
    Keeps (Kept ids before) (Finished branch.id) (runBranch w visit round i branch) := by
  have hran (attempt : Nat) : (if branch.type = .noop then Ran.returned .completed none .plain
      else (w.branch visit round i attempt).val).finished := by
    split
    · exact nofun
    · exact finished_of_ordinary (w.branch visit round i attempt).property
  intro run h result hresult
  have hkeeps := retried_keeps (fun attempt => executeSingleStep_keeps (hran attempt) hid)
    branch.retryCount 0 run h
  unfold runBranch at hresult ⊢
  dsimp only at hresult ⊢
  split at hresult
  · obtain ⟨result₀, hresult₀, rfl⟩ := Option.map_eq_some_iff.mp hresult
    obtain ⟨hkept, hfinished⟩ := hkeeps result₀ hresult₀
    exact ⟨hkept, absorbed_finished hfinished⟩
  · exact hkeeps result hresult

theorem runBranches_keeps {visit round : Nat} (i : Nat) {branches : List BranchDef}
    (hids : branches.map (·.id) ⊆ ids) :
    Keeps (Kept ids before)
      (List.Forall₂ (fun (branch : BranchDef) result => Finished branch.id result) branches)
      (runBranches w visit round i branches) := by
  induction branches generalizing i with
  | nil =>
    intro run h results hresults
    cases hresults
    exact ⟨h, .nil⟩
  | cons branch branches ih =>
    obtain ⟨hid, hids⟩ := List.cons_subset.mp hids
    intro run h
    have hbranch := @runBranch_keeps w _ _ visit round i _ hid run h
    rw [runBranches]
    revert hbranch
    rcases runBranch w visit round i branch run with ⟨run', _ | result⟩
    · exact fun _ => nofun
    · intro hbranch
      obtain ⟨hkept, hfinished⟩ := hbranch result rfl
      have hrest := ih (i + 1) hids run' hkept
      dsimp only
      revert hrest
      rcases runBranches w visit round (i + 1) branches run' with ⟨run'', _ | rest⟩
      · exact fun _ => nofun
      · intro hrest results hresults
        cases hresults
        obtain ⟨hkept, hall⟩ := hrest rest rfl
        exact ⟨hkept, .cons hfinished hall⟩

/-- Once the results of the branches are stored, the branches run no longer. -/
theorem foldl_persistStep_tidy {branches : List BranchDef} {more : List StepResult}
    (hresults : List.Forall₂ (fun branch result => Finished branch.id result) branches more)
    (h : run.Tidy ids) :
    (more.foldl persistStep run).Tidy (ids.filter (· ∉ branches.map (·.id))) := by
  induction hresults generalizing run ids with
  | nil => simpa using h
  | cons hresult _ ih =>
    refine (ih (persistStep_tidy h hresult.2)).mono ?_
    intro id hid
    simp only [List.mem_filter, decide_eq_true_eq, hresult.1] at hid ⊢
    simp only [List.map_cons, List.mem_cons, not_or]
    exact ⟨hid.1.1, hid.1.2, hid.2⟩

theorem foldl_persistStep_failedRow (more : List StepResult) :
    (more.foldl persistStep run).failedRow = true ↔
      run.failedRow = true ∨ ∃ result ∈ more, result.status = .failed := by
  induction more generalizing run with
  | nil => simp
  | cons result more ih =>
    rw [List.foldl_cons, ih, persistStep_failedRow, or_assoc, List.exists_mem_cons_iff]

theorem stepResults_foldl_persistStep (more : List StepResult) :
    (more.foldl persistStep run).stepResults = run.stepResults := by
  induction more generalizing run with
  | nil => rfl
  | cons result more ih => rw [List.foldl_cons, ih]; rfl

theorem failed_of_absorbed {result : StepResult} (h : result.absorbed.status = .failed) :
    result.status = .failed := by
  unfold StepResult.absorbed at h
  split at h
  · cases h
  · exact h

/-- Results are kept as they are stored, or with their failures absorbed. -/
theorem stored_append {more kept : List StepResult} (h : run.Stored)
    (hmore : (∃ result ∈ more, result.status = .failed) → run.failedRow = true)
    (hkept : kept = more ∨ kept = more.map (·.absorbed)) :
    { run with stepResults := run.stepResults ++ kept }.Stored := by
  intro hfailed
  obtain ⟨r, hr, hstatus⟩ := failedResult_iff.mp hfailed
  rcases List.mem_append.mp hr with hr | hr
  · exact h (failedResult_iff.mpr ⟨r, hr, hstatus⟩)
  · rcases hkept with rfl | rfl
    · exact hmore ⟨r, hr, hstatus⟩
    · obtain ⟨r₀, hr₀, rfl⟩ := List.mem_map.mp hr
      exact hmore ⟨r₀, hr₀, failed_of_absorbed hstatus⟩

theorem executeParallel_keeps {visit round : Nat} :
    Keeps (Kept [step.id] before) (Finished step.id) (executeParallel w visit step round) := by
  intro run h
  have hbranches := @runBranches_keeps w _ _ visit round 0
    step.parallelSteps (List.subset_append_right [step.id] _) run
    (h.mono (List.subset_append_left _ _))
  unfold executeParallel
  revert hbranches
  rcases runBranches w visit round 0 step.parallelSteps run with ⟨run', _ | more⟩
  · exact fun _ => nofun
  · intro hbranches result hresult
    obtain ⟨hkept, hall⟩ := hbranches more rfl
    have hrows := @foldl_persistStep_failedRow run' more
    cases hresult
    refine ⟨⟨?_, ?_, fun hb => hrows.mpr (.inl (hkept.failed hb))⟩, rfl, ?_⟩
    · refine Tidy.mono (foldl_persistStep_tidy hall hkept.tidy) fun id hid => ?_
      simp only [List.mem_filter, List.mem_append, decide_eq_true_eq] at hid
      exact hid.1.resolve_right hid.2
    · refine @stored_append _ more _ ?_ (fun hfailed => hrows.mpr (.inr hfailed)) ?_
      · intro hfailed
        unfold failedResult at hfailed
        rw [stepResults_foldl_persistStep] at hfailed
        exact hrows.mpr (.inl (hkept.stored hfailed))
      · split
        · exact .inr rfl
        · exact .inl rfl
    · dsimp only
      split <;> nofun

theorem actOnDecision_finished (decision : ApprovalDecision) :
    (actOnDecision step decision).finished := by
  unfold actOnDecision
  cases decision with
  | approved => exact nofun
  | rejected =>
    dsimp only
    split <;> exact nofun
  | expired =>
    dsimp only
    split
    · exact nofun
    · split
      · split <;> exact nofun
      · exact nofun

theorem runApprovalStep_finished {visit sitting attempt : Nat} :
    (runApprovalStep w visit sitting step attempt).finished := by
  unfold runApprovalStep
  split
  · split
    · trivial
    · exact nofun
  · split
    · trivial
    · trivial
    · exact actOnDecision_finished _

theorem executeStep_keeps {visit sitting attempt : Nat} :
    Keeps (Kept [step.id] before) (Finished step.id)
      (executeStep w visit sitting step attempt) := by
  unfold executeStep
  have hid : step.id ∈ [step.id] := List.mem_singleton_self _
  split
  · exact executeParallel_keeps
  · exact executeSingleStep_keeps runApprovalStep_finished hid
  · exact executeSingleStep_keeps nofun hid
  all_goals exact executeSingleStep_keeps (finished_of_ordinary (w.run visit attempt).property) hid

/-- A step that is visited and stored leaves a tidy run. -/
theorem visit_kept {visit sitting : Nat} {run' : WorkflowRun} {result kept : StepResult}
    (h : Kept [] before run)
    (hvisit : retried (executeStep w visit sitting step) step.retryCount 0 run =
      (run', some result)) (hkept : kept = result ∨ kept = result.absorbed) :
    Kept [] before { run'.persistStep result with stepResults := run'.stepResults ++ [kept] } := by
  have hkeeps := retried_keeps (fun _ => executeStep_keeps) step.retryCount 0 run
    (h.mono (List.nil_subset [step.id])) result (by rw [hvisit]; rfl)
  rw [hvisit] at hkeeps
  obtain ⟨hrun, hid, hstatus⟩ := hkeeps
  refine ⟨?_, ?_, fun hb => persistStep_failedRow.mpr (.inl (hrun.failed hb))⟩
  · have htidy := persistStep_tidy hrun.tidy hstatus
    rwa [hid, show [step.id].filter (· ≠ step.id) = [] by simp] at htidy
  · refine @stored_append (run'.persistStep result) [result] _
      (fun hfailed => persistStep_failedRow.mpr (.inl (hrun.stored hfailed)))
      (fun hfailed => persistStep_failedRow.mpr (.inr ?_)) ?_
    · obtain ⟨r, hr, hfailed⟩ := hfailed
      rwa [← List.mem_singleton.mp hr]
    · rcases hkept with rfl | rfl
      · exact .inl rfl
      · exact .inr rfl

end GenusOs.Engine.Workflow
