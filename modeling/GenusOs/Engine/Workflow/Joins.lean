import GenusOs.Engine.Workflow.StepRows
import Mathlib

/-!
# The join of a parallel step

A parallel step is joined by counting the branches that failed. A branch that the deadline of the
workflow stops has not failed: the join does not count it, nor does the finalizer of the run.

* `runBranches_results`: the results of the branches, from their outcomes alone.
* `joinHonest_iff`: when a join that completes has only branches that completed or were skipped.
* `completed_joins_honest_iff`: with this, what a completed run has no branch of.
-/

namespace GenusOs.Engine.Workflow

open GenusOs.Stutter

variable {wf : WorkflowDef} {w : World} {step : WorkflowStepDef} {branch : BranchDef}
  {branches : List BranchDef} {run run' : WorkflowRun} {result : StepResult} {ran : Ran}
  {stepId : String} {results more : List StepResult} {visit round i : Nat}

/-! ## The outcome that counts -/

/-- The step's result has the status FAILED. -/
def Ran.fails : Ran → Bool
  | .returned status _ _ => status = .failed
  | .raised => true
  | _ => false

/-- The result of a step, none where the timeout cuts it off. -/
def Ran.toResult (stepId : String) : Ran → Option StepResult
  | .returned status conditionBranch toolOutput =>
    some { stepId, status, conditionBranch, toolOutput }
  | .raised => some { stepId, status := .failed }
  | .deadline => some { stepId, status := .timeout }
  | .interrupted => none

/-- The first outcome that is no failure, or that of the last attempt. -/
def lastRan (ran : Nat → Ran) : Nat → Nat → Ran
  | 0, attempt => ran attempt
  | more + 1, attempt =>
    if (ran attempt).fails then lastRan ran more (attempt + 1) else ran attempt

/-- What the `i`-th branch of a parallel step comes to. -/
def branchRan (w : World) (visit round i : Nat) (branch : BranchDef) : Ran :=
  lastRan (fun attempt =>
    if branch.type = .noop then .returned .completed none .plain
    else (w.branch visit round i attempt).val) branch.retryCount 0

/-- Its result. -/
def branchResult (w : World) (visit round i : Nat) (branch : BranchDef) : Option StepResult :=
  let result := (branchRan w visit round i branch).toResult branch.id
  if branch.onFailure = "skip" then result.map (·.absorbed) else result

theorem executeSingleStep_snd : (executeSingleStep stepId ran run).2 = ran.toResult stepId := by
  cases ran <;> rfl

theorem result_failed_iff (h : ran.toResult stepId = some result) :
    result.status = .failed ↔ ran.fails = true := by
  cases ran with
  | returned status =>
    cases h
    exact decide_eq_true_iff.symm
  | raised =>
    cases h
    exact iff_of_true rfl rfl
  | deadline =>
    cases h
    exact iff_of_false nofun nofun
  | interrupted => cases h

theorem result_timeout_iff (hran : ran.ordinary = true) (h : ran.toResult stepId = some result) :
    result.status = .timeout ↔ ran = .deadline := by
  cases ran with
  | returned status =>
    cases h
    refine iff_of_false (fun htimeout => ?_) nofun
    rw [show status = .timeout from htimeout] at hran
    cases hran
  | raised =>
    cases h
    exact iff_of_false nofun nofun
  | deadline =>
    cases h
    exact iff_of_true rfl rfl
  | interrupted => cases h

theorem retried_snd {ran : Nat → Ran} (more attempt : Nat) (run : WorkflowRun) :
    (retried (fun attempt => executeSingleStep stepId (ran attempt)) more attempt run).2 =
      (lastRan ran more attempt).toResult stepId := by
  induction more generalizing attempt run with
  | zero => exact executeSingleStep_snd
  | succ more ih =>
    unfold retried lastRan
    have hsnd : (executeSingleStep stepId (ran attempt) run).2 = (ran attempt).toResult stepId :=
      executeSingleStep_snd
    revert hsnd
    rcases executeSingleStep stepId (ran attempt) run with ⟨run', _ | result⟩
    · intro hnone
      have hcut : (ran attempt).fails = false := by
        cases hran : ran attempt with
        | interrupted => rfl
        | _ =>
          rw [hran] at hnone
          cases hnone
      rw [hcut]
      exact hnone
    · intro hsome
      have hfailed := result_failed_iff hsome.symm
      dsimp only
      by_cases hstatus : result.status = .failed
      · rw [if_pos hstatus, if_pos (hfailed.mp hstatus)]
        exact ih (attempt + 1) run'
      · rw [if_neg hstatus, if_neg (mt hfailed.mpr hstatus)]
        exact hsome

theorem runBranch_snd : (runBranch w visit round i branch run).2 =
    branchResult w visit round i branch := by
  unfold runBranch branchResult branchRan
  dsimp only
  rw [← retried_snd _ _ run]

/-- **The results of the branches**, each from its own outcomes. -/
theorem runBranches_results (h : (runBranches w visit round i branches run).2 = some results) :
    branches.mapIdx (fun j branch => branchResult w visit round (i + j) branch) =
      results.map some := by
  induction branches generalizing i run results with
  | nil =>
    cases h
    rfl
  | cons branch branches ih =>
    rw [runBranches] at h
    have hfirst := @runBranch_snd w branch run visit round i
    revert h hfirst
    rcases runBranch w visit round i branch run with ⟨run', _ | result⟩
    · intro hcut
      cases hcut
    · dsimp only
      intro h hfirst
      have hrest := fun results => @ih run' results (i + 1)
      revert h hrest
      rcases runBranches w visit round (i + 1) branches run' with ⟨run'', _ | results'⟩
      · intro hcut
        cases hcut
      · intro h hrest
        cases h
        rw [List.mapIdx_cons, List.map_cons, Nat.add_zero, ← hfirst, ← hrest _ rfl]
        simp only [Nat.add_assoc, Nat.add_comm 1]

theorem branchResult_none (h : branchResult w visit round i branch = none) :
    branchRan w visit round i branch = .interrupted := by
  unfold branchResult at h
  dsimp only at h
  cases hran : branchRan w visit round i branch with
  | interrupted => rfl
  | _ =>
    rw [hran] at h
    split at h <;> cases h

/-- Without results, a branch was cut off. -/
theorem runBranches_cut (h : (runBranches w visit round i branches run).2 = none) :
    ∃ j branch, branches[j]? = some branch ∧
      branchRan w visit round (i + j) branch = .interrupted := by
  induction branches generalizing i run with
  | nil => cases h
  | cons branch branches ih =>
    rw [runBranches] at h
    have hfirst := @runBranch_snd w branch run visit round i
    revert h hfirst
    rcases runBranch w visit round i branch run with ⟨run', _ | result⟩
    · exact fun _ hfirst => ⟨0, branch, rfl, branchResult_none hfirst.symm⟩
    · dsimp only
      intro h _
      have hrest := @ih run' (i + 1)
      revert h hrest
      rcases runBranches w visit round (i + 1) branches run' with ⟨run'', _ | results'⟩
      · intro _ hrest
        obtain ⟨j, b, hb, hran⟩ := hrest rfl
        refine ⟨j + 1, b, hb, ?_⟩
        rw [← hran, Nat.add_assoc, Nat.add_comm 1]
      · intro hresults
        cases hresults

theorem retried_preserves {P : WorkflowRun → Prop}
    {once : Nat → WorkflowRun → WorkflowRun × Option StepResult}
    (honce : ∀ attempt run, P run → P (once attempt run).1) (more attempt : Nat) (h : P run) :
    P (retried once more attempt run).1 := by
  induction more generalizing attempt run with
  | zero => exact honce attempt run h
  | succ more ih =>
    have hfirst := honce attempt run h
    rw [retried]
    revert hfirst
    rcases once attempt run with ⟨run', _ | result⟩
    · exact fun hfirst => hfirst
    · intro hfirst
      dsimp only
      split
      · exact ih _ hfirst
      · exact hfirst

/-- What dispatching one step keeps, the branches keep. -/
theorem runBranches_preserves {P : WorkflowRun → Prop}
    (hsingle : ∀ stepId ran run, P run → P (executeSingleStep stepId ran run).1) (h : P run) :
    P (runBranches w visit round i branches run).1 := by
  induction branches generalizing i run with
  | nil => exact h
  | cons branch branches ih =>
    have hfirst : P (runBranch w visit round i branch run).1 :=
      retried_preserves (fun attempt => hsingle branch.id _) branch.retryCount 0 h
    rw [runBranches]
    revert hfirst
    rcases runBranch w visit round i branch run with ⟨run', _ | result⟩
    · exact fun hfirst => hfirst
    · intro hfirst
      have hrest := @ih run' (i + 1) hfirst
      dsimp only
      revert hrest
      rcases runBranches w visit round (i + 1) branches run' with ⟨run'', _ | results'⟩
      · exact fun hrest => hrest
      · exact fun hrest => hrest

theorem executeSingleStep_stepResults (stepId : String) (ran : Ran) (run : WorkflowRun) :
    (executeSingleStep stepId ran run).1.stepResults = run.stepResults := by
  rw [executeSingleStep_fst]
  unfold WorkflowRun.persistStepStart
  dsimp only
  split <;> exact WorkflowRun.stepResults_dispatch

/-- A branch stores no result. -/
theorem runBranches_stepResults :
    (runBranches w visit round i branches run).1.stepResults = run.stepResults :=
  runBranches_preserves (P := fun run' => run'.stepResults = run.stepResults)
    (fun stepId ran run' h => (executeSingleStep_stepResults stepId ran run').trans h) rfl

/-! ## The join -/

/-- A branch of the step comes to something of that kind. -/
def SomeBranch (w : World) (visit round : Nat) (step : WorkflowStepDef)
    (P : BranchDef → Ran → Prop) : Prop :=
  ∃ i branch, step.parallelSteps[i]? = some branch ∧ P branch (branchRan w visit round i branch)

/-- The deadline of the workflow stops a branch. -/
def StoppedByDeadline (w : World) (visit round : Nat) (step : WorkflowStepDef) : Prop :=
  SomeBranch w visit round step fun _ ran => ran = .deadline

/-- The timeout of the workflow cuts a branch off, and the join with it. -/
def CutOff (w : World) (visit round : Nat) (step : WorkflowStepDef) : Prop :=
  SomeBranch w visit round step fun _ ran => ran = .interrupted

/-- A branch fails for good: in its last attempt, and nothing of its own absorbs it. -/
def FailsForGood (w : World) (visit round : Nat) (step : WorkflowStepDef) : Prop :=
  SomeBranch w visit round step fun branch ran => ran.fails = true ∧ branch.onFailure ≠ "skip"

/-- The results of the branches, which the run has behind its earlier ones. -/
def branchResults (run run' : WorkflowRun) : List StepResult :=
  run'.stepResults.drop run.stepResults.length

/-- Where the parallel step completes, every branch has completed or was skipped. -/
def JoinHonest (w : World) (visit round : Nat) (step : WorkflowStepDef) : Prop :=
  ∀ run run' result, executeParallel w visit step round run = (run', some result) →
    result.status = .completed →
      ∀ r ∈ branchResults run run', r.status = .completed ∨ r.status = .skipped

theorem branchRan_ordinary : (branchRan w visit round i branch).ordinary = true := by
  have hlast : ∀ (ran : Nat → Ran), (∀ a, (ran a).ordinary = true) →
      ∀ more attempt, (lastRan ran more attempt).ordinary = true := by
    intro ran hran more
    induction more with
    | zero => exact hran
    | succ more ih =>
      intro attempt
      rw [lastRan]
      split
      · exact ih _
      · exact hran _
  refine hlast _ (fun attempt => ?_) _ _
  split
  · rfl
  · exact (w.branch visit round i attempt).property

/-- A result among those of the branches is one branch's, and each branch has one. -/
theorem mem_results_iff (h : step.parallelSteps.mapIdx (fun j branch =>
      branchResult w visit round (0 + j) branch) = results.map some) {r : StepResult} :
    r ∈ results ↔ ∃ i branch, step.parallelSteps[i]? = some branch ∧
      branchResult w visit round i branch = some r := by
  have hmem : r ∈ results ↔ some r ∈ results.map some := by simp
  rw [hmem, ← h, List.mem_iff_getElem?]
  simp only [List.getElem?_mapIdx, Nat.zero_add, Option.map_eq_some_iff]

theorem branchResult_cases {r : StepResult} (h : branchResult w visit round i branch = some r) :
    (r.status = .timeout ↔ branchRan w visit round i branch = .deadline) ∧
    (r.status = .failed ↔
      (branchRan w visit round i branch).fails = true ∧ branch.onFailure ≠ "skip") ∧
    (r.status = .completed ∨ r.status = .skipped ∨ r.status = .failed ∨ r.status = .timeout) := by
  have hordinary := @branchRan_ordinary w branch visit round i
  unfold branchResult at h
  dsimp only at h
  generalize branchRan w visit round i branch = ran at h hordinary ⊢
  have hcases : ∀ r₀, ran.toResult branch.id = some r₀ → r₀.status = .completed ∨
      r₀.status = .skipped ∨ r₀.status = .failed ∨ r₀.status = .timeout := by
    intro r₀ h₀
    cases ran with
    | returned status =>
      cases h₀
      have hstatus : status = .completed ∨ status = .failed ∨ status = .skipped := by
        simpa [Ran.ordinary, or_assoc] using hordinary
      rcases hstatus with rfl | rfl | rfl
      · exact .inl rfl
      · exact .inr (.inr (.inl rfl))
      · exact .inr (.inl rfl)
    | raised =>
      cases h₀
      exact .inr (.inr (.inl rfl))
    | deadline =>
      cases h₀
      exact .inr (.inr (.inr rfl))
    | interrupted => cases h₀
  split at h
  · next hskip =>
    obtain ⟨r₀, h₀, rfl⟩ := Option.map_eq_some_iff.mp h
    have htimeout := result_timeout_iff hordinary h₀
    have hall := hcases r₀ h₀
    unfold StepResult.absorbed
    split
    · next hfailed =>
      rw [hfailed] at htimeout
      refine ⟨iff_of_false nofun fun hran => ?_, iff_of_false nofun fun h => h.2 hskip,
        .inr (.inl rfl)⟩
      cases htimeout.mpr hran
    · next hnot =>
      exact ⟨htimeout, iff_of_false hnot fun h => h.2 hskip, hall⟩
  · next hskip =>
    refine ⟨result_timeout_iff hordinary h, ?_, hcases r h⟩
    rw [result_failed_iff h]
    exact (and_iff_left hskip).symm

/-- Where the branches have results, no branch is cut off. -/
theorem exists_branchResult (h : step.parallelSteps.mapIdx (fun j branch =>
      branchResult w visit round (0 + j) branch) = results.map some)
    (hbranch : step.parallelSteps[i]? = some branch) :
    ∃ r, branchResult w visit round i branch = some r := by
  have hget := congrArg (·[i]?) h
  simp only [List.getElem?_mapIdx, List.getElem?_map,
    hbranch, Option.map_some, Nat.zero_add] at hget
  obtain ⟨r, -, hr⟩ := Option.map_eq_some_iff.mp hget.symm
  exact ⟨r, hr.symm⟩

theorem failed_result_iff (h : step.parallelSteps.mapIdx (fun j branch =>
      branchResult w visit round (0 + j) branch) = results.map some) :
    (∃ r ∈ results, r.status = .failed) ↔ FailsForGood w visit round step := by
  constructor
  · rintro ⟨r, hr, hfailed⟩
    obtain ⟨i, branch, hbranch, hresult⟩ := (mem_results_iff h).mp hr
    exact ⟨i, branch, hbranch, (branchResult_cases hresult).2.1.mp hfailed⟩
  · rintro ⟨i, branch, hbranch, hfails⟩
    obtain ⟨r, hresult⟩ := exists_branchResult h hbranch
    exact ⟨r, (mem_results_iff h).mpr ⟨i, branch, hbranch, hresult⟩,
      (branchResult_cases hresult).2.1.mpr hfails⟩

theorem timeout_result_iff (h : step.parallelSteps.mapIdx (fun j branch =>
      branchResult w visit round (0 + j) branch) = results.map some) :
    (∃ r ∈ results, r.status = .timeout) ↔ StoppedByDeadline w visit round step := by
  constructor
  · rintro ⟨r, hr, htimeout⟩
    obtain ⟨i, branch, hbranch, hresult⟩ := (mem_results_iff h).mp hr
    exact ⟨i, branch, hbranch, (branchResult_cases hresult).1.mp htimeout⟩
  · rintro ⟨i, branch, hbranch, hdeadline⟩
    obtain ⟨r, hresult⟩ := exists_branchResult h hbranch
    exact ⟨r, (mem_results_iff h).mpr ⟨i, branch, hbranch, hresult⟩,
      (branchResult_cases hresult).1.mpr hdeadline⟩

theorem not_cutOff (h : step.parallelSteps.mapIdx (fun j branch =>
      branchResult w visit round (0 + j) branch) = results.map some) :
    ¬ CutOff w visit round step := by
  rintro ⟨i, branch, hbranch, hran⟩
  obtain ⟨r, hresult⟩ := exists_branchResult h hbranch
  unfold branchResult at hresult
  rw [hran] at hresult
  dsimp only [Ran.toResult] at hresult
  split at hresult <;> cases hresult

theorem absorbed_eq_self (h : result.status ≠ .failed) : result.absorbed = result := by
  unfold StepResult.absorbed
  rw [if_neg h]

/-- What the branches leave is joined, or one is cut off and there is no join. -/
theorem executeParallel_cases (w : World) (visit round : Nat) (step : WorkflowStepDef)
    (run : WorkflowRun) :
    (CutOff w visit round step ∧ (executeParallel w visit step round run).2 = none) ∨
    ∃ run' results,
      (runBranches w visit round 0 step.parallelSteps run) = (run', some results) ∧
      step.parallelSteps.mapIdx (fun j branch => branchResult w visit round (0 + j) branch) =
        results.map some ∧
      executeParallel w visit step round run =
        ({ results.foldl WorkflowRun.persistStep run' with
            stepResults := run'.stepResults ++
              if step.onFailure = "skip" then results.map (·.absorbed) else results },
          some
            { stepId := step.id
              status := if results.any (·.status = .failed) then .failed else .completed }) := by
  have hcut := @runBranches_cut w step.parallelSteps run visit round 0
  have hresults := @runBranches_results w step.parallelSteps run
  have hresults := fun results => @hresults results visit round 0
  unfold executeParallel
  revert hcut hresults
  rcases runBranches w visit round 0 step.parallelSteps run with ⟨run', _ | results⟩
  · intro hcut _
    obtain ⟨j, branch, hbranch, hran⟩ := hcut rfl
    rw [Nat.zero_add] at hran
    exact .inl ⟨⟨j, branch, hbranch, hran⟩, rfl⟩
  · intro _ hresults
    refine .inr ⟨run', results, rfl, hresults results rfl, ?_⟩
    dsimp only
    rw [stepResults_foldl_persistStep]

/-- **The join is honest**, exactly where a branch that the deadline stops comes with one that fails
for good, or the join is not reached. -/
theorem joinHonest_iff : JoinHonest w visit round step ↔
    (StoppedByDeadline w visit round step → ¬ CutOff w visit round step →
      FailsForGood w visit round step) := by
  constructor
  · intro hhonest hdeadline hcut
    by_contra hnone
    rcases executeParallel_cases w visit round step {} with ⟨h, -⟩
      | ⟨run', results, hrun, hresults, h⟩
    · exact hcut h
    have hfailed : results.any (·.status = .failed) = false := by
      rw [Bool.eq_false_iff]
      intro hany
      obtain ⟨r, hr, hstatus⟩ := List.any_eq_true.mp hany
      exact hnone ((failed_result_iff hresults).mp ⟨r, hr, of_decide_eq_true hstatus⟩)
    obtain ⟨r, hr, htimeout⟩ := (timeout_result_iff hresults).mpr hdeadline
    have habsorbed : r.absorbed = r := absorbed_eq_self (by rw [htimeout]; nofun)
    have hstored : run'.stepResults = [] := by
      have := @runBranches_stepResults w step.parallelSteps {} visit round 0
      rwa [hrun] at this
    have hall := hhonest _ _ _ h (by rw [hfailed]; rfl) r ?_
    · rw [htimeout] at hall
      rcases hall with h | h <;> cases h
    · unfold branchResults
      dsimp only
      rw [hstored, List.nil_append, List.length_nil, List.drop_zero]
      split
      · exact List.mem_map.mpr ⟨r, hr, habsorbed⟩
      · exact hr
  · intro hcounted run run' result hjoin hcompleted r hr
    rcases executeParallel_cases w visit round step run with
      ⟨-, h⟩ | ⟨run₁, results, hrun, hresults, h⟩
    · rw [hjoin] at h
      cases h
    rw [hjoin] at h
    cases h
    have hnone : ¬ FailsForGood w visit round step := by
      intro hfails
      obtain ⟨r, hr, hfailed⟩ := (failed_result_iff hresults).mpr hfails
      rw [show results.any (·.status = .failed) = true from
        List.any_eq_true.mpr ⟨r, hr, decide_eq_true hfailed⟩] at hcompleted
      cases hcompleted
    have hcut := not_cutOff hresults
    have hstored : run₁.stepResults = run.stepResults := by
      have := @runBranches_stepResults w step.parallelSteps run visit round 0
      rwa [hrun] at this
    have hr₀ : ∃ r₀ ∈ results, r₀.absorbed = r ∨ r₀ = r := by
      unfold branchResults at hr
      dsimp only at hr
      rw [hstored, List.drop_left] at hr
      split at hr
      · obtain ⟨r₀, hr₀, heq⟩ := List.mem_map.mp hr
        exact ⟨r₀, hr₀, .inl heq⟩
      · exact ⟨r, hr, .inr rfl⟩
    obtain ⟨r₀, hr₀, heq⟩ := hr₀
    obtain ⟨i, branch, hbranch, hresult⟩ := (mem_results_iff hresults).mp hr₀
    have hstatus : r₀.status = .completed ∨ r₀.status = .skipped := by
      rcases (branchResult_cases hresult).2.2 with h | h | h | h
      · exact .inl h
      · exact .inr h
      · exact absurd ((failed_result_iff hresults).mp ⟨r₀, hr₀, h⟩) hnone
      · exact absurd (hcounted ((timeout_result_iff hresults).mp ⟨r₀, hr₀, h⟩) hcut) hnone
    have habsorbed : r₀.absorbed = r₀ := by
      refine absorbed_eq_self fun hfailed => ?_
      rw [hfailed] at hstatus
      rcases hstatus with h | h <;> cases h
    rw [habsorbed, or_self] at heq
    rw [← heq]
    exact hstatus

/-! ## The run -/

/-- A branch that the deadline stops comes with one that fails for good, and nothing skips the
step. -/
def DeadlineCounted (w : World) (visit round : Nat) (step : WorkflowStepDef) : Prop :=
  StoppedByDeadline w visit round step → ¬ CutOff w visit round step →
    FailsForGood w visit round step ∧ step.onFailure ≠ "skip"

/-- So it is in each attempt that the run makes at a parallel step. -/
def AttemptsCounted (w : World) (visit : Nat) (step : WorkflowStepDef) : Prop :=
  step.type = .parallel → ∀ round ≤ step.retryCount,
    (∀ j < round, FailsForGood w visit j step) → DeadlineCounted w visit round step

/-- What timed out comes with a failure, in memory and in the rows. -/
structure TimeoutsCounted (run : WorkflowRun) : Prop where
  results : (∃ r ∈ run.stepResults, r.status = .timeout) → run.failedResult = true
  rows : (∃ r ∈ run.rows, r.status = .timeout) → run.failedRow = true

theorem persistStep_timeout (h : ∃ r ∈ (run.persistStep result).rows, r.status = .timeout) :
    (∃ r ∈ run.rows, r.status = .timeout) ∨ result.status = .timeout := by
  obtain ⟨r, hr, htimeout⟩ := h
  unfold WorkflowRun.persistStep at hr
  dsimp only at hr
  split at hr
  · obtain ⟨r₀, hr₀, rfl⟩ := List.mem_map.mp hr
    split at htimeout
    · exact .inr htimeout
    · rw [if_neg ‹_›] at hr
      exact .inl ⟨r₀, hr₀, htimeout⟩
  · rcases List.mem_append.mp hr with hr | hr
    · exact .inl ⟨r, hr, htimeout⟩
    · rw [List.mem_singleton.mp hr] at htimeout
      exact .inr htimeout

theorem foldl_persistStep_timeout
    (h : ∃ r ∈ (more.foldl WorkflowRun.persistStep run).rows, r.status = .timeout) :
    (∃ r ∈ run.rows, r.status = .timeout) ∨ ∃ result ∈ more, result.status = .timeout := by
  induction more generalizing run with
  | nil => exact .inl h
  | cons result more ih =>
    rcases ih h with h | ⟨r, hr, htimeout⟩
    · rcases persistStep_timeout h with h | htimeout
      · exact .inl h
      · exact .inr ⟨result, List.mem_cons_self, htimeout⟩
    · exact .inr ⟨r, List.mem_cons_of_mem _ hr, htimeout⟩

theorem executeSingleStep_counted (stepId : String) (ran : Ran) (run : WorkflowRun)
    (h : TimeoutsCounted run) : TimeoutsCounted (executeSingleStep stepId ran run).1 where
  results := by
    unfold WorkflowRun.failedResult
    rw [executeSingleStep_stepResults]
    exact h.results
  rows := by
    rw [executeSingleStep_fst]
    rintro ⟨r, hr, htimeout⟩
    apply persistStepStart_failedRow
    unfold WorkflowRun.failedRow
    rw [WorkflowRun.rows_dispatch]
    refine h.rows ?_
    unfold WorkflowRun.persistStepStart at hr
    rcases List.mem_append.mp hr with hr | hr
    · split at hr
      · obtain ⟨r₀, hr₀, rfl⟩ := List.mem_map.mp hr
        split at htimeout
        · cases htimeout
        · rw [WorkflowRun.rows_dispatch] at hr₀
          exact ⟨r₀, hr₀, htimeout⟩
      · rw [WorkflowRun.rows_dispatch] at hr
        exact ⟨r, hr, htimeout⟩
    · rw [List.mem_singleton.mp hr] at htimeout
      cases htimeout

theorem executeParallel_counted (h : TimeoutsCounted run)
    (hcounted : DeadlineCounted w visit round step)
    (hjoin : executeParallel w visit step round run = (run', some result)) :
    TimeoutsCounted run' ∧ (result.status = .failed → FailsForGood w visit round step) := by
  rcases executeParallel_cases w visit round step run with
    ⟨-, h⟩ | ⟨run₁, results, hrun, hresults, heq⟩
  · rw [hjoin] at h
    cases h
  rw [hjoin] at heq
  cases heq
  have hfails := failed_result_iff hresults
  have hbranches : TimeoutsCounted run₁ := by
    have := @runBranches_preserves w step.parallelSteps run visit round 0 TimeoutsCounted
      executeSingleStep_counted h
    rwa [hrun] at this
  refine ⟨⟨?_, ?_⟩, fun hfailed => ?_⟩
  · rintro ⟨r, hr, htimeout⟩
    rw [WorkflowRun.failedResult_iff]
    rcases List.mem_append.mp hr with hr | hr
    · obtain ⟨r', hr', hfailed⟩ :=
        WorkflowRun.failedResult_iff.mp (hbranches.results ⟨r, hr, htimeout⟩)
      exact ⟨r', List.mem_append_left _ hr', hfailed⟩
    · have hr₀ : ∃ r₀ ∈ results, r₀.status = .timeout := by
        split at hr
        · obtain ⟨r₀, hr₀, rfl⟩ := List.mem_map.mp hr
          refine ⟨r₀, hr₀, ?_⟩
          unfold StepResult.absorbed at htimeout
          split at htimeout
          · cases htimeout
          · exact htimeout
        · exact ⟨r, hr, htimeout⟩
      obtain ⟨hfail, hskip⟩ :=
        hcounted ((timeout_result_iff hresults).mp hr₀) (not_cutOff hresults)
      obtain ⟨r', hr', hfailed⟩ := hfails.mpr hfail
      rw [if_neg hskip]
      exact ⟨r', List.mem_append_right _ hr', hfailed⟩
  · intro htimeout
    refine (@foldl_persistStep_failedRow run₁ results).mpr ?_
    rcases foldl_persistStep_timeout htimeout with hrow | hresult
    · exact .inl (hbranches.rows hrow)
    · exact .inr (hfails.mpr
        (hcounted ((timeout_result_iff hresults).mp hresult) (not_cutOff hresults)).1)
  · refine hfails.mp ?_
    by_contra hnone
    have hany : results.any (·.status = .failed) = false := by
      rw [Bool.eq_false_iff]
      intro hany
      obtain ⟨r, hr, hstatus⟩ := List.any_eq_true.mp hany
      exact hnone ⟨r, hr, of_decide_eq_true hstatus⟩
    rw [hany] at hfailed
    cases hfailed

theorem executeStep_counted {sitting attempt : Nat} (h : TimeoutsCounted run)
    (hcounted : step.type = .parallel → DeadlineCounted w visit attempt step)
    (hstep : executeStep w visit sitting step attempt run = (run', some result)) :
    TimeoutsCounted run' ∧
      (step.type = .parallel → result.status = .failed → FailsForGood w visit attempt step) := by
  have hsingle (ran : Ran) (hne : step.type ≠ .parallel)
      (heq : executeSingleStep step.id ran run = (run', some result)) :
      TimeoutsCounted run' ∧
        (step.type = .parallel → result.status = .failed → FailsForGood w visit attempt step) := by
    have hkept := executeSingleStep_counted step.id ran run h
    rw [heq] at hkept
    exact ⟨hkept, fun htype => absurd htype hne⟩
  unfold executeStep at hstep
  cases htype : step.type with
  | parallel =>
    rw [htype] at hstep
    obtain ⟨hkept, hfails⟩ := executeParallel_counted h (hcounted htype) hstep
    exact ⟨hkept, fun _ => hfails⟩
  | _ =>
    rw [htype] at hstep
    rw [htype] at hsingle
    exact hsingle _ nofun hstep

theorem retried_counted {sitting : Nat} (hmeets : AttemptsCounted w visit step) (more attempt : Nat)
    (hlast : attempt + more ≤ step.retryCount) (h : TimeoutsCounted run)
    (hbefore : step.type = .parallel → ∀ j < attempt, FailsForGood w visit j step)
    (hstep : retried (executeStep w visit sitting step) more attempt run = (run', some result)) :
    TimeoutsCounted run' := by
  have hcounted : step.type = .parallel → DeadlineCounted w visit attempt step :=
    fun htype => hmeets htype attempt (by omega) (hbefore htype)
  induction more generalizing attempt run with
  | zero => exact (executeStep_counted h hcounted hstep).1
  | succ more ih =>
    rw [retried] at hstep
    cases hfirst : executeStep w visit sitting step attempt run with
    | mk run₁ result₁ =>
      rw [hfirst] at hstep
      cases result₁ with
      | none => cases hstep
      | some result₁ =>
        obtain ⟨hkept, hfails⟩ := executeStep_counted h hcounted hfirst
        dsimp only at hstep
        split at hstep
        · next hfailed =>
          have hbefore' : step.type = .parallel →
              ∀ j < attempt + 1, FailsForGood w visit j step := by
            intro htype j hj
            rcases Nat.lt_succ_iff_lt_or_eq.mp hj with hj | rfl
            · exact hbefore htype j hj
            · exact hfails htype hfailed
          exact ih (attempt + 1) (by omega) hkept hbefore' hstep
            fun htype => hmeets htype _ (by omega) (hbefore' htype)
        · cases hstep
          exact hkept

/-- The run comes to visit a step in this state. -/
def Reaches (wf : WorkflowDef) (w : World) (e : Execution) : Prop :=
  Relation.ReflTransGen (fun e e' => turn wf w e = .next e') {} e

theorem afterStep_counted {e e' : Execution} (h : TimeoutsCounted e.run)
    (hnext : afterStep wf step result { e with run := e.run.persistStep result } = .next e') :
    TimeoutsCounted e'.run := by
  have hrows (hne : result.status ≠ .timeout)
      (htimeout : ∃ r ∈ (e.run.persistStep result).rows, r.status = .timeout) :
      (e.run.persistStep result).failedRow = true := by
    rcases persistStep_timeout htimeout with hrow | hresult
    · exact persistStep_failedRow.mpr (.inl (h.rows hrow))
    · exact absurd hresult hne
  unfold afterStep at hnext
  dsimp only at hnext
  split at hnext
  · next hwaiting =>
    have hne : result.status ≠ .timeout := by
      rw [hwaiting]
      nofun
    unfold resumeRun at hnext
    split at hnext
    · cases hnext
    · split at hnext
      · cases hnext
      · cases hnext
        refine ⟨?_, fun htimeout => hrows hne htimeout⟩
        rintro ⟨r, hr, htimeout⟩
        obtain ⟨r₀, hr₀, rfl⟩ := List.mem_map.mp hr
        exact WorkflowRun.failedResult_loadSuspendedRun.trans (hrows hne ⟨r₀, hr₀, htimeout⟩)
  · split at hnext
    · cases hnext
    · cases hnext
    · split at hnext
      · cases hnext
      · next hne =>
        split at hnext
        · cases hnext
        · cases hnext
          refine ⟨?_, fun htimeout => hrows hne htimeout⟩
          rintro ⟨r, hr, htimeout⟩
          rw [WorkflowRun.failedResult_iff]
          rcases List.mem_append.mp hr with hr | hr
          · obtain ⟨r', hr', hfailed⟩ :=
              WorkflowRun.failedResult_iff.mp (h.results ⟨r, hr, htimeout⟩)
            exact ⟨r', List.mem_append_left _ hr', hfailed⟩
          · rw [List.mem_singleton] at hr
            rw [hr] at htimeout
            split at htimeout
            · unfold StepResult.absorbed at htimeout
              split at htimeout
              · cases htimeout
              · exact absurd htimeout hne
            · exact absurd htimeout hne

theorem turn_counted {e e' : Execution}
    (hmeets : ∀ step, wf.steps[e.currentIdx]? = some step → AttemptsCounted w e.visit step)
    (h : TimeoutsCounted e.run) (hturn : turn wf w e = .next e') : TimeoutsCounted e'.run := by
  unfold turn at hturn
  split at hturn
  · cases hturn
  · next step hstep =>
    split at hturn
    · cases hturn
    · next run result hretried =>
      have hkept := retried_counted (hmeets step hstep) step.retryCount 0 (Nat.zero_add _).le h
        (fun _ j hj => absurd hj (Nat.not_lt_zero j)) hretried
      exact afterStep_counted (e := { e with run }) hkept hturn

/-- The loop ends past the last step, or leaves the run with a status that is not COMPLETED. -/
theorem turn_stop {e : Execution} {x : Exit} (h : turn wf w e = .stop x) :
    x = ⟨.running, e⟩ ∨ x.status ≠ .running ∧ x.status ≠ .completed := by
  unfold turn at h
  split at h
  · cases h
    exact .inl rfl
  · right
    split at h
    · cases h
      exact ⟨nofun, nofun⟩
    · unfold afterStep at h
      dsimp only at h
      split at h
      · unfold resumeRun at h
        split at h
        · cases h
          exact ⟨nofun, nofun⟩
        · split at h
          · cases h
            exact ⟨nofun, nofun⟩
          · cases h
      · split at h
        · cases h
          exact ⟨nofun, nofun⟩
        · cases h
          exact ⟨nofun, nofun⟩
        · split at h
          · cases h
            exact ⟨nofun, nofun⟩
          · split at h
            · cases h
              exact ⟨nofun, nofun⟩
            · cases h

/-- A completed run has come past its last step, without a failed result. -/
theorem ended_completed {e : Execution} {x : Exit} (hreach : Reaches wf w e)
    (hend : Ends (turn wf w) e x) (hcompleted : finalStatus w x = .completed) :
    x.last.run.failedResult = false ∧ Reaches wf w x.last := by
  induction hend with
  | @stop e x hstop =>
    have hsettled : x.settled = .completed := by
      unfold finalStatus at hcompleted
      split at hcompleted
      · exact hcompleted
      · split at hcompleted
        · cases hcompleted
        · exact hcompleted
    unfold Exit.settled at hsettled
    rcases turn_stop hstop with rfl | ⟨hrunning, hne⟩
    · rw [if_pos rfl] at hsettled
      refine ⟨?_, hreach⟩
      by_contra hfailed
      rw [if_pos (Bool.eq_true_of_not_eq_false hfailed)] at hsettled
      cases hsettled
    · rw [if_neg hrunning] at hsettled
      exact absurd hsettled hne
  | next hnext _ ih => exact ih (hreach.tail hnext) hcompleted

theorem reaches_counted {e : Execution}
    (hmeets : ∀ e step, Reaches wf w e → wf.steps[e.currentIdx]? = some step →
      AttemptsCounted w e.visit step) (hreach : Reaches wf w e) : TimeoutsCounted e.run := by
  induction hreach with
  | refl =>
    constructor
    · rintro ⟨r, hr, -⟩
      cases hr
    · rintro ⟨r, hr, -⟩
      cases hr
  | tail hreach hnext ih => exact turn_counted (fun step => hmeets _ step hreach) ih hnext

/-- **A join that completes has only branches that completed or were skipped**, exactly where a
branch that the deadline stops comes with one that fails for good; and where this is so in each
attempt that the run makes, at steps that are not skipped, a completed run has no step and no branch
that failed or was stopped. -/
theorem completed_joins_honest_iff (wf : WorkflowDef) (w : World) :
    (∀ visit round step, JoinHonest w visit round step ↔
      (StoppedByDeadline w visit round step → ¬ CutOff w visit round step →
        FailsForGood w visit round step)) ∧
    ((∀ e step, Reaches wf w e → wf.steps[e.currentIdx]? = some step →
        AttemptsCounted w e.visit step) →
      ∀ x, Ends (turn wf w) {} x → finalStatus w x = .completed →
        ∀ r ∈ x.last.run.stepResults, r.status ≠ .failed ∧ r.status ≠ .timeout) := by
  refine ⟨fun _ _ _ => joinHonest_iff, fun hmeets x hend hcompleted r hr => ?_⟩
  obtain ⟨hnone, hreach⟩ := ended_completed .refl hend hcompleted
  have hfailed : r.status ≠ .failed := by
    intro hfailed
    rw [WorkflowRun.failedResult_iff.mpr ⟨r, hr, hfailed⟩] at hnone
    cases hnone
  refine ⟨hfailed, fun htimeout => ?_⟩
  rw [(reaches_counted hmeets hreach).results ⟨r, hr, htimeout⟩] at hnone
  cases hnone

/-- A step with two branches. -/
def fanOut : WorkflowDef where
  steps := [
    { id := "fan", type := .parallel
      parallelSteps := [{ id := "mail", type := .agent }, { id := "log" }] }]
  distinct := by decide

/-- The deadline of the workflow stops the agent. -/
def spentWorld : World where
  run _ _ := ⟨.raised, Ran.raised_ordinary⟩
  branch _ _ _ _ := ⟨.deadline, rfl⟩
  answer _ _ := .decided .approved
  waits _ := 0
  failedAsks _ _ := 0
  exhausted := false

/-- **A fan-out whose branch ran out of time is reported as completed.** -/
theorem stopped_branch_completes :
    ¬ ∀ (wf : WorkflowDef) (w : World), (∀ visit round step, JoinHonest w visit round step) ∧
      ∀ x, Ends (turn wf w) {} x → finalStatus w x = .completed →
        ∀ r ∈ x.last.run.stepResults, r.status ≠ .failed ∧ r.status ≠ .timeout := by
  intro h
  obtain ⟨x, hx, hcompleted, hr⟩ : ∃ x, runFor (turn fanOut spentWorld) 2 {} = .stop x ∧
      finalStatus spentWorld x = .completed ∧
      { stepId := "mail", status := .timeout } ∈ x.last.run.stepResults :=
    ⟨_, rfl, by decide, by decide⟩
  exact ((h fanOut spentWorld).2 x (ends_of_runFor hx) hcompleted _ hr).2 rfl

end GenusOs.Engine.Workflow
