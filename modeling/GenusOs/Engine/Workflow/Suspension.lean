import GenusOs.Engine.Workflow.Gates
import GenusOs.Library.Stutter
import Mathlib

/-!
# Suspension

A run that waits at its gates, against the run that finds every decision there when it comes to it.
`resume_run` counts the stored rows of what came before, `execute` the results it kept in memory.

* `suspended_follows`: the one run follows the other, step by step.
* `suspension_transparent_iff`: when they end with the same status.
-/

namespace GenusOs.Engine.Workflow

open GenusOs.Stutter WorkflowRun

variable (wf : WorkflowDef) (w : World)

/-! ## The run without suspensions, by its visits -/

/-- The run without suspensions when it comes to its `visit`-th step. -/
def visited (visit : Nat) : Option Execution :=
  match runFor (turn wf w.decidedBefore) visit {} with
  | .next e => some e
  | .stop _ => none

/-- Its `visit`-th step is this gate. -/
def AtGate (visit : Nat) (e : Execution) (step : WorkflowStepDef) : Prop :=
  visited wf w visit = some e ∧ wf.steps[e.currentIdx]? = some step ∧ step.type = .approval

/-- What a run that is suspended ends with is what it would have ended with: where it ends, every
gate that suspends it has a name, no failure is a timeout, and where it completes, no row was
stored as failed before it was suspended for the last time. -/
def Transparent : Prop :=
  ∀ x, Ends (turn wf w.decidedBefore) {} x →
    ∀ visit e step, AtGate wf w visit e step → 0 < w.waits visit →
      step.id ≠ "" ∧
      (x.settled = .failed → w.exhausted = false) ∧
      (x.settled = .completed → e.run.failedRow = false ∧
        ∀ sitting < w.waits visit, w.asksFailed visit sitting step = 0)

/-! ## What the suspensions so far have done -/

/-- The gate of the visit has suspended the run. -/
def Suspended (visit sittings : Nat) : Prop :=
  ∃ e step, AtGate wf w visit e step ∧ 0 < sittings

/-- It has no name under which the run could be resumed. -/
def Nameless (visit sittings : Nat) : Prop :=
  ∃ e step, AtGate wf w visit e step ∧ 0 < sittings ∧ step.id = ""

/-- An attempt to ask at the gate has failed. -/
def AskFailed (visit sittings : Nat) : Prop :=
  ∃ e step, AtGate wf w visit e step ∧ ∃ sitting < sittings, 0 < w.asksFailed visit sitting step

/-- The gate suspended the run with a failed row in store. -/
def Spoiled (visit sittings : Nat) : Prop :=
  (∃ e step, AtGate wf w visit e step ∧ 0 < sittings ∧ e.run.failedRow = true) ∨
    AskFailed wf w visit sittings

/-- Some visit before this one, or this one so far. -/
def SoFar (P : Nat → Nat → Prop) (visit sittings : Nat) : Prop :=
  (∃ v < visit, P v (w.waits v)) ∨ P visit sittings

variable {wf : WorkflowDef} {w : World} {visit sittings : Nat} {e : Execution}
  {step : WorkflowStepDef}

theorem visited_zero : visited wf w 0 = some {} := rfl

theorem visited_succ (h : visited wf w visit = some e) :
    visited wf w (visit + 1) =
      match turn wf w.decidedBefore e with
      | .next e' => some e'
      | .stop _ => none := by
  unfold visited at h ⊢
  cases hrun : runFor (turn wf w.decidedBefore) visit {} with
  | next e₀ =>
    rw [hrun] at h
    cases h
    rw [runFor_succ hrun]
  | stop x =>
    rw [hrun] at h
    cases h

/-- After the last step nothing is visited. -/
theorem visited_none {x : Exit} {v : Nat} (h : visited wf w visit = some e)
    (hstop : turn wf w.decidedBefore e = .stop x) (hlt : visit < v) : visited wf w v = none := by
  unfold visited at h ⊢
  cases hrun : runFor (turn wf w.decidedBefore) visit {} with
  | next e₀ =>
    rw [hrun] at h
    cases h
    rw [runFor_stopped (runFor_succ hrun ▸ hstop) hlt]
  | stop x =>
    rw [hrun] at h
    cases h

/-- A property of the sittings at a gate. -/
structure OfSittings (wf : WorkflowDef) (w : World) (P : Nat → Nat → Prop) : Prop where
  gate : ∀ visit sittings, P visit sittings → ∃ e step, AtGate wf w visit e step
  sat : ∀ visit, ¬ P visit 0

theorem ofSittings_suspended : OfSittings wf w (Suspended wf w) :=
  ⟨fun _ _ ⟨e, step, hgate, _⟩ => ⟨e, step, hgate⟩, fun _ ⟨_, _, _, hpos⟩ => Nat.lt_irrefl 0 hpos⟩

theorem ofSittings_nameless : OfSittings wf w (Nameless wf w) :=
  ⟨fun _ _ ⟨e, step, hgate, _⟩ => ⟨e, step, hgate⟩,
    fun _ ⟨_, _, _, hpos, _⟩ => Nat.lt_irrefl 0 hpos⟩

theorem ofSittings_askFailed : OfSittings wf w (AskFailed wf w) :=
  ⟨fun _ _ ⟨e, step, hgate, _⟩ => ⟨e, step, hgate⟩,
    fun _ ⟨_, _, _, _, hlt, _⟩ => Nat.not_lt_zero _ hlt⟩

theorem ofSittings_spoiled : OfSittings wf w (Spoiled wf w) where
  gate := by
    rintro visit sittings (⟨e, step, hgate, _⟩ | h)
    · exact ⟨e, step, hgate⟩
    · exact ofSittings_askFailed.gate visit sittings h
  sat := by
    rintro visit (⟨e, step, _, hpos, _⟩ | h)
    · exact Nat.lt_irrefl 0 hpos
    · exact ofSittings_askFailed.sat visit h

variable {P : Nat → Nat → Prop}

/-- The sittings of the visit are through: it is at no gate, or the gate is decided. -/
def Through (wf : WorkflowDef) (w : World) (e : Execution) (sittings : Nat) : Prop :=
  ∀ step, wf.steps[e.currentIdx]? = some step → step.type = .approval →
    sittings = w.waits e.visit

theorem through_iff (hP : OfSittings wf w P) (hreached : visited wf w e.visit = some e)
    (hthrough : Through wf w e sittings) : P e.visit sittings ↔ P e.visit (w.waits e.visit) := by
  by_cases hgate : ∃ e' step, AtGate wf w e.visit e' step
  · obtain ⟨e', step, he', hstep, htype⟩ := hgate
    cases he'.symm.trans hreached
    rw [hthrough step hstep htype]
  · exact ⟨fun h => absurd (hP.gate _ _ h) hgate, fun h => absurd (hP.gate _ _ h) hgate⟩

/-- What was so far is so far at the next step. -/
theorem soFar_next (hP : OfSittings wf w P) (hreached : visited wf w e.visit = some e)
    (hthrough : Through wf w e sittings) :
    SoFar w P e.visit sittings ↔ SoFar w P (e.visit + 1) 0 := by
  unfold SoFar
  rw [through_iff hP hreached hthrough, Nat.exists_lt_succ_right]
  simp [hP.sat]

/-- At the end of the run, what was so far is all there is. -/
theorem soFar_end (hP : OfSittings wf w P) (hreached : visited wf w e.visit = some e)
    (hthrough : Through wf w e sittings) {x : Exit}
    (hstop : turn wf w.decidedBefore e = .stop x) :
    SoFar w P e.visit sittings ↔ ∃ v, P v (w.waits v) := by
  unfold SoFar
  rw [through_iff hP hreached hthrough]
  constructor
  · rintro (⟨v, _, hv⟩ | hv)
    · exact ⟨v, hv⟩
    · exact ⟨e.visit, hv⟩
  · rintro ⟨v, hv⟩
    rcases Nat.lt_trichotomy v e.visit with hlt | rfl | hlt
    · exact .inl ⟨v, hlt, hv⟩
    · exact .inr hv
    · obtain ⟨e', step, he', _⟩ := hP.gate _ _ hv
      rw [visited_none hreached hstop hlt] at he'
      cases he'

/-! ## The simulation -/

/-- The run without suspensions at a step, and the suspended one at the same step. -/
structure Related (wf : WorkflowDef) (w : World) (e f : Execution) : Prop where
  reached : visited wf w e.visit = some e
  unsuspended : e.sitting = 0 ∧ e.resumed = false
  idx : f.currentIdx = e.currentIdx
  visit : f.visit = e.visit
  sitting : f.sitting ≤ w.waits e.visit
  dispatched : f.sitting = 0 ∧ f.run.dispatchedSteps = e.run.dispatchedSteps ∨
    ∃ step, wf.steps[e.currentIdx]? = some step ∧ step.type = .approval ∧
      f.run.dispatchedSteps = (e.run.dispatch step.id).dispatchedSteps
  leader : Kept [] false e.run
  follower : Kept [] false f.run
  grows : ∀ v < e.visit, ∀ e', visited wf w v = some e' → e'.run.failedRow = true →
    e.run.failedRow = true
  rows : f.run.failedRow = true ↔
    e.run.failedRow = true ∨ SoFar w (AskFailed wf w) e.visit f.sitting
  results : f.run.failedResult = true ↔
    e.run.failedResult = true ∨ SoFar w (Spoiled wf w) e.visit f.sitting
  resumed : f.resumed = true ↔ SoFar w (Suspended wf w) e.visit f.sitting
  named : ¬ SoFar w (Nameless wf w) e.visit f.sitting

/-- The runs stop the same way, and the suspended one has the spoilt results on top. -/
structure SameEnd (wf : WorkflowDef) (w : World) (x y : Exit) : Prop where
  status : y.status = x.status
  ended : x.status ∈ [RunStatus.running, .cancelled, .failed, .timeout]
  results : x.status = .running → (y.last.run.failedResult = true ↔
    x.last.run.failedResult = true ∨ ∃ v, Spoiled wf w v (w.waits v))
  unsuspended : x.last.resumed = false
  resumed : y.last.resumed = true ↔ ∃ v, Suspended wf w v (w.waits v)
  named : ¬ ∃ v, Nameless wf w v (w.waits v)

/-- The run is left at a gate under whose name it cannot be resumed. -/
def GivenUp (wf : WorkflowDef) (w : World) (y : Exit) : Prop :=
  y.status = .awaitingApproval ∧ ∃ v, Nameless wf w v (w.waits v)

theorem soFar_zero (hP : OfSittings wf w P) : ¬ SoFar w P 0 0 := by
  rintro (⟨v, hlt, _⟩ | h)
  · exact Nat.not_lt_zero v hlt
  · exact hP.sat 0 h

theorem related_start : Related wf w {} {} where
  reached := visited_zero
  unsuspended := ⟨rfl, rfl⟩
  idx := rfl
  visit := rfl
  sitting := Nat.zero_le _
  dispatched := .inl ⟨rfl, rfl⟩
  leader := ⟨nofun, nofun, nofun⟩
  follower := ⟨nofun, nofun, nofun⟩
  grows := nofun
  rows := by simpa [failedRow] using soFar_zero ofSittings_askFailed
  results := by simpa [failedResult] using soFar_zero ofSittings_spoiled
  resumed := by simpa using soFar_zero ofSittings_suspended
  named := soFar_zero ofSittings_nameless

variable {f : Execution}

/-- A gate that is found undecided, with what it leaves to be resumed. -/
theorem turn_suspends (h : Related wf w e f) (hstep : wf.steps[e.currentIdx]? = some step)
    (htype : step.type = .approval) (hlt : f.sitting < w.waits e.visit) :
    ∃ run : WorkflowRun, turn wf w f = resumeRun wf step.id { f with run } ∧
      Kept [] false run ∧
      run.dispatchedSteps = (f.run.dispatch step.id).dispatchedSteps ∧
      (run.failedRow = true ↔
        f.run.failedRow = true ∨ 0 < w.asksFailed e.visit f.sitting step) := by
  have hle : w.asksFailed e.visit f.sitting step ≤ step.retryCount := min_le_right _ _
  obtain ⟨run', hvisit, hdispatched, hfailed⟩ := @sitting_suspends _ _ f.run _ _ htype hlt _ _ _ hle
    (Nat.zero_add _)
  have hturn : turn wf w f = afterStep wf step { stepId := step.id, status := .waiting }
      { f with run := run'.persistStep { stepId := step.id, status := .waiting } } := by
    unfold turn
    rw [h.idx, hstep, h.visit]
    dsimp only
    rw [hvisit]
  have hno : ¬ InFlight step.id f.run := not_inFlight_of_tidy h.follower.tidy
  refine ⟨_, ?_, visit_kept h.follower hvisit (.inl rfl), hdispatched, ?_⟩
  · rw [hturn]
    unfold afterStep
    rw [if_pos rfl]
    rfl
  · show (run'.persistStep _).failedRow = true ↔ _
    simp [persistStep_failedRow, hfailed, hno]

/-- A gate without a name is where the run is given up. -/
theorem turn_givenUp (h : Related wf w e f) (hstep : wf.steps[e.currentIdx]? = some step)
    (htype : step.type = .approval) (hlt : f.sitting < w.waits e.visit) (hid : step.id = "") :
    ∃ y, turn wf w f = .stop y ∧ GivenUp wf w y := by
  obtain ⟨run, hturn, _⟩ := turn_suspends h hstep htype hlt
  refine ⟨⟨.awaitingApproval, { f with run }⟩, ?_, rfl, e.visit, e, step,
    ⟨h.reached, hstep, htype⟩, by omega, hid⟩
  rw [hturn, resumeRun, if_pos hid]

theorem dispatchedSteps_dispatch_congr {run run' : WorkflowRun} {stepId : String}
    (h : run.dispatchedSteps = run'.dispatchedSteps) :
    (run.dispatch stepId).dispatchedSteps = (run'.dispatch stepId).dispatchedSteps := by
  unfold dispatch
  rw [h]
  split
  · exact h
  · rfl

/-- At a gate that suspends the run, the rows tell as much as the results that are spoilt. -/
theorem spoiled_iff {j : Nat} (hstored : e.run.Stored) (hgate : AtGate wf w e.visit e step)
    (hgrows : ∀ v < e.visit, ∀ e', visited wf w v = some e' → e'.run.failedRow = true →
      e.run.failedRow = true) :
    e.run.failedRow = true ∨ SoFar w (AskFailed wf w) e.visit (j + 1) ↔
      e.run.failedResult = true ∨ SoFar w (Spoiled wf w) e.visit (j + 1) := by
  constructor
  · rintro (hrow | ⟨v, hlt, hask⟩ | hask)
    · exact .inr (.inr (.inl ⟨e, step, hgate, j.succ_pos, hrow⟩))
    · exact .inr (.inl ⟨v, hlt, .inr hask⟩)
    · exact .inr (.inr (.inr hask))
  · rintro (hresult | ⟨v, hlt, ⟨e', step', ⟨he', _⟩, _, hrow⟩ | hask⟩ |
      ⟨e', step', ⟨he', _⟩, _, hrow⟩ | hask)
    · exact .inl (hstored hresult)
    · exact .inl (hgrows v hlt e' he' hrow)
    · exact .inr (.inl ⟨v, hlt, hask⟩)
    · cases he'.symm.trans hgate.1
      exact .inl hrow
    · exact .inr (.inr hask)

/-- A gate with a name is where the run comes back to. -/
theorem turn_resumed (h : Related wf w e f) (hstep : wf.steps[e.currentIdx]? = some step)
    (htype : step.type = .approval) (hlt : f.sitting < w.waits e.visit) (hid : step.id ≠ "") :
    ∃ f', turn wf w f = .next f' ∧ Related wf w e f' ∧ f'.visit = f.visit ∧
      f'.sitting = f.sitting + 1 := by
  obtain ⟨run, hturn, hkept, hdispatched, hfailed⟩ := turn_suspends h hstep htype hlt
  have hgate : AtGate wf w e.visit e step := ⟨h.reached, hstep, htype⟩
  have hask : AskFailed wf w e.visit (f.sitting + 1) ↔
      AskFailed wf w e.visit f.sitting ∨ 0 < w.asksFailed e.visit f.sitting step := by
    constructor
    · rintro ⟨e', step', ⟨he', hstep', htype'⟩, sitting, hsitting, hpos⟩
      cases he'.symm.trans h.reached
      cases hstep'.symm.trans hstep
      rcases Nat.lt_succ_iff_lt_or_eq.mp hsitting with hlt' | rfl
      · exact .inl ⟨e, step, hgate, sitting, hlt', hpos⟩
      · exact .inr hpos
    · rintro (⟨e', step', hgate', sitting, hsitting, hpos⟩ | hpos)
      · exact ⟨e', step', hgate', sitting, hsitting.trans (Nat.lt_succ_self _), hpos⟩
      · exact ⟨e, step, hgate, f.sitting, Nat.lt_succ_self _, hpos⟩
  have hrows : run.failedRow = true ↔
      e.run.failedRow = true ∨ SoFar w (AskFailed wf w) e.visit (f.sitting + 1) := by
    rw [hfailed, h.rows]
    unfold SoFar
    rw [hask, or_assoc, or_assoc]
  refine ⟨{ currentIdx := f.currentIdx
            visit := f.visit
            sitting := f.sitting + 1
            resumed := true
            run := run.loadSuspendedRun }, ?_, ?_, rfl, rfl⟩
  · rw [hturn, resumeRun, if_neg hid, stepIndex_id hstep, h.idx]
  · exact
      { reached := h.reached
        unsuspended := h.unsuspended
        idx := h.idx
        visit := h.visit
        sitting := hlt
        dispatched := by
          refine .inr ⟨step, hstep, htype, ?_⟩
          show run.dispatchedSteps = _
          rw [hdispatched]
          rcases h.dispatched with ⟨_, hsame⟩ | ⟨step', hstep', _, hsame⟩
          · exact dispatchedSteps_dispatch_congr hsame
          · cases hstep'.symm.trans hstep
            rw [dispatch_of_mem (hsame ▸ mem_dispatch), hsame]
        leader := h.leader
        follower := ⟨hkept.tidy, fun hres => by simpa using hres, nofun⟩
        grows := h.grows
        rows := hrows
        results := by
          rw [failedResult_loadSuspendedRun]
          exact hrows.trans (spoiled_iff h.leader.stored hgate h.grows)
        resumed := by
          simpa using .inr ⟨e, step, hgate, Nat.succ_pos _⟩
        named := by
          rintro (hbefore | ⟨e', step', ⟨he', hstep', _⟩, _, hnone⟩)
          · exact h.named (.inl hbefore)
          · cases he'.symm.trans h.reached
            cases hstep'.symm.trans hstep
            exact hid hnone }

theorem eq_after (run : WorkflowRun) :
    run = ({ dispatchedSteps := run.dispatchedSteps } : WorkflowRun).after run.stepResults
      run.rows := by
  simp [WorkflowRun.after]

theorem settled_of_tidy {run : WorkflowRun} (h : run.Tidy []) :
    ∀ r ∈ run.rows, r.status ≠ .running := by
  intro r hr hrun
  cases h r hr hrun

theorem failedRow_after {run : WorkflowRun} {results : List StepResult} {rows : List StepRow} :
    (run.after results rows).failedRow = (rows.any (·.status = .failed) || run.failedRow) := by
  simp [WorkflowRun.after, failedRow]

theorem failedResult_after {run : WorkflowRun} {results : List StepResult}
    {rows : List StepRow} : (run.after results rows).failedResult =
      (results.any (·.status = .failed) || run.failedResult) := by
  simp [WorkflowRun.after, failedResult]

/-- Once the gate is decided, the step does the same to both runs. -/
theorem visit_shared (h : Related wf w e f) (hstep : wf.steps[e.currentIdx]? = some step) :
    ∃ (run : WorkflowRun) (result : Option StepResult),
      retried (executeStep w.decidedBefore e.visit 0 step) step.retryCount 0 e.run =
        (run.after e.run.stepResults e.run.rows, result) ∧
      retried (executeStep w.decidedBefore e.visit 0 step) step.retryCount 0 f.run =
        (run.after f.run.stepResults f.run.rows, result) := by
  let base : WorkflowRun := { dispatchedSteps := e.run.dispatchedSteps }
  have hframed := retried_framed
    (fun attempt => @executeStep_framed w.decidedBefore step e.visit 0
      attempt) step.retryCount 0
  have hleader := hframed base e.run.stepResults _ (settled_of_tidy h.leader.tidy)
  have hfollower := hframed base f.run.stepResults _ (settled_of_tidy h.follower.tidy)
  refine ⟨(retried (executeStep w.decidedBefore e.visit 0 step) step.retryCount 0 base).1,
    (retried (executeStep w.decidedBefore e.visit 0 step) step.retryCount 0 base).2, ?_, ?_⟩
  · rw [← hleader, ← eq_after]
  · rw [← hfollower]
    rcases h.dispatched with ⟨_, hsame⟩ | ⟨step', hstep', htype, hsame⟩
    · show _ = retried _ _ _
        (({ dispatchedSteps := e.run.dispatchedSteps } : WorkflowRun).after _ _)
      rw [← hsame, ← eq_after]
    · cases hstep'.symm.trans hstep
      -- the gate was dispatched before, which the attempt does not tell
      have hrun : f.run = (base.after f.run.stepResults f.run.rows).dispatch step.id := by
        conv_lhs => rw [eq_after f.run, hsame]
        rw [dispatch_after]
        unfold dispatch WorkflowRun.after
        dsimp only [base]
        split <;> simp
      conv_lhs => rw [hrun]
      refine retried_congr ?_ _
      rw [executeStep_approval htype]
      refine executeSingleStep_dispatch fun r hr hstatus => ?_
      exact absurd hstatus
        (settled_of_tidy h.follower.tidy r (by simpa [base, WorkflowRun.after] using hr))

/-- Where both runs stop with the same status, they end the same way. -/
theorem sameEnd_of_stop (h : Related wf w e f) (hthrough : Through wf w e f.sitting) {x y : Exit}
    (hx : turn wf w.decidedBefore e = .stop x) (hstatus : y.status = x.status)
    (hended : x.status ∈ [RunStatus.running, .cancelled, .failed, .timeout])
    (hxres : x.last.resumed = e.resumed)
    (hyres : y.last.resumed = f.resumed) (hresults : x.status = .running →
      x.last.run = e.run ∧ y.last.run = f.run) : SameEnd wf w x y where
  status := hstatus
  ended := hended
  results := by
    intro hrunning
    obtain ⟨hxrun, hyrun⟩ := hresults hrunning
    rw [hxrun, hyrun, h.results, soFar_end ofSittings_spoiled h.reached hthrough hx]
  unsuspended := hxres.trans h.unsuspended.2
  resumed := by
    rw [hyres, h.resumed, soFar_end ofSittings_suspended h.reached hthrough hx]
  named := by
    rw [← soFar_end ofSittings_nameless h.reached hthrough hx]
    exact h.named

/-- What a visit adds to both runs keeps them related. -/
theorem related_next (h : Related wf w e f) (hthrough : Through wf w e f.sitting)
    {add : WorkflowRun} {idx : Nat}
    (hreached : visited wf w (e.visit + 1) = some
      { e with currentIdx := idx, visit := e.visit + 1, sitting := 0,
               run := add.after e.run.stepResults e.run.rows })
    (hleader : Kept [] false (add.after e.run.stepResults e.run.rows))
    (hfollower : Kept [] false (add.after f.run.stepResults f.run.rows)) :
    Related wf w
      { e with currentIdx := idx, visit := e.visit + 1, sitting := 0,
               run := add.after e.run.stepResults e.run.rows }
      { f with currentIdx := idx, visit := f.visit + 1, sitting := 0,
               run := add.after f.run.stepResults f.run.rows } where
  reached := hreached
  unsuspended := ⟨rfl, h.unsuspended.2⟩
  idx := rfl
  visit := congrArg (· + 1) h.visit
  sitting := Nat.zero_le _
  dispatched := .inl ⟨rfl, rfl⟩
  leader := hleader
  follower := hfollower
  grows := by
    intro v hlt e' he' hrow
    have hbefore : e.run.failedRow = true := by
      rcases Nat.lt_succ_iff_lt_or_eq.mp hlt with hlt' | rfl
      · exact h.grows v hlt' e' he' hrow
      · cases he'.symm.trans h.reached
        exact hrow
    show (add.after e.run.stepResults e.run.rows).failedRow = true
    rw [failedRow_after]
    exact Bool.or_eq_true_iff.mpr (.inl hbefore)
  rows := by
    have hrows := h.rows
    rw [soFar_next ofSittings_askFailed h.reached hthrough] at hrows
    show (add.after f.run.stepResults f.run.rows).failedRow = true ↔
      (add.after e.run.stepResults e.run.rows).failedRow = true ∨ _
    rw [failedRow_after, failedRow_after, Bool.or_eq_true_iff, Bool.or_eq_true_iff]
    exact (or_congr_left hrows).trans or_right_comm
  results := by
    have hresults := h.results
    rw [soFar_next ofSittings_spoiled h.reached hthrough] at hresults
    show (add.after f.run.stepResults f.run.rows).failedResult = true ↔
      (add.after e.run.stepResults e.run.rows).failedResult = true ∨ _
    rw [failedResult_after, failedResult_after, Bool.or_eq_true_iff, Bool.or_eq_true_iff]
    exact (or_congr_left hresults).trans or_right_comm
  resumed := h.resumed.trans (soFar_next ofSittings_suspended h.reached hthrough)
  named := (soFar_next ofSittings_nameless h.reached hthrough).not.mp h.named

/-- The suspended run's turn, once the gate is decided. -/
theorem turn_decided (h : Related wf w e f) (hstep : wf.steps[e.currentIdx]? = some step)
    (hthrough : Through wf w e f.sitting) :
    (∃ e' f', turn wf w.decidedBefore e = .next e' ∧ turn wf w f = .next f' ∧
      Related wf w e' f') ∨
    ∃ x y, turn wf w.decidedBefore e = .stop x ∧ turn wf w f = .stop y ∧ SameEnd wf w x y := by
  have honce := @executeStep_decided w step e.visit f.sitting
    fun htype => (hthrough step hstep htype).ge
  obtain ⟨run, _ | result, hleader, hfollower⟩ := visit_shared h hstep
  · -- the timeout cuts the step off in both
    have hleads : turn wf w.decidedBefore e =
        .stop ⟨.timeout, { e with run := run.after e.run.stepResults e.run.rows }⟩ := by
      unfold turn
      rw [hstep]
      dsimp only
      rw [h.unsuspended.1, hleader]
    have hfollows : turn wf w f =
        .stop ⟨.timeout, { f with run := run.after f.run.stepResults f.run.rows }⟩ := by
      unfold turn
      rw [h.idx, hstep]
      dsimp only
      rw [h.visit, honce, hfollower]
    exact .inr ⟨_, _, hleads, hfollows,
      sameEnd_of_stop h hthrough hleads rfl (by simp) rfl rfl nofun⟩
  · have hnot := (retried_keeps (fun _ => executeStep_not_waiting) step.retryCount 0 e.run trivial
      result (by rw [hleader]; rfl)).2
    have hleads : turn wf w.decidedBefore e = afterStep wf step result
        { e with run := (run.after e.run.stepResults e.run.rows).persistStep result } := by
      unfold turn
      rw [hstep]
      dsimp only
      rw [h.unsuspended.1, hleader]
    have hfollows : turn wf w f = afterStep wf step result
        { f with run := (run.after f.run.stepResults f.run.rows).persistStep result } := by
      unfold turn
      rw [h.idx, hstep]
      dsimp only
      rw [h.visit, honce, hfollower]
    rcases @afterStep_cases wf step _ hnot with
      ⟨status, hstatus, hstop⟩ | ⟨kept, hkept, hnext⟩
    · obtain ⟨last, hlast, hres⟩ := hstop
        { e with run := (run.after e.run.stepResults e.run.rows).persistStep result }
      obtain ⟨last', hlast', hres'⟩ := hstop
        { f with run := (run.after f.run.stepResults f.run.rows).persistStep result }
      refine .inr ⟨_, _, hleads.trans hlast, hfollows.trans hlast',
        sameEnd_of_stop h hthrough (hleads.trans hlast) rfl (List.mem_cons_of_mem _ hstatus) hres
          hres' fun hrunning => ?_⟩
      obtain rfl : status = .running := hrunning
      exact absurd hstatus (by decide)
    · let add : WorkflowRun :=
        { run.persistStep result with stepResults := run.stepResults ++ [kept] }
      have hadd (before : WorkflowRun) (hbefore : before.Tidy []) :
          { (run.after before.stepResults before.rows).persistStep result with
            stepResults := (run.after before.stepResults before.rows).stepResults ++ [kept] } =
          add.after before.stepResults before.rows := by
        rw [persistStep_after (settled_of_tidy hbefore)]
        simp [add, WorkflowRun.after]
      have hleads' : turn wf w.decidedBefore e = .next
          { e with currentIdx := nextIdx wf step result e.currentIdx
                   visit := e.visit + 1
                   sitting := 0
                   run := add.after e.run.stepResults e.run.rows } := by
        rw [← hadd e.run h.leader.tidy]
        exact hleads.trans (hnext _)
      have hfollows' : turn wf w f = .next
          { f with currentIdx := nextIdx wf step result e.currentIdx
                   visit := f.visit + 1
                   sitting := 0
                   run := add.after f.run.stepResults f.run.rows } := by
        rw [← hadd f.run h.follower.tidy, ← h.idx]
        exact hfollows.trans (hnext _)
      have hkeptLeader := visit_kept h.leader hleader hkept
      have hkeptFollower := visit_kept h.follower hfollower hkept
      rw [hadd e.run h.leader.tidy] at hkeptLeader
      rw [hadd f.run h.follower.tidy] at hkeptFollower
      refine .inl ⟨_, _, hleads', hfollows', related_next h hthrough ?_ hkeptLeader hkeptFollower⟩
      rw [visited_succ h.reached, hleads']

/-- Past the last step both runs stop. -/
theorem turn_past (h : Related wf w e f) (hstep : wf.steps[e.currentIdx]? = none) :
    ∃ x y, turn wf w.decidedBefore e = .stop x ∧ turn wf w f = .stop y ∧ SameEnd wf w x y := by
  have hleads : turn wf w.decidedBefore e = .stop ⟨.running, e⟩ := by
    unfold turn
    rw [hstep]
  have hfollows : turn wf w f = .stop ⟨.running, f⟩ := by
    unfold turn
    rw [h.idx, hstep]
  have hthrough : Through wf w e f.sitting := by
    intro step hstep'
    cases hstep.symm.trans hstep'
  exact ⟨_, _, hleads, hfollows,
    sameEnd_of_stop h hthrough hleads rfl (by simp) rfl rfl fun _ => ⟨rfl, rfl⟩⟩

/-- **The suspended run follows the run without suspensions**, with a turn of its own for each
sitting at a gate, until it is given up at one without a name. -/
theorem suspended_follows : Follows (turn wf w.decidedBefore) (turn wf w) (Related wf w)
    (fun f => w.waits f.visit - f.sitting) (SameEnd wf w) (GivenUp wf w) where
  turn := by
    intro e f h
    cases hstep : wf.steps[e.currentIdx]? with
    | none => exact .inr (.inr (.inr (turn_past h hstep)))
    | some step =>
      by_cases hwaits : step.type = .approval ∧ f.sitting < w.waits e.visit
      · obtain ⟨htype, hlt⟩ := hwaits
        by_cases hid : step.id = ""
        · exact .inr (.inl (turn_givenUp h hstep htype hlt hid))
        · obtain ⟨f', hturn, hrel, hvisit, hsitting⟩ := turn_resumed h hstep htype hlt hid
          refine .inl ⟨f', hturn, hrel, ?_⟩
          rw [hvisit, hsitting, h.visit]
          omega
      · refine .inr (.inr ?_)
        refine turn_decided h hstep fun step' hstep' htype => ?_
        cases hstep'.symm.trans hstep
        have hge : ¬ f.sitting < w.waits e.visit := fun hlt => hwaits ⟨htype, hlt⟩
        exact le_antisymm h.sitting (Nat.not_lt.mp hge)

/-! ## The two ends -/

theorem suspended_of_spoiled (h : Spoiled wf w visit sittings) :
    Suspended wf w visit sittings := by
  rcases h with ⟨e, step, hgate, hpos, _⟩ | ⟨e, step, hgate, sitting, hlt, _⟩
  · exact ⟨e, step, hgate, hpos⟩
  · exact ⟨e, step, hgate, by omega⟩

theorem settled_of_ne_running {x : Exit} (h : x.status ≠ .running) : x.settled = x.status :=
  if_neg h

/-- The spoilt results fail a run that would have completed. -/
theorem settled_spoiled {x y : Exit} (h : SameEnd wf w x y) (hcompleted : x.settled = .completed)
    (hspoiled : ∃ v, Spoiled wf w v (w.waits v)) : y.settled = .failed := by
  by_cases hrunning : x.status = .running
  · have hy := (h.results hrunning).mpr (.inr hspoiled)
    unfold Exit.settled
    rw [h.status, if_pos hrunning, if_pos hy]
  · have hended := h.ended
    rw [← settled_of_ne_running hrunning, hcompleted] at hended
    exact absurd hended (by decide)

/-- No other run settles on another status. -/
theorem settled_unspoiled {x y : Exit} (h : SameEnd wf w x y)
    (hnot : ¬ (x.settled = .completed ∧ ∃ v, Spoiled wf w v (w.waits v))) :
    y.settled = x.settled := by
  by_cases hrunning : x.status = .running
  · have hresults := h.results hrunning
    unfold Exit.settled at hnot ⊢
    rw [if_pos hrunning] at hnot
    rw [h.status, if_pos hrunning, if_pos hrunning]
    by_cases hx : x.last.run.failedResult = true
    · rw [if_pos hx, if_pos (hresults.mpr (.inl hx))]
    · rw [if_neg hx] at hnot ⊢
      rw [if_neg fun hy => (hresults.mp hy).elim hx fun hspoiled => hnot ⟨rfl, hspoiled⟩]
  · rw [settled_of_ne_running hrunning, settled_of_ne_running (h.status ▸ hrunning), h.status]

/-- Runs that end the same way have the same status if and only if, where there was a suspension,
no failure is a timeout and nothing is spoilt where the one completes. -/
theorem sameEnd_status {x y : Exit} (h : SameEnd wf w x y) :
    finalStatus w y = finalStatus w x ↔
      ((∃ v, Suspended wf w v (w.waits v)) →
        (x.settled = .failed → w.exhausted = false) ∧
        (x.settled = .completed → ¬ ∃ v, Spoiled wf w v (w.waits v))) := by
  have hx : finalStatus w x =
      if x.settled = .failed ∧ w.exhausted = true then .timeout else x.settled := by
    unfold finalStatus
    rw [h.unsuspended]
    rfl
  by_cases hsuspended : ∃ v, Suspended wf w v (w.waits v)
  · have hy : finalStatus w y = y.settled := if_pos (h.resumed.mpr hsuspended)
    rw [hx, hy, forall_prop_of_true hsuspended]
    by_cases hspoiled : x.settled = .completed ∧ ∃ v, Spoiled wf w v (w.waits v)
    · rw [settled_spoiled h hspoiled.1 hspoiled.2, hspoiled.1]
      simp [hspoiled.2]
    · rw [settled_unspoiled h hspoiled]
      have hclean : x.settled = .completed → ¬ ∃ v, Spoiled wf w v (w.waits v) :=
        fun hcompleted hs => hspoiled ⟨hcompleted, hs⟩
      by_cases hfailed : x.settled = .failed
      · simp [hfailed]
      · simp only [hfailed, false_and, if_false, false_implies, true_and]
        exact ⟨fun _ => hclean, fun _ => trivial⟩
  · have hspoiled : ¬ ∃ v, Spoiled wf w v (w.waits v) :=
      fun ⟨v, hv⟩ => hsuspended ⟨v, suspended_of_spoiled hv⟩
    have hy : finalStatus w y =
        if y.settled = .failed ∧ w.exhausted = true then .timeout else y.settled :=
      if_neg fun hres => hsuspended (h.resumed.mp hres)
    rw [hx, hy, settled_unspoiled h fun hc => hspoiled hc.2]
    exact ⟨fun _ hs => absurd hs hsuspended, fun _ => rfl⟩

/-- What `Transparent` asks for, in terms of what the suspensions have done. -/
theorem transparent_iff {x : Exit} (hend : Ends (turn wf w.decidedBefore) {} x) :
    Transparent wf w ↔
      (¬ ∃ v, Nameless wf w v (w.waits v)) ∧
      ((∃ v, Suspended wf w v (w.waits v)) →
        (x.settled = .failed → w.exhausted = false) ∧
        (x.settled = .completed → ¬ ∃ v, Spoiled wf w v (w.waits v))) := by
  constructor
  · intro h
    refine ⟨?_, ?_⟩
    · rintro ⟨v, e, step, hgate, hpos, hid⟩
      exact (h x hend v e step hgate hpos).1 hid
    · rintro ⟨v, e, step, hgate, hpos⟩
      refine ⟨(h x hend v e step hgate hpos).2.1, fun hcompleted hspoiled => ?_⟩
      rcases hspoiled with ⟨v, ⟨e, step, hgate, hpos, hrow⟩ | ⟨e, step, hgate, sitting, hlt, hask⟩⟩
      · rw [((h x hend v e step hgate hpos).2.2 hcompleted).1] at hrow
        cases hrow
      · have hnone := ((h x hend v e step hgate (by omega)).2.2 hcompleted).2 sitting hlt
        omega
  · rintro ⟨hnamed, hrest⟩ x' hend' v e step hgate hpos
    cases hend'.unique hend
    obtain ⟨hfailed, hcompleted⟩ := hrest ⟨v, e, step, hgate, hpos⟩
    refine ⟨fun hid => hnamed ⟨v, e, step, hgate, hpos, hid⟩, hfailed, fun hx => ⟨?_, ?_⟩⟩
    · rw [Bool.eq_false_iff]
      exact fun hrow => hcompleted hx ⟨v, .inl ⟨e, step, hgate, hpos, hrow⟩⟩
    · intro sitting hlt
      by_contra hne
      exact hcompleted hx ⟨v, .inr ⟨e, step, hgate, sitting, hlt, Nat.pos_of_ne_zero hne⟩⟩

theorem endsWith_iff {x : Exit} (hend : Ends (turn wf w) {} x)
    (hstatus : x.status ∈ [RunStatus.running, .cancelled, .failed, .timeout])
    {status : RunStatus} : EndsWith wf w status ↔ finalStatus w x = status := by
  constructor
  · rintro ⟨x', hend', _, hfinal⟩
    rwa [hend.unique hend']
  · intro hfinal
    refine ⟨x, hend, fun heq => ?_, hfinal⟩
    rw [heq] at hstatus
    exact absurd hstatus (by decide)

/-- Without suspensions a run is never left waiting. -/
theorem ended_decidedBefore {x : Exit} (hend : Ends (turn wf w.decidedBefore) {} x) :
    x.status ∈ [RunStatus.running, .cancelled, .failed, .timeout] := by
  -- the run without suspensions follows itself
  obtain ⟨y, _, hsame | ⟨_, v, hnone⟩⟩ :=
    (suspended_follows (w := w.decidedBefore)).ends hend related_start
  · exact hsame.ended
  · exact absurd hnone (ofSittings_nameless.sat v)

/-- **Suspension is transparent to the status a run ends with if and only if, where the run without
suspensions ends, the gates that suspend it have names, a failure is not one for lack of time, and
a completed run had stored no failed row before a suspension.** -/
theorem suspension_transparent_iff (wf : WorkflowDef) (w : World) :
    (∀ status, EndsWith wf w status ↔ EndsWith wf w.decidedBefore status) ↔
      Transparent wf w := by
  by_cases hends : ∃ x, Ends (turn wf w.decidedBefore) {} x
  · obtain ⟨x, hend⟩ := hends
    have hended := ended_decidedBefore hend
    have hleader (status : RunStatus) :
        EndsWith wf w.decidedBefore status ↔ finalStatus w x = status := endsWith_iff hend hended
    obtain ⟨y, hy, hor⟩ := suspended_follows.ends hend related_start
    rw [transparent_iff hend]
    rcases hor with hsame | ⟨hstatus, hnameless⟩
    · rw [← sameEnd_status hsame, and_iff_right hsame.named]
      have hfollower (status : RunStatus) : EndsWith wf w status ↔ finalStatus w y = status :=
        endsWith_iff hy (hsame.status ▸ hended)
      constructor
      · intro h
        exact (hfollower _).mp ((h _).mpr ((hleader _).mpr rfl))
      · intro heq status
        rw [hfollower, hleader, heq]
    · constructor
      · intro h
        obtain ⟨y', hy', hne, _⟩ := (h _).mpr ((hleader _).mpr rfl)
        cases hy'.unique hy
        exact absurd hstatus hne
      · exact fun h => absurd hnameless h.1
  · constructor
    · exact fun _ x hend => absurd ⟨x, hend⟩ hends
    · intro _ status
      constructor
      · rintro ⟨y, hy, hne, _⟩
        rcases suspended_follows.led hy related_start with ⟨hstatus, _⟩ | ⟨x, hend, _⟩
        · exact absurd hstatus hne
        · exact absurd ⟨x, hend⟩ hends
      · rintro ⟨x, hend, _⟩
        exact absurd ⟨x, hend⟩ hends

/-! ## A retried step before a gate -/

/-- A tool that is retried once, and a gate. -/
def sampleWorkflow : WorkflowDef where
  steps := [
    { id := "fetch", type := .tool, retryCount := 1 },
    { id := "confirm", type := .approval },
    { id := "send" }]
  distinct := by decide

/-- The tool fails once, and the approval is there when the run is resumed. -/
def sampleWorld : World where
  run _ attempt := ⟨if attempt = 0 then .raised else .returned .completed none .plain, by
    split <;> rfl⟩
  branch _ _ _ _ := ⟨.raised, Ran.raised_ordinary⟩
  answer _ _ := .decided .approved
  waits visit := if visit = 1 then 1 else 0
  failedAsks _ _ := 0
  exhausted := false

theorem suspended_run_fails :
    EndsWith sampleWorkflow sampleWorld.decidedBefore .completed ∧
      EndsWith sampleWorkflow sampleWorld .failed ∧
      ¬ ∀ wf w status, EndsWith wf w status ↔ EndsWith wf w.decidedBefore status := by
  have hleader : ∃ x, runFor (turn sampleWorkflow sampleWorld.decidedBefore) 4 {} = .stop x ∧
      x.status = .running ∧ finalStatus sampleWorld.decidedBefore x = .completed :=
    ⟨_, rfl, rfl, by decide⟩
  have hfollower : ∃ y, runFor (turn sampleWorkflow sampleWorld) 5 {} = .stop y ∧
      y.status = .running ∧ finalStatus sampleWorld y = .failed :=
    ⟨_, rfl, rfl, by decide⟩
  obtain ⟨x, hx, hxstatus, hxfinal⟩ := hleader
  obtain ⟨y, hy, hystatus, hyfinal⟩ := hfollower
  have hcompleted : EndsWith sampleWorkflow sampleWorld.decidedBefore .completed :=
    ⟨x, ends_of_runFor hx, hxstatus ▸ nofun, hxfinal⟩
  have hfailed : EndsWith sampleWorkflow sampleWorld .failed :=
    ⟨y, ends_of_runFor hy, hystatus ▸ nofun, hyfinal⟩
  refine ⟨hcompleted, hfailed, fun h => ?_⟩
  obtain ⟨y', hy', _, hfinal⟩ := (h sampleWorkflow sampleWorld .completed).mpr hcompleted
  cases hy'.unique (ends_of_runFor hy)
  cases hfinal.symm.trans hyfinal

end GenusOs.Engine.Workflow
