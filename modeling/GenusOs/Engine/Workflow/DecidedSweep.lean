import GenusOs.Engine.Workflow.Models
import GenusOs.Engine.Workflow.Approvals
import GenusOs.Library.Batch
import Mathlib

/-!
# The sweep over decided approvals

`drive_approvals` expires what ran out of time and then resumes the runs of the decided approvals
it lists: the first hundred by the time of their decision, all that were ever decided included.

* `decided_reached_iff`: when a run that waits for its resumption is sure to be among them.
-/

namespace GenusOs.Engine.Workflow

/-- A row of `workflow_runs`, with the `_resume_step` of its context. -/
structure RunRow where
  id : Uuid
  status : RunStatus
  resumeStep : String := ""
  deriving DecidableEq, Repr

structure Ledger where
  approvals : List ApprovalRequest
  runs : List RunRow
  deriving DecidableEq, Repr

def DRIVER_BATCH : Nat := 100

/-- `decided_at`, which sorts its nulls last. -/
def ApprovalRequest.decisionTime (a : ApprovalRequest) : WithTop Nat :=
  match a.decidedAt with
  | some time => time
  | none => ⊤

/-- `status IN ('approved', 'rejected', 'expired')`. -/
def ApprovalRequest.decided (a : ApprovalRequest) : Bool := a.status ≠ .pending

/-- What `list_decided_approvals` may answer. -/
def listDecidedApprovals (tenantId : String) (db : Ledger) (out : List ApprovalRequest) : Prop :=
  Batch ApprovalRequest.decisionTime DRIVER_BATCH
    (db.approvals.filter fun a => a.tenantId = tenantOr tenantId && a.decided) out

/-- The first half of `drive_approvals`. -/
def Ledger.expireOverdue (tenantId : String) (now : Nat) (db : Ledger) : Ledger :=
  { db with approvals := expireOverdueApprovals tenantId now db.approvals }

/-- The list that one sweep works through. -/
def sweepsThrough (tenantId : String) (now : Nat) (db : Ledger) (out : List ApprovalRequest) :
    Prop :=
  listDecidedApprovals tenantId (db.expireOverdue tenantId now) out

/-- The approval is decided, and it is the gate at which its run awaits approval. -/
def Ledger.live (db : Ledger) (a : ApprovalRequest) : Bool :=
  a.decided && db.runs.any fun r =>
    r.id = a.runId && r.status = .awaitingApproval && r.resumeStep = a.stepId

/-- Where a decided run awaits, the sweep works through the approval of one. -/
def Reached (tenantId : String) (now : Nat) (db : Ledger) : Prop :=
  let swept := db.expireOverdue tenantId now
  (∃ a ∈ swept.approvals, swept.live a = true) →
    ∀ out, sweepsThrough tenantId now db out → ∃ a ∈ out, swept.live a = true

/-- The decisions of the tenant up to this one that have no run left to resume. -/
def Ledger.spentBefore (db : Ledger) (tenantId : String) (a : ApprovalRequest) : Nat :=
  (db.approvals.filter fun b => b.tenantId = tenantOr tenantId && b.decided).countP fun b =>
    !db.live b && b.decisionTime ≤ a.decisionTime

/-- **A decided run is sure to be reached if and only if fewer than a hundred spent decisions were
made no later than that of one of the tenant's decided runs.** -/
theorem decided_reached_iff (tenantId : String) (now : Nat) (db : Ledger) :
    Reached tenantId now db ↔
      let swept := db.expireOverdue tenantId now
      (∀ a ∈ swept.approvals, swept.live a = false) ∨
        ∃ a ∈ swept.approvals, a.tenantId = tenantOr tenantId ∧ swept.live a = true ∧
          swept.spentBefore tenantId a < DRIVER_BATCH := by
  unfold Reached sweepsThrough listDecidedApprovals Ledger.spentBefore
  dsimp only
  generalize db.expireOverdue tenantId now = swept
  rw [Batch.exists_in_every_batch_iff]
  have hlive : ∀ a, swept.live a = true → a.decided = true := by
    intro a ha
    unfold Ledger.live at ha
    exact (Bool.and_eq_true_iff.mp ha).1
  constructor
  · intro h
    by_cases hany : ∃ a ∈ swept.approvals, swept.live a = true
    · obtain ⟨a, ha, hw, hcount⟩ := h hany
      obtain ⟨hmem, htenant⟩ := List.mem_filter.mp ha
      simp only [Bool.and_eq_true, decide_eq_true_eq] at htenant
      exact .inr ⟨a, hmem, htenant.1, hw, hcount⟩
    · exact .inl fun a ha => by simpa using fun hw => hany ⟨a, ha, hw⟩
  · rintro (hnone | ⟨a, ha, htenant, hw, hcount⟩) hany
    · obtain ⟨a, ha, hw⟩ := hany
      rw [hnone a ha] at hw
      cases hw
    · exact ⟨a, List.mem_filter.mpr ⟨ha, by simp [htenant, hlive a hw]⟩, hw, hcount⟩

/-! ## A hundred old decisions -/

/-- The approval of run `n`, granted at that time. -/
def sampleGranted (n : Nat) : ApprovalRequest where
  id := n
  tenantId := DEFAULT_TENANT
  runId := n
  workflowId := "board-pack"
  stepId := "confirm-send"
  prompt := "Send this to the board?"
  detail := ""
  status := .approved
  expiresAt := 86400
  createdAt := 0
  decidedBy := some "operator"
  decidedAt := some n
  decisionNote := some ""

/-- The runs 0 to 99 were resumed long ago, and run 100 awaits its resumption. -/
def sampleLedger : Ledger where
  approvals := (List.range 101).map sampleGranted
  runs := (List.range 100).map (fun n => ⟨n, .completed, ""⟩) ++
    [⟨100, .awaitingApproval, "confirm-send"⟩]

theorem old_decisions_starve :
    ∃ db, db.live (sampleGranted 100) = true ∧
      sampleGranted 100 ∈ (db.expireOverdue "" 200).approvals ∧ ¬ Reached "" 200 db := by
  refine ⟨sampleLedger, by decide +kernel, by decide +kernel, fun h => ?_⟩
  have hordered : (sampleLedger.expireOverdue "" 200).approvals.filter
      (fun a => a.tenantId = tenantOr "" && a.decided) = sampleLedger.approvals := by
    decide +kernel
  have hsorted : sampleLedger.approvals.Pairwise
      (fun a b => a.decisionTime ≤ b.decisionTime) := by
    decide +kernel
  obtain ⟨a, ha, hlive⟩ := h ⟨sampleGranted 100, by decide +kernel, by decide +kernel⟩ _
    ⟨sampleLedger.approvals, hordered ▸ .refl _, hsorted, rfl⟩
  have hdead : ∀ a ∈ sampleLedger.approvals.take DRIVER_BATCH,
      (sampleLedger.expireOverdue "" 200).live a = false := by
    decide +kernel
  rw [hdead a ha] at hlive
  cases hlive

end GenusOs.Engine.Workflow
