import GenusOs.Autonomy.System
import Mathlib

/-!
# What the stores make of a handoff

`Moves` lists what one step may make of a row of `autonomy_handoffs`, with the call that does it;
`handoffs_move` says that every step of the stores moves every row so, and that `createHandoff`
adds at most one.

* `Settled`: what every other store does to handoffs, namely to resolve them.
* `Release`: what the release of a lapsed handoff does.
-/

namespace GenusOs.Autonomy

open GenusOs.Python Transaction Workflows
open GenusOs.Rows (Rowwise)

variable {env : Platform} {amb : Ambient} {scope : Scope} {s t : DB}

/-! ## Completed operations resolve their handoffs -/

def Settles (h h' : Handoff) : Prop := h' = h ∨ h' = { h with state := .resolved }

def Settled (s t : DB) : Prop := Rowwise Settles s.handoffs t.handoffs

theorem Settles.trans {h h' h'' : Handoff} (hs : Settles h h') (hs' : Settles h' h'') :
    Settles h h'' := by
  rcases hs' with rfl | rfl
  · exact hs
  · rcases hs with rfl | rfl
    · exact .inr rfl
    · exact .inr rfl

instance : Std.Refl Settled where
  refl s := .refl (fun _ => .inl rfl) s.handoffs

instance : IsTrans DB Settled where
  trans _ _ _ := Rowwise.trans fun _ _ _ => Settles.trans

/-- A write to another table. -/
theorem settled_of_eq (h : t.handoffs = s.handoffs) : Settled s t := by
  unfold Settled
  rw [h]
  exact .refl (fun _ => .inl rfl) _

theorem settled_elsewhere {g : DB → DB} (h : (g s).handoffs = s.handoffs) :
    Keeps Settled s (modify g : Tx Unit) :=
  .write (settled_of_eq h)

theorem settled_event {subject : Subject} {text : String} :
    Keeps Settled s (event scope subject text) :=
  settled_elsewhere rfl

theorem settled_updateOperation {operationId : Uuid} {f : Operation → Operation} :
    Keeps Settled s (updateOperation operationId f) :=
  settled_elsewhere rfl

theorem placeHold_handoffs (grantId operationId : Uuid) (reasons : List String) :
    (s.placeHold scope grantId operationId reasons).handoffs = s.handoffs := by
  have hrecords : ∀ s : DB, (reasons.foldl (fun db reason =>
      db.record scope (.operation operationId) ("payment_overspend:" ++ reason)) s).handoffs =
      s.handoffs := by
    induction reasons with
    | nil => exact fun s => rfl
    | cons reason reasons ih => exact fun s => ih _
  unfold DB.placeHold
  split
  · rfl
  · exact hrecords _

theorem flagOverspend_handoffs (op : Operation) (facts : List PaymentFact) :
    (s.flagOverspend scope op facts).handoffs = s.handoffs := by
  unfold DB.flagOverspend
  dsimp only
  split
  · rfl
  · exact placeHold_handoffs _ _ _

theorem Appended.handoffs {op : Operation} {fact : PaymentFact} (h : Appended s scope op fact t) :
    t.handoffs = s.handoffs := by
  cases h with
  | replay => exact flagOverspend_handoffs _ _
  | insert => exact flagOverspend_handoffs _ _

theorem settled_finishOperation {operationId : Uuid} {state : OperationState}
    {evidence : Option Dict} {inputReason : Option String} :
    Keeps Settled s (finishOperation env amb scope operationId state evidence inputReason) := by
  unfold finishOperation
  split
  · exact .raise
  · refine .read (findOperation_reads operationId) fun row _ => .require fun _ =>
      .bind settled_updateOperation fun _ t _ => .bind (.onlyIf fun _ => ?_) fun _ _ _ =>
      settled_event
    refine .bind (.onlyIf fun _ => ?_) fun _ u _ => .write ?_
    · intro _ u h
      exact settled_of_eq (appendFact_ok h).2.2.handoffs
    · exact .updateWhere (fun _ => .inl rfl) fun _ _ _ => .inr rfl

/-- What an outcome other than completion writes. -/
theorem finishOperation_ok {operationId : Uuid} {state : OperationState}
    {evidence : Option Dict} {inputReason : Option String} (hstate : state ≠ .completed)
    (h : finishOperation env amb scope operationId state evidence inputReason s = .ok ((), t)) :
    t = (s.updateOperation operationId fun o =>
      { o with
        state, evidence, updatedAt := amb.now
        inputReason := inputReason <|> o.inputReason }).record scope (.operation operationId)
          state.name := by
  unfold finishOperation at h
  cases hcheck : checkEvidence state (evidence.getD []) with
  | some e =>
    simp only [hcheck] at h
    exact (raise_ok.mp h).elim
  | none =>
    simp only [hcheck, bind_ok, require_ok, updateOperation, modify_ok, onlyIf, if_neg hstate,
      pure_ok, event] at h
    obtain ⟨row, _, hrow, _, _, ⟨-, rfl⟩, _, _, rfl, _, _, ⟨-, rfl⟩, rfl⟩ := h
    rw [findOperation_reads _ _ _ _ hrow]

/-- Calls of `HandoffStore` and `HandoffChecks`. -/
def Call.ofHandoffs : Call → Bool
  | .createHandoff .. | .releaseExpired .. | .acknowledge .. | .releaseAllExpired | .claim ..
  | .confirmation .. | .finishCheck .. => true
  | _ => false

theorem settled_discard {α : Type} {m : Tx α} (h : Keeps Settled s m) :
    Keeps Settled s (do let _ ← m) :=
  .bind h fun _ _ _ => .pure _

namespace Workflows

theorem settled_openWorkflow (agentId : String) (operationId instanceId : Uuid) (request : Dict) :
    Keeps Settled s (openWorkflow env amb scope agentId operationId instanceId request) := by
  refine .read (findOperation_reads _) fun op _ => .require fun _ => ?_
  split
  · exact .get <| .read (.getOrRaise _ _) fun _ _ => .require fun _ => .pure _
  · exact .get <| .require fun _ => .bind (settled_elsewhere rfl) fun _ _ _ =>
      .bind settled_updateOperation fun _ _ _ => .bind settled_event fun _ _ _ => .pure _

theorem settled_lockWorkflow {α : Type} {agentId : String} {workflowId : Uuid}
    {script : Workflow → Script α} (h : ∀ row, Keeps Settled s (script row).atomic) :
    Keeps Settled s (lockWorkflow scope agentId workflowId script).atomic := by
  show Keeps Settled s fun s => _
  intro a t ht
  simp only [lockWorkflow, RowLock.Script.atomic] at ht
  split at ht
  · exact (raise_ok.mp ht).elim
  · next row _ => exact h row a t ht

theorem settled_begin (agentId : String) (workflowId instanceId commandId : Uuid)
    (request : Dict) :
    Keeps Settled s (begin env scope agentId workflowId instanceId commandId request).atomic := by
  refine settled_lockWorkflow fun row a t ht => ?_
  simp only [RowLock.Script.atomic] at ht
  split at ht
  · exact settled_of_eq (by rw [Reads.fromExcept _ _ _ _ ht])
  · split at ht
    · exact (raise_ok.mp ht).elim
    · simp only [RowLock.Script.atomic] at ht
      split at ht
      · exact (raise_ok.mp ht).elim
      · simp only [RowLock.Script.atomic, bind_ok, modify_ok, pure_ok] at ht
        obtain ⟨_, _, rfl, -, rfl⟩ := ht
        exact settled_of_eq rfl

theorem settled_finish (agentId : String) (workflowId commandId : Uuid) (result : Dict)
    (advance : Bool) :
    Keeps Settled s (finish scope agentId workflowId commandId result advance).atomic := by
  refine settled_lockWorkflow fun row => ?_
  show Keeps Settled s (finishRow scope workflowId commandId result advance)
  exact .get <| .bind (settled_elsewhere rfl) fun _ _ _ => .require fun _ =>
    .bind (settled_elsewhere rfl) fun _ _ _ => settled_event

theorem settled_closeRow (row : Workflow) (closing : Closing) :
    Keeps Settled s (closeRow env amb scope row closing) := by
  refine .ite (fun _ => .pure _) fun _ => .bind (.onlyIf fun _ => ?_) fun _ t _ => ?_
  · exact .read (findOperation_reads _) fun _ _ => .of_reads (.require _ _)
  · refine .bind (settled_elsewhere rfl) fun _ _ _ =>
      .bind (.onlyIf fun _ => .read (findOperation_reads _) fun op _ => ?_) fun _ _ _ =>
        settled_event
    split
    · exact settled_finishOperation
    · exact .pure _

end Workflows

/-- **Every other call leaves handoffs alone or resolves them.** -/
theorem run_settled {call : Call} (hc : call.ofHandoffs = false) :
    Keeps Settled s (call.run env amb scope) := by
  cases call with
  | createGrant policy =>
    exact settled_discard <| .read (unused_reads _ _) fun _ _ => .bind (settled_elsewhere rfl)
      fun _ _ _ => .bind settled_event fun _ _ _ => .pure _
  | revokeGrant grantId =>
    exact .get <| .require fun _ => .bind (settled_elsewhere rfl) fun _ _ _ => settled_event
  | clearPaymentHold grantId =>
    exact .get <| .require fun _ => .onlyIf fun _ => settled_event
  | configure settings => exact .bind (settled_elsewhere rfl) fun _ _ _ => settled_event
  | reserve grantId agentId proposal =>
    refine settled_discard fun a t h => ?_
    rcases reserve_ok h with rfl | ⟨row, -, rfl⟩
    · exact settled_of_eq rfl
    · exact settled_of_eq rfl
  | beginSubmit operationId agentId workflowId =>
    intro a t h
    obtain ⟨o, -, -, -, -, rfl⟩ := beginSubmit_ok h
    exact settled_of_eq rfl
  | bindPlan operationId agentId plan =>
    exact .read (findOperation_reads _) fun _ _ => .require fun _ => .require fun _ =>
      settled_updateOperation
  | recordLandedPages operationId urls =>
    exact .read (findOperation_reads _) fun _ _ => settled_updateOperation
  | waitForCode operationId =>
    exact .read (findOperation_reads _) fun _ _ => .require fun _ =>
      .bind settled_updateOperation fun _ _ _ => settled_event
  | resumeWithCode operationId =>
    exact .read (findOperation_reads _) fun _ _ => .require fun _ =>
      .read (livingPolicy_reads _) fun _ _ => .bind settled_updateOperation fun _ _ _ =>
      settled_event
  | finish operationId state evidence => exact settled_finishOperation
  | abandon operationId reason =>
    exact .read (findOperation_reads _) fun _ _ => .require fun _ =>
      .bind settled_finishOperation fun _ _ _ => settled_event
  | recordOperationEvent operationId text =>
    exact .read (findOperation_reads _) fun _ _ => settled_event
  | append operationId fact =>
    intro a t h
    obtain ⟨op, -, -, -, -, happended⟩ := append_ok h
    exact settled_of_eq happended.handoffs
  | recordRefusal operationId reason =>
    exact .read (findOperation_reads _) fun _ _ => settled_event
  | openWorkflow agentId operationId instanceId request =>
    exact settled_discard (settled_openWorkflow agentId operationId instanceId request)
  | beginCommand agentId workflowId instanceId commandId request =>
    exact settled_discard (settled_begin agentId workflowId instanceId commandId request)
  | finishCommand agentId workflowId commandId result advance =>
    exact settled_finish agentId workflowId commandId result advance
  | checkpoint agentId workflowId rejected =>
    exact .get <| .read (.getOrRaise _ _) fun _ _ => .read (findOperation_reads _) fun _ _ =>
      .require fun _ => .bind settled_updateOperation fun _ _ _ => settled_event
  | closeWorkflow agentId workflowId closing =>
    exact settled_lockWorkflow fun row => settled_closeRow row closing
  | _ => cases hc

/-! ## What the handoff calls write -/

/-- The row of a lapsed or revoked handoff. -/
def Handoff.released (h : Handoff) : Handoff :=
  { h with state := .expired, checkToken := none, checkLeaseUntil := none }

/-- `id=… AND state IN ('awaiting_external_action','checking')`. -/
def Handoff.isPending (scope : Scope) (handoffId : Uuid) (h : Handoff) : Bool :=
  h.scope = scope && h.id = handoffId && h.state.pending

/-- The operation goes back to its owner. -/
def Operation.returned (amb : Ambient) (o : Operation) : Operation :=
  { o with
    state := .awaitingInput, evidence := none, updatedAt := amb.now
    inputReason := some "external_verification_expired" }

/-- What a release comes to. -/
inductive Release (amb : Ambient) (scope : Scope) (handoffId operationId : Uuid)
    (s : DB) : DB → Prop
  | gone (h : ∀ h ∈ s.handoffs, h.isPending scope handoffId = false) :
      Release amb scope handoffId operationId s s
  | freed {t : DB}
      (hhandoffs : t.handoffs =
        Rows.updateWhere (Handoff.isPending scope handoffId) Handoff.released s.handoffs)
      (hoperations : t.operations = s.operations)
      (hleft : (∃ h ∈ t.handoffs, h.operationId = operationId ∧ h.state.pending = true) ∨
        ∃ o ∈ s.operations, o.id = operationId ∧ o.state ≠ .reconciling) :
      Release amb scope handoffId operationId s t
  | returned {t : DB}
      (hhandoffs : t.handoffs =
        Rows.updateWhere (Handoff.isPending scope handoffId) Handoff.released s.handoffs)
      (hoperations : t.operations =
        Rows.updateWhere (fun o => o.id = operationId) (Operation.returned amb) s.operations) :
      Release amb scope handoffId operationId s t

/-- **The operation is returned where no handoff of it is left and it is still reconciling.** -/
theorem releaseExpiredHandoff_ok {handoffId operationId : Uuid} {found : Bool}
    (h : releaseExpiredHandoff env amb scope handoffId operationId s = .ok (found, t)) :
    Release amb scope handoffId operationId s t := by
  simp only [releaseExpiredHandoff, bind_ok, get_ok] at h
  obtain ⟨_, s, ⟨rfl, rfl⟩, h⟩ := h
  split at h
  · simp only [updateHandoffs, event, bind_ok, modify_ok, get_ok] at h
    obtain ⟨_, _, rfl, _, _, rfl, _, _, ⟨rfl, rfl⟩, h⟩ := h
    split at h
    · next hleft =>
      obtain ⟨-, rfl⟩ := pure_ok.mp h
      obtain ⟨left, hmem, hpending⟩ := List.any_eq_true.mp hleft
      simp only [Bool.and_eq_true, decide_eq_true_eq] at hpending
      exact .freed rfl rfl (.inl ⟨left, hmem, hpending.1.2, hpending.2⟩)
    · obtain ⟨op, _, hop, h⟩ := bind_ok.mp h
      obtain rfl := findOperation_reads _ _ _ _ hop
      obtain ⟨hmem, hid, -⟩ := findOperation_some hop
      simp only [bind_ok, onlyIf] at h
      obtain ⟨_, _, hfinish, hdone⟩ := h
      obtain ⟨-, rfl⟩ := pure_ok.mp hdone
      split at hfinish
      · rw [finishOperation_ok (by simp) hfinish]
        exact .returned rfl rfl
      · next hstate =>
        obtain ⟨-, rfl⟩ := pure_ok.mp hfinish
        exact .freed rfl rfl (.inr ⟨op, hmem, hid, hstate⟩)
  · next hnone =>
    obtain ⟨-, rfl⟩ := pure_ok.mp h
    refine .gone fun h hmem => ?_
    rw [← Bool.not_eq_true]
    exact fun hp => hnone (List.any_eq_true.mpr ⟨h, hmem, hp⟩)

/-- A handoff that nobody has acknowledged. -/
structure Handoff.IsNew (s : DB) (row : Handoff) : Prop where
  fresh : row.id ∉ s.handoffs.map (·.id)
  state : row.state = .awaitingExternalAction
  checkToken : row.checkToken = none
  checkAttempts : row.checkAttempts = 0

/-- What `create` finds past its deadline. -/
def Handoff.lapses (amb : Ambient) (scope : Scope) (operationId : Uuid) (h : Handoff) : Bool :=
  h.scope = scope && h.operationId = operationId && h.state.pending && h.expiresAt ≤ amb.now.seconds

def Handoff.expired (h : Handoff) : Handoff := { h with state := .expired }

theorem handoffs_of_onlyIf {p : Prop} [Decidable p] {operationId : Uuid}
    (h : onlyIf p (finishOperation env amb scope operationId .reconciling none none) s =
      .ok ((), t)) : t.handoffs = s.handoffs := by
  unfold onlyIf at h
  split at h
  · rw [finishOperation_ok (by simp) h]
    rfl
  · rw [(pure_ok.mp h).2]

/-- **`create` answers for a handoff that is there, or adds one.** -/
theorem createHandoff_ok {operationId : Uuid} {agentId : String} {spec : HandoffRequest}
    {answer : Uuid × PublicState}
    (h : createHandoff env amb scope operationId agentId spec s = .ok (answer, t)) :
    t = s ∨ ∃ row : Handoff, row.IsNew s ∧ row.operationId = operationId ∧
      t.handoffs = Rows.updateWhere (Handoff.lapses amb scope operationId) Handoff.expired
        s.handoffs ++ [row] := by
  simp only [createHandoff, bind_ok, require_ok, fromExcept_ok, get_ok] at h
  obtain ⟨op, _, hop, _, _, ⟨-, rfl⟩, _, _, hsettings, policy, _, hpolicy, _, _, ⟨-, rfl⟩,
    _, _, ⟨-, rfl⟩, _, _, ⟨-, rfl⟩, origin, _, ⟨-, rfl⟩, _, _, ⟨-, rfl⟩, _, _, ⟨-, rfl⟩,
    decision, _, hbudget, _, _, ⟨-, rfl⟩, _, _, ⟨rfl, rfl⟩, h⟩ := h
  obtain rfl := findOperation_reads _ _ _ _ hop
  obtain rfl := checkSettings_reads _ _ _ _ hsettings
  obtain rfl := livePolicy_reads _ _ _ _ hpolicy
  obtain rfl := budgetDecision_reads _ _ _ _ _ _ _ hbudget
  generalize List.find? _ _ = prior at h
  cases prior with
  | some prior =>
    simp only [bind_ok, require_ok, pure_ok] at h
    obtain ⟨_, _, ⟨-, rfl⟩, -, rfl⟩ := h
    exact .inl rfl
  | none =>
    simp only [updateHandoffs, unused, event, bind_ok, modify_ok, get_ok, require_ok] at h
    obtain ⟨_, _, rfl, _, _, ⟨rfl, rfl⟩, _, _, ⟨-, rfl⟩, _, _, ⟨_, _, ⟨rfl, rfl⟩, hfresh, rfl⟩,
      _, _, rfl, _, v, honly, _, _, rfl, h⟩ := h
    obtain ⟨-, rfl⟩ := pure_ok.mp h
    refine .inr ⟨_, ?_, ?_, handoffs_of_onlyIf honly⟩
    · refine ⟨?_, rfl, rfl, rfl⟩
      intro hmem
      rw [← @Rows.map_updateWhere _ _ Handoff.id (Handoff.lapses amb scope operationId)
        Handoff.expired _ fun _ _ => rfl] at hmem
      exact hfresh hmem
    · rfl

/-- What an acknowledgement makes of the row. -/
def Handoff.armed (h : Handoff) : Handoff :=
  { h with
    checkAttempts := if h.state = .checking then h.checkAttempts else 0
    checkLeaseUntil := if h.state = .checking then h.checkLeaseUntil else none
    state := .checking }

theorem acknowledge_ok {handoffId : Uuid} {answer : Uuid × String × Confirmation}
    (h : acknowledge amb scope handoffId s = .ok (answer, t)) :
    ∃ row ∈ s.handoffs, row.id = handoffId ∧ row.state.pending = true ∧
      t.operations = s.operations ∧
      t.handoffs = Rows.updateWhere (fun h => h.id = handoffId) Handoff.armed s.handoffs := by
  simp only [acknowledge, bind_ok, get_ok, getOrRaise_ok, require_ok] at h
  obtain ⟨_, _, ⟨rfl, rfl⟩, row, _, ⟨hrow, rfl⟩, _, _, ⟨-, rfl⟩, op, _, hop, _, _, ⟨hpending, rfl⟩,
    _, _, hsettings, policy, _, hpolicy, h⟩ := h
  obtain rfl := findOperation_reads _ _ _ _ hop
  obtain rfl := checkSettings_reads _ _ _ _ hsettings
  obtain rfl := livePolicy_reads _ _ _ _ hpolicy
  simp only [updateHandoffs, event, modify_ok, pure_ok] at h
  obtain ⟨_, _, rfl, _, _, rfl, -, rfl⟩ := h
  have hid := List.find?_some hrow
  simp only [Bool.and_eq_true, decide_eq_true_eq] at hid
  exact ⟨row, List.mem_of_find?_eq_some hrow, hid.1, hpending.1, rfl, rfl⟩

/-- A check of this handoff may start. -/
def Handoff.ready (amb : Ambient) (scope : Scope) (handoffId : Uuid) (s : DB) (h : Handoff) :
    Bool :=
  h.scope = scope && h.id = handoffId && h.state = .checking && amb.now.seconds < h.expiresAt &&
    h.checkAttempts < MAX_CHECK_ATTEMPTS && h.unleased amb.now &&
    s.operations.any fun o => o.id = h.operationId && o.scope = h.scope && o.state = .reconciling

def Handoff.leased (amb : Ambient) (h : Handoff) : Handoff :=
  { h with
    checkToken := some (amb.uuid 0)
    checkLeaseUntil := some (amb.now.seconds + 240)
    checkAttempts := h.checkAttempts + 1 }

/-- What `startCheck` comes to. -/
def Started (amb : Ambient) (scope : Scope) (handoffId : Uuid) (s : DB)
    (answer : Option (Uuid × String × Uuid)) (t : DB) : Prop :=
  answer = none ∧ t = s ∨
    answer.isSome = true ∧ (∃ row ∈ s.handoffs, row.ready amb scope handoffId s = true) ∧
      t.operations = s.operations ∧
      t.handoffs = Rows.updateWhere (Handoff.ready amb scope handoffId s) (Handoff.leased amb)
        s.handoffs

theorem startCheck_ok {handoffId : Uuid} {answer : Option (Uuid × String × Uuid)}
    (h : startCheck amb scope handoffId s = .ok (answer, t)) :
    Started amb scope handoffId s answer t := by
  simp only [startCheck, bind_ok, get_ok] at h
  obtain ⟨_, _, ⟨rfl, rfl⟩, h⟩ := h
  generalize hfind : List.find? _ _ = found at h
  cases found with
  | none => exact .inl (pure_ok.mp h)
  | some row =>
    simp only [updateHandoffs, event, bind_ok, modify_ok, pure_ok] at h
    obtain ⟨_, _, rfl, _, _, rfl, rfl, rfl⟩ := h
    exact .inr ⟨rfl, ⟨row, List.mem_of_find?_eq_some hfind, List.find?_some hfind⟩, rfl, rfl⟩

/-- A check that has used up its attempts, with no lease on it. -/
def Handoff.exhausts (amb : Ambient) (handoffId : Uuid) (h : Handoff) : Bool :=
  h.id = handoffId && h.state = .checking && h.unleased amb.now

/-- It goes back to the owner. -/
def Handoff.idle (h : Handoff) : Handoff :=
  { h with state := .awaitingExternalAction, checkToken := none, checkLeaseUntil := none }

/-- What `claim` does first: nothing, or the exhausted handoff goes back. -/
def Exhausted (amb : Ambient) (handoffId : Uuid) (s u : DB) : Prop :=
  u = s ∨ u =
    { s with
      handoffs := Rows.updateWhere (Handoff.exhausts amb handoffId) Handoff.idle s.handoffs }

/-- **`claim` releases the handoff or tries to start its check.** -/
theorem claim_ok {handoffId : Uuid} {answer : Option (Uuid × String × Uuid)}
    (h : claim env amb scope handoffId s = .ok (answer, t)) :
    ∃ u, Exhausted amb handoffId s u ∧
      (Started amb scope handoffId u answer t ∨
        answer = none ∧ ∃ row ∈ s.handoffs, row.id = handoffId ∧
          Release amb scope handoffId row.operationId u t) := by
  simp only [claim, bind_ok, get_ok] at h
  obtain ⟨_, _, ⟨rfl, rfl⟩, h⟩ := h
  generalize hrecord : findHandoff _ _ _ = record at h
  cases record with
  | none => exact ⟨_, .inl rfl, .inl (startCheck_ok h)⟩
  | some record =>
    have hid := List.find?_some hrecord
    simp only [Bool.and_eq_true, decide_eq_true_eq] at hid
    have hmem := List.mem_of_find?_eq_some hrecord
    dsimp only at h
    split at h
    · obtain ⟨_, _, hrelease, h⟩ := bind_ok.mp h
      obtain ⟨rfl, rfl⟩ := pure_ok.mp h
      rw [hid.1] at hrelease
      exact ⟨_, .inl rfl, .inr ⟨rfl, record, hmem, hid.1, releaseExpiredHandoff_ok hrelease⟩⟩
    · obtain ⟨_, u, hexhausted, h⟩ := bind_ok.mp h
      refine ⟨u, ?_, ?_⟩
      · unfold onlyIf at hexhausted
        split at hexhausted
        · exact .inr (modify_ok.mp hexhausted)
        · exact .inl (pure_ok.mp hexhausted).2
      · simp only [bind_ok, get_ok] at h
        obtain ⟨_, _, ⟨rfl, rfl⟩, h⟩ := h
        split at h
        · exact .inl (startCheck_ok h)
        · obtain ⟨_, _, hrelease, h⟩ := bind_ok.mp h
          obtain ⟨rfl, rfl⟩ := pure_ok.mp h
          rw [hid.1] at hrelease
          exact .inr ⟨rfl, record, hmem, hid.1, releaseExpiredHandoff_ok hrelease⟩

theorem confirmation_reads (handoffId token : Uuid) :
    Reads (confirmation amb scope handoffId token) :=
  .bind .get fun _ => .bind (.getOrRaise _ _) fun _ => .pure _

theorem releaseExpired_ok {handoffId : Uuid}
    (h : releaseExpired env amb scope handoffId s = .ok ((), t)) :
    t = s ∨ ∃ row ∈ s.handoffs, row.id = handoffId ∧
      Release amb scope handoffId row.operationId s t := by
  simp only [releaseExpired, bind_ok, get_ok] at h
  obtain ⟨_, _, ⟨rfl, rfl⟩, h⟩ := h
  generalize hfind : Option.filter _ _ = found at h
  cases found with
  | none => exact .inl (pure_ok.mp h).2
  | some row =>
    obtain ⟨_, _, hrelease, h⟩ := bind_ok.mp h
    obtain ⟨-, rfl⟩ := pure_ok.mp h
    have hfound := (Option.filter_eq_some_iff.mp hfind).1
    have hid := List.find?_some hfound
    simp only [Bool.and_eq_true, decide_eq_true_eq] at hid
    rw [hid.1] at hrelease
    exact .inr ⟨row, List.mem_of_find?_eq_some hfound, hid.1, releaseExpiredHandoff_ok hrelease⟩

/-- The check that `finish` reports of. -/
def Handoff.held (scope : Scope) (handoffId token : Uuid) (h : Handoff) : Bool :=
  h.scope = scope && h.id = handoffId && h.state = .checking && h.checkToken = some token

def Handoff.checked (amb : Ambient) (retry : Bool) (h : Handoff) : Handoff :=
  { h with
    state :=
      if h.expiresAt ≤ amb.now.seconds then .expired
      else if retry ∧ h.checkAttempts < MAX_CHECK_ATTEMPTS then .checking
      else .awaitingExternalAction
    checkToken := none
    checkLeaseUntil := if retry then some (amb.now.seconds + 20) else none }

/-- **`finish` reports of the check that holds the token, if there is one.** -/
theorem finishCheck_ok {handoffId token : Uuid} {retry : Bool}
    (h : finishCheck amb scope handoffId token retry s = .ok ((), t)) :
    (t = s ∧ ∀ h ∈ s.handoffs, h.held scope handoffId token = false) ∨
      t.operations = s.operations ∧
        t.handoffs = Rows.updateWhere (Handoff.held scope handoffId token)
          (Handoff.checked amb retry) s.handoffs := by
  simp only [finishCheck, bind_ok, get_ok] at h
  obtain ⟨_, _, ⟨rfl, rfl⟩, h⟩ := h
  generalize hfind : List.find? _ _ = found at h
  cases found with
  | none =>
    refine .inl ⟨(pure_ok.mp h).2, fun h hmem => ?_⟩
    rw [← Bool.not_eq_true]
    exact List.find?_eq_none.mp hfind h hmem
  | some row =>
    simp only [updateHandoffs, event, bind_ok, modify_ok] at h
    obtain ⟨_, _, rfl, rfl⟩ := h
    exact .inr ⟨rfl, rfl⟩

/-! ## What a step makes of a row -/

/-- Everything that can become of a handoff in one step, with the call that does it. -/
inductive Moves (a : Step) (h : Handoff) : Handoff → Prop
  | stays : Moves a h h
  | resolved : Moves a h { h with state := .resolved }
  | lapsed (hp : h.state.pending = true) : Moves a h h.expired
  | released (hp : h.state.pending = true) : Moves a h h.released
  | armed (hcall : a.call = .acknowledge h.id) (hp : h.state.pending = true) : Moves a h h.armed
  | idled (hcall : a.call = .claim h.id) (hs : h.state = .checking) : Moves a h h.idle
  | leased (hcall : a.call = .claim h.id) (hs : h.state = .checking)
      (hlt : h.checkAttempts < MAX_CHECK_ATTEMPTS) : Moves a h (h.leased a.amb)
  | checked {token : Uuid} {retry : Bool} (hcall : a.call = .finishCheck h.id token retry)
      (hs : h.state = .checking) (ht : h.checkToken = some token) :
      Moves a h (h.checked a.amb retry)

theorem Moves.id {a : Step} {h h' : Handoff} (hm : Moves a h h') : h'.id = h.id := by
  cases hm <;> rfl

theorem Moves.operationId {a : Step} {h h' : Handoff} (hm : Moves a h h') :
    h'.operationId = h.operationId := by
  cases hm <;> rfl

/-- The identities are a primary key. -/
def DB.HandoffsUnique (s : DB) : Prop := Rows.KeyUnique Handoff.id s.handoffs

/-- Every row moves, and at most one is new. -/
def MovesTo (a : Step) (s t : DB) : Prop :=
  ∃ rows, ∃ new : Option Handoff, Rowwise (Moves a) s.handoffs rows ∧
    t.handoffs = rows ++ new.toList ∧ ∀ row ∈ new, row.IsNew s

theorem movesTo_of_rowwise {a : Step} (h : Rowwise (Moves a) s.handoffs t.handoffs) :
    MovesTo a s t :=
  ⟨t.handoffs, none, h, (List.append_nil _).symm, by simp⟩

theorem movesTo_of_eq {a : Step} (h : t.handoffs = s.handoffs) : MovesTo a s t := by
  apply movesTo_of_rowwise
  rw [h]
  exact .refl (fun _ => .stays) _

/-- What releases do to a row. -/
def Releases (h h' : Handoff) : Prop := h' = h ∨ h.state.pending = true ∧ h' = h.released

theorem Release.rowwise {handoffId operationId : Uuid}
    (h : Release amb scope handoffId operationId s t) :
    Rowwise Releases s.handoffs t.handoffs := by
  have hupdate : Rowwise Releases s.handoffs
      (Rows.updateWhere (Handoff.isPending scope handoffId) Handoff.released s.handoffs) := by
    refine .updateWhere (fun _ => .inl rfl) fun row _ hp => .inr ⟨?_, rfl⟩
    unfold Handoff.isPending at hp
    simp only [Bool.and_eq_true] at hp
    exact hp.2
  cases h with
  | gone => exact .refl (fun _ => .inl rfl) _
  | freed hhandoffs => exact hhandoffs ▸ hupdate
  | returned hhandoffs => exact hhandoffs ▸ hupdate

theorem Releases.trans {h h' h'' : Handoff} (hr : Releases h h') (hr' : Releases h' h'') :
    Releases h h'' := by
  rcases hr with rfl | ⟨hp, rfl⟩
  · exact hr'
  · rcases hr' with rfl | ⟨hp', -⟩
    · exact .inr ⟨hp, rfl⟩
    · cases hp'

theorem Releases.moves {a : Step} {h h' : Handoff} (hr : Releases h h') : Moves a h h' := by
  rcases hr with rfl | ⟨hp, rfl⟩
  · exact .stays
  · exact .released hp

def ReleasesTo (s t : DB) : Prop := Rowwise Releases s.handoffs t.handoffs

instance : Std.Refl ReleasesTo where
  refl s := .refl (fun _ => .inl rfl) s.handoffs

instance : IsTrans DB ReleasesTo where
  trans _ _ _ := Rowwise.trans fun _ _ _ => Releases.trans

theorem keeps_releaseAllExpired_rows :
    Keeps ReleasesTo s (releaseAllExpired env amb scope) := by
  refine .get (.mapM (fun row u => ?_) _ s)
  intro found t hrow
  exact (releaseExpiredHandoff_ok hrow).rowwise

/-- The two steps of `claim` on a row. -/
theorem claim_rowwise {a : Step} {handoffId : Uuid} {u : DB}
    {answer : Option (Uuid × String × Uuid)} (hcall : a.call = .claim handoffId)
    (hu : Exhausted a.amb handoffId s u)
    (ht : Started a.amb a.scope handoffId u answer t ∨
      answer = none ∧ ∃ row ∈ s.handoffs, row.id = handoffId ∧
        Release a.amb a.scope handoffId row.operationId u t) :
    Rowwise (Moves a) s.handoffs t.handoffs := by
  have hexhausted : Rowwise (fun h h' => h' = h ∨
      h.id = handoffId ∧ h.state = .checking ∧ h' = h.idle) s.handoffs u.handoffs := by
    rcases hu with rfl | rfl
    · exact .refl (fun _ => .inl rfl) _
    · refine .updateWhere (fun _ => .inl rfl) fun row _ hp => .inr ?_
      unfold Handoff.exhausts at hp
      simp only [Bool.and_eq_true, decide_eq_true_eq] at hp
      exact ⟨hp.1.1, hp.1.2, rfl⟩
  have hidled : Rowwise (Moves a) s.handoffs u.handoffs := by
    refine hexhausted.mono fun row _ row' hrow => ?_
    rcases hrow with rfl | ⟨rfl, hs, rfl⟩
    · exact .stays
    · exact .idled hcall hs
  rcases ht with (⟨-, rfl⟩ | ⟨-, -, -, hleased⟩) | ⟨-, row, -, -, hrelease⟩
  · exact hidled
  · rw [hleased]
    refine hexhausted.trans (Q := fun h h' => h' = h ∨ h.id = handoffId ∧ h.state = .checking ∧
        h.checkAttempts < MAX_CHECK_ATTEMPTS ∧ h' = h.leased a.amb) ?_
      (.updateWhere (fun _ => .inl rfl) fun row _ hp => .inr ?_)
    · intro h h' h'' hrow hrow'
      -- a row that went back is no longer being checked
      rcases hrow with rfl | ⟨rfl, hs, rfl⟩
      · rcases hrow' with rfl | ⟨rfl, hs, hlt, rfl⟩
        · exact .stays
        · exact .leased hcall hs hlt
      · rcases hrow' with rfl | ⟨-, hs', -⟩
        · exact .idled hcall hs
        · cases hs'
    · unfold Handoff.ready at hp
      simp only [Bool.and_eq_true, decide_eq_true_eq] at hp
      exact ⟨hp.1.1.1.1.1.2, hp.1.1.1.1.2, hp.1.1.2, rfl⟩
  · refine hexhausted.trans ?_ hrelease.rowwise
    intro h h' h'' hrow hrow'
    rcases hrow with rfl | ⟨rfl, hs, rfl⟩
    · exact hrow'.moves
    · rcases hrow' with rfl | ⟨-, rfl⟩
      · exact .idled hcall hs
      · exact .released (by rw [hs]; rfl)

/-- **Step lemma.** Whatever a step does, every handoff moves as listed, and at most one is new. -/
theorem handoffs_move {a : Step} (hk : s.HandoffsUnique) (h : (storeSystem env).step s a t) :
    MovesTo a s t := by
  have ht : t = (a.tx env).commit s := h
  rw [ht]
  refine commit_induction (movesTo_of_eq rfl) fun _ t hm => ?_
  obtain ⟨scope, amb, call⟩ := a
  by_cases hc : call.ofHandoffs = false
  · obtain hsettled := run_settled hc _ _ hm
    refine movesTo_of_rowwise (hsettled.mono fun row _ row' hrow => ?_)
    rcases hrow with rfl | rfl
    · exact .stays
    · exact .resolved
  · cases call with
    | createHandoff operationId agentId spec =>
      obtain ⟨_, u, hcreate, hdone⟩ := bind_ok.mp hm
      obtain rfl := (pure_ok.mp hdone).2
      rcases createHandoff_ok hcreate with rfl | ⟨row, hnew, -, hhandoffs⟩
      · exact movesTo_of_eq rfl
      · refine ⟨_, some row, .updateWhere (fun _ => .stays) fun r _ hp => .lapsed ?_, hhandoffs, ?_⟩
        · unfold Handoff.lapses at hp
          simp only [Bool.and_eq_true] at hp
          exact hp.1.2
        · rintro _ ⟨⟩
          exact hnew
    | releaseExpired handoffId =>
      rcases releaseExpired_ok hm with rfl | ⟨row, -, -, hrelease⟩
      · exact movesTo_of_eq rfl
      · exact movesTo_of_rowwise (hrelease.rowwise.mono fun _ _ _ hrow => hrow.moves)
    | acknowledge handoffId =>
      obtain ⟨_, u, hack, hdone⟩ := bind_ok.mp hm
      obtain rfl := (pure_ok.mp hdone).2
      obtain ⟨row, hmem, hid, hp, -, hhandoffs⟩ := acknowledge_ok hack
      apply movesTo_of_rowwise
      rw [hhandoffs]
      refine .updateWhere (fun _ => .stays) fun r hr hpr => ?_
      obtain rfl := hk.eq hr hmem ((of_decide_eq_true hpr).trans hid.symm)
      exact .armed (congrArg Call.acknowledge hid.symm) hp
    | releaseAllExpired =>
      obtain ⟨_, u, hrelease, hdone⟩ := bind_ok.mp hm
      obtain rfl := (pure_ok.mp hdone).2
      exact movesTo_of_rowwise
        ((keeps_releaseAllExpired_rows _ _ hrelease).mono fun _ _ _ hrow => hrow.moves)
    | claim handoffId =>
      obtain ⟨answer, v, hclaim, hdone⟩ := bind_ok.mp hm
      obtain rfl := (pure_ok.mp hdone).2
      obtain ⟨u, hu, hcases⟩ := claim_ok hclaim
      exact movesTo_of_rowwise (claim_rowwise rfl hu hcases)
    | confirmation handoffId token =>
      obtain ⟨_, u, hread, hdone⟩ := bind_ok.mp hm
      obtain rfl := (pure_ok.mp hdone).2
      rw [confirmation_reads handoffId token _ _ _ hread]
      exact movesTo_of_eq rfl
    | finishCheck handoffId token retry =>
      rcases finishCheck_ok hm with ⟨rfl, -⟩ | ⟨-, hhandoffs⟩
      · exact movesTo_of_eq rfl
      · apply movesTo_of_rowwise
        rw [hhandoffs]
        refine .updateWhere (fun _ => .stays) fun r _ hp => ?_
        unfold Handoff.held at hp
        simp only [Bool.and_eq_true, decide_eq_true_eq] at hp
        obtain ⟨⟨⟨-, rfl⟩, hs⟩, htoken⟩ := hp
        exact .checked rfl hs htoken
    | _ => exact absurd rfl hc

end GenusOs.Autonomy
