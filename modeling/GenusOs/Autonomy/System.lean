import GenusOs.Autonomy.Writes
import GenusOs.Library.Run

/-!
# Runs of the stores

The transactions of the stores as steps of one system, over all owners and in any order. A call
that raises leaves the database as it is.

* `stepCase_of`, `step_cases`: what a step of the system comes to.
* `StepCase.operations`: operations only evolve, or a new one is admitted.
* `run_same`: over a run they stay what they are.
-/

namespace GenusOs.Autonomy

open GenusOs.Python Transaction Workflows

inductive Call
  | createGrant (policy : Delegation)
  | revokeGrant (grantId : Uuid)
  | clearPaymentHold (grantId : Uuid)
  | configure (settings : RuntimeSettings)
  | reserve (grantId : Uuid) (agentId : String) (proposal : WebOperation)
  | beginSubmit (operationId : Uuid) (agentId : String) (workflowId : Option Uuid)
  | bindPlan (operationId : Uuid) (agentId : String) (plan : Dict)
  | recordLandedPages (operationId : Uuid) (urls : List String)
  | waitForCode (operationId : Uuid)
  | resumeWithCode (operationId : Uuid)
  | finish (operationId : Uuid) (state : OperationState) (evidence : Option Dict)
  | abandon (operationId : Uuid) (reason : String)
  | recordOperationEvent (operationId : Uuid) (text : String)
  | append (operationId : Uuid) (fact : PaymentFact)
  | recordRefusal (operationId : Uuid) (reason : String)
  | createHandoff (operationId : Uuid) (agentId : String) (spec : HandoffRequest)
  | releaseExpired (handoffId : Uuid)
  | acknowledge (handoffId : Uuid)
  | releaseAllExpired
  | claim (handoffId : Uuid)
  | confirmation (handoffId token : Uuid)
  | finishCheck (handoffId token : Uuid) (retry : Bool)
  | openWorkflow (agentId : String) (operationId instanceId : Uuid) (request : Dict)
  | beginCommand (agentId : String) (workflowId instanceId commandId : Uuid) (request : Dict)
  | finishCommand (agentId : String) (workflowId commandId : Uuid) (result : Dict) (advance : Bool)
  | checkpoint (agentId : String) (workflowId : Uuid) (rejected : Bool)
  | closeWorkflow (agentId : String) (workflowId : Uuid) (closing : Closing)

/-- The transaction of a call, without its answer. -/
def Call.run (env : Platform) (amb : Ambient) (scope : Scope) : Call → Tx Unit
  | .createGrant policy => do let _ ← Autonomy.createGrant amb scope policy
  | .revokeGrant grantId => Autonomy.revokeGrant scope grantId
  | .clearPaymentHold grantId => Autonomy.clearPaymentHold scope grantId
  | .configure settings => Autonomy.configure amb scope settings
  | .reserve grantId agentId proposal => do
    let _ ← Autonomy.reserve env amb scope grantId agentId proposal
  | .beginSubmit operationId agentId workflowId =>
    Autonomy.beginSubmit env amb scope operationId agentId workflowId
  | .bindPlan operationId agentId plan => Autonomy.bindPlan scope operationId agentId plan
  | .recordLandedPages operationId urls => Autonomy.recordLandedPages env scope operationId urls
  | .waitForCode operationId => Autonomy.waitForCode amb scope operationId
  | .resumeWithCode operationId => Autonomy.resumeWithCode amb scope operationId
  | .finish operationId state evidence =>
    Autonomy.finish env amb scope operationId state evidence
  | .abandon operationId reason => Autonomy.abandon env amb scope operationId reason
  | .recordOperationEvent operationId text =>
    Autonomy.recordOperationEvent scope operationId text
  | .append operationId fact => Autonomy.append env amb scope operationId fact
  | .recordRefusal operationId reason => Autonomy.recordRefusal scope operationId reason
  | .createHandoff operationId agentId spec => do
    let _ ← Autonomy.createHandoff env amb scope operationId agentId spec
  | .releaseExpired handoffId => Autonomy.releaseExpired env amb scope handoffId
  | .acknowledge handoffId => do let _ ← Autonomy.acknowledge amb scope handoffId
  | .releaseAllExpired => do let _ ← Autonomy.releaseAllExpired env amb scope
  | .claim handoffId => do let _ ← Autonomy.claim env amb scope handoffId
  | .confirmation handoffId token => do
    let _ ← Autonomy.confirmation amb scope handoffId token
  | .finishCheck handoffId token retry => Autonomy.finishCheck amb scope handoffId token retry
  | .openWorkflow agentId operationId instanceId request => do
    let _ ← Workflows.openWorkflow env amb scope agentId operationId instanceId request
  | .beginCommand agentId workflowId instanceId commandId request => do
    let _ ← (Workflows.begin env scope agentId workflowId instanceId commandId request).atomic
  | .finishCommand agentId workflowId commandId result advance =>
    (Workflows.finish scope agentId workflowId commandId result advance).atomic
  | .checkpoint agentId workflowId rejected =>
    Workflows.checkpoint amb scope agentId workflowId rejected
  | .closeWorkflow agentId workflowId closing =>
    (Workflows.close env amb scope agentId workflowId closing).atomic

/-- A call for an owner, and what it reads of the world. -/
structure Step where
  scope : Scope
  amb : Ambient
  call : Call

def Step.tx (env : Platform) (a : Step) : Tx Unit := a.call.run env a.amb a.scope

/-- The stores over a fresh database. -/
def storeSystem (env : Platform) : System DB Step where
  init db := db = {}
  step db a db' := db' = (a.tx env).commit db

/-! ## What a call writes -/

/-- Calls that do more than `Writes`. -/
def Call.special : Call → Bool
  | .clearPaymentHold .. | .reserve .. | .beginSubmit .. | .abandon .. | .recordOperationEvent ..
  | .append .. => true
  | _ => false

/-- Calls that write workflows or their commands. -/
def Call.ofJournal : Call → Bool
  | .openWorkflow .. | .beginCommand .. | .finishCommand .. | .closeWorkflow .. => true
  | _ => false

variable {env : Platform} {amb : Ambient} {J : Prop} {scope : Scope} {s t : DB}

theorem keeps_discard {α : Type} {m : Tx α} (h : Keeps (Writes amb J) s m) :
    Keeps (Writes amb J) s (do let _ ← m) :=
  .bind h fun _ _ _ => .pure _

theorem run_keeps {call : Call} (hs : call.special = false) (hJ : call.ofJournal = true → J) :
    Keeps (Writes amb J) s (call.run env amb scope) := by
  cases call with
  | createGrant policy => exact keeps_discard (keeps_createGrant policy)
  | revokeGrant grantId => exact keeps_revokeGrant grantId
  | clearPaymentHold => cases hs
  | configure settings => exact keeps_configure settings
  | reserve => cases hs
  | beginSubmit => cases hs
  | bindPlan operationId agentId plan => exact keeps_bindPlan operationId agentId plan
  | recordLandedPages operationId urls => exact keeps_recordLandedPages operationId urls
  | waitForCode operationId => exact keeps_waitForCode operationId
  | resumeWithCode operationId => exact keeps_resumeWithCode operationId
  | finish operationId state evidence => exact keeps_finishOperation (by simp)
  | abandon => cases hs
  | recordOperationEvent => cases hs
  | append => cases hs
  | recordRefusal operationId reason => exact keeps_recordRefusal operationId reason
  | createHandoff operationId agentId spec =>
    exact keeps_discard (keeps_createHandoff operationId agentId spec)
  | releaseExpired handoffId => exact keeps_releaseExpired handoffId
  | acknowledge handoffId => exact keeps_discard (keeps_acknowledge handoffId)
  | releaseAllExpired => exact keeps_discard keeps_releaseAllExpired
  | claim handoffId => exact keeps_discard (keeps_claim handoffId)
  | confirmation handoffId token => exact keeps_discard (keeps_confirmation handoffId token)
  | finishCheck handoffId token retry => exact keeps_finishCheck handoffId token retry
  | openWorkflow agentId operationId instanceId request =>
    exact keeps_discard (keeps_openWorkflow (hJ rfl) agentId operationId instanceId request)
  | beginCommand agentId workflowId instanceId commandId request =>
    exact keeps_discard (keeps_begin (hJ rfl) agentId workflowId instanceId commandId request)
  | finishCommand agentId workflowId commandId result advance =>
    exact keeps_finish (hJ rfl) agentId workflowId commandId result advance
  | checkpoint agentId workflowId rejected => exact keeps_checkpoint agentId workflowId rejected
  | closeWorkflow agentId workflowId closing =>
    exact keeps_close (hJ rfl) agentId workflowId closing

/-- What a step of the system comes to. -/
inductive StepCase (env : Platform) (J : Prop) (s : DB) (a : Step) : DB → Prop
  | writes {t : DB} (h : Writes a.amb J s t) : StepCase env J s a t
  | reserve {row : Operation} (h : Admits env a.amb s row) :
      StepCase env J s a
        ((s.insertOperation row).record row.scope (.operation row.id) "reserved")
  | submit {o : Operation} {agentId : String} {workflowId : Option Uuid}
      (hcall : a.call = .beginSubmit o.id agentId workflowId) (ho : o ∈ s.operations)
      (hstate : o.state = .reserved) :
      StepCase env J s a ((s.updateOperation o.id fun o =>
        { o with state := .submitting, updatedAt := a.amb.now }).record a.scope (.operation o.id)
          "submitting")
  | note {u : DB} {operationId : Uuid} {text : String}
      (hcall : a.call = .abandon operationId text ∨ a.call = .recordOperationEvent operationId text)
      (hop : ∃ o ∈ s.operations, o.id = operationId) (h : Writes a.amb J s u) :
      StepCase env J s a (u.record a.scope (.operation operationId) text)
  | append {op : Operation} {fact : PaymentFact} {t : DB} (hcall : a.call = .append op.id fact)
      (hop : op ∈ s.operations) (hscope : op.scope = a.scope)
      (hissuer : fact.source = .merchant → fact.kind = .submitted)
      (h : Appended s a.scope op fact t) :
      StepCase env J s a t
  | clear {grantId : Uuid} (hcall : a.call = .clearPaymentHold grantId) :
      StepCase env J s a (s.record a.scope (.grant grantId) HOLD_CLEARED)

/-- **Step lemma.** `J` may be false of a call that has nothing to do with workflows. -/
theorem stepCase_of {a : Step} (hJ : a.call.ofJournal = true → J)
    (h : (storeSystem env).step s a t) : StepCase env J s a t := by
  have ht : t = (a.tx env).commit s := h
  rw [ht]
  refine commit_induction (.writes .refl) fun _ t hm => ?_
  obtain ⟨scope, amb, call⟩ := a
  by_cases hs : call.special = true
  · cases call with
    | clearPaymentHold grantId =>
      rcases clearPaymentHold_ok hm with rfl | rfl
      · exact .writes .refl
      · exact .clear rfl
    | reserve grantId agentId proposal =>
      obtain ⟨_, u, hreserve, hdone⟩ := bind_ok.mp hm
      obtain rfl := (pure_ok.mp hdone).2
      rcases reserve_ok hreserve with rfl | ⟨row, hadmits, rfl⟩
      · exact .writes .refl
      · exact .reserve hadmits
    | beginSubmit operationId agentId workflowId =>
      obtain ⟨o, ho, rfl, -, hstate, rfl⟩ := beginSubmit_ok hm
      exact .submit rfl ho hstate
    | abandon operationId reason =>
      obtain ⟨hop, u, hu, rfl⟩ := abandon_ok hm
      exact .note (.inl rfl) hop hu
    | recordOperationEvent operationId text =>
      obtain ⟨hop, rfl⟩ := recordOperationEvent_ok hm
      exact .note (.inr rfl) hop .refl
    | append operationId fact =>
      obtain ⟨op, hop, rfl, hscope, hissuer, happended⟩ := append_ok hm
      exact .append rfl hop hscope hissuer happended
    | _ => cases hs
  · exact .writes (run_keeps (by simpa using hs) hJ _ t hm)

theorem step_cases {a : Step} (h : (storeSystem env).step s a t) : StepCase env True s a t :=
  stepCase_of (fun _ => trivial) h

/-! ## Operations over a run -/

def DB.KeysUnique (s : DB) : Prop := Rows.KeyUnique Operation.id s.operations

theorem updateOperation_evolves {o : Operation} {f : Operation → Operation}
    (hu : s.KeysUnique) (ho : o ∈ s.operations) (h : Evolves amb o (f o)) :
    List.Forall₂ (Evolves amb) s.operations (s.updateOperation o.id f).operations := by
  show List.Forall₂ (Evolves amb) s.operations (Rows.updateWhere _ f s.operations)
  unfold Rows.updateWhere
  rw [List.forall₂_map_right_iff, List.forall₂_same]
  intro r hr
  split
  · next hid =>
    rw [hu.eq hr ho (by simpa using hid)]
    exact h
  · exact .refl amb r

theorem keysUnique_of_evolves (hu : s.KeysUnique)
    (h : List.Forall₂ (Evolves amb) s.operations t.operations) : t.KeysUnique := by
  have hids : ∀ {l l' : List Operation}, List.Forall₂ (Evolves amb) l l' →
      l'.map Operation.id = l.map Operation.id := by
    intro l l' hl
    induction hl with
    | nil => rfl
    | cons ho _ ih => rw [List.map_cons, List.map_cons, ho.id, ih]
  unfold DB.KeysUnique Rows.KeyUnique at *
  rw [hids h]
  exact hu

theorem evolves_refl (amb : Ambient) (l : List Operation) : List.Forall₂ (Evolves amb) l l :=
  List.forall₂_same.mpr fun o _ => .refl amb o

theorem evolves_trans {l l' l'' : List Operation} (h : List.Forall₂ (Evolves amb) l l')
    (h' : List.Forall₂ (Evolves amb) l' l'') : List.Forall₂ (Evolves amb) l l'' := by
  induction h generalizing l'' with
  | nil => exact h'
  | cons ho _ ih =>
    cases h' with
    | cons ho' hl' => exact .cons (ho.trans ho') (ih hl')

theorem Write.operations (h : Write amb J s t) (hu : s.KeysUnique) :
    List.Forall₂ (Evolves amb) s.operations t.operations := by
  cases h with
  | operation ho h => exact updateOperation_evolves hu ho h
  | event | submission | grants | settings | handoffs | journal => exact evolves_refl _ _

theorem Writes.operations (h : Writes amb J s t) (hu : s.KeysUnique) :
    List.Forall₂ (Evolves amb) s.operations t.operations := by
  induction h with
  | refl => exact evolves_refl _ _
  | tail _ hw ih => exact evolves_trans ih (hw.operations (keysUnique_of_evolves hu ih))

/-- An appended fact leaves the operations alone; what follows its insertion are writes. -/
theorem Appended.split (amb : Ambient) (J : Prop) {op : Operation} {fact : PaymentFact}
    (h : Appended s scope op fact t) :
    Writes amb J s t ∨ ∃ row, row.fact = fact ∧ s.Accepts row ∧
      Writes amb J (s.insertEvidence row) t := by
  cases h with
  | replay => exact .inl (flagOverspend_writes _ _)
  | insert haccepts _ _ hfact =>
    exact .inr ⟨_, hfact, haccepts, (Write.event scope (by simp [Ordinary])).writes.trans
      (flagOverspend_writes _ _)⟩

theorem submit_evolves {o : Operation} (hstate : o.state = .reserved) :
    Evolves amb o { o with state := .submitting, updatedAt := amb.now } :=
  .of_state rfl rfl rfl rfl rfl (fun _ => by rw [hstate]; rfl) (by simp) id

/-- **Operations only evolve, or a new one is admitted.** -/
theorem StepCase.operations {a : Step} (h : StepCase env J s a t) (hu : s.KeysUnique) :
    List.Forall₂ (Evolves a.amb) s.operations t.operations ∨
      ∃ row, Admits env a.amb s row ∧ t.operations = s.operations ++ [row] := by
  cases h with
  | writes h => exact .inl (h.operations hu)
  | reserve h => exact .inr ⟨_, h, rfl⟩
  | submit _ ho hstate => exact .inl (updateOperation_evolves hu ho (submit_evolves hstate))
  | note _ _ h => exact .inl (h.operations hu)
  | append _ _ _ _ h =>
    rcases h.split a.amb J with hw | ⟨row, -, -, hw⟩
    · exact .inl (hw.operations hu)
    · exact .inl (hw.operations (s := s.insertEvidence row) hu)
  | clear => exact .inl (evolves_refl _ _)

theorem StepCase.keysUnique {a : Step} (h : StepCase env J s a t) (hu : s.KeysUnique) :
    t.KeysUnique := by
  rcases h.operations hu with hl | ⟨row, hadmits, hops⟩
  · exact keysUnique_of_evolves hu hl
  · unfold DB.KeysUnique
    rw [hops]
    exact Rows.KeyUnique.insert hu fun o ho heq => hadmits.fresh (heq ▸ List.mem_map_of_mem ho)

/-- What became of an operation. -/
theorem StepCase.kept {a : Step} (h : StepCase env J s a t) (hu : s.KeysUnique) {o : Operation}
    (ho : o ∈ s.operations) : ∃ o' ∈ t.operations, Evolves a.amb o o' := by
  rcases h.operations hu with hl | ⟨row, -, hops⟩
  · obtain ⟨hlength, hget⟩ := List.forall₂_iff_get.mp hl
    obtain ⟨i, hi, rfl⟩ := List.getElem_of_mem ho
    exact ⟨_, List.getElem_mem (hlength ▸ hi), hget i hi (hlength ▸ hi)⟩
  · exact ⟨o, hops ▸ List.mem_append_left _ ho, .refl _ o⟩

/-- Where an operation comes from. -/
theorem StepCase.origin {a : Step} (h : StepCase env J s a t) (hu : s.KeysUnique) {o' : Operation}
    (ho' : o' ∈ t.operations) :
    (∃ o ∈ s.operations, Evolves a.amb o o') ∨ Admits env a.amb s o' := by
  rcases h.operations hu with hl | ⟨row, hadmits, hops⟩
  · obtain ⟨hlength, hget⟩ := List.forall₂_iff_get.mp hl
    obtain ⟨i, hi, rfl⟩ := List.getElem_of_mem ho'
    exact .inl ⟨_, List.getElem_mem (hlength.symm ▸ hi), hget i (hlength.symm ▸ hi) hi⟩
  · rw [hops] at ho'
    rcases List.mem_append.mp ho' with ho' | ho'
    · exact .inl ⟨o', ho', .refl _ o'⟩
    · exact .inr (List.mem_singleton.mp ho' ▸ hadmits)

theorem reachable_keysUnique (h : (storeSystem env).Reachable s) : s.KeysUnique :=
  h.invariant (I := DB.KeysUnique)
    (fun s h₀ => by
      rw [show s = {} from h₀]
      exact List.nodup_nil)
    fun _ _ _ hu hs => (step_cases hs).keysUnique hu

/-- What never changes about an operation. -/
structure SameOperation (o o' : Operation) : Prop where
  id : o'.id = o.id
  scope : o'.scope = o.scope
  grantId : o'.grantId = o.grantId
  proposal : o'.proposal = o.proposal

/-- **Operations stay what they are.** -/
theorem run_same {as : List Step} (h : (storeSystem env).Run s as t) (hu : s.KeysUnique)
    {o : Operation} (ho : o ∈ s.operations) : ∃ o' ∈ t.operations, SameOperation o o' := by
  induction h generalizing o with
  | nil => exact ⟨o, ho, rfl, rfl, rfl, rfl⟩
  | cons hstep _ ih =>
    have hcase := step_cases hstep
    obtain ⟨o₁, ho₁, he⟩ := hcase.kept hu ho
    obtain ⟨o₂, ho₂, hsame⟩ := ih (hcase.keysUnique hu) ho₁
    exact ⟨o₂, ho₂, hsame.id.trans he.id, hsame.scope.trans he.scope,
      hsame.grantId.trans he.grantId, hsame.proposal.trans he.proposal⟩

/-! ## A first purchase -/

/-- The database after the steps. -/
def runSteps (env : Platform) (s : DB) (as : List Step) : DB :=
  as.foldl (fun db a => (a.tx env).commit db) s

theorem run_runSteps (env : Platform) (as : List Step) (s : DB) :
    (storeSystem env).Run s as (runSteps env s as) := by
  induction as generalizing s with
  | nil => exact .nil s
  | cons a as ih => exact .cons (show _ = _ from rfl) (ih _)

/-- A platform without surprises: addresses are their own origins, digests spell what they digest.
-/
def samplePlatform : Platform where
  casefold := id
  lower := id
  urlOrigin := .ok
  samePage := fun left right => left = right
  digest := id
  reserveDigest := fun grantId agentId proposal =>
    toString grantId ++ agentId ++ proposal.idempotencyKey
  handoffDigest := fun operationId agentId spec =>
    toString operationId ++ agentId ++ spec.confirmation.url
  requestDigest := fun request => String.join (request.map (·.1))

def epoch : Instant := ⟨0, ⟨1970, 1, 1⟩, by decide⟩

/-- A step of one owner at the epoch, whose identities count from `n`. -/
def sampleStep (n : Nat) (call : Call) : Step where
  scope := ⟨"tenant", "owner"⟩
  amb := { utc := fun _ => epoch, now := epoch, uuid := fun k => n + k }
  call := call

def samplePolicy : Delegation where
  agentIds := ["agent"]
  origins := ["https://shop.example"]
  actions := [.purchase, .subscription]
  expiresAt := 86400
  perPurchaseMinor := 100
  monthlyMinor := 100
  recurringMinor := 30
  annualMinor := 360

def samplePurchase : WebOperation where
  origin := "https://shop.example"
  action := .purchase
  purpose := "a book"
  idempotencyKey := "order-1"
  amountMinor := 20

/-- Grant 1 is created, and operation 3 is reserved under it and submitted. -/
def purchaseSteps : List Step :=
  [sampleStep 1 (.createGrant samplePolicy),
   sampleStep 2 (.configure { enabled := true, paymentProcessing := true }),
   sampleStep 3 (.reserve 1 "agent" samplePurchase),
   sampleStep 4 (.beginSubmit 3 "agent" none)]

end GenusOs.Autonomy
