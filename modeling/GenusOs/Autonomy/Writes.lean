import GenusOs.Autonomy.Handoffs
import GenusOs.Autonomy.Workflows.Store

/-!
# What the stores write

Every transaction of the stores is a sequence of a few kinds of writes. `Evolves` is what a write
may make of an operation; `Write` lists the writes, and `Writes` their sequences. Reserving,
submitting and appending evidence do more, and each has a lemma that says all of what it does
(`reserve_ok`, `beginSubmit_ok`, `append_ok`); every other method keeps `Writes`.
-/

namespace GenusOs.Autonomy

open GenusOs.Python Transaction

/-! ## Operations evolve -/

/-- `input_reason='code_before_submit'`. -/
def Operation.waitsForCode (o : Operation) : Prop := o.inputReason = some "code_before_submit"

/-- What a transaction may make of an operation. One that spends comes back to `reserved` only
from waiting for a code, and waits for a code only from `reserved`. -/
structure Evolves (amb : Ambient) (o o' : Operation) : Prop where
  id : o'.id = o.id
  scope : o'.scope = o.scope
  grantId : o'.grantId = o.grantId
  proposal : o'.proposal = o.proposal
  updatedAt : o'.updatedAt = o.updatedAt ∨ o'.updatedAt = amb.now
  counted : o'.state.counted = true → o.state.counted = true
  reserved : o.proposal.action.spends = true → o'.state = .reserved →
    o.state = .reserved ∨ o.waitsForCode
  ready : o.proposal.action.spends = true → o'.state = .reserved → o'.waitsForCode →
    o.state = .reserved ∧ o.waitsForCode
  code : o.proposal.action.spends = true → o'.waitsForCode → o.waitsForCode ∨ o.state = .reserved

namespace Evolves

variable {amb : Ambient} {o o' o'' : Operation}

theorem refl (amb : Ambient) (o : Operation) : Evolves amb o o :=
  ⟨rfl, rfl, rfl, rfl, .inl rfl, fun h => h, fun _ => .inl, fun _ hr hc => ⟨hr, hc⟩, fun _ => .inl⟩

theorem trans (h : Evolves amb o o') (h' : Evolves amb o' o'') : Evolves amb o o'' where
  id := h'.id.trans h.id
  scope := h'.scope.trans h.scope
  grantId := h'.grantId.trans h.grantId
  proposal := h'.proposal.trans h.proposal
  updatedAt := by
    rcases h'.updatedAt with heq | heq
    · rw [heq]
      exact h.updatedAt
    · exact .inr heq
  counted hc := h.counted (h'.counted hc)
  reserved hs hr := by
    rcases h'.reserved (by rwa [h.proposal]) hr with hr' | hc
    · exact h.reserved hs hr'
    · exact (h.code hs hc).symm
  ready hs hr hc := by
    obtain ⟨hr', hc'⟩ := h'.ready (by rwa [h.proposal]) hr hc
    exact h.ready hs hr' hc'
  code hs hc := by
    rcases h'.code (by rwa [h.proposal]) hc with hc' | hr
    · exact h.code hs hc'
    · exact (h.reserved hs hr).symm

/-- A move that does not lead to `reserved`, with the reason kept. -/
theorem of_state (hid : o'.id = o.id) (hscope : o'.scope = o.scope)
    (hgrant : o'.grantId = o.grantId)
    (hproposal : o'.proposal = o.proposal) (hupdated : o'.updatedAt = amb.now)
    (hcounted : o'.state.counted = true → o.state.counted = true) (hr : o'.state ≠ .reserved)
    (hreason : o'.waitsForCode → o.waitsForCode) : Evolves amb o o' :=
  ⟨hid, hscope, hgrant, hproposal, .inr hupdated, hcounted, fun _ h => absurd h hr,
    fun _ h => absurd h hr, fun _ h => .inl (hreason h)⟩

end Evolves

/-! ## Writes -/

/-- Events that neither submit an operation nor clear a hold. -/
def Ordinary : Subject → String → Prop
  | .operation _, text => text ≠ "submitting"
  | .grant _, text => text ≠ HOLD_CLEARED
  | _, _ => True

/-- Grants stay, under the policy they were given. -/
def PoliciesKept (s t : DB) : Prop :=
  ∀ scope id g, findGrant s scope id = some g →
    ∃ g', findGrant t scope id = some g' ∧ g'.policy = g.policy

/-- The payment journal takes the row: its version is the next one, its key a new one. -/
structure DB.Accepts (s : DB) (row : PaymentEvent) : Prop where
  version : row.version = (s.evidence row.scope row.operationId).length + 1
  complete : (s.evidence row.scope row.operationId).map (·.version) =
    List.range' 1 (s.evidence row.scope row.operationId).length
  key : ∀ e ∈ s.evidence row.scope row.operationId, e.fact.eventKey ≠ row.fact.eventKey
  unique : s.paymentEvents.any row.conflicts = false

/-- `INSERT INTO autonomy_payment_events`. -/
def DB.insertEvidence (s : DB) (row : PaymentEvent) : DB :=
  { s with paymentEvents := s.paymentEvents ++ [row] }

/-- The writes; those of workflows and their commands are among them where `J` holds. -/
inductive Write (amb : Ambient) (J : Prop) : DB → DB → Prop
  | operation {s : DB} {o : Operation} {f : Operation → Operation} (ho : o ∈ s.operations)
      (h : Evolves amb o (f o)) : Write amb J s (s.updateOperation o.id f)
  | event {s : DB} (scope : Scope) {subject : Subject} {text : String}
      (h : Ordinary subject text) : Write amb J s (s.record scope subject text)
  | submission {s : DB} {row : PaymentEvent} (h : s.Accepts row)
      (hk : row.fact.kind = .submitted) : Write amb J s (s.insertEvidence row)
  | grants {s : DB} {grants : List Grant} (h : PoliciesKept s { s with grants }) :
      Write amb J s { s with grants }
  | settings (s : DB) (settings : List Settings) : Write amb J s { s with settings }
  | handoffs (s : DB) (handoffs : List Handoff) : Write amb J s { s with handoffs }
  | journal (h : J) (s : DB) (workflows : List Workflow) (commands : List Command) :
      Write amb J s { s with workflows, commands }

abbrev Writes (amb : Ambient) (J : Prop) : DB → DB → Prop := Relation.ReflTransGen (Write amb J)

variable {env : Platform} {amb : Ambient} {J : Prop} {scope : Scope} {s t : DB}

theorem Write.writes (h : Write amb J s t) : Writes amb J s t := .single h

theorem keeps_event {subject : Subject} {text : String} (h : Ordinary subject text) :
    Keeps (Writes amb J) s (event scope subject text) :=
  .write (Write.event scope h).writes

theorem keeps_updateHandoffs {p : Handoff → Bool} {f : Handoff → Handoff} :
    Keeps (Writes amb J) s (updateHandoffs p f) :=
  .write (Write.handoffs s _).writes

theorem keeps_updateOperation {o : Operation} {f : Operation → Operation} (ho : o ∈ s.operations)
    (h : Evolves amb o (f o)) : Keeps (Writes amb J) s (updateOperation o.id f) :=
  .write (Write.operation ho h).writes

/-! ## Reads -/

theorem findOperation_reads (operationId : Uuid) : Reads (findOperation scope operationId) :=
  .bind .get fun _ => .getOrRaise _ _

theorem findOperation_some {operationId : Uuid} {row : Operation}
    (h : findOperation scope operationId s = .ok (row, t)) :
    row ∈ s.operations ∧ row.id = operationId ∧ row.scope = scope := by
  simp only [findOperation, bind_ok, get_ok, getOrRaise_ok] at h
  obtain ⟨_, _, ⟨rfl, rfl⟩, hfind, rfl⟩ := h
  have := List.find?_some hfind
  simp only [Bool.and_eq_true, decide_eq_true_eq] at this
  exact ⟨List.mem_of_find?_eq_some hfind, this⟩

theorem unused_reads (ids : DB → List Uuid) (id : Uuid) : Reads (unused ids id) :=
  .bind .get fun _ => .require _ _

theorem livingPolicy_reads (grantId : Uuid) : Reads (livingPolicy scope grantId) :=
  .bind .get fun _ => .bind (.getOrRaise _ _) fun _ => .pure _

theorem livePolicy_reads (row : Operation) : Reads (livePolicy amb scope row) :=
  .bind (livingPolicy_reads _) fun _ =>
    .bind (.require _ _) fun _ => .bind (.require _ _) fun _ =>
      .bind (.require _ _) fun _ => .pure _

theorem checkSettings_reads (proposal : WebOperation) : Reads (checkSettings scope proposal) :=
  .bind .get fun _ => .bind (.require _ _) fun _ => .require _ _

theorem assertNoPaymentHold_reads (grantId : Uuid) (proposal : WebOperation) :
    Reads (assertNoPaymentHold scope grantId proposal) :=
  .bind .get fun _ => .require _ _

theorem budgetDecision_reads (policy : Delegation) (proposal : WebOperation) (agentId : String)
    (exclude : Option Uuid) :
    Reads (budgetDecision env amb scope policy proposal agentId exclude) := by
  refine .bind .get fun db => .ite (.pure _) (.ite (.pure _) (.bind (.require _ _) fun _ =>
    .ite (.pure _) ?_))
  split
  · exact .ite (.pure _) (.ite (.pure _) (.pure _))
  · exact .pure _

theorem readFacts_reads (operationId : Uuid) : Reads (readFacts scope operationId) :=
  .bind .get fun _ => .bind (.require _ _) fun _ => .pure _

/-! ## Payment evidence -/

theorem overspend_ordinary (id : Uuid) (reason : String) :
    Ordinary (.operation id) ("payment_overspend:" ++ reason) := by
  intro h
  have := congrArg (·.toList.head?) h
  simp at this

theorem placeHold_writes (grantId operationId : Uuid) (reasons : List String) :
    Writes amb J s (s.placeHold scope grantId operationId reasons) := by
  have hrecords : ∀ s, Writes amb J s (reasons.foldl (fun db reason =>
      db.record scope (.operation operationId) ("payment_overspend:" ++ reason)) s) := by
    induction reasons with
    | nil => exact fun s => .refl
    | cons reason reasons ih =>
      exact fun s => .head (Write.event scope (overspend_ordinary operationId reason)) (ih _)
  unfold DB.placeHold
  split
  · exact .refl
  · exact .head (Write.event scope (by simp [Ordinary, HOLD_PLACED, HOLD_CLEARED])) (hrecords _)

theorem flagOverspend_writes (op : Operation) (facts : List PaymentFact) :
    Writes amb J s (s.flagOverspend scope op facts) := by
  unfold DB.flagOverspend
  dsimp only
  split
  · exact .refl
  · exact placeHold_writes _ _ _

/-- The facts recorded for an operation. -/
def DB.facts (s : DB) (scope : Scope) (operationId : Uuid) : List PaymentFact :=
  (s.evidence scope operationId).map (·.fact)

/-- What recording a fact comes to: a fact known before only flags again, a new one is inserted. -/
inductive Appended (s : DB) (scope : Scope) (op : Operation) (fact : PaymentFact) : DB → Prop
  | replay (h : fact ∈ s.facts scope op.id) :
      Appended s scope op fact (s.flagOverspend scope op (s.facts scope op.id))
  | insert {row : PaymentEvent} (h : s.Accepts row) (hscope : row.scope = scope)
      (hop : row.operationId = op.id) (hfact : row.fact = fact) :
      Appended s scope op fact
        (((s.insertEvidence row).record scope (.operation op.id)
          "payment_evidence_recorded").flagOverspend scope op (s.facts scope op.id ++ [fact]))

theorem readFacts_ok {operationId : Uuid} {facts : List PaymentFact}
    (h : readFacts scope operationId s = .ok (facts, t)) :
    facts = s.facts scope operationId ∧
      (s.evidence scope operationId).map (·.version) =
        List.range' 1 (s.evidence scope operationId).length := by
  simp only [readFacts, bind_ok, get_ok, require_ok, pure_ok] at h
  obtain ⟨_, _, ⟨rfl, rfl⟩, _, _, ⟨hversions, rfl⟩, rfl, rfl⟩ := h
  exact ⟨rfl, hversions⟩

theorem appendFact_ok {op : Operation} {fact : PaymentFact}
    (h : appendFact env amb scope op fact s = .ok ((), t)) :
    op.proposal.action.spends = true ∧
      (fact.source = .merchant → fact.kind = .submitted ∧ fact.amountMinor = 0) ∧
        Appended s scope op fact t := by
  simp only [appendFact, bind_ok, require_ok] at h
  obtain ⟨_, _, ⟨hspends, rfl⟩, _, _, ⟨hissuer, rfl⟩, facts, u, hfacts, h⟩ := h
  refine ⟨hspends, hissuer, ?_⟩
  obtain rfl := readFacts_reads op.id _ _ _ hfacts
  obtain ⟨rfl, hversions⟩ := readFacts_ok hfacts
  cases hfind : (u.facts scope op.id).find? (·.eventKey = fact.eventKey) with
  | some previous =>
    simp only [hfind, bind_ok, require_ok, modify_ok] at h
    obtain ⟨_, _, ⟨rfl, rfl⟩, rfl⟩ := h
    exact .replay (List.mem_of_find?_eq_some hfind)
  | none =>
    simp only [hfind, bind_ok, get_ok, require_ok, modify_ok, event] at h
    obtain ⟨_, _, ⟨rfl, rfl⟩, _, _, ⟨hunique, rfl⟩, _, _, rfl, _, _, rfl, rfl⟩ := h
    refine .insert ⟨?_, hversions, ?_, hunique⟩ rfl rfl rfl
    · simp [DB.facts]
    · intro e he
      have := List.find?_eq_none.mp hfind e.fact (List.mem_map_of_mem he)
      simpa using this

theorem Appended.writes {op : Operation} {fact : PaymentFact} (h : Appended s scope op fact t)
    (hk : fact.kind = .submitted) : Writes amb J s t := by
  cases h with
  | replay => exact flagOverspend_writes _ _
  | insert haccepts _ _ hfact =>
    exact (Write.submission haccepts (by rw [hfact, hk])).writes.trans
      ((Write.event scope (by simp [Ordinary])).writes.trans (flagOverspend_writes _ _))

theorem keeps_recordSubmission (op : Operation) :
    Keeps (Writes amb J) s (recordSubmission env amb scope op) := by
  unfold recordSubmission
  refine .onlyIf fun _ => ?_
  intro _ t h
  exact (appendFact_ok h).2.2.writes rfl

/-! ## Outcomes -/

/-- The transition table leads from counted states to others than `reserved`. -/
theorem of_mem_transitions {st st' : OperationState} (h : st' ∈ transitions st) :
    st.counted = true ∧ st' ≠ .reserved := by
  cases st <;> simp only [transitions, List.mem_cons, List.not_mem_nil, or_false] at h <;>
    rcases h with rfl | rfl | rfl <;> simp [OperationState.counted]

theorem state_ordinary (id : Uuid) {st : OperationState} (h : st ≠ .submitting) :
    Ordinary (.operation id) st.name := by
  cases st <;> simp_all [Ordinary, OperationState.name]

theorem ne_submitting_of_mem_transitions {st st' : OperationState} (h : st' ∈ transitions st) :
    st' ≠ .submitting := by
  rintro rfl
  cases st <;> simp [transitions] at h

theorem keeps_finishOperation {operationId : Uuid} {state : OperationState}
    {evidence : Option Dict} {inputReason : Option String}
    (hreason : inputReason ≠ some "code_before_submit") :
    Keeps (Writes amb J) s
      (finishOperation env amb scope operationId state evidence inputReason) := by
  unfold finishOperation
  split
  · exact .raise
  · refine .read (findOperation_reads operationId) fun row hrow => .require fun htrans => ?_
    obtain ⟨hmem, rfl, -⟩ := findOperation_some hrow
    obtain ⟨hcounted, hstate⟩ := of_mem_transitions htrans
    refine .bind (keeps_updateOperation hmem ?_) fun _ t _ => ?_
    · refine .of_state rfl rfl rfl rfl rfl (fun _ => hcounted) hstate fun hcode => ?_
      cases inputReason with
      | none => exact hcode
      | some r => exact absurd hcode hreason
    · refine .bind (.onlyIf fun _ => ?_) fun _ u _ =>
        keeps_event (state_ordinary _ (ne_submitting_of_mem_transitions htrans))
      exact .bind (keeps_recordSubmission row) fun _ u _ => .write (Write.handoffs u _).writes

/-! ## The methods that do more -/

/-- A new operation that may be reserved. -/
structure Admits (env : Platform) (amb : Ambient) (s : DB) (row : Operation) : Prop where
  fresh : row.id ∉ s.operations.map (·.id)
  state : row.state = .reserved
  inputReason : row.inputReason = none
  updatedAt : row.updatedAt = amb.now
  grant : ∃ g, findGrant s row.scope row.grantId = some g ∧
    budgetDecision env amb row.scope g.policy row.proposal row.agentId none s = .ok ("allow", s)

/-- `INSERT INTO autonomy_operations`. -/
def DB.insertOperation (s : DB) (row : Operation) : DB :=
  { s with operations := s.operations ++ [row] }

theorem livingPolicy_ok {grantId : Uuid} {policy : Delegation} {version : Nat}
    (h : livingPolicy scope grantId s = .ok ((policy, version), t)) :
    ∃ g, findGrant s scope grantId = some g ∧ g.policy = policy := by
  simp only [livingPolicy, bind_ok, get_ok, getOrRaise_ok, pure_ok, Prod.mk.injEq] at h
  obtain ⟨_, _, ⟨rfl, rfl⟩, g, _, ⟨hg, rfl⟩, ⟨rfl, rfl⟩, rfl⟩ := h
  exact ⟨g, (Option.filter_eq_some_iff.mp hg).1, rfl⟩

/-- `reserve` answers for an operation that is there, or admits a new one. -/
theorem reserve_ok {grantId : Uuid} {agentId : String} {proposal : WebOperation}
    {answer : Uuid × OperationState}
    (h : reserve env amb scope grantId agentId proposal s = .ok (answer, t)) :
    t = s ∨ ∃ row, Admits env amb s row ∧
      t = (s.insertOperation row).record row.scope (.operation row.id) "reserved" := by
  simp only [reserve, bind_ok, get_ok] at h
  obtain ⟨_, s, ⟨rfl, rfl⟩, h⟩ := h
  cases hfind : s.operations.find? fun o =>
      o.scope = scope && o.proposal.idempotencyKey = proposal.idempotencyKey with
  | some existing =>
    simp only [hfind, bind_ok, require_ok, pure_ok] at h
    obtain ⟨_, _, ⟨-, rfl⟩, -, rfl⟩ := h
    exact .inl rfl
  | none =>
    simp only [hfind, bind_ok] at h
    obtain ⟨⟨policy, version⟩, u, hpolicy, _, v, hhold, decision, w, hbudget, h⟩ := h
    obtain rfl := livingPolicy_reads grantId _ _ _ hpolicy
    obtain rfl := assertNoPaymentHold_reads _ _ _ _ _ hhold
    obtain rfl := budgetDecision_reads _ _ _ _ _ _ _ hbudget
    obtain ⟨g, hgrant, rfl⟩ := livingPolicy_ok hpolicy
    simp only [require_ok, unused, event, modify_ok, bind_ok, get_ok, pure_ok] at h
    obtain ⟨_, _, ⟨rfl, rfl⟩, _, _, ⟨_, _, ⟨rfl, rfl⟩, hfresh, rfl⟩,
        _, _, rfl, _, _, rfl, -, rfl⟩ := h
    exact .inr ⟨_, ⟨hfresh, rfl, rfl, rfl, g, hgrant, hbudget⟩, rfl⟩

/-- `begin_submit` submits an operation that is `reserved`. -/
theorem beginSubmit_ok {operationId : Uuid} {agentId : String} {workflowId : Option Uuid}
    (h : beginSubmit env amb scope operationId agentId workflowId s = .ok ((), t)) :
    ∃ o ∈ s.operations, o.id = operationId ∧ o.scope = scope ∧ o.state = .reserved ∧
      t = (s.updateOperation o.id fun o =>
        { o with state := .submitting, updatedAt := amb.now }).record scope (.operation o.id)
          "submitting" := by
  simp only [beginSubmit, bind_ok, require_ok] at h
  obtain ⟨row, _, hrow, _, _, ⟨-, rfl⟩, _, _, ⟨hstate, rfl⟩, _, _, ⟨-, rfl⟩, h⟩ := h
  obtain rfl := findOperation_reads _ _ _ _ hrow
  obtain ⟨hmem, rfl, hscope⟩ := findOperation_some hrow
  obtain ⟨_, _, hsettings, policy, _, hpolicy, _, _, hhold, decision, _, hbudget, h⟩ := h
  obtain rfl := checkSettings_reads _ _ _ _ hsettings
  obtain rfl := livePolicy_reads _ _ _ _ hpolicy
  obtain rfl := assertNoPaymentHold_reads _ _ _ _ _ hhold
  obtain rfl := budgetDecision_reads _ _ _ _ _ _ _ hbudget
  simp only [updateOperation, event, modify_ok] at h
  obtain ⟨_, _, ⟨-, rfl⟩, _, _, rfl, rfl⟩ := h
  exact ⟨row, hmem, rfl, hscope, hstate, rfl⟩

/-- `append` records a fact about an operation that spends. -/
theorem append_ok {operationId : Uuid} {fact : PaymentFact}
    (h : append env amb scope operationId fact s = .ok ((), t)) :
    ∃ op ∈ s.operations, op.id = operationId ∧ op.scope = scope ∧
      (fact.source = .merchant → fact.kind = .submitted) ∧ Appended s scope op fact t := by
  simp only [append, bind_ok, get_ok, require_ok] at h
  obtain ⟨op, _, hop, _, _, ⟨rfl, rfl⟩, _, _, ⟨-, rfl⟩, _, _, ⟨-, rfl⟩, h⟩ := h
  obtain rfl := findOperation_reads _ _ _ _ hop
  obtain ⟨hmem, rfl, hscope⟩ := findOperation_some hop
  obtain ⟨-, hissuer, happended⟩ := appendFact_ok h
  exact ⟨op, hmem, rfl, hscope, fun hm => (hissuer hm).1, happended⟩

/-- `clear_payment_hold` clears a hold that is there. -/
theorem clearPaymentHold_ok {grantId : Uuid}
    (h : clearPaymentHold scope grantId s = .ok ((), t)) :
    t = s ∨ t = s.record scope (.grant grantId) HOLD_CLEARED := by
  simp only [clearPaymentHold, bind_ok, get_ok, require_ok, onlyIf] at h
  obtain ⟨_, _, ⟨rfl, rfl⟩, _, _, ⟨-, rfl⟩, h⟩ := h
  split at h
  · exact .inr (modify_ok.mp h)
  · exact .inl (pure_ok.mp h).2

theorem recordOperationEvent_ok {operationId : Uuid} {text : String}
    (h : recordOperationEvent scope operationId text s = .ok ((), t)) :
    (∃ o ∈ s.operations, o.id = operationId) ∧
      t = s.record scope (.operation operationId) text := by
  simp only [recordOperationEvent, bind_ok, event, modify_ok] at h
  obtain ⟨row, _, hrow, rfl⟩ := h
  obtain rfl := findOperation_reads _ _ _ _ hrow
  obtain ⟨hmem, hid, -⟩ := findOperation_some hrow
  exact ⟨⟨row, hmem, hid⟩, rfl⟩

/-- `abandon` fails the operation and records the owner's reason. -/
theorem abandon_ok {operationId : Uuid} {reason : String}
    (h : abandon env amb scope operationId reason s = .ok ((), t)) :
    (∃ o ∈ s.operations, o.id = operationId) ∧
      ∃ u, Writes amb J s u ∧ t = u.record scope (.operation operationId) reason := by
  simp only [abandon, bind_ok, require_ok, event, modify_ok] at h
  obtain ⟨row, _, hrow, _, _, ⟨-, rfl⟩, _, u, hfinish, rfl⟩ := h
  obtain rfl := findOperation_reads _ _ _ _ hrow
  obtain ⟨hmem, hid, -⟩ := findOperation_some hrow
  exact ⟨⟨row, hmem, hid⟩, u, keeps_finishOperation (by simp) _ _ hfinish, rfl⟩

/-! ## The other methods -/

theorem policiesKept_append (s : DB) (more : List Grant) :
    PoliciesKept s { s with grants := s.grants ++ more } := by
  intro scope id g hg
  refine ⟨g, ?_, rfl⟩
  unfold findGrant at hg ⊢
  rw [List.find?_append, hg]
  rfl

theorem policiesKept_updateWhere (s : DB) {p : Grant → Bool} {f : Grant → Grant}
    (hid : ∀ g, (f g).id = g.id) (hscope : ∀ g, (f g).scope = g.scope)
    (hpolicy : ∀ g, (f g).policy = g.policy) :
    PoliciesKept s { s with grants := Rows.updateWhere p f s.grants } := by
  intro scope id g hg
  refine ⟨if p g then f g else g, ?_, ?_⟩
  · unfold findGrant at hg ⊢
    rw [Rows.find?_updateWhere fun g' _ => by rw [hid, hscope], hg]
    rfl
  · split
    · exact hpolicy g
    · rfl

theorem keeps_createGrant (policy : Delegation) :
    Keeps (Writes amb J) s (createGrant amb scope policy) :=
  .read (unused_reads _ _) fun _ _ =>
    .bind (.write (Write.grants (policiesKept_append s _)).writes) fun _ _ _ =>
      .bind (keeps_event (by simp [Ordinary, HOLD_CLEARED])) fun _ _ _ => .pure _

theorem keeps_revokeGrant (grantId : Uuid) :
    Keeps (Writes amb J) s (revokeGrant scope grantId) := by
  refine .get (.require fun _ => .bind (.write (Write.grants ?_).writes) fun _ _ _ =>
    keeps_event (by simp [Ordinary, HOLD_CLEARED]))
  exact policiesKept_updateWhere s (fun _ => rfl) (fun _ => rfl) fun _ => rfl

theorem keeps_configure (settings : RuntimeSettings) :
    Keeps (Writes amb J) s (configure amb scope settings) :=
  .bind (.write (Write.settings s _).writes) fun _ _ _ => keeps_event trivial

theorem keeps_bindPlan (operationId : Uuid) (agentId : String) (plan : Dict) :
    Keeps (Writes amb J) s (bindPlan scope operationId agentId plan) := by
  refine .read (findOperation_reads _) fun row hrow => .require fun _ => .require fun _ => ?_
  obtain ⟨hmem, rfl, -⟩ := findOperation_some hrow
  exact keeps_updateOperation hmem { Evolves.refl amb row with }

theorem keeps_recordLandedPages (operationId : Uuid) (urls : List String) :
    Keeps (Writes amb J) s (recordLandedPages env scope operationId urls) := by
  refine .read (findOperation_reads _) fun row hrow => ?_
  obtain ⟨hmem, rfl, -⟩ := findOperation_some hrow
  exact keeps_updateOperation hmem { Evolves.refl amb row with }

theorem keeps_waitForCode (operationId : Uuid) :
    Keeps (Writes amb J) s (waitForCode amb scope operationId) := by
  refine .read (findOperation_reads _) fun row hrow => .require fun hprepared => ?_
  obtain ⟨hmem, rfl, -⟩ := findOperation_some hrow
  refine .bind (keeps_updateOperation hmem ⟨rfl, rfl, rfl, rfl, .inr rfl, fun _ => ?_, ?_, ?_, ?_⟩)
    fun _ _ _ => keeps_event (by simp [Ordinary])
  · rw [hprepared.1]
    rfl
  · exact fun _ h => absurd h (by simp)
  · exact fun _ h => absurd h (by simp)
  · exact fun _ _ => .inr hprepared.1

theorem keeps_resumeWithCode (operationId : Uuid) :
    Keeps (Writes amb J) s (resumeWithCode amb scope operationId) := by
  refine .read (findOperation_reads _) fun row hrow => .require fun hwaiting =>
    .read (livingPolicy_reads _) fun _ _ => ?_
  obtain ⟨hmem, rfl, -⟩ := findOperation_some hrow
  refine .bind (keeps_updateOperation hmem ⟨rfl, rfl, rfl, rfl, .inr rfl, fun _ => ?_, ?_, ?_, ?_⟩)
    fun _ _ _ => keeps_event (by simp [Ordinary])
  · rw [hwaiting.1]
    rfl
  · exact fun _ _ => .inr hwaiting.2
  · exact fun _ _ h => absurd h (by simp [Operation.waitsForCode])
  · exact fun _ _ => .inl hwaiting.2

theorem refused_ordinary (id : Uuid) (reason : String) :
    Ordinary (.operation id) ("payment_evidence_refused:" ++ reason) := by
  intro h
  have := congrArg (·.toList.head?) h
  simp at this

theorem keeps_recordRefusal (operationId : Uuid) (reason : String) :
    Keeps (Writes amb J) s (recordRefusal scope operationId reason) :=
  .read (findOperation_reads _) fun _ _ => keeps_event (refused_ordinary _ _)

/-! ### Handoffs -/

theorem keeps_releaseExpiredHandoff (handoffId operationId : Uuid) :
    Keeps (Writes amb J) s (releaseExpiredHandoff env amb scope handoffId operationId) := by
  refine .get (.ite (fun _ => ?_) fun _ => .pure _)
  refine .bind keeps_updateHandoffs fun _ t _ => .bind (keeps_event (by simp [Ordinary]))
    fun _ u _ => .get (.ite (fun _ => .pure _) fun _ => ?_)
  exact .read (findOperation_reads _) fun op _ =>
    .bind (.onlyIf fun _ => keeps_finishOperation (by simp)) fun _ _ _ => .pure _

theorem keeps_createHandoff (operationId : Uuid) (agentId : String) (spec : HandoffRequest) :
    Keeps (Writes amb J) s (createHandoff env amb scope operationId agentId spec) := by
  refine .read (findOperation_reads _) fun op _ => .require fun _ =>
    .read (checkSettings_reads _) fun _ _ => .read (livePolicy_reads _) fun policy _ =>
    .require fun _ => .require fun _ => .require fun _ => .read (.fromExcept _) fun origin _ =>
    .require fun _ => .require fun _ => .read (budgetDecision_reads _ _ _ _) fun decision _ =>
    .require fun _ => .get ?_
  split
  · exact .require fun _ => .pure _
  · refine .bind keeps_updateHandoffs fun _ t _ => .get (.require fun _ =>
      .read (unused_reads _ _) fun _ _ => ?_)
    exact .bind (.write (Write.handoffs t _).writes) fun _ _ _ =>
      .bind (.onlyIf fun _ => keeps_finishOperation (by simp)) fun _ _ _ =>
        .bind (keeps_event (by simp [Ordinary])) fun _ _ _ => .pure _

theorem keeps_releaseExpired (handoffId : Uuid) :
    Keeps (Writes amb J) s (releaseExpired env amb scope handoffId) := by
  refine .get ?_
  split
  · exact .bind (keeps_releaseExpiredHandoff _ _) fun _ _ _ => .pure _
  · exact .pure _

theorem keeps_acknowledge (handoffId : Uuid) :
    Keeps (Writes amb J) s (acknowledge amb scope handoffId) :=
  .get <| .read (.getOrRaise _ _) fun _ _ => .require fun _ =>
    .read (findOperation_reads _) fun _ _ => .require fun _ =>
    .read (checkSettings_reads _) fun _ _ => .read (livePolicy_reads _) fun _ _ =>
    .bind keeps_updateHandoffs fun _ _ _ =>
    .bind (keeps_event (by simp [Ordinary])) fun _ _ _ => .pure _

theorem keeps_releaseAllExpired :
    Keeps (Writes amb J) s (releaseAllExpired env amb scope) :=
  .get <| .mapM (fun _ _ => keeps_releaseExpiredHandoff _ _) _ _

theorem keeps_startCheck (handoffId : Uuid) :
    Keeps (Writes amb J) s (startCheck amb scope handoffId) := by
  refine .get ?_
  dsimp only
  split
  · exact .pure _
  · exact .bind keeps_updateHandoffs fun _ _ _ =>
      .bind (keeps_event (by simp [Ordinary])) fun _ _ _ => .pure _

theorem keeps_claim (handoffId : Uuid) : Keeps (Writes amb J) s
    (claim env amb scope handoffId) := by
  refine .get ?_
  split
  · exact keeps_startCheck _
  · refine .ite (fun _ => ?_) fun _ => ?_
    · exact .bind (keeps_releaseExpiredHandoff _ _) fun _ _ _ => .pure _
    · refine .bind (.onlyIf fun _ => keeps_updateHandoffs) fun _ t _ => .get (.ite (fun _ => ?_)
        fun _ => ?_)
      · exact keeps_startCheck _
      · exact .bind (keeps_releaseExpiredHandoff _ _) fun _ _ _ => .pure _

theorem keeps_confirmation (handoffId token : Uuid) :
    Keeps (Writes amb J) s (confirmation amb scope handoffId token) :=
  .get <| .read (.getOrRaise _ _) fun _ _ => .pure _

theorem keeps_finishCheck (handoffId token : Uuid) (retry : Bool) :
    Keeps (Writes amb J) s (finishCheck amb scope handoffId token retry) := by
  refine .get ?_
  dsimp only
  split
  · exact .pure _
  · refine .bind keeps_updateHandoffs fun _ _ _ => keeps_event ?_
    cases retry <;> simp [Ordinary]

/-! ### Workflows -/

namespace Workflows

theorem keeps_openWorkflow (hJ : J) (agentId : String) (operationId instanceId : Uuid)
    (request : Dict) :
    Keeps (Writes amb J) s (openWorkflow env amb scope agentId operationId instanceId request) := by
  refine .read (findOperation_reads _) fun op hop => .require fun _ => ?_
  obtain ⟨hmem, rfl, -⟩ := findOperation_some hop
  split
  · exact .get <| .read (.getOrRaise _ _) fun _ _ => .require fun _ => .pure _
  · refine .get (.require fun _ => .bind (.write (Write.journal hJ s _ _).writes) fun _ t ht => ?_)
    rw [modify_ok] at ht
    have hmem' : op ∈ t.operations := by rw [ht]; exact hmem
    exact .bind (keeps_updateOperation hmem' { Evolves.refl amb op with }) fun _ _ _ =>
      .bind (keeps_event trivial) fun _ _ _ => .pure _

theorem keeps_lockWorkflow {α : Type} {agentId : String} {workflowId : Uuid}
    {script : Workflow → Script α} (h : ∀ row, Keeps (Writes amb J) s (script row).atomic) :
    Keeps (Writes amb J) s (lockWorkflow scope agentId workflowId script).atomic := by
  show Keeps (Writes amb J) s fun s => _
  intro a t ht
  simp only [lockWorkflow, RowLock.Script.atomic] at ht
  split at ht
  · exact (raise_ok.mp ht).elim
  · next row _ => exact h row a t ht

theorem keeps_begin (hJ : J) (agentId : String) (workflowId instanceId commandId : Uuid)
    (request : Dict) :
    Keeps (Writes amb J) s
      (begin env scope agentId workflowId instanceId commandId request).atomic := by
  refine keeps_lockWorkflow fun row a t ht => ?_
  simp only [RowLock.Script.atomic] at ht
  split at ht
  · exact (Reads.fromExcept _ _ _ _ ht) ▸ .refl
  · split at ht
    · exact (raise_ok.mp ht).elim
    · simp only [RowLock.Script.atomic] at ht
      split at ht
      · exact (raise_ok.mp ht).elim
      · simp only [RowLock.Script.atomic, bind_ok, modify_ok, pure_ok] at ht
        obtain ⟨_, _, rfl, -, rfl⟩ := ht
        exact (Write.journal hJ s _ _).writes

theorem keeps_finish (hJ : J) (agentId : String) (workflowId commandId : Uuid) (result : Dict)
    (advance : Bool) :
    Keeps (Writes amb J) s (finish scope agentId workflowId commandId result advance).atomic := by
  refine keeps_lockWorkflow fun row => ?_
  show Keeps (Writes amb J) s (finishRow scope workflowId commandId result advance)
  exact .get <| .bind (.write (Write.journal hJ s _ _).writes) fun _ t _ => .require fun _ =>
    .bind (.write (Write.journal hJ t _ _).writes) fun _ _ _ => keeps_event trivial

theorem keeps_checkpoint (agentId : String) (workflowId : Uuid) (rejected : Bool) :
    Keeps (Writes amb J) s (checkpoint amb scope agentId workflowId rejected) := by
  refine .get (.read (.getOrRaise _ _) fun row _ => .read (findOperation_reads _) fun op hop =>
    .require fun hstep => ?_)
  obtain ⟨hmem, hid, -⟩ := findOperation_some hop
  rw [← hid]
  have hspends : op.proposal.action.spends ≠ true := by simp [hstep.2.2.1]
  refine .bind (keeps_updateOperation hmem ⟨rfl, rfl, rfl, rfl, .inr rfl, fun _ => ?_, ?_, ?_, ?_⟩)
    fun _ _ _ => keeps_event ?_
  · rw [hstep.2.1]
    rfl
  · exact fun h => absurd h hspends
  · exact fun h => absurd h hspends
  · exact fun h => absurd h hspends
  · cases rejected <;> simp [Ordinary]

theorem keeps_closeRow (hJ : J) (row : Workflow) (closing : Closing) :
    Keeps (Writes amb J) s (closeRow env amb scope row closing) := by
  refine .ite (fun _ => .pure _) fun _ => .bind (.onlyIf fun _ => ?_) fun _ t _ => ?_
  · exact .read (findOperation_reads _) fun _ _ => fun _ _ h => (require_ok.mp h).2 ▸ .refl
  · refine .bind (.write (Write.journal hJ t _ _).writes) fun _ _ _ =>
      .bind (.onlyIf fun _ => .read (findOperation_reads _) fun op _ => ?_) fun _ _ _ =>
        keeps_event trivial
    split
    · exact keeps_finishOperation (by simp)
    · exact .pure _

theorem keeps_close (hJ : J) (agentId : String) (workflowId : Uuid) (closing : Closing) :
    Keeps (Writes amb J) s (close env amb scope agentId workflowId closing).atomic :=
  keeps_lockWorkflow fun row => keeps_closeRow hJ row closing

end Workflows

end GenusOs.Autonomy
