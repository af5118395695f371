import GenusOs.Autonomy.System

/-!
# A payment is submitted at most once

* `Past`: an operation that has been submitted is neither `reserved` nor waiting for a code.
* `past_step`: no transaction leads a payment back from there.
* `Submissions.step`: so the second `submitting` event of a payment cannot come from
  `begin_submit`.
-/

namespace GenusOs.Autonomy

open GenusOs.Python Transaction

variable {env : Platform} {amb : Ambient} {J : Prop} {scope : Scope} {s t u : DB} {id : Uuid}

/-! ## Submission events -/

/-- A `submitting` event of the operation. -/
def Event.isSubmission (id : Uuid) (e : Event) : Bool :=
  e.subject = .operation id && e.event = "submitting"

def DB.submissions (s : DB) (id : Uuid) : Nat := s.events.countP (Event.isSubmission id)

theorem submissions_record (s : DB) (scope : Scope) (subject : Subject) (text : String) :
    (s.record scope subject text).submissions id =
      s.submissions id + if subject = .operation id ∧ text = "submitting" then 1 else 0 := by
  simp [DB.submissions, DB.record, List.countP_append, List.countP_singleton, Event.isSubmission]

theorem Ordinary.not_submission {subject : Subject} {text : String} (h : Ordinary subject text) :
    ¬ (subject = .operation id ∧ text = "submitting") := by
  rintro ⟨rfl, rfl⟩
  exact h rfl

theorem Writes.submissions (h : Writes amb J s t) : t.submissions id = s.submissions id := by
  induction h with
  | refl => rfl
  | tail _ hw ih =>
    rw [← ih]
    cases hw with
    | event scope h => rw [submissions_record, if_neg h.not_submission, Nat.add_zero]
    | operation | submission | grants | settings | handoffs | journal => rfl

theorem Appended.submissions {op : Operation} {fact : PaymentFact}
    (h : Appended s scope op fact t) (amb : Ambient) : t.submissions id = s.submissions id := by
  rcases h.split amb True with hw | ⟨row, -, -, hw⟩
  · exact hw.submissions
  · exact hw.submissions (s := s.insertEvidence row)

/-! ## Past submission -/

def Operation.Past (o : Operation) : Prop := o.state ≠ .reserved ∧ ¬ o.waitsForCode

/-- The operation is a payment that is past submission. -/
def Past (s : DB) (id : Uuid) : Prop :=
  ∃ o ∈ s.operations, o.id = id ∧ o.proposal.action.spends = true ∧ o.Past

theorem Evolves.past {o o' : Operation} (h : Evolves amb o o')
    (hs : o.proposal.action.spends = true) (hp : o.Past) : o'.Past := by
  refine ⟨fun hr => ?_, fun hc => ?_⟩
  · rcases h.reserved hs hr with hr' | hc'
    · exact hp.1 hr'
    · exact hp.2 hc'
  · rcases h.code hs hc with hc' | hr'
    · exact hp.2 hc'
    · exact hp.1 hr'

/-- **No transaction leads back.** -/
theorem past_step {a : Step} (hu : s.KeysUnique) (h : StepCase env J s a t) (hp : Past s id) :
    Past t id := by
  obtain ⟨o, ho, rfl, hs, hpast⟩ := hp
  obtain ⟨o', ho', he⟩ := h.kept hu ho
  exact ⟨o', ho', he.id, by rw [he.proposal]; exact hs, he.past hs hpast⟩

/-- Where an operation is past submission, `begin_submit` raises. -/
theorem beginSubmit_ne_ok (hu : s.KeysUnique) (hp : Past s id) {agentId : String}
    {workflowId : Option Uuid} :
    beginSubmit env amb scope id agentId workflowId s ≠ .ok ((), t) := by
  intro h
  obtain ⟨o, ho, hid, -, hstate, -⟩ := beginSubmit_ok h
  obtain ⟨o', ho', hid', -, hpast⟩ := hp
  have := hu.eq ho ho' (hid.trans hid'.symm)
  exact hpast.1 (this ▸ hstate)

/-! ## What a step adds -/

/-- The owner's own text of an `abandon`, or of another event, reads `submitting`. -/
def Step.notes (id : Uuid) (a : Step) : Bool :=
  match a.call with
  | .abandon operationId text | .recordOperationEvent operationId text =>
    operationId = id && text = "submitting"
  | _ => false

/-- The operation is submitted by this step. -/
def Submitted (s t : DB) (id : Uuid) : Prop :=
  ∃ o ∈ s.operations, o.id = id ∧ o.state = .reserved ∧
    ∃ o' ∈ t.operations, o'.id = id ∧ o'.proposal = o.proposal ∧ o'.state = .submitting ∧
      o'.inputReason = o.inputReason

/-- A step records a submission of an operation only by `begin_submit`, or in the owner's words. -/
theorem StepCase.submissions (id : Uuid) {a : Step} (h : StepCase env J s a t) :
    t.submissions id = s.submissions id ∨
      t.submissions id = s.submissions id + 1 ∧ (∃ o ∈ s.operations, o.id = id) ∧
        (a.notes id = true ∨ Submitted s t id) := by
  cases h with
  | writes h => exact .inl h.submissions
  | @reserve row h =>
    refine .inl ?_
    rw [submissions_record, if_neg (by simp)]
    rfl
  | @submit o agentId workflowId hcall ho hstate =>
    by_cases hid : o.id = id
    · subst hid
      have hmem : { o with state := .submitting, updatedAt := a.amb.now } ∈
          Rows.updateWhere (fun o' : Operation => o'.id = o.id)
            (fun o => { o with state := .submitting, updatedAt := a.amb.now }) s.operations :=
        Rows.mem_updateWhere.mpr ⟨o, ho, by simp⟩
      refine .inr ⟨?_, ⟨o, ho, rfl⟩, .inr ⟨o, ho, rfl, hstate, _, hmem, rfl, rfl, rfl, rfl⟩⟩
      rw [submissions_record, if_pos ⟨rfl, rfl⟩]
      rfl
    · refine .inl ?_
      rw [submissions_record, if_neg (by simp [hid])]
      rfl
  | @note u operationId text hcall hop h =>
    by_cases hsub : operationId = id ∧ text = "submitting"
    · obtain ⟨rfl, rfl⟩ := hsub
      refine .inr ⟨?_, hop, .inl ?_⟩
      · rw [submissions_record, if_pos ⟨rfl, rfl⟩, h.submissions]
      · rcases hcall with hcall | hcall <;> simp [Step.notes, hcall]
    · refine .inl ?_
      rw [submissions_record, if_neg (by simpa using hsub), Nat.add_zero, h.submissions]
  | append _ _ _ _ h => exact .inl (h.submissions a.amb)
  | clear =>
    refine .inl ?_
    rw [submissions_record, if_neg (by simp), Nat.add_zero]

/-! ## The invariant -/

/-- A payment that is reserved does not wait for a code, and only operations are submitted. -/
structure SubmitInv (s : DB) : Prop where
  keys : s.KeysUnique
  ready : ∀ o ∈ s.operations, o.proposal.action.spends = true → o.state = .reserved →
    ¬ o.waitsForCode
  known : ∀ id, (∀ o ∈ s.operations, o.id ≠ id) → s.submissions id = 0

theorem SubmitInv.initial : SubmitInv {} where
  keys := List.nodup_nil
  ready := by simp
  known := fun _ _ => rfl

theorem SubmitInv.step {a : Step} (hi : SubmitInv s) (h : StepCase env J s a t) : SubmitInv t where
  keys := h.keysUnique hi.keys
  ready := by
    intro o' ho' hs hr hc
    rcases h.origin hi.keys ho' with ⟨o, ho, he⟩ | hadmits
    · rw [he.proposal] at hs
      obtain ⟨hr', hc'⟩ := he.ready hs hr hc
      exact hi.ready o ho hs hr' hc'
    · rw [Operation.waitsForCode, hadmits.inputReason] at hc
      cases hc
  known := by
    intro id hid
    have hnone : ∀ o ∈ s.operations, o.id ≠ id := by
      intro o ho heq
      obtain ⟨o', ho', he⟩ := h.kept hi.keys ho
      exact hid o' ho' (he.id.trans heq)
    rcases h.submissions id with heq | ⟨-, ⟨o, ho, heq⟩, -⟩
    · rw [heq, hi.known id hnone]
    · exact absurd heq (hnone o ho)

theorem reachable_submitInv (h : (storeSystem env).Reachable s) : SubmitInv s :=
  h.invariant (I := SubmitInv)
    (fun s h₀ => by
      rw [show s = {} from h₀]
      exact .initial)
    fun _ _ _ hi hs => hi.step (step_cases hs)

/-- At most one submission beside the `n` the owner's words read as, and only of a payment that is
past submission. -/
def Counted (n : Nat) (s : DB) (id : Uuid) : Prop :=
  s.submissions id ≤ n ∨ s.submissions id ≤ n + 1 ∧ Past s id

theorem Counted.step {n : Nat} {a : Step} (hi : SubmitInv s) (h : StepCase env J s a t)
    (hs : ∀ o ∈ t.operations, o.id = id → o.proposal.action.spends = true)
    (hc : Counted n s id) : Counted (n + if a.notes id then 1 else 0) t id := by
  rcases h.submissions id with heq | ⟨heq, -, hnotes | hsub⟩
  · rcases hc with hc | ⟨hc, hp⟩
    · exact .inl (by omega)
    · exact .inr ⟨by omega, past_step hi.keys h hp⟩
  · rw [if_pos hnotes]
    rcases hc with hc | ⟨hc, hp⟩
    · exact .inl (by omega)
    · exact .inr ⟨by omega, past_step hi.keys h hp⟩
  · obtain ⟨o, ho, hid, hstate, o', ho', hid', hproposal, hstate', hreason⟩ := hsub
    have hspends := hs o' ho' hid'
    rcases hc with hc | ⟨-, o'', ho'', hid'', -, hpast⟩
    · refine .inr ⟨by omega, o', ho', hid', hspends, by simp [hstate'], fun hcode => ?_⟩
      rw [hproposal] at hspends
      refine hi.ready o ho hspends hstate ?_
      rwa [Operation.waitsForCode, ← hreason]
    · have := hi.keys.eq ho ho'' (hid.trans hid''.symm)
      exact absurd (this ▸ hstate) hpast.1

/-- Only the operation a run ends with counts: its proposal never changes. -/
theorem counted_run {as : List Step} (h : (storeSystem env).Run s as t) (hi : SubmitInv s)
    (hs : ∀ o ∈ t.operations, o.id = id → o.proposal.action.spends = true) {n : Nat}
    (hc : Counted n s id) : Counted (n + as.countP (Step.notes id)) t id := by
  induction h generalizing n with
  | nil => exact hc
  | @cons s u t a as hstep hrun ih =>
    have hcase := step_cases hstep
    have hu := hi.step hcase
    have hs' : ∀ o ∈ u.operations, o.id = id → o.proposal.action.spends = true := by
      intro o ho hid
      obtain ⟨o', ho', hsame⟩ := run_same hrun hu.keys ho
      rw [← hsame.proposal]
      exact hs o' ho' (hsame.id.trans hid)
    rw [List.countP_cons, Nat.add_comm (List.countP _ as), ← Nat.add_assoc]
    exact ih hu hs (hc.step hi hcase hs')

/-- What is past submission stays there. -/
theorem past_run {as : List Step} (h : (storeSystem env).Run s as t) (hu : s.KeysUnique)
    (hp : Past s id) : Past t id := by
  induction h with
  | nil => exact hp
  | cons hstep _ ih =>
    have hcase := step_cases hstep
    exact ih (hcase.keysUnique hu) (past_step hu hcase hp)

/-- `begin_submit` leaves a payment past submission. -/
theorem past_beginSubmit (hi : SubmitInv s) {agentId : String} {workflowId : Option Uuid}
    (h : beginSubmit env amb scope id agentId workflowId s = .ok ((), t)) {o : Operation}
    (ho : o ∈ s.operations) (hid : o.id = id) (hs : o.proposal.action.spends = true) :
    Past t id := by
  obtain ⟨o', ho', hid', -, hstate, rfl⟩ := beginSubmit_ok h
  obtain rfl := hi.keys.eq ho ho' (hid.trans hid'.symm)
  have hmem : { o with state := .submitting, updatedAt := amb.now } ∈
      Rows.updateWhere (fun o' : Operation => o'.id = o.id)
        (fun o => { o with state := .submitting, updatedAt := amb.now }) s.operations :=
    Rows.mem_updateWhere.mpr ⟨o, ho, by simp⟩
  exact ⟨_, hmem, hid, hs, by simp, hi.ready o ho hs hstate⟩

/-! ## At most once -/

/-- **A payment is submitted at most once.** In every run of the stores, an operation that is a
purchase or a subscription has at most one `submitting` event, apart from those that the owner's
own words of an `abandon` spell; and once `begin_submit` has succeeded on it, it raises for ever
after. -/
theorem payment_submitted_once {as : List Step} (h : (storeSystem env).Run {} as t) {o : Operation}
    (ho : o ∈ t.operations) (hs : o.proposal.action.spends = true) :
    t.submissions o.id ≤ 1 + as.countP (Step.notes o.id) ∧
      ∀ before after u v amb scope agentId workflowId, (storeSystem env).Run {} before u →
        beginSubmit env amb scope o.id agentId workflowId u = .ok ((), v) →
        (storeSystem env).Run v after t →
        ∀ amb' scope' agentId' workflowId' w,
          beginSubmit env amb' scope' o.id agentId' workflowId' t ≠ .ok ((), w) := by
  have ht := reachable_submitInv ⟨{}, as, rfl, h⟩
  have hone : ∀ o' ∈ t.operations, o'.id = o.id → o'.proposal.action.spends = true := by
    intro o' ho' hid
    rwa [ht.keys.eq ho' ho hid]
  refine ⟨?_, ?_⟩
  · rcases counted_run h .initial hone (n := 0) (.inl (Nat.zero_le _)) with hc | ⟨hc, -⟩ <;> omega
  · intro before after u v amb scope agentId workflowId hbefore hsubmit hafter
      amb' scope' agentId' workflowId' w
    have hu := reachable_submitInv ⟨{}, before, rfl, hbefore⟩
    have hstep : (storeSystem env).step u
        ⟨scope, amb, .beginSubmit o.id agentId workflowId⟩ v := by
      exact (commit_of_ok hsubmit).symm
    have hv := hu.step (step_cases hstep)
    obtain ⟨o', ho', hid, -, -, rfl⟩ := beginSubmit_ok hsubmit
    obtain ⟨o₁, ho₁, he⟩ := (step_cases hstep).kept hu.keys ho'
    obtain ⟨o₂, ho₂, hsame⟩ := run_same hafter hv.keys ho₁
    have hs' : o'.proposal.action.spends = true := by
      rw [← he.proposal, ← hsame.proposal]
      exact hone o₂ ho₂ ((hsame.id.trans he.id).trans hid)
    have hp := past_run hafter hv.keys (past_beginSubmit hu hsubmit ho' hid hs')
    exact beginSubmit_ne_ok ht.keys hp

theorem first_purchase_submitted_once :
    ∃ o ∈ (runSteps samplePlatform {} purchaseSteps).operations,
      o.proposal.action.spends = true ∧ o.state = .submitting ∧
        (runSteps samplePlatform {} purchaseSteps).submissions o.id ≤
          1 + purchaseSteps.countP (Step.notes o.id) := by
  obtain ⟨o, ho, hspends, hstate⟩ : ∃ o ∈ (runSteps samplePlatform {} purchaseSteps).operations,
      o.proposal.action.spends = true ∧ o.state = .submitting := by
    decide +kernel
  exact ⟨o, ho, hspends, hstate, (payment_submitted_once (run_runSteps _ _ _) ho hspends).1⟩

end GenusOs.Autonomy
