import GenusOs.Entity.Policy
import Mathlib

/-!
# Isolation of the idempotency store between owners

A decision is stored under `"tenant:organization"`, and an identifier may contain a colon. Two
owners are therefore isolated from each other exactly when these strings differ:

* `evaluate_get_other`: a call never touches another scope's records.
* `answersFor_filter`: with different scope strings, an owner's answers are those of its own calls
  alone, whatever the other owner calls in between.
* `not_isolated_of_scope_eq`: with equal scope strings, one call of the other owner under the same
  idempotency key changes the answer.
-/

namespace GenusOs.Entity

open GenusOs.Python

variable (env : Platform)

/-- A tenant and one of its organizations. -/
abbrev Owner := Identifier × Identifier

/-- One call of `evaluate`. -/
structure EvaluateCall where
  proposal : SpendProposal
  policy : Option TreasuryPolicy
  usage : Option SpendUsage

def EvaluateCall.owner (c : EvaluateCall) : Owner := c.proposal.owner

/-- The outcomes and reasons a history gives the calls of `p`, in order. -/
def answersFor (p : Owner) : DecisionStore → List EvaluateCall →
    List (DecisionOutcome × DecisionReason)
  | _, [] => []
  | store, c :: cs =>
    let answered := evaluate env store c.proposal c.policy c.usage
    if c.owner = p then
      (answered.2.outcome, answered.2.reason) :: answersFor p answered.1 cs
    else answersFor p answered.1 cs

/-- What `p` is told does not depend on the calls of `q`: two histories of calls of the two that
agree on the calls of `p` give them the same outcomes and reasons. -/
def Isolated (p q : Owner) : Prop :=
  ∀ h h' : List EvaluateCall, (∀ c ∈ h, c.owner = p ∨ c.owner = q) →
    (∀ c ∈ h', c.owner = p ∨ c.owner = q) →
    h.filter (·.owner = p) = h'.filter (·.owner = p) →
    answersFor env p {} h = answersFor env p {} h'

/-! ## Different scope strings isolate -/

/-- Two stores hold the same records under `scope`. -/
def AgreeOn (scope : String) (s t : DecisionStore) :
    Prop := ∀ key, s.get scope key = t.get scope key

theorem putIfAbsent_get (s : DecisionStore) (scope scope' key key' : String)
    (r : StoredDecision) :
    (s.putIfAbsent scope key r).1.get scope' key' =
      if scope' = scope ∧ key' = key then some ((s.get scope key).getD r)
      else s.get scope' key' := by
  unfold DecisionStore.putIfAbsent
  cases h : s.get scope key with
  | some winner =>
    by_cases hk : scope' = scope ∧ key' = key
    · obtain ⟨rfl, rfl⟩ := hk
      simp [h]
    · simp [hk]
  | none =>
    by_cases hk : scope' = scope ∧ key' = key
    · obtain ⟨rfl, rfl⟩ := hk
      simp [DecisionStore.get]
    · have : ((scope', key') == (scope, key)) = false := by simpa using hk
      simp [DecisionStore.get, List.lookup, this, hk]

/-- A call leaves every other scope's records alone. -/
theorem evaluate_get_other (s : DecisionStore) (c : EvaluateCall) {scope : String}
    (h : scope ≠ scopeString c.owner) :
    AgreeOn scope (evaluate env s c.proposal c.policy c.usage).1 s := by
  intro key
  have hscope : ¬ (scope = scopeString c.proposal.owner) := h
  unfold evaluate
  dsimp only
  split
  · rfl
  · rw [putIfAbsent_get, if_neg (fun hk => hscope hk.1)]

/-- Stores that agree on a call's own scope give it the same answer, and agree on it after. -/
theorem evaluate_congr {s t : DecisionStore} (c : EvaluateCall)
    (h : AgreeOn (scopeString c.owner) s t) :
    (evaluate env s c.proposal c.policy c.usage).2 =
        (evaluate env t c.proposal c.policy c.usage).2 ∧
      AgreeOn (scopeString c.owner) (evaluate env s c.proposal c.policy c.usage).1
        (evaluate env t c.proposal c.policy c.usage).1 := by
  have hkey : s.get (scopeString c.proposal.owner) c.proposal.idempotencyKey.val =
      t.get (scopeString c.proposal.owner) c.proposal.idempotencyKey.val := h _
  unfold evaluate
  dsimp only
  rw [← hkey]
  cases hs : s.get (scopeString c.proposal.owner) c.proposal.idempotencyKey.val with
  | some prior => exact ⟨rfl, h⟩
  | none =>
    rw [hs] at hkey
    refine ⟨by simp [DecisionStore.putIfAbsent, hs, ← hkey], fun key => ?_⟩
    rw [putIfAbsent_get, putIfAbsent_get, hs, ← hkey, h key]

/-- The answers of `p` are those of its own calls alone. -/
theorem answersFor_filter {p q : Owner} (hscope : scopeString p ≠ scopeString q)
    (h : List EvaluateCall) :
    ∀ s t : DecisionStore, AgreeOn (scopeString p) s t →
      (∀ c ∈ h, c.owner = p ∨ c.owner = q) →
      answersFor env p s h = answersFor env p t (h.filter (·.owner = p)) := by
  induction h with
  | nil => intro _ _ _ _; rfl
  | cons c cs ih =>
    intro s t hst hall
    have hrest : ∀ c ∈ cs, c.owner = p ∨ c.owner = q :=
      fun c hc => hall c (List.mem_cons_of_mem _ hc)
    rcases hall c List.mem_cons_self with hp | hq
    · obtain ⟨hanswer, hagree⟩ := evaluate_congr env c (hp ▸ hst)
      rw [List.filter_cons_of_pos (by simpa using hp)]
      simp only [answersFor, hp, ↓reduceIte]
      rw [hanswer, ih _ _ (hp ▸ hagree) hrest]
    · have hne : c.owner ≠ p := fun h => hscope (by rw [← h, hq])
      have hother : AgreeOn (scopeString p) _ s := evaluate_get_other env s c (hq ▸ hscope)
      rw [List.filter_cons_of_neg (by simpa using hne)]
      simp only [answersFor, hne, ↓reduceIte]
      exact ih _ _ (fun key => (hother key).trans (hst key)) hrest

/-! ## Equal scope strings do not -/

/-- One unit of money. -/
def oneUnit : Money where
  units := 1
  scale := 0
  scale_le := by decide
  bounded := by decide

/-- The same small purchase, proposed by `p`. -/
def purchaseOf (p : Owner) : SpendProposal where
  proposalId := ⟨"proposal-1", by decide⟩
  tenantId := p.1
  organizationId := p.2
  actorId := ⟨"main-agent", by decide⟩
  instrument :=
    { tenantId := p.1, organizationId := p.2, provider := ⟨"stripe", by decide⟩
      virtualCardId := ⟨"card-1", by decide⟩, providerVirtualCardToken := "tok_12345678" }
  purpose := ⟨"Monitoring service", by decide⟩
  vendor := ⟨"Acme Cloud", by decide⟩
  category := ⟨"software", by decide⟩
  currency := ⟨"USD", by decide⟩
  amount := oneUnit
  amount_pos := by decide
  idempotencyKey := ⟨"spend-0001", by decide⟩
  requestedAt := { date := ⟨2026, 7, 13⟩, micros := 0, offsetSeconds := 0 }

/-- A policy of `p` that is switched off. -/
def disabledPolicy (p : Owner) : TreasuryPolicy where
  policyId := ⟨"policy-1", by decide⟩
  tenantId := p.1
  organizationId := p.2
  perTransactionLimit := oneUnit
  dailyLimit := oneUnit
  monthlyLimit := oneUnit
  approvalThreshold := oneUnit
  version_pos := by decide
  transaction_le_daily _ := le_refl _
  daily_le_monthly _ := le_refl _
  threshold_le_transaction _ := le_refl _

/-- The call of `p`: its policy is disabled, so alone it is denied for that reason. -/
def ownCall (p : Owner) : EvaluateCall :=
  { proposal := purchaseOf p, policy := some (disabledPolicy p), usage := none }

/-- The call of `q` under the same idempotency key, with no policy at all. -/
def intruderCall (q : Owner) : EvaluateCall :=
  { proposal := purchaseOf q, policy := none, usage := none }

theorem answersFor_ownCall (p : Owner) :
    answersFor env p {} [ownCall p] = [(.deny, .policyDisabled)] := by
  have howner : (ownCall p).owner = p := rfl
  simp only [answersFor, howner, ↓reduceIte]
  simp [evaluate, DecisionStore.get, DecisionStore.putIfAbsent, answerFrom, candidate, ownCall,
    evaluateUncached, disabledPolicy, makeDecision]

/-- What is answered from a stored decision is that decision or a refusal. -/
theorem answerFrom_cases (proposal : SpendProposal) (policy : Option TreasuryPolicy)
    (stored : StoredDecision) :
    answerFrom env proposal policy stored = stored.decision ∨
      answerFrom env proposal policy stored =
        makeDecision env proposal policy .deny .idempotencyConflict := by
  unfold answerFrom
  split
  · exact Or.inl rfl
  · exact Or.inr rfl

/-- After the intruder's call the answer is a stored one or a refusal, never the owner's own. -/
theorem answersFor_after_intruder {p q : Owner} (hne : p ≠ q)
    (hscope : scopeString p = scopeString q) :
    answersFor env p {} [intruderCall q, ownCall p] ≠ [(.deny, .policyDisabled)] := by
  have hq : (intruderCall q).owner ≠ p := fun h => hne h.symm
  have howner : (ownCall p).owner = p := rfl
  have hstored : (evaluate env {} (intruderCall q).proposal (intruderCall q).policy
      (intruderCall q).usage).1.get (scopeString p) (purchaseOf p).idempotencyKey.val =
      some (candidate env (purchaseOf q) none none) := by
    have hkey : (purchaseOf p).idempotencyKey.val = (purchaseOf q).idempotencyKey.val := rfl
    have hown : (purchaseOf q).owner = q := rfl
    simp only [evaluate, intruderCall, hkey, hscope, hown]
    simp [DecisionStore.get, DecisionStore.putIfAbsent]
  simp only [answersFor, hq, howner, ↓reduceIte]
  generalize evaluate env {} (intruderCall q).proposal (intruderCall q).policy
    (intruderCall q).usage = answered at hstored
  have hown : (purchaseOf p).owner = p := rfl
  simp only [evaluate, ownCall, hown, hstored]
  rcases answerFrom_cases env (purchaseOf p) (some (disabledPolicy p))
    (candidate env (purchaseOf q) none none) with h | h
  · rw [h]
    simp [candidate, evaluateUncached, makeDecision]
  · rw [h]
    simp [makeDecision]

theorem not_isolated_of_scope_eq {p q : Owner} (hne : p ≠ q)
    (hscope : scopeString p = scopeString q) : ¬ Isolated env p q := by
  intro h
  have hq : (intruderCall q).owner ≠ p := fun h => hne h.symm
  have heq := h [ownCall p] [intruderCall q, ownCall p]
    (fun c hc => Or.inl (by rw [List.mem_singleton.mp hc]; rfl))
    (fun c hc => by
      rcases List.mem_cons.mp hc with rfl | hc
      · exact Or.inr rfl
      · exact Or.inl (by rw [List.mem_singleton.mp hc]; rfl))
    (List.filter_cons_of_neg (by simpa using hq)).symm
  rw [answersFor_ownCall] at heq
  exact answersFor_after_intruder env hne hscope heq.symm

/-- **Exactly when two owners are isolated**: when `tenant:organization` reads differently for
them. Only a colon inside an identifier can make it read the same. -/
theorem isolated_iff {p q : Owner} (hne : p ≠ q) :
    Isolated env p q ↔ scopeString p ≠ scopeString q := by
  constructor
  · exact fun h hscope => not_isolated_of_scope_eq env hne hscope h
  · intro hscope h h' hh hh' hfilter
    rw [answersFor_filter env hscope h {} {} (fun _ => rfl) hh, hfilter,
      ← answersFor_filter env hscope h' {} {} (fun _ => rfl) hh']

/-- Tenant `a` with organization `b:c`. -/
def colonInOrganization : Owner := (⟨"a", by decide⟩, ⟨"b:c", by decide⟩)

/-- Tenant `a:b` with organization `c`. -/
def colonInTenant : Owner := (⟨"a:b", by decide⟩, ⟨"c", by decide⟩)

/-- A platform to run the decision table on. -/
def plainPlatform : Platform where
  casefold s := s
  fingerprint payload := payload.tenantId ++ "|" ++ payload.organizationId
  tokenFingerprint s := s
  uuid5 s := s

/-- Two owners without a colon in their ids are isolated. -/
theorem isolated_plain_owners :
    (((⟨"tenant-1", by decide⟩, ⟨"org-1", by decide⟩) : Owner) ≠
        (⟨"tenant-2", by decide⟩, ⟨"org-1", by decide⟩)) ∧
      Isolated plainPlatform (⟨"tenant-1", by decide⟩, ⟨"org-1", by decide⟩)
        (⟨"tenant-2", by decide⟩, ⟨"org-1", by decide⟩) :=
  ⟨by decide, (isolated_iff plainPlatform (by decide)).mpr (by decide)⟩

/-- Isolation of all different owners fails at `a` / `b:c` and `a:b` / `c`. -/
theorem owners_with_colons_interfere :
    ¬ ∀ (env : Platform) (p q : Owner), p ≠ q → Isolated env p q := by
  intro h
  have hne : colonInOrganization ≠ colonInTenant := by decide
  exact not_isolated_of_scope_eq plainPlatform hne (by decide)
    (h plainPlatform colonInOrganization colonInTenant hne)

end GenusOs.Entity
