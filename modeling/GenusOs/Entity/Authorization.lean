import GenusOs.Entity.PolicyIsolation
import GenusOs.Library.Run
import GenusOs.Python.IsoFormat
import GenusOs.Python.JsonText
import Mathlib

/-!
# What stands behind an authorization request

A request takes a proposal and an `allow` decision that names its fingerprint. The fingerprint
leaves out who owns the instrument, its provider, its label and whether it is active, so a decision
on one proposal also fits another one that differs in these.

* `evaluateUncached_allow_iff`: what the decision table has checked where it allows.
* `authorization_traced`: behind every request, whatever the interleaving of calls, there is an
  allowed call whose proposal has the fingerprint of the request's.
* `authorization_sound`: a call of that very proposal, where no other instrument was allowed under
  its fingerprint.
-/

namespace GenusOs.Entity

open GenusOs.Python

variable {env : Platform}

/-! ## What a decision has checked -/

/-- The table has passed the proposal. -/
structure Granted (env : Platform) (proposal : SpendProposal) (policy : TreasuryPolicy)
    (usage : SpendUsage) : Prop where
  enabled : policy.enabled = true
  complete : policy.isComplete = true
  tenant : proposal.tenantId = policy.tenantId
  organization : proposal.organizationId = policy.organizationId
  cardTenant : proposal.instrument.tenantId = proposal.tenantId
  cardOrganization : proposal.instrument.organizationId = proposal.organizationId
  active : proposal.instrument.active = true
  category : proposal.category ∈ policy.allowedCategories
  vendor : env.casefold proposal.vendor.val ∈ policy.allowedVendors
  currency : proposal.currency ∈ policy.allowedCurrencies
  snapshot : usageMatches proposal (some usage) = true
  transaction : proposal.amount.value ≤ policy.perTransactionLimit.value
  threshold : proposal.amount.value < policy.approvalThreshold.value
  daily : usage.dailyCommitted.value + proposal.amount.value ≤ policy.dailyLimit.value
  monthly : usage.monthlyCommitted.value + proposal.amount.value ≤ policy.monthlyLimit.value

theorem Money.value_nonneg (m : Money) : 0 ≤ m.value := by
  unfold Money.value
  positivity

/-- **An allowed proposal has passed every check.** -/
theorem evaluateUncached_allow_iff {proposal : SpendProposal} {policy : Option TreasuryPolicy}
    {usage : Option SpendUsage} : (evaluateUncached env proposal policy usage).1 = .allow ↔
      ∃ policy' usage', policy = some policy' ∧ usage = some usage' ∧
        Granted env proposal policy' usage' := by
  cases policy with
  | none => simp [evaluateUncached]
  | some policy =>
    constructor
    · intro h
      unfold evaluateUncached at h
      simp only at h
      split_ifs at h with henabled hcomplete htenant horganization howner hactive hcategory hvendor
        hcurrency
      cases usage with
      | none =>
        obtain ⟨-, used, hused, -⟩ := decideLimits_allow h
        cases hused
      | some usage =>
        obtain ⟨hsnapshot, htransaction, hthreshold, hdaily, hmonthly⟩ :=
          (decideLimits_allow_iff (Money.value_nonneg _) (Money.value_nonneg _)
            (Money.value_nonneg _) (Money.value_nonneg _) (Money.value_nonneg _)
            (Money.value_nonneg _) (Money.value_nonneg _)).mp h
        simp only [Bool.not_eq_true', Bool.not_eq_false, not_or, not_not] at *
        exact ⟨policy, usage, rfl, rfl,
          { enabled := henabled, complete := hcomplete, tenant := htenant
            organization := horganization, cardTenant := howner.1, cardOrganization := howner.2
            active := hactive, category := hcategory, vendor := hvendor, currency := hcurrency
            snapshot := hsnapshot, transaction := htransaction, threshold := hthreshold
            daily := hdaily, monthly := hmonthly }⟩
    · rintro ⟨policy', usage', hpolicy, rfl, h⟩
      obtain rfl := Option.some.inj hpolicy
      have hlimits :=
        (@decideLimits_allow_iff _ _ _ _ _ _ _ _ _ _ (usageMatches proposal (some usage'))
        (Money.value_nonneg proposal.amount) (Money.value_nonneg policy.perTransactionLimit)
        (Money.value_nonneg policy.monthlyLimit) (Money.value_nonneg usage'.monthlyCommitted)
        (Money.value_nonneg policy.dailyLimit) (Money.value_nonneg usage'.dailyCommitted)
        (Money.value_nonneg policy.approvalThreshold)).mpr
        ⟨h.snapshot, h.transaction, h.threshold, h.daily, h.monthly⟩
      simpa [evaluateUncached, h.enabled, h.complete, h.tenant, h.organization,
        h.cardTenant.trans h.tenant, h.cardOrganization.trans h.organization, h.active, h.category,
        h.vendor, h.currency] using hlimits

/-! ## What the fingerprint determines -/

/-- The digits of an amount, at least one of them before the point. -/
theorem Money.format_toList (m : Money) : m.format.toList =
    if m.scale = 0 then Nat.toDigits 10 m.units
    else
      (Date.pad (m.scale + 1) m.units).toList.take
          ((Date.pad (m.scale + 1) m.units).toList.length - m.scale) ++
        '.' :: (Date.pad (m.scale + 1) m.units).toList.drop
          ((Date.pad (m.scale + 1) m.units).toList.length - m.scale) := by
  unfold Money.format
  split
  · exact Nat.toList_repr
  · rw [String.toList_ofList, DateTime.pad_toList]
    simp only [Nat.toString_eq_repr, Nat.toList_repr]

theorem point_notMem_toDigits (n : Nat) : '.' ∉ Nat.toDigits 10 n := by
  intro h
  have hdigit := Nat.isDigit_of_mem_toDigits (by decide) (by decide) h
  exact absurd hdigit (by decide)

theorem point_notMem_pad (width n : Nat) : '.' ∉ (Date.pad width n).toList := by
  rw [DateTime.pad_toList, List.mem_append, not_or]
  refine ⟨?_, point_notMem_toDigits n⟩
  intro h
  exact absurd (List.eq_of_mem_replicate h) (by decide)

theorem scale_lt_length (m : Money) :
    m.scale < (Date.pad (m.scale + 1) m.units).toList.length := by
  rw [DateTime.pad_toList, List.length_append, List.length_replicate]
  omega

/-- An amount is determined by its text. -/
theorem Money.format_injective {m n : Money} (h : m.format = n.format) : m = n := by
  have htext := congrArg String.toList h
  rw [Money.format_toList, Money.format_toList] at htext
  have hsame : m.scale = n.scale ∧ m.units = n.units := by
    split_ifs at htext with hm hn hn
    · refine ⟨hm.trans hn.symm, ?_⟩
      rw [← Nat.ofDigitChars_ten_toDigits (n := m.units), htext, Nat.ofDigitChars_ten_toDigits]
    · refine absurd ?_ (point_notMem_toDigits m.units)
      rw [htext]
      exact List.mem_append_right _ List.mem_cons_self
    · refine absurd ?_ (point_notMem_toDigits n.units)
      rw [← htext]
      exact List.mem_append_right _ List.mem_cons_self
    · have hpoint : ∀ (m : Money) (l : List Char),
        l.Sublist (Date.pad (m.scale + 1) m.units).toList →
          '.' ∉ l := by
        intro m l hl hmem
        exact point_notMem_pad _ _ (hl.subset hmem)
      obtain ⟨htake, -, hdrop⟩ := (List.append_cons_inj_of_notMem
        (hpoint n _ (List.take_sublist _ _)) (hpoint n _ (List.drop_sublist _ _))).mp htext.symm
      constructor
      · have hlength := congrArg List.length hdrop
        have hm := scale_lt_length m
        have hn := scale_lt_length n
        rw [List.length_drop, List.length_drop] at hlength
        omega
      · have hpad : (Date.pad (m.scale + 1) m.units).toList =
            (Date.pad (n.scale + 1) n.units).toList := by
          rw [← List.take_append_drop ((Date.pad (m.scale + 1) m.units).toList.length - m.scale)
            (Date.pad (m.scale + 1) m.units).toList, ← htake, ← hdrop, List.take_append_drop]
        rw [← DateTime.pad_value (m.scale + 1) m.units, hpad, DateTime.pad_value]
  obtain ⟨units, scale, _, _⟩ := m
  obtain ⟨units', scale', _, _⟩ := n
  obtain ⟨rfl, rfl⟩ := hsame
  rfl

/-- A proposal is determined by what its fingerprint is taken of, and its instrument. -/
theorem SpendProposal.eq_of_payload {p q : SpendProposal} (h : p.payload env = q.payload env)
    (hinstrument : p.instrument = q.instrument) : p = q := by
  simp only [SpendProposal.payload, FingerprintPayload.mk.injEq] at h
  obtain ⟨hproposal, htenant, horganization, hactor, -, -, hpurpose, hvendor, hcategory, hcurrency,
    hamount, hkey, hrequested⟩ := h
  have hamount := Money.format_injective hamount
  obtain ⟨⟩ := p
  obtain ⟨⟩ := q
  simp only [Subtype.val_inj] at *
  subst hproposal htenant horganization hactor hinstrument hpurpose hvendor hcategory hcurrency
    hamount hkey hrequested
  rfl

/-! ## Interleaved calls -/

/-- The decision store, the calls made so far, those of them that found nothing stored and have
still to put their decision, and the decisions returned. -/
structure EngineState where
  store : DecisionStore := {}
  calls : List EvaluateCall := []
  pending : List EvaluateCall := []
  returned : List PolicyDecision := []

/-- `get` begins a call, `put` ends the pending call at an index. -/
inductive EngineStep
  | get (call : EvaluateCall)
  | put (index : Nat)

namespace EngineState

/-- One atomic access of a call to the store, and what the call does up to the next one. -/
def step (env : Platform) (s : EngineState) : EngineStep → Option EngineState
  | .get c =>
    match s.store.get (scopeString c.owner) c.proposal.idempotencyKey.val with
    | some prior => some { s with
        calls := s.calls ++ [c]
        returned := s.returned ++ [answerFrom env c.proposal c.policy prior] }
    | none => some { s with calls := s.calls ++ [c], pending := s.pending ++ [c] }
  | .put index =>
    match s.pending[index]? with
    | none => none
    | some c =>
      let (store, winner) := s.store.putIfAbsent (scopeString c.owner)
        c.proposal.idempotencyKey.val (candidate env c.proposal c.policy c.usage)
      some { s with
        store
        pending := s.pending.eraseIdx index
        returned := s.returned ++ [answerFrom env c.proposal c.policy winner] }

/-- `SpendPolicyEngine` under any interleaving of its calls. -/
def system (env : Platform) : System EngineState EngineStep :=
  System.ofStep (· = {}) (step env)

variable {s t : EngineState} {c : EvaluateCall}

theorem step_get_stored {prior : StoredDecision}
    (h : s.store.get (scopeString c.owner) c.proposal.idempotencyKey.val = some prior) :
    step env s (.get c) = some { s with
      calls := s.calls ++ [c]
      returned := s.returned ++ [answerFrom env c.proposal c.policy prior] } := by
  simp only [step, h]

theorem step_get_fresh
    (h : s.store.get (scopeString c.owner) c.proposal.idempotencyKey.val = none) :
    step env s (.get c) =
      some { s with calls := s.calls ++ [c], pending := s.pending ++ [c] } := by
  simp only [step, h]

theorem step_put {index : Nat} (h : s.pending[index]? = some c) :
    step env s (.put index) = some { s with
      store := (s.store.putIfAbsent (scopeString c.owner) c.proposal.idempotencyKey.val
        (candidate env c.proposal c.policy c.usage)).1
      pending := s.pending.eraseIdx index
      returned := s.returned ++ [answerFrom env c.proposal c.policy
        (s.store.putIfAbsent (scopeString c.owner) c.proposal.idempotencyKey.val
          (candidate env c.proposal c.policy c.usage)).2] } := by
  simp only [step, h]

/-- A call that nothing comes between is `evaluate`. -/
theorem run_evaluate (hpending : s.pending = []) :
    ∃ as t, System.Run (system env) s as t ∧ t.calls = s.calls ++ [c] ∧
      t.store = (evaluate env s.store c.proposal c.policy c.usage).1 ∧
      t.returned = s.returned ++ [(evaluate env s.store c.proposal c.policy c.usage).2] := by
  cases h : s.store.get (scopeString c.owner) c.proposal.idempotencyKey.val with
  | some prior =>
    have h' : s.store.get (scopeString c.proposal.owner) c.proposal.idempotencyKey.val =
      some prior := h
    refine ⟨[.get c], _, .single (step_get_stored h), rfl, ?_, ?_⟩
    · simp only [evaluate, h']
    · simp only [evaluate, h']
  | none =>
    have h' : s.store.get (scopeString c.proposal.owner) c.proposal.idempotencyKey.val = none := h
    have hindex : (s.pending ++ [c])[0]? = some c := by
      rw [hpending]
      rfl
    refine ⟨[.get c, .put 0], _, .cons (step_get_fresh h) (.single (step_put hindex)), rfl, ?_, ?_⟩
    · simp only [evaluate, h', EvaluateCall.owner]
    · simp only [evaluate, h', EvaluateCall.owner]

/-- Where the records and the decisions come from. -/
structure Traced (env : Platform) (s : EngineState) : Prop where
  stored : ∀ r ∈ s.store.records, ∃ c ∈ s.calls, r.2 = candidate env c.proposal c.policy c.usage
  pending : ∀ c ∈ s.pending, c ∈ s.calls
  returned : ∀ d ∈ s.returned, d.outcome = .allow →
    ∃ c ∈ s.calls, d = (candidate env c.proposal c.policy c.usage).decision

theorem mem_of_get {store : DecisionStore} {scope key : String} {stored : StoredDecision}
    (h : store.get scope key = some stored) : ((scope, key), stored) ∈ store.records := by
  obtain ⟨before, after, hrecords, -⟩ := List.lookup_eq_some_iff.mp h
  rw [hrecords]
  exact List.mem_append_right _ List.mem_cons_self

/-- An allow that is answered from a stored decision is that decision. -/
theorem allow_of_answerFrom {proposal : SpendProposal} {policy : Option TreasuryPolicy}
    {stored : StoredDecision} (h : (answerFrom env proposal policy stored).outcome = .allow) :
    answerFrom env proposal policy stored = stored.decision := by
  rcases answerFrom_cases env proposal policy stored with heq | heq
  · exact heq
  · rw [heq] at h
    cases h

/-- What a put leaves stored, and answers with, comes from a call. -/
theorem putIfAbsent_traced {scope key : String} (hs : s.Traced env)
    (hc : c ∈ s.calls) :
    (∀ r ∈ (s.store.putIfAbsent scope key (candidate env c.proposal c.policy c.usage)).1.records,
      ∃ c ∈ s.calls, r.2 = candidate env c.proposal c.policy c.usage) ∧
    ∃ c' ∈ s.calls, (s.store.putIfAbsent scope key (candidate env c.proposal c.policy c.usage)).2 =
      candidate env c'.proposal c'.policy c'.usage := by
  unfold DecisionStore.putIfAbsent
  cases h : s.store.get scope key with
  | some winner => exact ⟨hs.stored, hs.stored _ (mem_of_get h)⟩
  | none =>
    refine ⟨?_, c, hc, rfl⟩
    intro r hr
    rcases List.mem_cons.mp hr with rfl | hr
    · exact ⟨c, hc, rfl⟩
    · exact hs.stored r hr

theorem Traced.step {a : EngineStep} (hs : s.Traced env) (h : EngineState.step env s a = some t) :
    t.Traced env := by
  cases a with
  | get c =>
    cases hget : s.store.get (scopeString c.owner) c.proposal.idempotencyKey.val with
    | some prior =>
      rw [step_get_stored hget] at h
      cases h
      obtain ⟨c', hc', hprior⟩ := hs.stored _ (mem_of_get hget)
      refine ⟨?_, ?_, ?_⟩
      · intro r hr
        obtain ⟨c'', hc'', hr⟩ := hs.stored r hr
        exact ⟨c'', List.mem_append_left _ hc'', hr⟩
      · intro c'' hc''
        exact List.mem_append_left _ (hs.pending c'' hc'')
      · intro d hd hallow
        rcases List.mem_append.mp hd with hd | hd
        · obtain ⟨c'', hc'', hd⟩ := hs.returned d hd hallow
          exact ⟨c'', List.mem_append_left _ hc'', hd⟩
        · obtain rfl := List.mem_singleton.mp hd
          refine ⟨c', List.mem_append_left _ hc', ?_⟩
          rw [allow_of_answerFrom hallow]
          exact congrArg StoredDecision.decision hprior
    | none =>
      rw [step_get_fresh hget] at h
      cases h
      refine ⟨?_, ?_, ?_⟩
      · intro r hr
        obtain ⟨c'', hc'', hr⟩ := hs.stored r hr
        exact ⟨c'', List.mem_append_left _ hc'', hr⟩
      · intro c'' hc''
        rcases List.mem_append.mp hc'' with hc'' | hc''
        · exact List.mem_append_left _ (hs.pending c'' hc'')
        · exact List.mem_append_right _ hc''
      · intro d hd hallow
        obtain ⟨c'', hc'', hd⟩ := hs.returned d hd hallow
        exact ⟨c'', List.mem_append_left _ hc'', hd⟩
  | put index =>
    cases hc : s.pending[index]? with
    | none => simp [EngineState.step, hc] at h
    | some c =>
      rw [step_put hc] at h
      cases h
      have hcall : c ∈ s.calls := hs.pending c (List.mem_of_getElem? hc)
      obtain ⟨hrecords, c', hc', hwinner⟩ := putIfAbsent_traced hs hcall
      refine ⟨hrecords, fun c'' hc'' => hs.pending c'' (List.mem_of_mem_eraseIdx hc''), ?_⟩
      intro d hd hallow
      rcases List.mem_append.mp hd with hd | hd
      · exact hs.returned d hd hallow
      · obtain rfl := List.mem_singleton.mp hd
        refine ⟨c', hc', ?_⟩
        rw [allow_of_answerFrom hallow]
        exact congrArg StoredDecision.decision hwinner

theorem traced {s : EngineState} (h : (system env).Reachable s) : s.Traced env := by
  refine h.invariant ?_ fun _ _ _ hs hstep => hs.step hstep
  rintro _ rfl
  exact ⟨by simp, by simp, by simp⟩

end EngineState

/-! ## Requests -/

/-- An execution-bound request. -/
structure OperationalAuthorizationRequest (env : Platform) where
  proposal : SpendProposal
  decision : PolicyDecision
  /-- "provider authorization requires an allow policy decision" -/
  allowed : decision.outcome = .allow
  /-- "policy decision does not match the spend proposal" -/
  matching : decision.proposalId = proposal.proposalId ∧
    decision.proposalFingerprint = proposal.fingerprint env ∧
    decision.idempotencyKey = proposal.idempotencyKey

/-- The call was given a policy and a snapshot of usage that grant its proposal. -/
def EvaluateCall.IsGranted (env : Platform) (c : EvaluateCall) : Prop :=
  ∃ policy usage, c.policy = some policy ∧ c.usage = some usage ∧
    Granted env c.proposal policy usage

variable {s : EngineState} {request : OperationalAuthorizationRequest env}

/-- Behind every request there is a granted call for a proposal of its fingerprint. -/
theorem authorization_traced (hsha : Function.Injective env.fingerprint)
    (hs : (EngineState.system env).Reachable s) (hd : request.decision ∈ s.returned) :
    ∃ c ∈ s.calls, c.IsGranted env ∧ c.proposal.payload env = request.proposal.payload env := by
  obtain ⟨c, hc, hdecision⟩ := (EngineState.traced hs).returned _ hd request.allowed
  refine ⟨c, hc, ?_, ?_⟩
  · have hallow := request.allowed
    rw [hdecision] at hallow
    exact evaluateUncached_allow_iff.mp hallow
  · have hfingerprint := request.matching.2.1
    rw [hdecision] at hfingerprint
    exact hsha hfingerprint

/-- **Soundness of authorizations.** Behind a request there is a granted call of that very
proposal, if under its fingerprint no other instrument was granted. Without an active instrument
of its own there is none. -/
theorem authorization_sound (hsha : Function.Injective env.fingerprint)
    (hs : (EngineState.system env).Reachable s) (hd : request.decision ∈ s.returned) :
    ((∀ c ∈ s.calls, c.IsGranted env → c.proposal.payload env = request.proposal.payload env →
        c.proposal.instrument = request.proposal.instrument) →
      ∃ c ∈ s.calls, c.proposal = request.proposal ∧ c.IsGranted env) ∧
    ((∃ c ∈ s.calls, c.proposal = request.proposal ∧ c.IsGranted env) →
      request.proposal.instrument.active = true ∧
        request.proposal.instrument.tenantId = request.proposal.tenantId ∧
        request.proposal.instrument.organizationId = request.proposal.organizationId) := by
  constructor
  · intro hinstrument
    obtain ⟨c, hc, hgranted, hpayload⟩ := authorization_traced hsha hs hd
    exact ⟨c, hc, SpendProposal.eq_of_payload hpayload
      (hinstrument c hc hgranted hpayload), hgranted⟩
  · rintro ⟨c, -, hproposal, policy, usage, -, -, hgranted⟩
    rw [← hproposal]
    exact ⟨hgranted.active, hgranted.cardTenant, hgranted.cardOrganization⟩

/-! ## A request for a card nobody granted -/

/-- The canonical encoding, with the parts of the date for its text. -/
def FingerprintPayload.entries (payload : FingerprintPayload) : Dict :=
  [("proposal_id", .str payload.proposalId), ("tenant_id", .str payload.tenantId),
    ("organization_id", .str payload.organizationId), ("actor_id", .str payload.actorId),
    ("instrument_id", .str payload.instrumentId),
    ("instrument_token_fingerprint", .str payload.instrumentTokenFingerprint),
    ("purpose", .str payload.purpose), ("vendor", .str payload.vendor),
    ("category", .str payload.category), ("currency", .str payload.currency),
    ("amount", .str payload.amount), ("idempotency_key", .str payload.idempotencyKey),
    ("requested_year", .int payload.requestedAt.date.year),
    ("requested_month", .int payload.requestedAt.date.month),
    ("requested_day", .int payload.requestedAt.date.day),
    ("requested_micros", .int payload.requestedAt.micros),
    ("requested_offset", .int payload.requestedAt.offsetSeconds)]

/-- A platform whose hash is the encoding itself. -/
def encodingPlatform : Platform where
  casefold s := s
  fingerprint payload := payload.entries.dumps fun _ => "0.0"
  tokenFingerprint s := s
  uuid5 s := s

theorem entries_keys (payload : FingerprintPayload) : payload.entries.map Prod.fst =
    ["proposal_id", "tenant_id", "organization_id", "actor_id", "instrument_id",
      "instrument_token_fingerprint", "purpose", "vendor", "category", "currency", "amount",
      "idempotency_key", "requested_year", "requested_month", "requested_day", "requested_micros",
      "requested_offset"] := by
  simp only [FingerprintPayload.entries, List.map_cons, List.map_nil]

theorem entries_injective : Function.Injective FingerprintPayload.entries := by
  intro a b h
  simp only [FingerprintPayload.entries, List.cons.injEq, Prod.mk.injEq, Json.str.injEq,
    Json.int.injEq, Int.natCast_inj, true_and, and_true] at h
  obtain ⟨h₁, h₂, h₃, h₄, h₅, h₆, h₇, h₈, h₉, h₁₀,
      h₁₁, h₁₂, hyear, hmonth, hday, hmicros, hoffset⟩ := h
  obtain ⟨_, _, _, _, _, _, _, _, _, _, _, _, ⟨year, month, day⟩, _, _⟩ := a
  obtain ⟨_, _, _, _, _, _, _, _, _, _, _, _, ⟨year', month', day'⟩, _, _⟩ := b
  simp only at *
  subst h₁ h₂ h₃ h₄ h₅ h₆ h₇ h₈ h₉ h₁₀ h₁₁ h₁₂ hyear hmonth hday hmicros hoffset
  rfl

theorem encodingPlatform_injective : Function.Injective encodingPlatform.fingerprint := by
  intro a b h
  apply entries_injective
  apply Dict.dumps_injective _ _ _ _ h
  · simp [FingerprintPayload.entries, Json.isFlat]
  · simp [FingerprintPayload.entries, Json.isFlat]
  · rw [entries_keys, entries_keys]
  · rw [entries_keys]
    decide

theorem units_bounded {n : Nat} (h : n ≤ 9) :
    n * 10 ^ 4 ≤ 999999999999999999 * 10 ^ 0 := by
  omega

theorem whole_scale_le : 0 ≤ 4 := Nat.zero_le 4

def units (n : Nat) (h : n ≤ 9) : Money where
  units := n
  scale := 0
  scale_le := whole_scale_le
  bounded := units_bounded h

theorem five_le_nine : 5 ≤ 9 := by decide

theorem two_le_nine : 2 ≤ 9 := by decide

theorem units_le : (units 2 two_le_nine).value ≤ (units 5 five_le_nine).value := by
  norm_num [Money.value, units]

/-- A policy of `p` that leaves room for its small purchase. -/
def openPolicy (p : Owner) : TreasuryPolicy where
  policyId := (disabledPolicy p).policyId
  tenantId := p.1
  organizationId := p.2
  enabled := true
  allowedCategories := [(purchaseOf p).category]
  allowedVendors := ["Acme Cloud"]
  allowedCurrencies := [(purchaseOf p).currency]
  perTransactionLimit := units 5 five_le_nine
  dailyLimit := units 5 five_le_nine
  monthlyLimit := units 5 five_le_nine
  approvalThreshold := units 2 two_le_nine
  version_pos := le_refl 1
  transaction_le_daily _ := le_refl _
  daily_le_monthly _ := le_refl _
  threshold_le_transaction _ := units_le

def noUsage (p : Owner) : SpendUsage where
  tenantId := p.1
  organizationId := p.2
  usageDate := ⟨2026, 7, 13⟩
  dailyCommitted := units 0 (Nat.zero_le 9)
  monthlyCommitted := units 0 (Nat.zero_le 9)

def openCall (p : Owner) : EvaluateCall :=
  { proposal := purchaseOf p, policy := some (openPolicy p), usage := some (noUsage p) }

theorem openCall_granted (p : Owner) : (openCall p).IsGranted encodingPlatform := by
  refine ⟨openPolicy p, noUsage p, rfl, rfl, ?_⟩
  constructor
  case complete => norm_num [TreasuryPolicy.isComplete, openPolicy, Money.value, units]
  case snapshot => simp [usageMatches, openCall, purchaseOf, noUsage]
  case transaction => norm_num [openCall, purchaseOf, openPolicy, Money.value, units, oneUnit]
  case threshold => norm_num [openCall, purchaseOf, openPolicy, Money.value, units, oneUnit]
  case daily => norm_num [openCall, purchaseOf, openPolicy, noUsage, Money.value, units, oneUnit]
  case monthly => norm_num [openCall, purchaseOf, openPolicy, noUsage, Money.value, units, oneUnit]
  case category => exact List.mem_singleton_self _
  case vendor => exact List.mem_singleton_self _
  case currency => exact List.mem_singleton_self _
  all_goals rfl

/-- The decision of a granted call that is made alone. -/
theorem decision_returned (c : EvaluateCall) :
    ∃ s, (EngineState.system env).Reachable s ∧ s.calls = [c] ∧
      (candidate env c.proposal c.policy c.usage).decision ∈ s.returned := by
  obtain ⟨as, s, hrun, hcalls, -, hreturned⟩ :=
    @EngineState.run_evaluate env {} c rfl
  refine ⟨s, ⟨{}, as, rfl, hrun⟩, hcalls, ?_⟩
  rw [hreturned, List.nil_append]
  apply List.mem_singleton.mpr
  simp [evaluate, DecisionStore.get, DecisionStore.putIfAbsent, answerFrom, candidate]

/-- The request for the small purchase of `p`, with its instrument or another one that shares what
is printed of it. -/
def openRequest (p : Owner) (active : Bool) : OperationalAuthorizationRequest encodingPlatform where
  proposal := { purchaseOf p with instrument := { (purchaseOf p).instrument with active } }
  decision := (candidate encodingPlatform (openCall p).proposal (openCall p).policy
    (openCall p).usage).decision
  allowed := evaluateUncached_allow_iff.mpr (openCall_granted p)
  matching := ⟨rfl, rfl, rfl⟩

def plainOwner : Owner := (⟨"tenant-1", by decide⟩, ⟨"org-1", by decide⟩)

/-- The purchase as it was evaluated is behind its request. -/
theorem evaluated_purchase_sound : ∃ s, (EngineState.system encodingPlatform).Reachable s ∧
    ∃ c ∈ s.calls, c.proposal = (openRequest plainOwner true).proposal ∧
      c.IsGranted encodingPlatform := by
  obtain ⟨s, hs, hcalls, hd⟩ := @decision_returned encodingPlatform (openCall plainOwner)
  refine ⟨s, hs, (@authorization_sound _ _ (openRequest plainOwner true)
    encodingPlatform_injective hs hd).1 ?_⟩
  intro c hc _ _
  rw [hcalls] at hc
  rw [List.mem_singleton.mp hc]
  rfl

/-- The same decision authorizes a card that is switched off. -/
theorem inactive_card_authorized : Function.Injective encodingPlatform.fingerprint ∧
    ∃ s, (EngineState.system encodingPlatform).Reachable s ∧
      ∃ request : OperationalAuthorizationRequest encodingPlatform, request.decision ∈ s.returned ∧
        ¬ ∃ c ∈ s.calls, c.proposal = request.proposal ∧ c.IsGranted encodingPlatform := by
  refine ⟨encodingPlatform_injective, ?_⟩
  obtain ⟨s, hs, -, hd⟩ := @decision_returned encodingPlatform (openCall plainOwner)
  refine ⟨s, hs, openRequest plainOwner false, hd, ?_⟩
  rintro ⟨c, -, hproposal, policy, usage, -, -, hgranted⟩
  have hactive : (openRequest plainOwner false).proposal.instrument.active = true := by
    rw [← hproposal]
    exact hgranted.active
  cases hactive

end GenusOs.Entity
