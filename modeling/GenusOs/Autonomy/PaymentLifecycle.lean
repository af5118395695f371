import GenusOs.Autonomy.Models
import Mathlib

/-!
# Payment evidence and its projection

`projectPayment` replays the facts of one payment in the order of their dependencies, whatever the
order they arrived in, and rejects evidence that does not fit together.

* `applyFacts_ok_iff`: the replay of facts in dependency order succeeds exactly on the facts that
  are consistent with the position before.
* `projectPayment_ok_iff`, `charged_of_projectPayment`: so a payment is projected exactly where its
  facts are `Consistent`, and the position counts every charge.
-/

namespace GenusOs.Autonomy

open GenusOs.Python

inductive FactKind | submitted | authorized | charged | refunded | reversed
  deriving DecidableEq, Repr

inductive Source | merchant | issuer
  deriving DecidableEq, Repr

structure PaymentFact where
  eventKey : String
  kind : FactKind
  amountMinor : Nat
  currency : String
  source : Source
  renewalId : Option String := none
  renewalOn : Option Date := none
  minor : amountMinor ≤ maxMinor := by decide
  /-- "renewal_identity_and_date_required" -/
  renewalIdentity : renewalId.isNone = renewalOn.isNone := by decide
  /-- "issuer_renewal_evidence_required" -/
  issuerRenewal : renewalId.isSome → source = .issuer := by decide
  deriving DecidableEq

theorem renewalIdentity_none : (none : Option String).isNone = (none : Option Date).isNone := rfl

inductive PaymentState
  | unconfirmed | submitted | authorized | charged | partiallyRefunded | refunded | reversed
  deriving DecidableEq, Repr

structure PaymentPosition where
  state : PaymentState := .unconfirmed
  authorizedMinor : Nat := 0
  chargedMinor : Nat := 0
  refundedMinor : Nat := 0
  reversedMinor : Nat := 0
  limitExceeded : Bool := false
  authorizationExceeded : Bool := false
  deriving DecidableEq, Repr

namespace PaymentPosition

/-- Refunds return captured funds; they never recreate an authorization. -/
def authorizationOpenMinor (p : PaymentPosition) : Int :=
  max 0 ((p.authorizedMinor : Int) - p.chargedMinor - p.reversedMinor)

def netChargedMinor (p : PaymentPosition) : Int := (p.chargedMinor : Int) - p.refundedMinor

end PaymentPosition

/-- `_apply`. -/
def applyFact (p : PaymentPosition) (fact : PaymentFact) : Except Raised PaymentPosition :=
  let amount := fact.amountMinor
  if fact.kind = .submitted then
    if amount ≠ 0 then .error (.valueError "submission_is_not_money_movement")
    else .ok { p with state := if p.state = .unconfirmed then .submitted else p.state }
  else if fact.source ≠ .issuer then .error (.valueError "issuer_evidence_required")
  else if amount = 0 then .error (.valueError "positive_payment_amount_required")
  else
    match fact.kind with
    | .authorized =>
      if p.authorizedMinor ≠ 0 then .error (.valueError "authorization_already_recorded")
      else
        .ok { p with
          authorizedMinor := amount
          state := if p.chargedMinor = 0 then .authorized else p.state }
    | .charged =>
      .ok { p with
        chargedMinor := p.chargedMinor + amount
        state := if p.refundedMinor ≠ 0 then .partiallyRefunded else .charged }
    | .refunded =>
      let total := p.refundedMinor + amount
      if p.chargedMinor < total then .error (.valueError "refund_exceeds_charge")
      else
        .ok { p with
          refundedMinor := total
          state := if total = p.chargedMinor then .refunded else .partiallyRefunded }
    | _ =>
      let total := p.reversedMinor + amount
      if p.chargedMinor ≠ 0 ∧ total = p.authorizedMinor then
        .error (.valueError "charge_after_reversal")
      else if (total : Int) > (p.authorizedMinor : Int) - p.chargedMinor then
        .error (.valueError "invalid_authorization_reversal")
      else
        .ok { p with
          reversedMinor := total
          state :=
            if p.chargedMinor ≠ 0 then p.state
            else if total = p.authorizedMinor then .reversed
            else .authorized }

/-- `priority`: refunds require known captures, and reversals an authorization. -/
def FactKind.priority : FactKind → Nat
  | .submitted => 0
  | .authorized => 1
  | .charged => 2
  | .reversed => 3
  | .refunded => 4

/-- The loop over the facts as they arrived: one fact for each event key. -/
def collectFact (currency : String) (seen : List PaymentFact) (fact : PaymentFact) :
    Except Raised (List PaymentFact) :=
  if fact.currency ≠ currency then .error (.valueError "payment_currency_mismatch")
  else
    match seen.find? (·.eventKey = fact.eventKey) with
    | some previous =>
      if previous ≠ fact then .error (.valueError "payment_event_conflict") else .ok seen
    | none => .ok (seen ++ [fact])

def PaymentFact.group (fact : PaymentFact) : Option String × Option Date :=
  (fact.renewalId, fact.renewalOn)

def byPriority (facts : List PaymentFact) : List PaymentFact :=
  facts.insertionSort fun f g => f.kind.priority ≤ g.kind.priority

def projectPayment (facts : List PaymentFact) (limitMinor : Nat) (currency : String) :
    Except Raised PaymentPosition := do
  let seen ← facts.foldlM (collectFact currency) []
  if 1 < (seen.map (·.group)).dedup.length then
    throw (.valueError "payment_group_mismatch")
  let p ← (byPriority seen).foldlM applyFact {}
  pure { p with
    limitExceeded := limitMinor < max p.authorizedMinor p.chargedMinor
    authorizationExceeded := p.authorizedMinor ≠ 0 ∧ p.authorizedMinor < p.chargedMinor }

/-! ## One fact -/

/-- What a position has counted of each kind; a submission moves no money. -/
def PaymentPosition.amount (p : PaymentPosition) : FactKind → Nat
  | .submitted => 0
  | .authorized => p.authorizedMinor
  | .charged => p.chargedMinor
  | .refunded => p.refundedMinor
  | .reversed => p.reversedMinor

/-- The fact alone is evidence: a submission without money, or money the issuer reports. -/
def PaymentFact.Sound (fact : PaymentFact) : Prop :=
  if fact.kind = .submitted then fact.amountMinor = 0
  else fact.source = .issuer ∧ 0 < fact.amountMinor

instance (fact : PaymentFact) : Decidable fact.Sound := by
  unfold PaymentFact.Sound
  infer_instance

/-- The fact fits what was counted before it. -/
def Fits (amount : FactKind → Nat) (fact : PaymentFact) : Prop :=
  match fact.kind with
  | .authorized => amount .authorized = 0
  | .refunded => amount .refunded + fact.amountMinor ≤ amount .charged
  | .reversed => amount .reversed + fact.amountMinor + amount .charged ≤ amount .authorized
  | _ => True

theorem applyFact_ok_iff {p : PaymentPosition} {fact : PaymentFact} :
    (∃ q, applyFact p fact = .ok q) ↔ fact.Sound ∧ Fits p.amount fact := by
  unfold applyFact PaymentFact.Sound Fits PaymentPosition.amount
  cases hk : fact.kind with
  | submitted => by_cases h : fact.amountMinor = 0 <;> simp [h]
  | authorized =>
    by_cases hs : fact.source = .issuer <;> by_cases h : fact.amountMinor = 0 <;>
      by_cases ha : p.authorizedMinor = 0 <;> simp [hs, h, ha, Nat.pos_iff_ne_zero]
  | charged =>
    by_cases hs : fact.source = .issuer <;> by_cases h : fact.amountMinor = 0 <;>
      simp [hs, h, Nat.pos_iff_ne_zero]
  | refunded =>
    by_cases hs : fact.source = .issuer
    · by_cases h : fact.amountMinor = 0
      · simp [hs, h]
      · simp only [reduceCtorEq, ↓reduceIte, hs, ne_eq, not_true_eq_false, h, true_and]
        constructor
        · rintro ⟨q, hq⟩
          split at hq
          · cases hq
          · next hr => exact ⟨Nat.pos_of_ne_zero h, by omega⟩
        · rintro ⟨-, hfits⟩
          rw [if_neg (by omega)]
          exact ⟨_, rfl⟩
    · simp [hs]
  | reversed =>
    by_cases hs : fact.source = .issuer
    · by_cases h : fact.amountMinor = 0
      · simp [hs, h]
      · simp only [reduceCtorEq, ↓reduceIte, hs, ne_eq, not_true_eq_false, h, true_and]
        constructor
        · rintro ⟨q, hq⟩
          split at hq
          · cases hq
          · split at hq
            · cases hq
            · next ht => exact ⟨Nat.pos_of_ne_zero h, by omega⟩
        · rintro ⟨-, hfits⟩
          rw [if_neg (by omega), if_neg (by omega)]
          exact ⟨_, rfl⟩
    · simp [hs]

/-- An accepted fact adds its amount to those of its kind. -/
theorem amount_of_applyFact {p q : PaymentPosition} {fact : PaymentFact}
    (h : applyFact p fact = .ok q) :
    q.amount = fun k => p.amount k + if fact.kind = k then fact.amountMinor else 0 := by
  have hsound := (applyFact_ok_iff.mp ⟨q, h⟩).1
  have hfits := (applyFact_ok_iff.mp ⟨q, h⟩).2
  unfold PaymentFact.Sound at hsound
  unfold Fits at hfits
  unfold applyFact at h
  funext k
  cases hk : fact.kind with
  | submitted =>
    simp only [hk, ↓reduceIte] at hsound h
    rw [hsound] at h ⊢
    simp at h
    subst h
    cases k <;> rfl
  | authorized =>
    simp only [hk, reduceCtorEq, ↓reduceIte] at hsound hfits h
    simp [hsound.1, Nat.pos_iff_ne_zero.mp hsound.2] at h
    simp only [PaymentPosition.amount] at hfits
    simp [hfits] at h
    subst h
    cases k <;> simp [PaymentPosition.amount, hfits]
  | charged =>
    simp only [hk, reduceCtorEq, ↓reduceIte] at hsound h
    simp [hsound.1, Nat.pos_iff_ne_zero.mp hsound.2] at h
    subst h
    cases k <;> simp [PaymentPosition.amount]
  | refunded =>
    simp only [hk, reduceCtorEq, ↓reduceIte] at hsound hfits h
    simp [hsound.1, Nat.pos_iff_ne_zero.mp hsound.2] at h
    split at h
    · cases h
    · cases h
      cases k <;> simp [PaymentPosition.amount]
  | reversed =>
    simp only [hk, reduceCtorEq, ↓reduceIte] at hsound hfits h
    simp only [hsound.1, ne_eq, not_true_eq_false, ↓reduceIte,
      Nat.pos_iff_ne_zero.mp hsound.2] at h
    split at h
    · cases h
    · split at h
      · cases h
      · cases h
        cases k <;> simp [PaymentPosition.amount]

/-! ## Facts in dependency order -/

/-- The amounts of the facts of one kind. -/
def total (kind : FactKind) (facts : List PaymentFact) : Nat :=
  ((facts.filter (·.kind = kind)).map (·.amountMinor)).sum

@[simp]
theorem total_nil (kind : FactKind) : total kind [] = 0 := rfl

@[simp]
theorem total_cons (kind : FactKind) (fact : PaymentFact) (facts : List PaymentFact) :
    total kind (fact :: facts) =
      (if fact.kind = kind then fact.amountMinor else 0) + total kind facts := by
  by_cases h : fact.kind = kind <;> simp [total, h]

theorem total_append (kind : FactKind) (facts more : List PaymentFact) :
    total kind (facts ++ more) = total kind facts + total kind more := by
  simp [total]

theorem total_perm {kind : FactKind} {facts more : List PaymentFact} (h : facts.Perm more) :
    total kind facts = total kind more :=
  ((h.filter _).map _).sum_eq

theorem total_eq_zero {kind : FactKind} {facts : List PaymentFact}
    (h : ∀ f ∈ facts, f.kind ≠ kind) : total kind facts = 0 := by
  have hempty : facts.filter (·.kind = kind) = [] := by simpa using h
  simp [total, hempty]

def InOrder (facts : List PaymentFact) : Prop :=
  facts.Pairwise fun f g => f.kind.priority ≤ g.kind.priority

/-- The facts fit together after `amount` of each kind. -/
structure ConsistentAfter (amount : FactKind → Nat) (facts : List PaymentFact) : Prop where
  sound : ∀ f ∈ facts, f.Sound
  authorization : facts.countP (·.kind = .authorized) ≤ if amount .authorized = 0 then 1 else 0
  reversals : (∃ f ∈ facts, f.kind = .reversed) →
    amount .reversed + total .reversed facts + (amount .charged + total .charged facts) ≤
      amount .authorized + total .authorized facts
  refunds : (∃ f ∈ facts, f.kind = .refunded) →
    amount .refunded + total .refunded facts ≤ amount .charged + total .charged facts

theorem consistentAfter_nil (amount : FactKind → Nat) : ConsistentAfter amount [] where
  sound := by simp
  authorization := Nat.zero_le _
  reversals := by simp
  refunds := by simp

/-- Facts in order are consistent where the first one fits and the others are consistent after
it. -/
theorem consistentAfter_cons {amount : FactKind → Nat} {fact : PaymentFact}
    {facts : List PaymentFact} (horder : InOrder (fact :: facts)) :
    ConsistentAfter amount (fact :: facts) ↔
      (fact.Sound ∧ Fits amount fact) ∧
        ConsistentAfter (fun k => amount k + if fact.kind = k then fact.amountMinor else 0)
          facts := by
  have hlater := (List.pairwise_cons.mp horder).1
  -- kinds of lower priority than the first fact's do not occur after it
  have hzero : ∀ k : FactKind, k.priority < fact.kind.priority → total k facts = 0 := by
    intro k hk
    refine total_eq_zero fun f hf heq => ?_
    have := hlater f hf
    rw [heq] at this
    omega
  have hnone : ∀ k : FactKind, k.priority < fact.kind.priority → ¬ ∃ f ∈ facts, f.kind = k := by
    rintro k hk ⟨f, hf, heq⟩
    have := hlater f hf
    rw [heq] at this
    omega
  have hcount : (¬ ∃ f ∈ facts, f.kind = .authorized) →
      facts.countP (·.kind = .authorized) = 0 := by
    intro h
    rw [List.countP_eq_zero]
    intro f hf
    simpa using fun heq => h ⟨f, hf, heq⟩
  constructor
  · rintro ⟨hsound, hauth, hrev, href⟩
    have hfact := hsound fact List.mem_cons_self
    simp only [List.mem_cons, exists_eq_or_imp, total_cons, List.countP_cons,
      decide_eq_true_eq] at hauth hrev href
    refine ⟨⟨hfact, ?_⟩, fun f hf => hsound f (List.mem_cons_of_mem _ hf), ?_, ?_, ?_⟩
    · unfold Fits
      cases hk : fact.kind with
      | submitted => trivial
      | charged => trivial
      | authorized =>
        by_contra hne
        simp [hk, hne] at hauth
      | refunded =>
        have hc := hzero .charged (by simp [hk, FactKind.priority])
        simp [hk, hc] at href
        dsimp only
        omega
      | reversed =>
        have hc := hzero .charged (by simp [hk, FactKind.priority])
        have ha := hzero .authorized (by simp [hk, FactKind.priority])
        simp [hk, hc, ha] at hrev
        dsimp only
        omega
    · unfold PaymentFact.Sound at hfact
      cases hk : fact.kind <;> simp only [hk, reduceCtorEq, ↓reduceIte] at hfact hauth ⊢ <;>
        split at hauth <;> split <;> omega
    · intro hex
      have := hrev (Or.inr hex)
      cases hk : fact.kind <;> simp only [hk, reduceCtorEq, ↓reduceIte] at this ⊢ <;> omega
    · intro hex
      have := href (Or.inr hex)
      cases hk : fact.kind <;> simp only [hk, reduceCtorEq, ↓reduceIte] at this ⊢ <;> omega
  · rintro ⟨⟨hfact, hfits⟩, hsound, hauth, hrev, href⟩
    unfold Fits at hfits
    refine ⟨?_, ?_, ?_, ?_⟩
    · intro f hf
      rcases List.mem_cons.mp hf with rfl | hf
      · exact hfact
      · exact hsound f hf
    · unfold PaymentFact.Sound at hfact
      rw [List.countP_cons]
      cases hk : fact.kind <;>
        simp only [hk, reduceCtorEq, ↓reduceIte, decide_true, decide_false, Bool.false_eq_true]
          at hfact hfits hauth ⊢ <;>
        split at hauth <;> split <;> omega
    · rintro ⟨f, hf, hkind⟩
      rw [total_cons, total_cons, total_cons]
      by_cases hex : ∃ f ∈ facts, f.kind = .reversed
      · have := hrev hex
        cases hk : fact.kind <;> simp only [hk, reduceCtorEq, ↓reduceIte] at this ⊢ <;> omega
      · have hr : total .reversed facts = 0 := total_eq_zero fun f hf heq => hex ⟨f, hf, heq⟩
        have hk : fact.kind = .reversed := by
          rcases List.mem_cons.mp hf with rfl | hf
          · exact hkind
          · exact absurd ⟨f, hf, hkind⟩ hex
        have hc := hzero .charged (by simp [hk, FactKind.priority])
        have ha := hzero .authorized (by simp [hk, FactKind.priority])
        simp only [hk] at hfits
        simp only [hk, reduceCtorEq, ↓reduceIte]
        omega
    · rintro ⟨f, hf, hkind⟩
      rw [total_cons, total_cons]
      by_cases hex : ∃ f ∈ facts, f.kind = .refunded
      · have := href hex
        cases hk : fact.kind <;> simp only [hk, reduceCtorEq, ↓reduceIte] at this ⊢ <;> omega
      · have hr : total .refunded facts = 0 := total_eq_zero fun f hf heq => hex ⟨f, hf, heq⟩
        have hk : fact.kind = .refunded := by
          rcases List.mem_cons.mp hf with rfl | hf
          · exact hkind
          · exact absurd ⟨f, hf, hkind⟩ hex
        simp only [hk] at hfits
        simp only [hk, reduceCtorEq, ↓reduceIte]
        omega

/-- The replay of facts in dependency order succeeds exactly where they are consistent. -/
theorem applyFacts_ok_iff {p : PaymentPosition} {facts : List PaymentFact}
    (horder : InOrder facts) :
    (∃ q, facts.foldlM applyFact p = .ok q) ↔ ConsistentAfter p.amount facts := by
  induction facts generalizing p with
  | nil => exact ⟨fun _ => consistentAfter_nil _, fun _ => ⟨p, rfl⟩⟩
  | cons fact facts ih =>
    have htail : InOrder facts := (List.pairwise_cons.mp horder).2
    rw [consistentAfter_cons horder, ← applyFact_ok_iff]
    rw [List.foldlM_cons]
    cases hfact : applyFact p fact with
    | error e => simp [bind, Except.bind]
    | ok q =>
      show (∃ r, facts.foldlM applyFact q = .ok r) ↔ _
      rw [ih htail, amount_of_applyFact hfact]
      simp

theorem amount_of_applyFacts {p q : PaymentPosition} {facts : List PaymentFact}
    (h : facts.foldlM applyFact p = .ok q) (kind : FactKind) :
    q.amount kind = p.amount kind + total kind facts := by
  induction facts generalizing p with
  | nil =>
    cases h
    rfl
  | cons fact facts ih =>
    rw [List.foldlM_cons] at h
    cases hfact : applyFact p fact with
    | error e => simp [hfact, bind, Except.bind] at h
    | ok r =>
      rw [hfact] at h
      rw [ih h, amount_of_applyFact hfact, total_cons, Nat.add_assoc]

/-! ## The projection of a payment -/

/-- The facts of one payment fit together. -/
structure Consistent (currency : String) (facts : List PaymentFact) : Prop where
  currency : ∀ f ∈ facts, f.currency = currency
  sound : ∀ f ∈ facts, f.Sound
  authorization : facts.countP (·.kind = .authorized) ≤ 1
  reversals : (∃ f ∈ facts, f.kind = .reversed) →
    total .reversed facts + total .charged facts ≤ total .authorized facts
  refunds : total .refunded facts ≤ total .charged facts

theorem consistentAfter_zero {p : PaymentPosition} (hp : p.amount = fun _ => 0)
    {facts : List PaymentFact} {currency : String} (hc : ∀ f ∈ facts, f.currency = currency) :
    ConsistentAfter p.amount facts ↔ Consistent currency facts := by
  rw [hp]
  constructor
  · rintro ⟨hsound, hauth, hrev, href⟩
    refine ⟨hc, hsound, by simpa using hauth, by simpa using hrev, ?_⟩
    by_cases hex : ∃ f ∈ facts, f.kind = .refunded
    · simpa using href hex
    · rw [total_eq_zero fun f hf heq => hex ⟨f, hf, heq⟩]
      exact Nat.zero_le _
  · rintro ⟨-, hsound, hauth, hrev, href⟩
    exact ⟨hsound, by simpa using hauth, by simpa using hrev, fun _ => by simpa using href⟩

theorem byPriority_perm (facts : List PaymentFact) : (byPriority facts).Perm facts :=
  List.perm_insertionSort _ facts

theorem byPriority_inOrder (facts : List PaymentFact) : InOrder (byPriority facts) := by
  have : IsTrans PaymentFact fun f g => f.kind.priority ≤ g.kind.priority :=
    ⟨fun _ _ _ => Nat.le_trans⟩
  have : Std.Total fun f g : PaymentFact => f.kind.priority ≤ g.kind.priority :=
    ⟨fun _ _ => Nat.le_total _ _⟩
  exact List.pairwise_insertionSort _ facts

theorem Consistent.perm {currency : String} {facts more : List PaymentFact}
    (hp : facts.Perm more) (h : Consistent currency facts) : Consistent currency more where
  currency f hf := h.currency f (hp.mem_iff.mpr hf)
  sound f hf := h.sound f (hp.mem_iff.mpr hf)
  authorization := (hp.countP_eq _).symm.le.trans h.authorization
  reversals := by
    rintro ⟨f, hf, hk⟩
    rw [← total_perm hp, ← total_perm hp, ← total_perm hp]
    exact h.reversals ⟨f, hp.mem_iff.mpr hf, hk⟩
  refunds := by
    rw [← total_perm hp, ← total_perm hp]
    exact h.refunds

/-- Facts of different keys and of the right currency are all collected. -/
theorem collectFacts_eq {currency : String} {facts : List PaymentFact}
    (hkeys : (facts.map (·.eventKey)).Nodup) (hc : ∀ f ∈ facts, f.currency = currency) :
    facts.foldlM (collectFact currency) [] = .ok facts := by
  suffices h : ∀ seen : List PaymentFact, (∀ f ∈ facts, ∀ g ∈ seen, g.eventKey ≠ f.eventKey) →
      facts.foldlM (collectFact currency) seen = .ok (seen ++ facts) from
    h [] (by simp)
  induction facts with
  | nil => intro seen _; simp [pure, Except.pure]
  | cons fact facts ih =>
    intro seen hseen
    rw [List.map_cons, List.nodup_cons] at hkeys
    have hfind : seen.find? (·.eventKey = fact.eventKey) = none := by
      rw [List.find?_eq_none]
      intro g hg
      simpa using hseen fact List.mem_cons_self g hg
    have hstep : collectFact currency seen fact = .ok (seen ++ [fact]) := by
      simp [collectFact, hc fact List.mem_cons_self, hfind]
    rw [List.foldlM_cons, hstep]
    show facts.foldlM (collectFact currency) (seen ++ [fact]) = _
    rw [ih hkeys.2 fun f hf => hc f (List.mem_cons_of_mem _ hf), List.append_assoc]
    · rfl
    · intro f hf g hg
      rcases List.mem_append.mp hg with hg | hg
      · exact hseen f (List.mem_cons_of_mem _ hf) g hg
      · rw [List.mem_singleton.mp hg]
        exact fun heq => hkeys.1 (heq ▸ List.mem_map_of_mem hf)

/-- Every collected fact is of the right currency. -/
theorem currency_of_collectFacts {currency : String} {facts seen collected : List PaymentFact}
    (h : facts.foldlM (collectFact currency) seen = .ok collected) :
    ∀ f ∈ facts, f.currency = currency := by
  induction facts generalizing seen with
  | nil => simp
  | cons fact facts ih =>
    rw [List.foldlM_cons] at h
    cases hstep : collectFact currency seen fact with
    | error e => simp [hstep, bind, Except.bind] at h
    | ok seen' =>
      rw [hstep] at h
      intro f hf
      rcases List.mem_cons.mp hf with rfl | hf
      · by_contra hne
        simp [collectFact, hne] at hstep
      · exact ih h f hf

/-- What a projection that succeeds has gone through. -/
theorem projectPayment_ok {facts : List PaymentFact} {limitMinor : Nat} {currency : String}
    {p : PaymentPosition} (h : projectPayment facts limitMinor currency = .ok p) :
    ∃ seen q, facts.foldlM (collectFact currency) [] = .ok seen ∧
      (byPriority seen).foldlM applyFact {} = .ok q ∧
      p = { q with
        limitExceeded := limitMinor < max q.authorizedMinor q.chargedMinor
        authorizationExceeded := q.authorizedMinor ≠ 0 ∧ q.authorizedMinor < q.chargedMinor } := by
  unfold projectPayment at h
  cases hseen : facts.foldlM (collectFact currency) [] with
  | error e => simp [hseen, bind, Except.bind] at h
  | ok seen =>
    rw [hseen] at h
    cases hq : (byPriority seen).foldlM applyFact {} with
    | error e =>
      simp only [bind, Except.bind, hq] at h
      split at h <;> cases h
    | ok q =>
      simp only [bind, Except.bind, hq] at h
      split at h
      · cases h
      · cases h
        exact ⟨seen, q, rfl, hq, rfl⟩

variable {facts : List PaymentFact} {limitMinor : Nat} {currency : String}

/-- **A payment is projected exactly where its facts are consistent.** -/
theorem projectPayment_ok_iff (hkeys : (facts.map (·.eventKey)).Nodup)
    (hgroup : ∀ f ∈ facts, f.group = (none, none)) :
    (∃ p, projectPayment facts limitMinor currency = .ok p) ↔ Consistent currency facts := by
  constructor
  · rintro ⟨p, hp⟩
    obtain ⟨seen, q, hseen, hq, -⟩ := projectPayment_ok hp
    have hc := currency_of_collectFacts hseen
    rw [collectFacts_eq hkeys hc] at hseen
    cases hseen
    have hafter := (applyFacts_ok_iff (byPriority_inOrder facts)).mp ⟨q, hq⟩
    have hperm := byPriority_perm facts
    refine Consistent.perm hperm ((consistentAfter_zero ?_ ?_).mp hafter)
    · funext k
      cases k <;> rfl
    · exact fun f hf => hc f (hperm.mem_iff.mp hf)
  · intro hcons
    have hperm := byPriority_perm facts
    have hafter := (consistentAfter_zero (p := {}) (by funext k; cases k <;> rfl)
      fun f hf => hcons.currency f (hperm.mem_iff.mp hf)).mpr (hcons.perm hperm.symm)
    obtain ⟨q, hq⟩ := (applyFacts_ok_iff (byPriority_inOrder facts)).mpr hafter
    have hone : ¬ 1 < (facts.map (·.group)).dedup.length := by
      have hsub : (facts.map (·.group)).dedup ⊆ [(none, none)] := by
        intro g hg
        obtain ⟨f, hf, rfl⟩ := List.mem_map.mp (List.mem_dedup.mp hg)
        simp [hgroup f hf]
      exact Nat.not_lt.mpr (List.subperm_of_subset (List.nodup_dedup _) hsub).length_le
    unfold projectPayment
    simp only [collectFacts_eq hkeys hcons.currency, bind, Except.bind, hone, ↓reduceIte, hq]
    exact ⟨_, rfl⟩

/-- The position counts every charge, and compares it with the limit. -/
theorem charged_of_projectPayment (hkeys : (facts.map (·.eventKey)).Nodup) {p : PaymentPosition}
    (h : projectPayment facts limitMinor currency = .ok p) :
    p.chargedMinor = total .charged facts ∧
      p.limitExceeded = decide (limitMinor < max p.authorizedMinor p.chargedMinor) := by
  obtain ⟨seen, q, hseen, hq, rfl⟩ := projectPayment_ok h
  have hc := currency_of_collectFacts hseen
  rw [collectFacts_eq hkeys hc] at hseen
  cases hseen
  have hcharged := amount_of_applyFacts hq .charged
  rw [total_perm (byPriority_perm facts)] at hcharged
  exact ⟨hcharged.trans (Nat.zero_add _), rfl⟩

end GenusOs.Autonomy
