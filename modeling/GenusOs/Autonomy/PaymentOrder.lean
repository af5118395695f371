import GenusOs.Autonomy.PaymentLifecycle
import Mathlib

/-!
# Payment evidence in any order

Issuers deliver facts in any order and more than once. A projection depends on the set of the facts
alone: which sets are accepted, and the position, are said of the facts without their repetitions.

* `projectPayment_eq_ok_iff`: the accepted lists and their positions.
* `projectPayment_order_free`: lists of the same facts are projected alike.
-/

namespace GenusOs.Autonomy

open GenusOs.Python

/-! ## The state of a position -/

/-- The state that goes with what has been counted. -/
def settledState (amount : FactKind → Nat) (submitted : Bool) : PaymentState :=
  if amount .refunded ≠ 0 then
    if amount .refunded = amount .charged then .refunded else .partiallyRefunded
  else if amount .charged ≠ 0 then .charged
  else if amount .authorized ≠ 0 then
    if amount .reversed = amount .authorized then .reversed else .authorized
  else if submitted then .submitted else .unconfirmed

variable {p q : PaymentPosition} {fact : PaymentFact} {facts more seen out : List PaymentFact}
  {currency : String} {limitMinor : Nat} {submitted : Bool}

theorem settledState_of_refunded {amount : FactKind → Nat} (h : amount .refunded ≠ 0) :
    settledState amount submitted =
      if amount .refunded = amount .charged then .refunded else .partiallyRefunded := by
  unfold settledState
  rw [if_pos h]

/-- A fact whose dependents are still to come keeps the state that goes with the amounts. -/
theorem settledState_of_applyFact (h : applyFact p fact = .ok q)
    (hlater : ∀ k : FactKind, fact.kind.priority < k.priority → p.amount k = 0)
    (hstate : p.state = settledState p.amount submitted) :
    q.state = settledState q.amount (submitted || fact.kind = .submitted) := by
  have hsound := (applyFact_ok_iff.mp ⟨q, h⟩).1
  have hfits := (applyFact_ok_iff.mp ⟨q, h⟩).2
  unfold PaymentFact.Sound at hsound
  unfold Fits at hfits
  unfold applyFact at h
  cases hk : fact.kind with
  | submitted =>
    have hauthorized := hlater .authorized (by simp [hk, FactKind.priority])
    have hcharged := hlater .charged (by simp [hk, FactKind.priority])
    have hrefunded := hlater .refunded (by simp [hk, FactKind.priority])
    simp only [hk, ↓reduceIte] at hsound h
    simp [hsound] at h
    subst h
    simp only [PaymentPosition.amount] at hauthorized hcharged hrefunded
    cases submitted <;>
      simp [settledState, PaymentPosition.amount, hauthorized, hcharged, hrefunded, hstate]
  | authorized =>
    have hcharged := hlater .charged (by simp [hk, FactKind.priority])
    have hrefunded := hlater .refunded (by simp [hk, FactKind.priority])
    have hreversed := hlater .reversed (by simp [hk, FactKind.priority])
    simp only [hk, reduceCtorEq, ↓reduceIte] at hsound hfits h
    simp only [PaymentPosition.amount] at hcharged hrefunded hreversed hfits
    have hne := Nat.pos_iff_ne_zero.mp hsound.2
    simp [hsound.1, hne, hfits] at h
    subst h
    simp [settledState, PaymentPosition.amount, hcharged, hrefunded, hreversed, hne, hne.symm]
  | charged =>
    have hrefunded := hlater .refunded (by simp [hk, FactKind.priority])
    simp only [hk, reduceCtorEq, ↓reduceIte] at hsound h
    simp only [PaymentPosition.amount] at hrefunded
    have hne := Nat.pos_iff_ne_zero.mp hsound.2
    simp [hsound.1, hne] at h
    subst h
    simp [settledState, PaymentPosition.amount, hrefunded, hne]
  | refunded =>
    simp only [hk, reduceCtorEq, ↓reduceIte] at hsound hfits h
    have hne := Nat.pos_iff_ne_zero.mp hsound.2
    simp [hsound.1, hne] at h
    split at h
    · cases h
    · cases h
      symm
      apply settledState_of_refunded
      exact Nat.ne_of_gt (Nat.add_pos_right p.refundedMinor hsound.2)
  | reversed =>
    have hrefunded := hlater .refunded (by simp [hk, FactKind.priority])
    simp only [hk, reduceCtorEq, ↓reduceIte] at hsound hfits h
    have hne := Nat.pos_iff_ne_zero.mp hsound.2
    simp only [hsound.1, ne_eq, not_true_eq_false, ↓reduceIte, hne] at h
    simp only [PaymentPosition.amount] at hrefunded hfits
    split at h
    · cases h
    · split at h
      · cases h
      · cases h
        have hauthorized : p.authorizedMinor ≠ 0 := by omega
        by_cases hcharged : p.chargedMinor = 0
        · simp only [settledState, PaymentPosition.amount, hrefunded, hcharged, hauthorized,
            ne_eq, not_true_eq_false, not_false_eq_true, ↓reduceIte]
          rfl
        · simp [settledState, PaymentPosition.amount, hrefunded, hcharged, hstate]

/-- Facts in order leave the state that goes with the amounts. -/
theorem settledState_of_applyFacts (h : facts.foldlM applyFact p = .ok q) (horder : InOrder facts)
    (hlater : ∀ f ∈ facts, ∀ k : FactKind, f.kind.priority < k.priority → p.amount k = 0)
    (hstate : p.state = settledState p.amount submitted) :
    q.state = settledState q.amount (submitted || facts.any (·.kind = .submitted)) := by
  induction facts generalizing p submitted with
  | nil =>
    cases h
    simpa using hstate
  | cons fact facts ih =>
    obtain ⟨hhead, htail⟩ := List.pairwise_cons.mp horder
    rw [List.foldlM_cons] at h
    cases hfact : applyFact p fact with
    | error e => simp [hfact, bind, Except.bind] at h
    | ok r =>
      rw [hfact] at h
      rw [List.any_cons, ← Bool.or_assoc]
      apply ih h htail
      · intro f hf k hk
        have hk' : fact.kind.priority < k.priority := Nat.lt_of_le_of_lt (hhead f hf) hk
        have hne : fact.kind ≠ k := by
          rintro rfl
          exact Nat.lt_irrefl _ hk'
        rw [amount_of_applyFact hfact]
        simp [hlater fact List.mem_cons_self k hk', hne]
      · exact settledState_of_applyFact hfact (hlater fact List.mem_cons_self) hstate

/-! ## Facts without their repetitions -/

theorem collectFact_ok (h : collectFact currency seen fact = .ok out) :
    fact.currency = currency ∧ (∀ f, f ∈ out ↔ f ∈ seen ∨ f = fact) ∧
      ((seen.map (·.eventKey)).Nodup → (out.map (·.eventKey)).Nodup) := by
  unfold collectFact at h
  split at h
  · cases h
  · next hcurrency =>
    refine ⟨not_not.mp hcurrency, ?_⟩
    cases hfind : seen.find? (·.eventKey = fact.eventKey) with
    | some previous =>
      rw [hfind] at h
      simp only at h
      split at h
      · cases h
      · next heq =>
        cases h
        have hmem : fact ∈ seen := not_not.mp heq ▸ List.mem_of_find?_eq_some hfind
        refine ⟨fun f => ⟨.inl, ?_⟩, id⟩
        rintro (hf | rfl)
        · exact hf
        · exact hmem
    | none =>
      rw [hfind] at h
      cases h
      refine ⟨fun f => by simp, fun hkeys => ?_⟩
      rw [List.map_append, List.map_singleton, List.nodup_append]
      refine ⟨hkeys, List.nodup_singleton _, ?_⟩
      intro a ha b hb
      obtain ⟨f, hf, rfl⟩ := List.mem_map.mp ha
      rw [List.mem_singleton.mp hb]
      simpa using List.find?_eq_none.mp hfind f hf

theorem collectFacts_ok (h : facts.foldlM (collectFact currency) seen = .ok out) :
    (∀ f ∈ facts, f.currency = currency) ∧ (∀ f, f ∈ out ↔ f ∈ seen ∨ f ∈ facts) ∧
      ((seen.map (·.eventKey)).Nodup → (out.map (·.eventKey)).Nodup) := by
  induction facts generalizing seen with
  | nil =>
    cases h
    simp
  | cons fact facts ih =>
    rw [List.foldlM_cons] at h
    cases hstep : collectFact currency seen fact with
    | error e => simp [hstep, bind, Except.bind] at h
    | ok mid =>
      rw [hstep] at h
      obtain ⟨hcurrency, hmem, hkeys⟩ := collectFact_ok hstep
      obtain ⟨hcurrency', hmem', hkeys'⟩ := ih h
      refine ⟨?_, ?_, hkeys' ∘ hkeys⟩
      · intro f hf
        rcases List.mem_cons.mp hf with rfl | hf
        · exact hcurrency
        · exact hcurrency' f hf
      · intro f
        rw [hmem', hmem, List.mem_cons, or_assoc]

/-- Facts of the right currency of which no two share a key are collected. -/
theorem exists_collectFacts (hcurrency : ∀ f ∈ facts, f.currency = currency)
    (hagree : ∀ f ∈ seen ++ facts, ∀ g ∈ facts, f.eventKey = g.eventKey → f = g) :
    ∃ out, facts.foldlM (collectFact currency) seen = .ok out := by
  induction facts generalizing seen with
  | nil => exact ⟨seen, rfl⟩
  | cons fact facts ih =>
    have hstep : ∃ mid, collectFact currency seen fact = .ok mid := by
      unfold collectFact
      rw [if_neg (not_not_intro (hcurrency fact List.mem_cons_self))]
      cases hfind : seen.find? (·.eventKey = fact.eventKey) with
      | none => exact ⟨_, rfl⟩
      | some previous =>
        have hkey : previous.eventKey = fact.eventKey := by
          simpa using List.find?_some hfind
        have heq := hagree previous (List.mem_append_left _ (List.mem_of_find?_eq_some hfind)) fact
          List.mem_cons_self hkey
        exact ⟨seen, if_neg (not_not_intro heq)⟩
    obtain ⟨mid, hmid⟩ := hstep
    have hrest := @ih mid (fun f hf => hcurrency f (List.mem_cons_of_mem _ hf)) ?_
    · obtain ⟨out, hout⟩ := hrest
      refine ⟨out, ?_⟩
      rw [List.foldlM_cons, hmid]
      exact hout
    · intro f hf g hg
      apply hagree f _ g (List.mem_cons_of_mem _ hg)
      rw [List.mem_append, (collectFact_ok hmid).2.1] at hf
      rw [List.mem_append, List.mem_cons]
      tauto

/-- What has been collected are the facts without their repetitions. -/
theorem perm_of_collectFacts (h : facts.foldlM (collectFact currency) [] = .ok out) :
    out.Perm facts.dedup := by
  obtain ⟨-, hmem, hkeys⟩ := collectFacts_ok h
  have hnodup : out.Nodup := (hkeys List.nodup_nil).of_map
  rw [List.perm_ext_iff_of_nodup hnodup (List.nodup_dedup facts)]
  intro f
  rw [hmem, List.mem_dedup]
  simp

/-- Not more than one group. -/
theorem dedup_length_le_one {α : Type*} [DecidableEq α] {l : List α} :
    l.dedup.length ≤ 1 ↔ ∀ a ∈ l, ∀ b ∈ l, a = b := by
  rw [← List.card_toFinset, Finset.card_le_one]
  simp only [List.mem_toFinset]

/-- A set of facts that fit together. -/
structure Accepted (currency : String) (facts : List PaymentFact) : Prop where
  agree : ∀ f ∈ facts, ∀ g ∈ facts, f.eventKey = g.eventKey → f = g
  grouped : ∀ f ∈ facts, ∀ g ∈ facts, f.group = g.group
  consistent : Consistent currency facts.dedup

/-- What a set of facts amounts to. -/
def settled (limitMinor : Nat) (facts : List PaymentFact) : PaymentPosition :=
  { state := settledState (total · facts) (facts.any (·.kind = .submitted))
    authorizedMinor := total .authorized facts
    chargedMinor := total .charged facts
    refundedMinor := total .refunded facts
    reversedMinor := total .reversed facts
    limitExceeded := limitMinor < max (total .authorized facts) (total .charged facts)
    authorizationExceeded :=
      total .authorized facts ≠ 0 ∧ total .authorized facts < total .charged facts }

theorem dedup_perm (h : ∀ f, f ∈ facts ↔ f ∈ more) : facts.dedup.Perm more.dedup := by
  rw [List.perm_ext_iff_of_nodup (List.nodup_dedup _) (List.nodup_dedup _)]
  intro f
  rw [List.mem_dedup, List.mem_dedup, h]

theorem Accepted.congr (h : ∀ f, f ∈ facts ↔ f ∈ more) (hfacts : Accepted currency facts) :
    Accepted currency more where
  agree f hf g hg := hfacts.agree f ((h f).mpr hf) g ((h g).mpr hg)
  grouped f hf g hg := hfacts.grouped f ((h f).mpr hf) g ((h g).mpr hg)
  consistent := hfacts.consistent.perm (dedup_perm h)

theorem settled_perm (h : facts.Perm more) :
    settled limitMinor facts = settled limitMinor more := by
  have htotal : ∀ k, total k facts = total k more := fun k => total_perm h
  have hany : facts.any (·.kind = .submitted) = more.any (·.kind = .submitted) := h.any_eq
  simp only [settled, htotal, hany]

/-! ## The projection -/

/-- The replay of a consistent set ends in what it amounts to. -/
theorem settled_of_applyFacts (hperm : (byPriority seen).Perm more)
    (h : (byPriority seen).foldlM applyFact {} = .ok q) :
    { q with
      limitExceeded := limitMinor < max q.authorizedMinor q.chargedMinor
      authorizationExceeded := q.authorizedMinor ≠ 0 ∧ q.authorizedMinor < q.chargedMinor } =
      settled limitMinor more := by
  have hzero : ∀ k, PaymentPosition.amount {} k = 0 := by
    intro k
    cases k <;> rfl
  have hamount : ∀ k, q.amount k = total k more := by
    intro k
    rw [amount_of_applyFacts h k, hzero, Nat.zero_add, total_perm hperm]
  have hstate := @settledState_of_applyFacts _ _ _ false h (byPriority_inOrder seen)
    (fun _ _ k _ => hzero k) rfl
  have hany : (byPriority seen).any (·.kind = .submitted) = more.any (·.kind = .submitted) :=
    hperm.any_eq
  rw [Bool.false_or, hany] at hstate
  have hstate' : q.state = settledState (total · more) (more.any (·.kind = .submitted)) := by
    rw [hstate, show q.amount = (total · more) from funext hamount]
  have hauthorized : q.authorizedMinor = total .authorized more := hamount .authorized
  have hcharged : q.chargedMinor = total .charged more := hamount .charged
  have hrefunded : q.refundedMinor = total .refunded more := hamount .refunded
  have hreversed : q.reversedMinor = total .reversed more := hamount .reversed
  simp only [settled, hstate', hauthorized, hcharged, hrefunded, hreversed]

/-- **The projection reads the facts as a set.** -/
theorem projectPayment_eq_ok_iff : projectPayment facts limitMinor currency = .ok p ↔
    Accepted currency facts ∧ p = settled limitMinor facts.dedup := by
  constructor
  · intro h
    obtain ⟨seen, q, hseen, hq, rfl⟩ := projectPayment_ok h
    have hperm := perm_of_collectFacts hseen
    have horder := (byPriority_perm seen).trans hperm
    obtain ⟨hcurrency, hmem, hkeys⟩ := collectFacts_ok hseen
    refine ⟨⟨?_, ?_, ?_⟩, settled_of_applyFacts horder hq⟩
    · intro f hf g hg
      have hkeys : (seen.map (·.eventKey)).Nodup := hkeys List.nodup_nil
      exact List.inj_on_of_nodup_map hkeys ((hmem f).mpr (.inr hf)) ((hmem g).mpr (.inr hg))
    · have hgroups : ¬ 1 < (seen.map (·.group)).dedup.length := by
        intro hlt
        simp [projectPayment, hseen, bind, Except.bind, hlt, throw, throwThe,
          MonadExceptOf.throw] at h
      intro f hf g hg
      exact dedup_length_le_one.mp (Nat.not_lt.mp hgroups) _
        (List.mem_map_of_mem ((hmem f).mpr (.inr hf))) _
        (List.mem_map_of_mem ((hmem g).mpr (.inr hg)))
    · have hafter := (applyFacts_ok_iff (byPriority_inOrder seen)).mp ⟨q, hq⟩
      refine ((consistentAfter_zero (funext fun k => ?_) fun f hf => ?_).mp hafter).perm horder
      · cases k <;> rfl
      · exact hcurrency f (List.mem_dedup.mp (horder.mem_iff.mp hf))
  · rintro ⟨⟨hagree, hgrouped, hconsistent⟩, rfl⟩
    obtain ⟨seen, hseen⟩ := @exists_collectFacts _ [] _
      (fun f hf => hconsistent.currency f (List.mem_dedup.mpr hf)) (by simpa using hagree)
    have hperm := (byPriority_perm seen).trans (perm_of_collectFacts hseen)
    have hmem : ∀ f ∈ seen, f ∈ facts := by
      intro f hf
      exact List.mem_dedup.mp ((perm_of_collectFacts hseen).mem_iff.mp hf)
    have hgroups : ¬ 1 < (seen.map (·.group)).dedup.length := by
      rw [Nat.not_lt, dedup_length_le_one]
      intro a ha b hb
      obtain ⟨f, hf, rfl⟩ := List.mem_map.mp ha
      obtain ⟨g, hg, rfl⟩ := List.mem_map.mp hb
      exact hgrouped f (hmem f hf) g (hmem g hg)
    have hafter := (consistentAfter_zero (p := {}) (by funext k; cases k <;> rfl)
      fun f hf => hconsistent.currency f (hperm.mem_iff.mp hf)).mpr (hconsistent.perm hperm.symm)
    obtain ⟨q, hq⟩ := (applyFacts_ok_iff (byPriority_inOrder seen)).mpr hafter
    rw [← settled_of_applyFacts hperm hq]
    unfold projectPayment
    simp only [hseen, bind, Except.bind, hgroups, ↓reduceIte, hq]
    rfl

/-- What an accepted position keeps to. -/
theorem bounds_of_accepted (h : Consistent currency facts) (hp : p = settled limitMinor facts) :
    p.refundedMinor ≤ p.chargedMinor ∧
      (0 < p.reversedMinor → p.chargedMinor + p.reversedMinor ≤ p.authorizedMinor) ∧
      0 ≤ p.netChargedMinor := by
  subst hp
  have hrefunds : total .refunded facts ≤ total .charged facts := h.refunds
  refine ⟨hrefunds, ?_, ?_⟩
  · intro hpos
    have hex : ∃ f ∈ facts, f.kind = .reversed := by
      by_contra hnone
      have hzero := total_eq_zero fun f hf hk => hnone ⟨f, hf, hk⟩
      exact Nat.ne_of_gt hpos hzero
    have hreversals := h.reversals hex
    rw [Nat.add_comm] at hreversals
    exact hreversals
  · unfold PaymentPosition.netChargedMinor settled
    simp only
    omega

/-- **Order and repetition do not matter.** Lists of the same facts, such as a permutation or one
with repetitions, are given the same position, or are all rejected; and an accepted position keeps
to its bounds. -/
theorem projectPayment_order_free (h : ∀ f, f ∈ facts ↔ f ∈ more) :
    ((∃ p, projectPayment facts limitMinor currency = .ok p ∧
        projectPayment more limitMinor currency = .ok p) ∨
      ((∃ e, projectPayment facts limitMinor currency = .error e) ∧
        ∃ e, projectPayment more limitMinor currency = .error e)) ∧
    ∀ p, projectPayment facts limitMinor currency = .ok p →
      p.refundedMinor ≤ p.chargedMinor ∧
        (0 < p.reversedMinor → p.chargedMinor + p.reversedMinor ≤ p.authorizedMinor) ∧
        0 ≤ p.netChargedMinor := by
  have hsame : ∀ p, projectPayment facts limitMinor currency = .ok p ↔
      projectPayment more limitMinor currency = .ok p := by
    intro p
    rw [projectPayment_eq_ok_iff, projectPayment_eq_ok_iff, settled_perm (dedup_perm h)]
    exact and_congr_left fun _ => ⟨Accepted.congr h, Accepted.congr fun f => (h f).symm⟩
  constructor
  · cases hfacts : projectPayment facts limitMinor currency with
    | ok p => exact .inl ⟨p, rfl, (hsame p).mp hfacts⟩
    | error e =>
      refine .inr ⟨⟨e, rfl⟩, ?_⟩
      cases hmore : projectPayment more limitMinor currency with
      | error e' => exact ⟨e', rfl⟩
      | ok p =>
        rw [(hsame p).mpr hmore] at hfacts
        cases hfacts
  · intro p hp
    obtain ⟨haccepted, hp⟩ := projectPayment_eq_ok_iff.mp hp
    exact bounds_of_accepted haccepted.consistent hp

def issuerFact (eventKey : String) (kind : FactKind) : PaymentFact :=
  { eventKey, kind, amountMinor := 20, currency := "USD", source := .issuer, minor := by decide
    renewalIdentity := renewalIdentity_none, issuerRenewal := fun _ => rfl }

/-- A charge that comes twice and before its authorization. -/
theorem early_charge_same_position :
    (∃ p, projectPayment [issuerFact "c1" .charged, issuerFact "a1" .authorized,
        issuerFact "c1" .charged] 20 "USD" = .ok p ∧
      projectPayment [issuerFact "a1" .authorized, issuerFact "c1" .charged] 20 "USD" = .ok p) := by
  obtain ⟨h | ⟨⟨e, he⟩, -⟩, -⟩ := @projectPayment_order_free
    [issuerFact "c1" .charged, issuerFact "a1" .authorized, issuerFact "c1" .charged]
    [issuerFact "a1" .authorized, issuerFact "c1" .charged] "USD"
    20 (fun f => by simp only [List.mem_cons, List.not_mem_nil]; tauto)
  · exact h
  · have hok : ∃ p, projectPayment [issuerFact "c1" .charged, issuerFact "a1" .authorized,
        issuerFact "c1" .charged] 20 "USD" = .ok p := ⟨_, rfl⟩
    obtain ⟨p, hp⟩ := hok
    rw [hp] at he
    cases he

end GenusOs.Autonomy
