import GenusOs.Autonomy.System
import GenusOs.Library.Admission

/-!
# The monthly budget

Within one UTC month, what the counted operations of an owner cost in a currency stays within the
largest monthly limit they were reserved under, in each month of the window.

* `Recurrence.fallsIn`, `WebOperation.dueMinor`: what an operation costs in a month, said without
  the loop; `chargeMonths_due`: the loop computes it.
* `Admits.within`: what is admitted keeps within the limit in every month it charges.
* `monthly_budget_kept`: the budget over every run.
-/

namespace GenusOs.Autonomy

open GenusOs.Python GenusOs.Entity Transaction

/-! ## What falls due -/

/-- The recurrence charges in the month `index`. -/
def Recurrence.fallsIn (terms : Recurrence) (index : Nat) : Bool :=
  monthIndex terms.nextChargeOn ≤ index &&
    (index - monthIndex terms.nextChargeOn) % terms.intervalMonths = 0 &&
      (chargeDay terms.nextChargeOn index).any fun day =>
        terms.endsOn.all fun endsOn => day.toOrdinal ≤ endsOn.toOrdinal

/-- What a proposal costs in the month `index`, reserved in the month `first`. -/
def WebOperation.dueMinor (proposal : WebOperation) (first index : Nat) : Nat :=
  (if index = first then proposal.amountMinor else 0) +
    if proposal.recurrence.any (·.fallsIn index) then proposal.recurringMinor else 0

variable {terms : Recurrence} {first index k : Nat}

theorem fallsIn_iff : terms.fallsIn index = true ↔
    (monthIndex terms.nextChargeOn ≤ index ∧
      (index - monthIndex terms.nextChargeOn) % terms.intervalMonths = 0) ∧
        ∃ day, chargeDay terms.nextChargeOn index = some day ∧
          ∀ endsOn ∈ terms.endsOn, day.toOrdinal ≤ endsOn.toOrdinal := by
  simp only [Recurrence.fallsIn, Bool.and_eq_true, decide_eq_true_eq, Option.any_eq_true,
    Option.all_eq_true, Option.mem_def]

/-- The loop starts in the first month of the window that is a multiple of the interval away. -/
theorem firstCharge_phase (terms : Recurrence) (first : Nat) :
    monthIndex terms.nextChargeOn ≤ firstCharge terms first ∧
      (firstCharge terms first - monthIndex terms.nextChargeOn) % terms.intervalMonths = 0 := by
  unfold firstCharge
  dsimp only
  rw [Nat.add_sub_cancel_left]
  exact ⟨Nat.le_add_right _ _, Nat.mul_mod_left _ _⟩

theorem firstCharge_le (hfirst : first ≤ k) (hstart : monthIndex terms.nextChargeOn ≤ k)
    (hphase : (k - monthIndex terms.nextChargeOn) % terms.intervalMonths = 0) :
    firstCharge terms first ≤ k := by
  have h := terms.supported
  simp only [List.mem_cons, List.not_mem_nil, or_false] at h
  unfold firstCharge
  rcases h with h | h | h | h | h <;> rw [h] at hphase ⊢ <;> dsimp only <;> omega

/-- The next month of a recurrence is at least an interval later. -/
theorem next_le (hstart : monthIndex terms.nextChargeOn ≤ index)
    (hphase : (index - monthIndex terms.nextChargeOn) % terms.intervalMonths = 0)
    (hk : (k - monthIndex terms.nextChargeOn) % terms.intervalMonths = 0) (hlt : index < k) :
    index + terms.intervalMonths ≤ k := by
  have hdvd := Nat.dvd_sub (Nat.dvd_of_mod_eq_zero hk) (Nat.dvd_of_mod_eq_zero hphase)
  have := Nat.le_of_dvd (by omega) hdvd
  omega

/-- Once a recurrence has ended it charges no more. -/
theorem not_fallsIn_of_ended {day : Date} (hday : chargeDay terms.nextChargeOn index = some day)
    (hended : terms.endsOn.any (fun endsOn => endsOn.toOrdinal < day.toOrdinal) = true)
    (hle : index ≤ k) : terms.fallsIn k = false := by
  obtain ⟨endsOn, hends, hlt⟩ := (Option.any_eq_true _ _).mp hended
  rw [decide_eq_true_eq] at hlt
  by_contra hfalls
  obtain ⟨-, day', hday', hopen⟩ := fallsIn_iff.mp (Bool.eq_true_of_not_eq_false hfalls)
  have := hopen endsOn hends
  rcases Nat.eq_or_lt_of_le hle with rfl | hlt'
  · rw [hday, Option.some.injEq] at hday'
    subst hday'
    omega
  · have := Date.toOrdinal_lt hlt' hday hday'
    omega

/-- **The loop charges what falls due.** -/
theorem chargeMonths_due {recurring turns : Nat} {months months' : Months}
    (hstart : monthIndex terms.nextChargeOn ≤ index)
    (hphase : (index - monthIndex terms.nextChargeOn) % terms.intervalMonths = 0)
    (hfirst : first ≤ index) (hturns : first + 25 ≤ index + turns)
    (h : chargeMonths terms recurring first turns index months = .ok months')
    (hk : k < first + 25) :
    months' k = months k + if index ≤ k ∧ terms.fallsIn k = true then recurring else 0 := by
  have hpos := terms.intervalMonths_pos
  induction turns generalizing index months with
  | zero =>
    obtain rfl := Except.ok.inj h
    rw [if_neg (by omega), Nat.add_zero]
  | succ turns ih =>
    rw [chargeMonths] at h
    by_cases hwindow : index < first + 25
    · rw [if_pos hwindow] at h
      cases hday : chargeDay terms.nextChargeOn index with
      | none =>
        rw [hday] at h
        cases h
      | some day =>
        simp only [hday] at h
        by_cases hended : terms.endsOn.any (fun endsOn => endsOn.toOrdinal < day.toOrdinal) = true
        · rw [if_pos hended] at h
          obtain rfl := Except.ok.inj h
          rw [if_neg, Nat.add_zero]
          rintro ⟨hle, hfalls⟩
          rw [not_fallsIn_of_ended hday hended hle] at hfalls
          cases hfalls
        · rw [if_neg hended] at h
          rw [ih (by omega) (by
            rw [Nat.sub_add_comm hstart, Nat.add_mod_right]
            exact hphase) (by omega) (by omega) h, Months.charge]
          rcases Nat.lt_trichotomy k index with hlt | rfl | hlt
          · rw [if_neg (by omega), if_neg (by omega), if_neg (by omega)]
          · have hfalls : terms.fallsIn k = true := by
              refine fallsIn_iff.mpr ⟨⟨hstart, hphase⟩, day, hday, fun endsOn hends => ?_⟩
              by_contra hlt
              exact hended ((Option.any_eq_true _ _).mpr ⟨endsOn, hends, by simpa using hlt⟩)
            rw [if_pos ⟨rfl, hfirst, hwindow⟩, if_neg (by omega), if_pos ⟨Nat.le_refl _, hfalls⟩]
            rfl
          · rw [if_neg (by omega)]
            by_cases hfalls : terms.fallsIn k = true
            · have := next_le hstart hphase (fallsIn_iff.mp hfalls).1.2 hlt
              rw [if_pos ⟨this, hfalls⟩, if_pos ⟨by omega, hfalls⟩]
            · rw [if_neg fun h => hfalls h.2, if_neg fun h => hfalls h.2]
    · rw [if_neg hwindow] at h
      obtain rfl := Except.ok.inj h
      rw [if_neg (by omega), Nat.add_zero]

/-! ## Rows and operations -/

/-- What the recurrence of a proposal charges. -/
def WebOperation.renewals (proposal : WebOperation) (first : Nat) : Except Raised Months :=
  if proposal.recurringMinor = 0 then .ok 0
  else
    match proposal.recurrence with
    | none => .error (.valueError "renewal_schedule_missing")
    | some terms => chargeMonths terms proposal.recurringMinor first 25 (firstCharge terms first) 0

/-- A counted row of the month charges its amount and its recurrence. -/
theorem rowCharges_eq {row : BudgetRow} (hcounted : row.state.counted = true)
    (hmonth : monthIndex row.updatedAt.date = first) :
    rowCharges first row = (row.proposal.renewals first).map
      ((0 : Months).charge first first row.proposal.amountMinor + ·) := by
  unfold rowCharges projectRow WebOperation.renewals
  rw [if_pos hcounted, if_pos (Or.inr hmonth)]
  dsimp only
  split
  · rfl
  · cases row.proposal.recurrence with
    | none => rfl
    | some terms => rw [← chargeMonths_add, add_zero]

theorem renewals_due {proposal : WebOperation} {months : Months}
    (h : proposal.renewals first = .ok months) (hfirst : first ≤ k) (hk : k < first + 25) :
    (0 : Months).charge first first proposal.amountMinor k + months k =
      proposal.dueMinor first k := by
  unfold WebOperation.dueMinor
  have hamount : (0 : Months).charge first first proposal.amountMinor k =
      if k = first then proposal.amountMinor else 0 := by
    unfold Months.charge
    by_cases heq : k = first
    · rw [if_pos ⟨heq, Nat.le_refl _, by omega⟩, if_pos heq]
      exact Nat.zero_add _
    · rw [if_neg fun h => heq h.1, if_neg heq]
      rfl
  rw [hamount, Nat.add_right_inj]
  unfold WebOperation.renewals at h
  split at h
  · next hzero =>
    obtain rfl := Except.ok.inj h
    rw [hzero, ite_self]
    rfl
  · split at h
    · cases h
    · next terms hterms =>
      obtain ⟨hstart, hphase⟩ := firstCharge_phase terms first
      have hle := le_firstCharge terms first
      rw [chargeMonths_due hstart hphase hle (by omega) h hk, hterms, Option.any_some]
      refine (Nat.zero_add _).trans (if_congr ⟨And.right, fun hfalls => ⟨?_, hfalls⟩⟩ rfl rfl)
      obtain ⟨⟨hstart', hphase'⟩, -⟩ := fallsIn_iff.mp hfalls
      exact firstCharge_le hfirst hstart' hphase'

/-- What a budget reads of an operation. -/
def Operation.budgetRow (o : Operation) : BudgetRow :=
  { state := o.state, updatedAt := o.updatedAt, proposal := o.proposal }

/-- The counted operations of an owner in a currency. -/
def DB.counted (s : DB) (scope : Scope) (currency : String) : List Operation :=
  s.operations.filter fun o =>
    o.scope = scope && o.proposal.currency = currency && o.state.counted

/-- The monthly limit of the grant that an operation was reserved under. -/
def DB.monthlyLimit (s : DB) (o : Operation) : Nat :=
  ((findGrant s o.scope o.grantId).map (·.policy.monthlyMinor)).getD 0

/-- What an operation costs an owner in a currency, as long as it is counted. -/
def Operation.countedMinor (scope : Scope) (currency : String) (first index : Nat)
    (o : Operation) : Nat :=
  if (o.scope = scope && o.proposal.currency = currency && o.state.counted) = true then
    o.proposal.dueMinor first index
  else 0

variable {env : Platform} {amb : Ambient} {J : Prop} {s t : DB} {scope : Scope} {currency : String}
  {today : Date}

theorem budgetRows_none :
    s.budgetRows scope currency none = (s.counted scope currency).map Operation.budgetRow := by
  simp only [DB.budgetRows, DB.counted, Option.all_none, Bool.and_true]
  rfl

theorem sum_counted : ((s.counted scope currency).map fun o => o.proposal.dueMinor first k).sum =
    (s.operations.map (Operation.countedMinor scope currency first k)).sum := by
  unfold DB.counted
  induction s.operations with
  | nil => rfl
  | cons o os ih =>
    rw [List.filter_cons, List.map_cons, List.sum_cons, ← ih, Operation.countedMinor]
    split
    · rw [List.map_cons, List.sum_cons]
    · rw [Nat.zero_add]

/-- Where the months are those of `first` and the recurrences can be projected, a projection adds
up what falls due. -/
theorem projection_due (htoday : monthIndex today = first) {ops : List Operation}
    (hops : ∀ o ∈ ops, o.state.counted = true ∧ monthIndex o.updatedAt.date = first ∧
      ∃ months, o.proposal.renewals first = .ok months) :
    ∃ months, monthlyProjection (ops.map Operation.budgetRow) today = .ok months ∧
      ∀ k, first ≤ k → k < first + 25 →
        months k = (ops.map fun o => o.proposal.dueMinor first k).sum := by
  have hcharges : ∃ charges : List Months,
      List.Forall₂ (fun row c => rowCharges first row = .ok c)
        (ops.map Operation.budgetRow) charges ∧
        ∀ k, first ≤ k → k < first + 25 →
          charges.sum k = (ops.map fun o => o.proposal.dueMinor first k).sum := by
    induction ops with
    | nil => exact ⟨[], .nil, fun _ _ _ => rfl⟩
    | cons o ops ih =>
      obtain ⟨charges, hall, hsum⟩ := ih fun o ho => hops o (List.mem_cons_of_mem _ ho)
      obtain ⟨hcounted, hmonth, months, hrenewals⟩ := hops o List.mem_cons_self
      refine ⟨((0 : Months).charge first first o.proposal.amountMinor + months) :: charges,
        .cons ?_ hall, fun k hfirst hk => ?_⟩
      · have hcharges : rowCharges first o.budgetRow = (o.proposal.renewals first).map
            ((0 : Months).charge first first o.proposal.amountMinor + ·) :=
          rowCharges_eq hcounted hmonth
        rw [hcharges, hrenewals]
        rfl
      · rw [List.sum_cons, List.map_cons, List.sum_cons, Pi.add_apply, Pi.add_apply,
          renewals_due hrenewals hfirst hk, hsum k hfirst hk]
  obtain ⟨charges, hall, hsum⟩ := hcharges
  exact ⟨charges.sum, monthlyProjection_ok_iff.mpr ⟨charges, htoday ▸ hall, rfl⟩, hsum⟩

/-! ## Admission -/

/-- What an allowed payment keeps within, `before` and `added` being projected. -/
theorem budget_of_allow {policy : Delegation} {proposal : WebOperation} {agentId : String}
    {now : Instant} {month : Nat} {before added : Months}
    (hspends : proposal.action.spends = true)
    (h : (if policy.decision env.casefold proposal agentId
          ((before month : Int) + added month - proposal.amountMinor) now ≠ "allow" then
        pure (policy.decision env.casefold proposal agentId
          ((before month : Int) + added month - proposal.amountMinor) now)
      else if proposal.recurringMinor ≠ 0 ∧ (List.range' month 25).any (fun k =>
          !withinLimit (before k) (added k) policy.monthlyMinor) = true then
        pure "monthly_commitment_limit"
      else pure "allow" : Tx String) s = .ok ("allow", t)) :
    before month + added month ≤ policy.monthlyMinor ∧
      (proposal.recurringMinor ≠ 0 → ∀ k, month ≤ k → k < month + 25 →
        before k + added k ≤ policy.monthlyMinor) := by
  split at h
  · next hdecision => exact absurd (pure_ok.mp h).1.symm hdecision
  · next hdecision =>
    have hwithin := Delegation.within_of_decision hspends (not_not.mp hdecision)
    have hmonth := (withinLimit_iff.mp hwithin).2.2.2
    refine ⟨by omega, fun hrecurring k hfirst hk => ?_⟩
    split at h
    · simp [pure_ok] at h
    · next hmonths =>
      by_contra hover
      refine hmonths ⟨hrecurring, List.any_eq_true.mpr ⟨k, ?_, ?_⟩⟩
      · exact List.mem_range'_1.mpr ⟨hfirst, hk⟩
      · simp only [Bool.not_eq_true', Bool.eq_false_iff, ne_eq, withinLimit_iff]
        omega

/-- What an allowed payment was compared with. -/
theorem budgetDecision_allow {policy : Delegation} {proposal : WebOperation} {agentId : String}
    {exclude : Option Uuid} (hspends : proposal.action.spends = true)
    (h : budgetDecision env amb scope policy proposal agentId exclude s = .ok ("allow", t)) :
    ∃ before added,
      monthlyProjection (s.budgetRows scope proposal.currency exclude)
        (amb.utc 1).date = .ok before ∧
      monthlyProjection [proposalRecord proposal (amb.utc 1)] (amb.utc 1).date = .ok added ∧
      before (monthIndex (amb.utc 1).date) + added (monthIndex (amb.utc 1).date) ≤
        policy.monthlyMinor ∧
      (proposal.recurringMinor ≠ 0 → ∀ k, monthIndex (amb.utc 1).date ≤ k →
        k < monthIndex (amb.utc 1).date + 25 → before k + added k ≤ policy.monthlyMinor) := by
  simp only [budgetDecision, bind_ok, get_ok] at h
  obtain ⟨_, u, ⟨rfl, rfl⟩, h⟩ := h
  rw [if_neg (by simp [hspends])] at h
  -- the date of the first renewal does not matter here
  generalize (if exclude.isNone = true then
    Option.map (fun x : Recurrence => x.nextChargeOn.toOrdinal) proposal.recurrence else none) =
      start at h
  split at h
  · simp [pure_ok] at h
  · simp only [bind_ok, require_ok] at h
    obtain ⟨_, u, ⟨-, rfl⟩, h⟩ := h
    split at h
    · simp [pure_ok] at h
    · cases hbefore : monthlyProjection (u.budgetRows scope proposal.currency exclude)
          (amb.utc 1).date with
      | error e => simp [hbefore, pure_ok] at h
      | ok before =>
        cases hadded : monthlyProjection [proposalRecord proposal (amb.utc 1)]
            (amb.utc 1).date with
        | error e => simp [hbefore, hadded, pure_ok] at h
        | ok added =>
          simp only [hbefore, hadded] at h
          obtain ⟨hmonth, hmonths⟩ := budget_of_allow hspends h
          exact ⟨before, added, rfl, rfl, hmonth, hmonths⟩

/-- Every clock reads a day of the month. -/
structure Ambient.InMonth (amb : Ambient) (first : Nat) : Prop where
  utc : ∀ n, monthIndex (amb.utc n).date = first
  now : monthIndex amb.now.date = first

/-- The invariant of a month: the counted operations of every owner, in the order of their
admission, were admitted within the limits of their own grants. -/
structure BudgetInv (first : Nat) (s : DB) : Prop where
  keys : s.KeysUnique
  month : ∀ o ∈ s.operations, monthIndex o.updatedAt.date = first
  renewals : ∀ o ∈ s.operations, ∃ months, o.proposal.renewals first = .ok months
  granted : ∀ o ∈ s.operations, ∃ g, findGrant s o.scope o.grantId = some g
  admitted : ∀ scope currency k, first ≤ k → k < first + 25 →
    Admitted (Operation.countedMinor scope currency first k) s.monthlyLimit s.operations

theorem BudgetInv.initial : BudgetInv first {} where
  keys := List.nodup_nil
  month := by simp
  renewals := by simp
  granted := by simp
  admitted := fun _ _ _ _ _ => .nil

/-- In a state of the month, the projection of the counted operations adds up what falls due. -/
theorem BudgetInv.projection (hi : BudgetInv first s) (htoday : monthIndex today = first)
    (scope : Scope) (currency : String) :
    ∃ months, monthlyProjection (s.budgetRows scope currency none) today = .ok months ∧
      ∀ k, first ≤ k → k < first + 25 →
        months k = ((s.counted scope currency).map fun o => o.proposal.dueMinor first k).sum := by
  rw [budgetRows_none]
  refine projection_due htoday fun o ho => ?_
  obtain ⟨ho, hcounted⟩ := List.mem_filter.mp ho
  simp only [Bool.and_eq_true] at hcounted
  exact ⟨hcounted.2, hi.month o ho, hi.renewals o ho⟩

theorem dueMinor_of_not_spends {proposal : WebOperation} (h : proposal.action.spends = false) :
    proposal.dueMinor first k = 0 := by
  obtain ⟨hamount, hrecurring, -⟩ := proposal.nonpayment h
  simp [WebOperation.dueMinor, hamount, hrecurring]

theorem renewals_of_added {proposal : WebOperation} {now : Instant} {months : Months}
    (hmonth : monthIndex now.date = first)
    (h : monthlyProjection [proposalRecord proposal now] now.date = .ok months) :
    (∃ renewals, proposal.renewals first = .ok renewals) ∧
      ∀ k, first ≤ k → k < first + 25 → months k = proposal.dueMinor first k := by
  obtain ⟨charges, hall, rfl⟩ := monthlyProjection_ok_iff.mp h
  obtain ⟨c, rest, hc, hrest, rfl⟩ := List.forall₂_cons_left_iff.mp hall
  obtain rfl := List.forall₂_nil_left_iff.mp hrest
  have hcharges : rowCharges first (proposalRecord proposal now) =
      (proposal.renewals first).map ((0 : Months).charge first first proposal.amountMinor + ·) := by
    rw [rowCharges_eq (by rfl) (by exact hmonth)]
    rfl
  rw [hmonth, hcharges] at hc
  cases hrenewals : proposal.renewals first with
  | error e =>
    rw [hrenewals] at hc
    cases hc
  | ok renewals =>
    rw [hrenewals] at hc
    obtain rfl := Except.ok.inj hc
    refine ⟨⟨renewals, rfl⟩, fun k hfirst hk => ?_⟩
    rw [List.sum_singleton]
    exact renewals_due hrenewals hfirst hk

/-- **What is admitted keeps within the limit** of its grant, in every month it charges. -/
theorem Admits.within {row : Operation} (h : Admits env amb s row) (hi : BudgetInv first s)
    (hmonth : amb.InMonth first) :
    (∃ months, row.proposal.renewals first = .ok months) ∧
      ∀ scope currency k, first ≤ k → k < first + 25 →
        0 < row.countedMinor scope currency first k →
          (s.operations.map (Operation.countedMinor scope currency first k)).sum +
            row.countedMinor scope currency first k ≤ s.monthlyLimit row := by
  obtain ⟨g, hg, hbudget⟩ := h.grant
  have hlimit : s.monthlyLimit row = g.policy.monthlyMinor := by rw [DB.monthlyLimit, hg]; rfl
  cases hspends : row.proposal.action.spends with
  | false =>
    refine ⟨⟨0, ?_⟩, fun scope currency k _ _ hpos => ?_⟩
    · rw [WebOperation.renewals, if_pos (row.proposal.nonpayment hspends).2.1]
    · rw [Operation.countedMinor, dueMinor_of_not_spends hspends, ite_self] at hpos
      exact absurd hpos (Nat.lt_irrefl 0)
  | true =>
    obtain ⟨before, added, hbefore, hadded, hnow, hmonths⟩ := budgetDecision_allow hspends hbudget
    rw [hmonth.utc] at hnow hmonths
    obtain ⟨hrenewals, hadds⟩ := renewals_of_added (hmonth.utc 1) hadded
    refine ⟨hrenewals, fun scope currency k hfirst hk hpos => ?_⟩
    unfold Operation.countedMinor at hpos
    split at hpos
    · next hrow =>
      obtain ⟨months, hprojection, hsum⟩ :=
        hi.projection (hmonth.utc 1) row.scope row.proposal.currency
      rw [hbefore, Except.ok.injEq] at hprojection
      subst hprojection
      simp only [Bool.and_eq_true, decide_eq_true_eq] at hrow
      obtain ⟨⟨rfl, rfl⟩, hcounted⟩ := hrow
      have hle : before k + added k ≤ g.policy.monthlyMinor := by
        by_cases hrecurring : row.proposal.recurringMinor = 0
        · by_cases heq : k = first
          · rw [heq]
            exact hnow
          · simp [WebOperation.dueMinor, heq, hrecurring] at hpos
        · exact hmonths hrecurring k hfirst hk
      rw [hsum k hfirst hk, sum_counted, hadds k hfirst hk] at hle
      rw [hlimit, Operation.countedMinor, if_pos (by simp [hcounted])]
      exact hle
    · exact absurd hpos (Nat.lt_irrefl 0)

/-! ## The month goes on -/

theorem Write.policies (h : Write amb J s t) : PoliciesKept s t := by
  cases h with
  | grants h => exact h
  | _ => exact fun _ _ g hg => ⟨g, hg, rfl⟩

theorem PoliciesKept.trans {u : DB} (h : PoliciesKept s t) (h' : PoliciesKept t u) :
    PoliciesKept s u := by
  intro scope id g hg
  obtain ⟨g', hg', hpolicy⟩ := h scope id g hg
  obtain ⟨g'', hg'', hpolicy'⟩ := h' scope id g' hg'
  exact ⟨g'', hg'', hpolicy'.trans hpolicy⟩

theorem Writes.policies (h : Writes amb J s t) : PoliciesKept s t := by
  induction h with
  | refl => exact fun _ _ g hg => ⟨g, hg, rfl⟩
  | tail _ hw ih => exact ih.trans hw.policies

/-- No step changes the policy of a grant. -/
theorem StepCase.policies {a : Step} (h : StepCase env J s a t) : PoliciesKept s t := by
  cases h with
  | writes h => exact h.policies
  | reserve | submit | clear => exact fun _ _ g hg => ⟨g, hg, rfl⟩
  | note _ _ h => exact h.policies
  | append _ _ _ _ h =>
    rcases h.split a.amb J with hw | ⟨row, -, -, hw⟩
    · exact hw.policies
    · exact hw.policies (s := s.insertEvidence row)

theorem monthlyLimit_kept (h : PoliciesKept s t) {o o' : Operation}
    (hgranted : ∃ g, findGrant s o.scope o.grantId = some g) (hscope : o'.scope = o.scope)
    (hgrant : o'.grantId = o.grantId) : t.monthlyLimit o' = s.monthlyLimit o := by
  obtain ⟨g, hg⟩ := hgranted
  obtain ⟨g', hg', hpolicy⟩ := h _ _ g hg
  rw [DB.monthlyLimit, DB.monthlyLimit, hscope, hgrant, hg, hg', Option.map_some, Option.map_some,
    hpolicy]

/-- What evolves costs no more. -/
theorem Evolves.countedMinor_le {o o' : Operation} (h : Evolves amb o o') :
    o'.countedMinor scope currency first k ≤ o.countedMinor scope currency first k := by
  unfold Operation.countedMinor
  rw [h.scope, h.proposal]
  split
  · next hrow =>
    rw [if_pos]
    simp only [Bool.and_eq_true] at hrow ⊢
    exact ⟨hrow.1, h.counted hrow.2⟩
  · exact Nat.zero_le _

/-- **Step lemma.** -/
theorem BudgetInv.step {a : Step} (hi : BudgetInv first s) (h : StepCase env J s a t)
    (hmonth : a.amb.InMonth first) : BudgetInv first t where
  keys := h.keysUnique hi.keys
  month := by
    intro o' ho'
    rcases h.origin hi.keys ho' with ⟨o, ho, he⟩ | hadmits
    · rcases he.updatedAt with heq | heq <;> rw [heq]
      · exact hi.month o ho
      · exact hmonth.now
    · rw [hadmits.updatedAt]
      exact hmonth.now
  renewals := by
    intro o' ho'
    rcases h.origin hi.keys ho' with ⟨o, ho, he⟩ | hadmits
    · rw [he.proposal]
      exact hi.renewals o ho
    · exact (hadmits.within hi hmonth).1
  granted := by
    intro o' ho'
    obtain ⟨g, hg⟩ : ∃ g, findGrant s o'.scope o'.grantId = some g := by
      rcases h.origin hi.keys ho' with ⟨o, ho, he⟩ | hadmits
      · rw [he.scope, he.grantId]
        exact hi.granted o ho
      · obtain ⟨g, hg, -⟩ := hadmits.grant
        exact ⟨g, hg⟩
    obtain ⟨g', hg', -⟩ := h.policies _ _ g hg
    exact ⟨g', hg'⟩
  admitted := by
    intro scope currency k hfirst hk
    have hs := hi.admitted scope currency k hfirst hk
    rcases h.operations hi.keys with hl | ⟨row, hadmits, hops⟩
    · refine hs.lighter (List.forall₂_iff_get.mpr ⟨hl.length_eq, fun i hs' ht' => ?_⟩)
      have he := hl.get hs' ht'
      exact ⟨he.countedMinor_le, fun _ => monthlyLimit_kept h.policies
        (hi.granted _ (List.getElem_mem hs')) he.scope he.grantId⟩
    · obtain ⟨g, hg, -⟩ := hadmits.grant
      rw [hops]
      refine (hs.lighter (List.forall₂_same.mpr fun o ho => ⟨Nat.le_refl _, fun _ =>
        monthlyLimit_kept h.policies (hi.granted o ho) rfl rfl⟩)).snoc fun hpos => ?_
      rw [monthlyLimit_kept h.policies ⟨g, hg⟩ rfl rfl]
      exact (hadmits.within hi hmonth).2 scope currency k hfirst hk hpos

/-- **Run lemma.** -/
theorem budgetInv_run {as : List Step} (h : (storeSystem env).Run s as t)
    (hmonth : ∀ a ∈ as, a.amb.InMonth first) (hi : BudgetInv first s) : BudgetInv first t :=
  h.preserves_of_labels (P := fun a => a.amb.InMonth first)
    (fun _ _ _ ha hi hs => hi.step (step_cases hs) ha) hmonth hi

/-- The largest monthly limit of the grants that the counted operations were reserved under. -/
def DB.largestLimit (s : DB) (scope : Scope) (currency : String) : Nat :=
  ((s.counted scope currency).map s.monthlyLimit).foldr max 0

theorem monthlyLimit_le_largest {o : Operation} (ho : o ∈ s.counted scope currency) :
    s.monthlyLimit o ≤ s.largestLimit scope currency := by
  have hle : ∀ l : List Operation, o ∈ l →
      s.monthlyLimit o ≤ (l.map s.monthlyLimit).foldr max 0 := by
    intro l hl
    induction l with
    | nil => cases hl
    | cons o' os ih =>
      rw [List.map_cons, List.foldr_cons]
      rcases List.mem_cons.mp hl with rfl | hl
      · exact Nat.le_max_left _ _
      · exact (ih hl).trans (Nat.le_max_right _ _)
  exact hle _ ho

/-- **The monthly budget is kept.** In every run of the stores within one UTC month, the projection
of an owner's counted operations in a currency charges each month of the window with all that falls
due in it, recurrences committed earlier included, and at most the largest monthly limit of the
grants the operations were reserved under. -/
theorem monthly_budget_kept {as : List Step} (h : (storeSystem env).Run {} as t) {first : Nat}
    (hmonth : ∀ a ∈ as, a.amb.InMonth first) (scope : Scope) (currency : String) {today : Date}
    (htoday : monthIndex today = first) :
    ∃ months, monthlyProjection (t.budgetRows scope currency none) today = .ok months ∧
      ∀ k, first ≤ k → k < first + 25 →
        months k = ((t.counted scope currency).map fun o => o.proposal.dueMinor first k).sum ∧
          months k ≤ t.largestLimit scope currency := by
  have hi := budgetInv_run h hmonth .initial
  obtain ⟨months, hprojection, hsum⟩ := hi.projection htoday scope currency
  refine ⟨months, hprojection, fun k hfirst hk => ⟨hsum k hfirst hk, ?_⟩⟩
  rw [hsum k hfirst hk, sum_counted]
  refine (hi.admitted scope currency k hfirst hk).sum_le fun o ho hpos => ?_
  refine monthlyLimit_le_largest (List.mem_filter.mpr ⟨ho, ?_⟩)
  unfold Operation.countedMinor at hpos
  split at hpos
  · next hrow => exact hrow
  · exact absurd hpos (Nat.lt_irrefl 0)

/-- A monthly subscription from the next month on. -/
def sampleSubscription : WebOperation where
  origin := "https://shop.example"
  action := .subscription
  purpose := "a newspaper"
  idempotencyKey := "order-2"
  amountMinor := 20
  recurringMinor := 30
  annualCommitmentMinor := 360
  recurrence := some { intervalMonths := 1, nextChargeOn := ⟨1970, 2, 1⟩ }

/-- The first purchase, and then a subscription under the same grant. -/
def subscriptionSteps : List Step :=
  purchaseSteps ++ [sampleStep 4 (.reserve 1 "agent" sampleSubscription)]

theorem sampleStep_inMonth (n : Nat) (call : Call) :
    (sampleStep n call).amb.InMonth (monthIndex epoch.date) :=
  ⟨fun _ => rfl, rfl⟩

theorem first_subscription_budget_kept :
    ((runSteps samplePlatform {} subscriptionSteps).counted ⟨"tenant", "owner"⟩ "USD").map (·.id) =
        [3, 4] ∧
      (runSteps samplePlatform {} subscriptionSteps).largestLimit ⟨"tenant", "owner"⟩ "USD" = 100 ∧
      ∃ months, monthlyProjection ((runSteps samplePlatform {} subscriptionSteps).budgetRows
          ⟨"tenant", "owner"⟩ "USD" none) epoch.date = .ok months ∧
        months (monthIndex epoch.date) ≤ 100 ∧ months (monthIndex epoch.date + 1) ≤ 100 := by
  have hlimit : (runSteps samplePlatform {} subscriptionSteps).largestLimit
      ⟨"tenant", "owner"⟩ "USD" = 100 := by
    decide +kernel
  refine ⟨by decide +kernel, hlimit, ?_⟩
  have hmonth : ∀ a ∈ subscriptionSteps, a.amb.InMonth (monthIndex epoch.date) := by
    simp only [subscriptionSteps, purchaseSteps, List.cons_append, List.nil_append,
      List.forall_mem_cons, sampleStep_inMonth, true_and, List.not_mem_nil, false_implies,
      implies_true]
  obtain ⟨months, hprojection, hbound⟩ := monthly_budget_kept (run_runSteps samplePlatform _ {})
    hmonth ⟨"tenant", "owner"⟩ "USD" (rfl : monthIndex epoch.date = _)
  refine ⟨months, hprojection, ?_, ?_⟩
  · exact hlimit ▸ (hbound _ (by decide) (by decide)).2
  · exact hlimit ▸ (hbound _ (by decide) (by decide)).2

end GenusOs.Autonomy
