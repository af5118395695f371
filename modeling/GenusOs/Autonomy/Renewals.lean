import GenusOs.Autonomy.BudgetBound
import GenusOs.Autonomy.PaymentGroups
import Mathlib

/-!
# Renewals in the window of a projection and after it

* `renewalDays`: the days on which the loop of a recurrence places a charge; `chargeMonths_days`
  says that these are what it adds to the months.
* `scheduleMatches_iff_placed`: the matcher of renewals accepts exactly those days.
* `window_long_enough`: a limit that the window keeps is kept in every later month.
-/

namespace GenusOs.Autonomy

open GenusOs.Python

variable {terms : Recurrence} {first index k : Nat} {day due today : Date}

/-! ## Dates and their months -/

/-- The year and the month of a month's index. -/
theorem monthIndex_div_mod (h : day.Valid) :
    monthIndex day / 12 = day.year ∧ monthIndex day % 12 + 1 = day.month := by
  have hbounds := h.bounds
  unfold monthIndex
  omega

theorem monthIndex_of_new {n : Nat} (h : Date.new (index / 12) (index % 12 + 1) n = some day) :
    monthIndex day = index := by
  obtain ⟨rfl, hyear, -⟩ := Date.new_eq_some h
  unfold monthIndex
  dsimp only
  omega

theorem monthIndex_of_chargeDay (h : chargeDay terms.nextChargeOn index = some day) :
    monthIndex day = index := monthIndex_of_new h

/-! ## The days of the loop -/

/-- The days on which `chargeMonths` places a charge, up to where it ends or raises. -/
def renewalDays (terms : Recurrence) (first : Nat) : Nat → Nat → List Date
  | 0, _ => []
  | turns + 1, index =>
    if index < first + 25 then
      match chargeDay terms.nextChargeOn index with
      | none => []
      | some day =>
        if terms.endsOn.any (fun endsOn => endsOn.toOrdinal < day.toOrdinal) then []
        else day :: renewalDays terms first turns (index + terms.intervalMonths)
    else []

/-- What the loop adds to the months is a charge on each of these days. -/
theorem chargeMonths_days {recurring turns : Nat} {months months' : Months}
    (h : chargeMonths terms recurring first turns index months = .ok months') :
    months' = (renewalDays terms first turns index).foldl
      (fun months day => months.charge first (monthIndex day) recurring) months := by
  induction turns generalizing index months with
  | zero => exact (Except.ok.inj h).symm
  | succ turns ih =>
    rw [chargeMonths] at h
    rw [renewalDays]
    split
    · next hwindow =>
      rw [if_pos hwindow] at h
      cases hday : chargeDay terms.nextChargeOn index with
      | none =>
        rw [hday] at h
        cases h
      | some day =>
        simp only [hday] at h ⊢
        split
        · next hended =>
          rw [if_pos hended] at h
          exact (Except.ok.inj h).symm
        · next hopen =>
          rw [if_neg hopen] at h
          rw [List.foldl_cons, monthIndex_of_chargeDay hday]
          exact ih h
    · next hwindow =>
      rw [if_neg hwindow] at h
      exact (Except.ok.inj h).symm

/-- An earlier month of a recurrence has a day too. -/
theorem chargeDay_of_later (hstart : monthIndex terms.nextChargeOn ≤ index)
    (hanchor : terms.nextChargeOn.Valid) (hle : index ≤ k)
    (hk : chargeDay terms.nextChargeOn k = some day) :
    ∃ day', chargeDay terms.nextChargeOn index = some day' := by
  have hbounds := hanchor.bounds
  have hdays := Date.daysInMonth_ge (index / 12) (index % 12 + 1)
  have hanchorMonth := hanchor.month.1
  have hlater : k / 12 ≤ 9999 := by
    unfold chargeDay Date.new at hk
    dsimp only at hk
    split at hk
    · next h => exact h.2.1
    · cases hk
  have hindex : index / 12 ≤ k / 12 := Nat.div_le_div_right hle
  unfold monthIndex at hstart
  unfold chargeDay Date.new
  dsimp only
  rw [if_pos (by omega)]
  exact ⟨_, rfl⟩

/-- The loop places a charge on what falls due in the months it runs through. -/
theorem mem_renewalDays {turns : Nat} (hanchor : terms.nextChargeOn.Valid)
    (hstart : monthIndex terms.nextChargeOn ≤ index)
    (hphase : (index - monthIndex terms.nextChargeOn) % terms.intervalMonths = 0)
    (hturns : first + 25 ≤ index + turns) :
    day ∈ renewalDays terms first turns index ↔ ∃ k, index ≤ k ∧ k < first + 25 ∧
      terms.fallsIn k = true ∧ chargeDay terms.nextChargeOn k = some day := by
  have hpos := terms.intervalMonths_pos
  induction turns generalizing index with
  | zero =>
    constructor
    · intro hmem
      cases hmem
    · rintro ⟨k, hle, hlt, -⟩
      omega
  | succ turns ih =>
    have hnext : (index + terms.intervalMonths - monthIndex terms.nextChargeOn) %
        terms.intervalMonths = 0 := by
      rw [Nat.sub_add_comm hstart, Nat.add_mod_right]
      exact hphase
    rw [renewalDays]
    split
    · next hwindow =>
      cases hday : chargeDay terms.nextChargeOn index with
      | none =>
        constructor
        · intro hmem
          cases hmem
        · rintro ⟨k, hle, -, -, hk⟩
          obtain ⟨day', hday'⟩ := chargeDay_of_later hstart hanchor hle hk
          rw [hday] at hday'
          cases hday'
      | some first' =>
        dsimp only
        split
        · next hended =>
          constructor
          · intro hmem
            cases hmem
          · rintro ⟨k, hle, -, hfalls, -⟩
            rw [not_fallsIn_of_ended hday hended hle] at hfalls
            cases hfalls
        · next hopen =>
          have hfalls : terms.fallsIn index = true := by
            refine fallsIn_iff.mpr ⟨⟨hstart, hphase⟩, first', hday, fun endsOn hends => ?_⟩
            by_contra hlt
            exact hopen ((Option.any_eq_true _ _).mpr ⟨endsOn, hends, by simpa using hlt⟩)
          have hrest := ih (by omega) hnext (by omega)
          constructor
          · intro hmem
            rcases List.mem_cons.mp hmem with rfl | hmem
            · exact ⟨index, Nat.le_refl _, hwindow, hfalls, hday⟩
            · obtain ⟨k, hle, hlt, hk⟩ := hrest.mp hmem
              exact ⟨k, by omega, hlt, hk⟩
          · rintro ⟨k, hle, hlt, hk, hkday⟩
            rcases Nat.eq_or_lt_of_le hle with rfl | hlater
            · exact List.mem_cons.mpr (.inl (Option.some.inj (hkday.symm.trans hday)))
            · have hstep := next_le hstart hphase (fallsIn_iff.mp hk).1.2 hlater
              exact List.mem_cons.mpr (.inr (hrest.mpr ⟨k, hstep, hlt, hk, hkday⟩))
    · next hwindow =>
      constructor
      · intro hmem
        cases hmem
      · rintro ⟨k, hle, hlt, -⟩
        omega

/-! ## The matcher -/

/-- The matcher asks for the recurrence's day in a month in which it falls due. -/
theorem scheduleMatches_iff_fallsIn {proposal : WebOperation}
    (haction : proposal.action = .subscription) (hterms : proposal.recurrence = some terms)
    (hanchor : terms.nextChargeOn.Valid) (hdue : due.Valid) :
    scheduleMatches proposal (some due) = true ↔ terms.fallsIn (monthIndex due) = true ∧
      chargeDay terms.nextChargeOn (monthIndex due) = some due := by
  obtain ⟨hyear, hmonth⟩ := monthIndex_div_mod hdue
  have hbounds := hdue.bounds
  have hanchorBounds := hanchor.bounds
  have hday : chargeDay terms.nextChargeOn (monthIndex due) = some due ↔
      due.day = min terms.nextChargeOn.day (daysInMonth due.year due.month) := by
    unfold chargeDay
    dsimp only
    rw [hyear, hmonth]
    constructor
    · intro hnew
      exact congrArg Date.day (Date.new_eq_some hnew).1
    · intro hclamped
      rw [← hclamped]
      exact hdue
  have hmonths : ((due.year : Int) - terms.nextChargeOn.year) * 12 + due.month -
      terms.nextChargeOn.month = (monthIndex due : Int) - monthIndex terms.nextChargeOn := by
    unfold monthIndex
    omega
  have hphase : (0 : Int) ≤ (monthIndex due : Int) - monthIndex terms.nextChargeOn ∧
      ((monthIndex due : Int) - monthIndex terms.nextChargeOn) % terms.intervalMonths = 0 ↔
        monthIndex terms.nextChargeOn ≤ monthIndex due ∧
          (monthIndex due - monthIndex terms.nextChargeOn) % terms.intervalMonths = 0 := by
    constructor
    · rintro ⟨hle, hmod⟩
      refine ⟨by omega, ?_⟩
      rw [← Int.ofNat_sub (by omega)] at hmod
      exact_mod_cast hmod
    · rintro ⟨hle, hmod⟩
      refine ⟨by omega, ?_⟩
      rw [← Int.ofNat_sub hle]
      exact_mod_cast hmod
  unfold scheduleMatches
  rw [haction, hterms]
  dsimp only
  rw [hmonths]
  simp only [Bool.and_eq_true, decide_eq_true_eq, Option.all_eq_true]
  rw [hphase, ← hday, fallsIn_iff]
  constructor
  · rintro ⟨⟨hmonth, hday⟩, hends⟩
    exact ⟨⟨hmonth, due, hday, hends⟩, hday⟩
  · rintro ⟨⟨hmonth, day, hday, hends⟩, hdue⟩
    obtain rfl := Option.some.inj (hday.symm.trans hdue)
    exact ⟨⟨hmonth, hday⟩, hends⟩

/-- **The matcher accepts a date of the window exactly where the loop places a charge on it.** -/
theorem scheduleMatches_iff_placed {proposal : WebOperation}
    (haction : proposal.action = .subscription) (hterms : proposal.recurrence = some terms)
    (hanchor : terms.nextChargeOn.Valid) (hdue : due.Valid)
    (hstart : monthIndex today ≤ monthIndex due) (hend : monthIndex due < monthIndex today + 25) :
    scheduleMatches proposal (some due) = true ↔
      due ∈ renewalDays terms (monthIndex today) 25 (firstCharge terms (monthIndex today)) := by
  obtain ⟨hanchorMonth, hphase⟩ := firstCharge_phase terms (monthIndex today)
  have hfirst := le_firstCharge terms (monthIndex today)
  rw [scheduleMatches_iff_fallsIn haction hterms hanchor hdue,
    mem_renewalDays hanchor hanchorMonth hphase (by omega)]
  constructor
  · rintro ⟨hfalls, hday⟩
    obtain ⟨⟨hmonth, hmonthPhase⟩, -⟩ := fallsIn_iff.mp hfalls
    exact ⟨monthIndex due, firstCharge_le hstart hmonth hmonthPhase, hend, hfalls, hday⟩
  · rintro ⟨k, -, -, hfalls, hday⟩
    rw [monthIndex_of_chargeDay hday]
    exact ⟨hfalls, hday⟩

/-- Monthly, from the last day of a January on. -/
theorem monthly_supported : 1 ∈ [1, 2, 3, 6, 12] := by decide

theorem endless_ordered : ∀ e ∈
    (none : Option Date), (⟨2028, 1, 31⟩ : Date).toOrdinal ≤ e.toOrdinal :=
  nofun

def monthEndTerms : Recurrence where
  intervalMonths := 1
  nextChargeOn := ⟨2028, 1, 31⟩
  supported := monthly_supported
  orderedDates := endless_ordered

theorem monthEnd_minors : 0 ≤ maxMinor ∧ 30 ≤ maxMinor ∧ 360 ≤ maxMinor := by decide

theorem monthEnd_nonpayment : Action.subscription.spends = false → 0 = 0 ∧ 30 = 0 ∧ 360 = 0 := by
  decide

theorem monthEnd_covers : 30 ≤ 360 := by decide

theorem monthEnd_recurs : (some monthEndTerms).isSome → 30 ≠ 0 := by decide

theorem monthEnd_commits : Action.subscription = .subscription → 360 ≠ 0 := by decide

def monthEndSubscription : WebOperation where
  origin := "https://shop.example"
  action := .subscription
  purpose := "a newspaper"
  idempotencyKey := "order-3"
  recurringMinor := 30
  annualCommitmentMinor := 360
  recurrence := some monthEndTerms
  minors := monthEnd_minors
  nonpayment := monthEnd_nonpayment
  covers := monthEnd_covers
  recurs := monthEnd_recurs
  commits := monthEnd_commits

theorem leap_day_renewal : scheduleMatches monthEndSubscription (some ⟨2028, 2, 29⟩) = true ∧
    (⟨2028, 2, 29⟩ : Date) ∈ renewalDays monthEndTerms (monthIndex ⟨2028, 1, 10⟩) 25
      (firstCharge monthEndTerms (monthIndex ⟨2028, 1, 10⟩)) := by
  have hmatches : scheduleMatches monthEndSubscription (some ⟨2028, 2, 29⟩) = true := by decide
  have hanchor : monthEndTerms.nextChargeOn.Valid := rfl
  have hdue : (⟨2028, 2, 29⟩ : Date).Valid := rfl
  refine ⟨hmatches, (scheduleMatches_iff_placed rfl rfl hanchor hdue ?_ ?_).mp hmatches⟩
  · decide
  · decide

/-! ## The recurrence without end -/

/-- The day in the month `index` on which a recurrence charges, if it does. -/
def Recurrence.dayIn (terms : Recurrence) (index : Nat) : Date where
  year := index / 12
  month := index % 12 + 1
  day := min terms.nextChargeOn.day (daysInMonth (index / 12) (index % 12 + 1))

/-- The recurrence charges in the month `index`, however late it is. -/
def Recurrence.occursIn (terms : Recurrence) (index : Nat) : Bool :=
  monthIndex terms.nextChargeOn ≤ index &&
    (index - monthIndex terms.nextChargeOn) % terms.intervalMonths = 0 &&
      terms.endsOn.all fun endsOn => (terms.dayIn index).toOrdinal ≤ endsOn.toOrdinal

/-- What the counted operations have committed to in the month `index`. -/
def committedMinor (rows : List BudgetRow) (index : Nat) : Nat :=
  (rows.map fun row =>
    if row.state.counted && row.proposal.recurrence.any (·.occursIn index) then
      row.proposal.recurringMinor
    else 0).sum

theorem occursIn_iff : terms.occursIn index = true ↔
    (monthIndex terms.nextChargeOn ≤ index ∧
      (index - monthIndex terms.nextChargeOn) % terms.intervalMonths = 0) ∧
        ∀ endsOn ∈ terms.endsOn, (terms.dayIn index).toOrdinal ≤ endsOn.toOrdinal := by
  simp only [Recurrence.occursIn, Bool.and_eq_true, decide_eq_true_eq, Option.all_eq_true,
    Option.mem_def]

theorem chargeDay_eq_dayIn (h : chargeDay terms.nextChargeOn index = some day) :
    day = terms.dayIn index := (Date.new_eq_some h).1

/-- The days of a recurrence follow one another. -/
theorem dayIn_lt (hanchor : terms.nextChargeOn.Valid) (hindex : 12 ≤ index) (hlt : index < k) :
    (terms.dayIn index).toOrdinal < (terms.dayIn k).toOrdinal := by
  have hday : ∀ i, (terms.dayIn i).toOrdinal = Date.monthStart i + (terms.dayIn i).day :=
    fun i => rfl
  have hfirst := hanchor.bounds.2.2.2.2.1
  have hdays := Date.daysInMonth_ge (k / 12) (k % 12 + 1)
  have hpos : 1 ≤ (terms.dayIn k).day := le_min hfirst (by omega)
  have hclamped : (terms.dayIn index).day ≤ daysInMonth (index / 12) (index % 12 + 1) :=
    min_le_right _ _
  have hmono := Date.monthStart_mono (Nat.le_succ_of_le hindex) (Nat.succ_le_of_lt hlt)
  rw [Nat.succ_eq_add_one, Date.monthStart_succ hindex] at hmono
  rw [hday, hday]
  omega

/-- Twelve months earlier a recurrence charges too, once it has begun. -/
theorem occursIn_earlier (hanchor : terms.nextChargeOn.Valid)
    (hbegun : monthIndex terms.nextChargeOn ≤ index) (hle : index ≤ k) (hyears : 12 ∣ k - index)
    (hk : terms.occursIn k = true) : terms.occursIn index = true := by
  obtain ⟨⟨hstart, hphase⟩, hends⟩ := occursIn_iff.mp hk
  have hdvd : terms.intervalMonths ∣ 12 := by
    have h := terms.supported
    simp only [List.mem_cons, List.not_mem_nil, or_false] at h
    rcases h with h | h | h | h | h <;> rw [h] <;> decide
  have hgap := hdvd.trans hyears
  have hindex : (index - monthIndex terms.nextChargeOn) % terms.intervalMonths = 0 := by
    have hsub := Nat.dvd_sub (Nat.dvd_of_mod_eq_zero hphase) hgap
    rw [show k - monthIndex terms.nextChargeOn - (k - index) =
      index - monthIndex terms.nextChargeOn by omega] at hsub
    exact Nat.mod_eq_zero_of_dvd hsub
  refine occursIn_iff.mpr ⟨⟨hbegun, hindex⟩, fun endsOn hmem => ?_⟩
  have hend := hends endsOn hmem
  rcases Nat.eq_or_lt_of_le hle with rfl | hlt
  · exact hend
  · have hanchorMonth := hanchor.month.1
    have hearlier := dayIn_lt hanchor (hanchorMonth.trans hbegun) hlt
    omega

/-- A loop that does not raise has a day for each month of the window that the recurrence charges.
-/
theorem fallsIn_of_occursIn {recurring turns : Nat} {months months' : Months}
    (hanchor : terms.nextChargeOn.Valid) (hstart : monthIndex terms.nextChargeOn ≤ index)
    (hphase : (index - monthIndex terms.nextChargeOn) % terms.intervalMonths = 0)
    (hturns : first + 25 ≤ index + turns)
    (h : chargeMonths terms recurring first turns index months = .ok months') (hle : index ≤ k)
    (hk : k < first + 25) (hoccurs : terms.occursIn k = true) : terms.fallsIn k = true := by
  obtain ⟨hmonth, hends⟩ := occursIn_iff.mp hoccurs
  have hpos := terms.intervalMonths_pos
  suffices hday : ∃ day, chargeDay terms.nextChargeOn k = some day by
    obtain ⟨day, hday⟩ := hday
    refine fallsIn_iff.mpr ⟨hmonth, day, hday, ?_⟩
    rw [chargeDay_eq_dayIn hday]
    exact hends
  induction turns generalizing index months with
  | zero => omega
  | succ turns ih =>
    rw [chargeMonths, if_pos (by omega)] at h
    cases hday : chargeDay terms.nextChargeOn index with
    | none =>
      rw [hday] at h
      cases h
    | some day =>
      simp only [hday] at h
      rcases Nat.eq_or_lt_of_le hle with rfl | hlt
      · exact ⟨day, hday⟩
      split at h
      · next hended =>
        obtain ⟨endsOn, hmem, hover⟩ := (Option.any_eq_true _ _).mp hended
        rw [decide_eq_true_eq, chargeDay_eq_dayIn hday] at hover
        have hend := hends endsOn hmem
        have hearlier := dayIn_lt hanchor (hanchor.month.1.trans hstart) hlt
        omega
      · refine ih (by omega) ?_ (by omega) h (next_le hstart hphase hmonth.2 hlt)
        rw [Nat.sub_add_comm hstart, Nat.add_mod_right]
        exact hphase

/-- In the months of the window a projection has at least what is committed to. -/
theorem committed_le_charges {row : BudgetRow} {charges : Months}
    (hanchor : ∀ terms ∈ row.proposal.recurrence, terms.nextChargeOn.Valid)
    (h : rowCharges first row = .ok charges) (hcounted : row.state.counted = true)
    (hfirst : first ≤ k) (hk : k < first + 25) :
    (if row.proposal.recurrence.any (·.occursIn k) then row.proposal.recurringMinor else 0) ≤
      charges k := by
  split
  · next hoccurs =>
    obtain ⟨terms, hterms, hoccurs⟩ := (Option.any_eq_true _ _).mp hoccurs
    unfold rowCharges projectRow at h
    rw [if_pos hcounted] at h
    dsimp only at h
    split at h
    · next hzero =>
      rw [hzero]
      exact Nat.zero_le _
    · rw [hterms] at h
      dsimp only at h
      have hvalid := hanchor terms hterms
      obtain ⟨hstart, hphase⟩ := firstCharge_phase terms first
      obtain ⟨⟨hmonth, hmonthPhase⟩, -⟩ := occursIn_iff.mp hoccurs
      have hle := firstCharge_le hfirst hmonth hmonthPhase
      have hturns := le_firstCharge terms first
      have hfalls := fallsIn_of_occursIn hvalid hstart hphase (by omega) h hle hk hoccurs
      have hcharged := chargeMonths_due hstart hphase hturns (by omega) h hk
      have hplaced : firstCharge terms first ≤ k ∧ terms.fallsIn k = true := ⟨hle, hfalls⟩
      rw [if_pos hplaced] at hcharged
      rw [hcharged]
      exact Nat.le_add_left _ _
  · exact Nat.zero_le _

/-- An anchor of at most 366 days from now is at most thirteen months away. -/
theorem anchor_in_window (htoday : today.Valid) (hdue : due.Valid)
    (h : due.toOrdinal ≤ today.toOrdinal + 366) : monthIndex due ≤ monthIndex today + 13 := by
  obtain ⟨hmonth, -, hend⟩ := htoday.month
  obtain ⟨-, hstart, -⟩ := hdue.month
  have hlong := Date.monthStart_thirteen (Nat.le_succ_of_le hmonth)
  by_contra hlater
  have hmono := @Date.monthStart_mono (monthIndex today + 1 + 13) (monthIndex due)
    (by unfold monthIndex; omega) (by omega)
  unfold monthIndex at hmono
  rw [Nat.succ_eq_add_one] at hlong
  omega

/-- What is committed to in a later month was so twelve months or a multiple earlier. -/
theorem committed_earlier {row : BudgetRow}
    (hanchor : row.state.counted = true → ∀ terms ∈ row.proposal.recurrence,
      terms.nextChargeOn.Valid ∧ monthIndex terms.nextChargeOn ≤ index)
    (hle : index ≤ k) (hyears : 12 ∣ k - index) :
    (if row.state.counted && row.proposal.recurrence.any (·.occursIn k) then
        row.proposal.recurringMinor else 0) ≤
      if row.state.counted && row.proposal.recurrence.any (·.occursIn index) then
        row.proposal.recurringMinor else 0 := by
  split
  · next hk =>
    obtain ⟨hcounted, hany⟩ := Bool.and_eq_true_iff.mp hk
    obtain ⟨terms, hterms, hoccurs⟩ := (Option.any_eq_true _ _).mp hany
    obtain ⟨hvalid, hbegun⟩ := hanchor hcounted terms hterms
    have hearlier := occursIn_earlier hvalid hbegun hle hyears hoccurs
    rw [if_pos (Bool.and_eq_true_iff.mpr ⟨hcounted, (Option.any_eq_true _ _).mpr
      ⟨terms, hterms, hearlier⟩⟩)]
  · exact Nat.zero_le _

/-- A projection has in each month of the window at least what is committed to. -/
theorem committedMinor_le {rows : List BudgetRow} {charges : List Months}
    (hanchors : ∀ row ∈ rows, row.state.counted = true →
      ∀ terms ∈ row.proposal.recurrence, terms.nextChargeOn.Valid)
    (hall : List.Forall₂ (fun row c => rowCharges first row = .ok c) rows charges)
    (hfirst : first ≤ k) (hk : k < first + 25) : committedMinor rows k ≤ charges.sum k := by
  induction hall with
  | nil => exact Nat.le_refl _
  | @cons row c rows charges hrow _ ih =>
    obtain ⟨hanchor, hanchors⟩ := List.forall_mem_cons.mp hanchors
    rw [List.sum_cons, Pi.add_apply]
    unfold committedMinor at ih ⊢
    rw [List.map_cons, List.sum_cons]
    refine Nat.add_le_add ?_ (ih hanchors)
    cases hcounted : row.state.counted with
    | false => exact Nat.zero_le _
    | true =>
      rw [Bool.true_and]
      exact committed_le_charges (hanchor hcounted) hrow hcounted hfirst hk

/-- **The window is long enough: a limit that every month of it keeps is kept in every later
month.** -/
theorem window_long_enough {rows : List BudgetRow} {months : Months} {limit : Nat}
    (htoday : today.Valid)
    (hanchors : ∀ row ∈ rows, row.state.counted = true → ∀ terms ∈ row.proposal.recurrence,
      terms.nextChargeOn.Valid ∧ terms.nextChargeOn.toOrdinal ≤ today.toOrdinal + 366)
    (hproj : monthlyProjection rows today = .ok months)
    (hlimit : ∀ i, monthIndex today ≤ i → i < monthIndex today + 25 → months i ≤ limit) :
    ∀ i, monthIndex today + 25 ≤ i → committedMinor rows i ≤ limit := by
  intro i hi
  obtain ⟨charges, hall, rfl⟩ := monthlyProjection_ok_iff.mp hproj
  -- The month of the last twelve of the window that has the same place in its year.
  let j := monthIndex today + 13 + (i - (monthIndex today + 13)) % 12
  have hj : monthIndex today + 13 ≤ j ∧ j < monthIndex today + 25 ∧ j ≤ i ∧ 12 ∣ i - j := by
    omega
  calc committedMinor rows i
      ≤ committedMinor rows j := List.sum_le_sum fun row hrow => by
        refine committed_earlier (fun hcounted terms hterms => ?_) hj.2.2.1 hj.2.2.2
        obtain ⟨hvalid, hnear⟩ := hanchors row hrow hcounted terms hterms
        exact ⟨hvalid, (anchor_in_window htoday hvalid hnear).trans hj.1⟩
    _ ≤ charges.sum j := committedMinor_le
        (fun row hrow hcounted terms hterms => (hanchors row hrow hcounted terms hterms).1) hall
          (by omega) hj.2.1
    _ ≤ limit := hlimit j (by omega) hj.2.1

/-- The subscription, reserved on the tenth of January. -/
def monthEndRow : BudgetRow where
  state := .reserved
  updatedAt := ⟨1831075200, ⟨2028, 1, 10⟩, rfl⟩
  proposal := monthEndSubscription

theorem later_months_kept : committedMinor [monthEndRow] (monthIndex ⟨2031, 2, 1⟩) = 30 ∧
    committedMinor [monthEndRow] (monthIndex ⟨2031, 2, 1⟩) ≤ 30 := by
  refine ⟨by decide, ?_⟩
  obtain ⟨months, hproj, hlimit⟩ : ∃ months,
      monthlyProjection [monthEndRow] ⟨2028, 1, 10⟩ = .ok months ∧
        ∀ i, monthIndex ⟨2028, 1, 10⟩ ≤ i → i < monthIndex ⟨2028, 1, 10⟩ + 25 → months i ≤ 30 :=
    ⟨_, rfl, by decide +kernel⟩
  have htoday : (⟨2028, 1, 10⟩ : Date).Valid := rfl
  refine window_long_enough htoday ?_ hproj hlimit _ (by decide)
  intro row hrow _ terms hterms
  obtain rfl := List.mem_singleton.mp hrow
  obtain rfl := Option.some.inj hterms
  exact ⟨rfl, by decide⟩

end GenusOs.Autonomy
