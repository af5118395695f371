import GenusOs.Autonomy.Models
import Mathlib

/-!
# Calendar projections for initial charges and recorded recurring commitments

`monthlyProjection` adds up what the counted operations charge in each of the 25 months from the
current one on. Months are numbered by `monthIndex`, of which the source's `YYYY-MM` keys are the
printed form.

* `chargeMonths_stops`: the loop over the months of a recurrence ends within its 25 turns.
* `monthlyProjection_ok_iff`: a projection is the sum of what its rows charge one by one.
-/

namespace GenusOs.Autonomy

open GenusOs.Python

inductive OperationState
  | reserved | submitting | reconciling | completed | failed | cancelled | awaitingInput
  deriving DecidableEq, Repr

/-- The states a projection counts. -/
def OperationState.counted : OperationState → Bool
  | .reserved | .awaitingInput | .submitting | .reconciling | .completed => true
  | .failed | .cancelled => false

/-- `SELECT proposal,state,updated_at FROM autonomy_operations`. -/
structure BudgetRow where
  state : OperationState
  updatedAt : Instant
  proposal : WebOperation

/-- `_month_index`. -/
def monthIndex (value : Date) : Nat := value.year * 12 + value.month - 1

/-- The dict of a projection, by month index. -/
abbrev Months := Nat → Nat

/-- `months[index] += amount`, for a month of the window. -/
def Months.charge (months : Months) (first index amount : Nat) : Months :=
  fun i => if i = index ∧ first ≤ index ∧ index < first + 25 then months i + amount else months i

/-- The day of the month `index` that a recurrence anchored at `anchor` charges on. -/
def chargeDay (anchor : Date) (index : Nat) : Option Date :=
  let year := index / 12
  let month := index % 12 + 1
  Date.new year month (min anchor.day (daysInMonth year month))

/-- `anchor_month + offset * interval_months`: the first month to charge, from `first` on. -/
def firstCharge (terms : Recurrence) (first : Nat) : Nat :=
  let anchorMonth := monthIndex terms.nextChargeOn
  let offset : Int :=
    max 0 (((first : Int) - anchorMonth + terms.intervalMonths - 1) / terms.intervalMonths)
  anchorMonth + offset.toNat * terms.intervalMonths

/-- The `while` loop over the months of a recurrence, at most `turns` times. -/
def chargeMonths (terms : Recurrence) (recurring first : Nat) :
    Nat → Nat → Months → Except Raised Months
  | 0, _, months => .ok months
  | turns + 1, index, months =>
    if index < first + 25 then
      match chargeDay terms.nextChargeOn index with
      | none => .error (.valueError "year is out of range")
      | some day =>
        if terms.endsOn.any (fun endsOn => endsOn.toOrdinal < day.toOrdinal) then .ok months
        else chargeMonths terms recurring first turns (index + terms.intervalMonths)
          (months.charge first index recurring)
    else .ok months

/-- What one row adds to the months. -/
def projectRow (first : Nat) (months : Months) (row : BudgetRow) : Except Raised Months :=
  if row.state.counted then
    let months :=
      if row.state ≠ .completed ∨ monthIndex row.updatedAt.date = first then
        months.charge first first row.proposal.amountMinor
      else months
    if row.proposal.recurringMinor = 0 then .ok months
    else
      match row.proposal.recurrence with
      | none => .error (.valueError "renewal_schedule_missing")
      | some terms =>
        chargeMonths terms row.proposal.recurringMinor first 25 (firstCharge terms first) months
  else .ok months

def monthlyProjection (rows : List BudgetRow) (today : Date) : Except Raised Months :=
  rows.foldlM (projectRow (monthIndex today)) 0

/-- `proposal_record`. -/
def proposalRecord (proposal : WebOperation) (now : Instant) : BudgetRow :=
  { state := .reserved, updatedAt := now, proposal }

/-! ## The loop ends -/

/-- The first month charged is not before the window. -/
theorem le_firstCharge (terms : Recurrence) (first : Nat) : first ≤ firstCharge terms first := by
  have h := terms.supported
  simp only [List.mem_cons, List.not_mem_nil, or_false] at h
  unfold firstCharge
  rcases h with h | h | h | h | h <;> rw [h] <;> dsimp only <;> omega

/-- More turns than the months left of the window change nothing. -/
theorem chargeMonths_stops (terms : Recurrence) (recurring first : Nat) {turns index : Nat}
    (h : first + 25 ≤ index + turns) (extra : Nat) (months : Months) :
    chargeMonths terms recurring first (turns + extra) index months =
      chargeMonths terms recurring first turns index months := by
  have hpos := terms.intervalMonths_pos
  induction turns generalizing index months with
  | zero =>
    cases extra with
    | zero => rfl
    | succ extra => simp [chargeMonths, show ¬ index < first + 25 by omega]
  | succ turns ih =>
    rw [Nat.succ_add, chargeMonths, chargeMonths]
    split
    · cases chargeDay terms.nextChargeOn index with
      | none => rfl
      | some day =>
        dsimp only
        split
        · rfl
        · exact ih (by omega) _
    · rfl

/-! ## Projections are sums -/

theorem Months.charge_add (months base : Months) (first index amount : Nat) :
    (base + months).charge first index amount = base + months.charge first index amount := by
  funext i
  simp only [Months.charge, Pi.add_apply]
  split <;> omega

theorem chargeMonths_add (terms : Recurrence) (recurring first turns index : Nat)
    (base months : Months) :
    chargeMonths terms recurring first turns index (base + months) =
      (chargeMonths terms recurring first turns index months).map (base + ·) := by
  induction turns generalizing index months with
  | zero => rfl
  | succ turns ih =>
    rw [chargeMonths, chargeMonths]
    split
    · cases chargeDay terms.nextChargeOn index with
      | none => rfl
      | some day =>
        dsimp only
        split
        · rfl
        · rw [Months.charge_add, ih]
    · rfl

/-- What a row charges does not depend on the rows before it. -/
theorem projectRow_add (first : Nat) (base months : Months) (row : BudgetRow) :
    projectRow first (base + months) row = (projectRow first months row).map (base + ·) := by
  unfold projectRow
  split
  · dsimp only
    have hcharge : (if row.state ≠ .completed ∨ monthIndex row.updatedAt.date = first then
          (base + months).charge first first row.proposal.amountMinor else base + months) =
        base + (if row.state ≠ .completed ∨ monthIndex row.updatedAt.date = first then
          months.charge first first row.proposal.amountMinor else months) := by
      split
      · rw [Months.charge_add]
      · rfl
    rw [hcharge]
    split
    · rfl
    · split
      · rfl
      · rw [chargeMonths_add]
  · rfl

/-- What a row charges by itself. -/
def rowCharges (first : Nat) (row : BudgetRow) : Except Raised Months := projectRow first 0 row

theorem projectRow_eq (first : Nat) (months : Months) (row : BudgetRow) :
    projectRow first months row = (rowCharges first row).map (months + ·) := by
  have h := projectRow_add first months 0 row
  rwa [add_zero] at h

/-- A projection succeeds where each row does, and then adds the rows up. -/
theorem monthlyProjection_ok_iff {rows : List BudgetRow} {today : Date} {months : Months} :
    monthlyProjection rows today = .ok months ↔
      ∃ charges : List Months,
        List.Forall₂ (fun row c => rowCharges (monthIndex today) row = .ok c) rows charges ∧
          months = charges.sum := by
  suffices h : ∀ base : Months,
      rows.foldlM (projectRow (monthIndex today)) base = .ok months ↔
        ∃ charges : List Months,
          List.Forall₂ (fun row c => rowCharges (monthIndex today) row = .ok c) rows charges ∧
            months = base + charges.sum by
    simpa [monthlyProjection] using h 0
  induction rows with
  | nil => simp [pure, Except.pure, eq_comm]
  | cons row rows ih =>
    intro base
    rw [List.foldlM_cons, projectRow_eq]
    cases hrow : rowCharges (monthIndex today) row with
    | error e => simp [bind, Except.bind, Except.map, List.forall₂_cons_left_iff, hrow]
    | ok c =>
      show rows.foldlM _ (base + c) = _ ↔ _
      rw [ih]
      constructor
      · rintro ⟨charges, hall, rfl⟩
        exact ⟨c :: charges, .cons hrow hall, by rw [List.sum_cons, add_assoc]⟩
      · rintro ⟨_, hcons, rfl⟩
        obtain ⟨c', charges, hc', hall, rfl⟩ := List.forall₂_cons_left_iff.mp hcons
        rw [hrow, Except.ok.injEq] at hc'
        exact ⟨charges, hall, by rw [List.sum_cons, add_assoc, hc']⟩

end GenusOs.Autonomy
