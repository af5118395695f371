import Mathlib

/-!
# Dates and clock readings

`Date` is `datetime.date`. The proleptic ordinal is Python's `toordinal`, which is what comparing
dates and adding a `timedelta` amount to. A clock reading `Instant` carries its UTC date together
with the seconds since the Unix epoch, and the proof that the two agree, so that code that
compares instants and code that looks at the calendar speak about the same moment.
-/

namespace GenusOs.Python

/-- `datetime.date`. -/
structure Date where
  year : Nat
  month : Nat
  day : Nat
  deriving DecidableEq, Repr

def isLeap (year : Nat) : Bool := year % 4 = 0 ∧ (year % 100 ≠ 0 ∨ year % 400 = 0)

/-- `calendar.monthrange(year, month)[1]`. -/
def daysInMonth (year month : Nat) : Nat :=
  if month = 2 then if isLeap year then 29 else 28
  else if month = 4 ∨ month = 6 ∨ month = 9 ∨ month = 11 then 30 else 31

namespace Date

/-- Days in the months of `year` before `month`. -/
def daysBeforeMonth (year month : Nat) : Nat :=
  ((List.range (month - 1)).map fun m => daysInMonth year (m + 1)).sum

/-- `date.toordinal()`: day 1 is the first of January of year 1. -/
def toOrdinal (d : Date) : Nat :=
  let y := d.year - 1
  y * 365 + y / 4 - y / 100 + y / 400 + daysBeforeMonth d.year d.month + d.day

/-- `date(year, month, day)`, which raises a `ValueError` where there is no such day. -/
def new (year month day : Nat) : Option Date :=
  if 1 ≤ year ∧ year ≤ 9999 ∧ 1 ≤ month ∧ month ≤ 12 ∧ 1 ≤ day ∧ day ≤ daysInMonth year month then
    some { year, month, day }
  else none

/-- `f"{n:0{width}d}"`. -/
def pad (width n : Nat) : String :=
  let digits := (toString n).toList
  String.ofList (List.replicate (width - digits.length) '0' ++ digits)

def isoformat (d : Date) : String := pad 4 d.year ++ "-" ++ pad 2 d.month ++ "-" ++ pad 2 d.day

/-- `date.max.toordinal()`. -/
def maxOrdinal : Nat := 3652059

end Date

namespace Date

/-! ## Later months -/

/-- The last day before a month, where months count from year 0. -/
def monthStart (index : Nat) : Nat :=
  toOrdinal { year := index / 12, month := index % 12 + 1, day := 0 }

theorem daysBeforeMonth_succ (year month : Nat) :
    daysBeforeMonth year (month + 1 + 1) =
      daysBeforeMonth year (month + 1) + daysInMonth year (month + 1) := by
  simp [daysBeforeMonth, List.range_succ]

theorem daysBeforeMonth_december (year : Nat) :
    daysBeforeMonth year 12 = if isLeap year then 335 else 334 := by
  simp only [daysBeforeMonth, List.range_succ, List.range_zero, daysInMonth, List.map_append,
    List.map_cons, List.map_nil, List.sum_append, List.sum_cons, List.sum_nil]
  cases isLeap year <;> rfl

/-- A leap year has a day more. -/
theorem yearStart_succ (year : Nat) :
    (year + 1) * 365 + (year + 1) / 4 - (year + 1) / 100 + (year + 1) / 400 =
      year * 365 + year / 4 - year / 100 + year / 400 +
        if isLeap (year + 1) then 366 else 365 := by
  have hcentury : year / 100 ≤ year / 4 := Nat.div_le_div_left (by decide) (by decide)
  have h400 : 400 ∣ year + 1 → 100 ∣ year + 1 := Nat.dvd_trans (by decide)
  have h100 : 100 ∣ year + 1 → 4 ∣ year + 1 := Nat.dvd_trans (by decide)
  have hleap : isLeap (year + 1) =
      decide (4 ∣ year + 1 ∧ (¬ 100 ∣ year + 1 ∨ 400 ∣ year + 1)) := by
    simp only [isLeap, ne_eq, Nat.dvd_iff_mod_eq_zero]
  rw [hleap, @Nat.succ_div year 4, @Nat.succ_div year 100, @Nat.succ_div year 400]
  generalize year / 4 = fours at *
  generalize year / 100 = centuries at *
  by_cases hfour : 4 ∣ year + 1
  · by_cases hundred : 100 ∣ year + 1
    · by_cases hgregorian : 400 ∣ year + 1
      · simp only [hfour, hundred, hgregorian, if_true]
        simp only [not_true, false_or, and_self, decide_true, if_true]
        omega
      · simp only [hfour, hundred, hgregorian, if_true, if_false]
        simp only [not_true, or_self, and_false, decide_false, Bool.false_eq_true, if_false]
        omega
    · simp only [hfour, hundred, mt h400 hundred, if_true, if_false]
      simp only [not_false_iff, true_or, and_self, decide_true, if_true]
      omega
  · have hundred := mt h100 hfour
    simp only [hfour, hundred, mt h400 hundred, if_false]
    simp only [false_and, decide_false, Bool.false_eq_true, if_false]
    omega

/-- A month ends where the next one starts. -/
theorem monthStart_succ {index : Nat} (h : 12 ≤ index) :
    monthStart (index + 1) = monthStart index + daysInMonth (index / 12) (index % 12 + 1) := by
  unfold monthStart toOrdinal
  by_cases hlast : index % 12 = 11
  · rw [show (index + 1) / 12 = index / 12 + 1 by omega, show (index + 1) % 12 = 0 by omega, hlast]
    dsimp only
    rw [daysBeforeMonth_december, show daysBeforeMonth (index / 12 + 1) (0 + 1) = 0 from rfl,
      show daysInMonth (index / 12) (11 + 1) = 31 from rfl, Nat.add_sub_cancel]
    obtain ⟨year, hyear⟩ : ∃ year, index / 12 = year + 1 := ⟨index / 12 - 1, by omega⟩
    rw [hyear, yearStart_succ, Nat.add_sub_cancel]
    split <;> omega
  · rw [show (index + 1) / 12 = index / 12 by omega,
      show (index + 1) % 12 = index % 12 + 1 by omega, daysBeforeMonth_succ]
    dsimp only
    omega

theorem monthStart_mono {index later : Nat} (h : 12 ≤ index) (hle : index ≤ later) :
    monthStart index ≤ monthStart later := by
  induction hle with
  | refl => exact Nat.le_refl _
  | @step later hle ih =>
    rw [Nat.succ_eq_add_one, monthStart_succ (Nat.le_trans h hle)]
    exact Nat.le_trans ih (Nat.le_add_right _ _)

theorem new_eq_some {year month day : Nat} {d : Date} (h : Date.new year month day = some d) :
    d = { year, month, day } ∧ 1 ≤ year ∧ 1 ≤ day ∧ day ≤ daysInMonth year month := by
  unfold Date.new at h
  split at h
  · next hday => exact ⟨(Option.some.inj h).symm, hday.1, hday.2.2.2.2.1, hday.2.2.2.2.2⟩
  · cases h

/-- The days of a month are before those of a later one. -/
theorem toOrdinal_lt {index later day day' : Nat} {d d' : Date} (hlt : index < later)
    (h : Date.new (index / 12) (index % 12 + 1) day = some d)
    (h' : Date.new (later / 12) (later % 12 + 1) day' = some d') :
    d.toOrdinal < d'.toOrdinal := by
  obtain ⟨rfl, hyear, -, hend⟩ := new_eq_some h
  obtain ⟨rfl, -, hstart, -⟩ := new_eq_some h'
  have hindex : 12 ≤ index := by omega
  have hmono := monthStart_mono (h := by omega) (Nat.succ_le_of_lt hlt)
  rw [Nat.succ_eq_add_one, monthStart_succ hindex] at hmono
  unfold monthStart toOrdinal at hmono
  unfold toOrdinal
  dsimp only at hmono ⊢
  omega

/-- What a `datetime.date` is: a day of the calendar. -/
def Valid (d : Date) : Prop := Date.new d.year d.month d.day = some d

variable {d : Date}

theorem Valid.bounds (h : d.Valid) : 1 ≤ d.year ∧ d.year ≤ 9999 ∧ 1 ≤ d.month ∧ d.month ≤ 12 ∧
    1 ≤ d.day ∧ d.day ≤ daysInMonth d.year d.month := by
  unfold Valid Date.new at h
  split at h
  · next hbounds => exact hbounds
  · cases h

/-- A day is one of its month. -/
theorem Valid.month (h : d.Valid) : 12 ≤ d.year * 12 + d.month - 1 ∧
    monthStart (d.year * 12 + d.month - 1) < d.toOrdinal ∧
      d.toOrdinal ≤ monthStart (d.year * 12 + d.month - 1 + 1) := by
  obtain ⟨hyear, -, hmonth, hmonth', hday, hday'⟩ := h.bounds
  have hindex : 12 ≤ d.year * 12 + d.month - 1 := by omega
  have hdiv : (d.year * 12 + d.month - 1) / 12 = d.year := by omega
  have hmod : (d.year * 12 + d.month - 1) % 12 + 1 = d.month := by omega
  have hstart : d.toOrdinal = monthStart (d.year * 12 + d.month - 1) + d.day := by
    unfold monthStart toOrdinal
    rw [hdiv, hmod]
    rfl
  rw [monthStart_succ hindex, hdiv, hmod, hstart]
  exact ⟨hindex, by omega, by omega⟩

theorem daysInMonth_ge (year month : Nat) : 28 ≤ daysInMonth year month := by
  unfold daysInMonth
  split
  · split <;> omega
  · split <;> omega

theorem daysInMonth_ge_of_ne (year : Nat) {month : Nat} (h : month ≠ 2) :
    30 ≤ daysInMonth year month := by
  unfold daysInMonth
  rw [if_neg h]
  split <;> omega

/-- Of two months in a row only one can be February. -/
theorem monthStart_pairs {index : Nat} (h : 12 ≤ index) (n : Nat) :
    monthStart index + 58 * n ≤ monthStart (index + 2 * n) := by
  induction n with
  | zero => exact Nat.le_refl _
  | succ n ih =>
    have hfirst := @monthStart_succ (index + 2 * n) (by omega)
    have hsecond := @monthStart_succ (index + 2 * n + 1) (by omega)
    have hthis := daysInMonth_ge ((index + 2 * n) / 12) ((index + 2 * n) % 12 + 1)
    have hnext := daysInMonth_ge ((index + 2 * n + 1) / 12) ((index + 2 * n + 1) % 12 + 1)
    rw [show index + 2 * (n + 1) = index + 2 * n + 1 + 1 by omega]
    by_cases hshort : (index + 2 * n) % 12 + 1 = 2
    · have hlong := daysInMonth_ge_of_ne ((index + 2 * n + 1) / 12)
        (show (index + 2 * n + 1) % 12 + 1 ≠ 2 by omega)
      omega
    · have hlong := daysInMonth_ge_of_ne ((index + 2 * n) / 12) hshort
      omega

/-- Thirteen months are more than 366 days. -/
theorem monthStart_thirteen {index : Nat} (h : 12 ≤ index) :
    monthStart index + 376 ≤ monthStart (index + 13) := by
  have hpairs := monthStart_pairs h 6
  have hlast := @monthStart_succ (index + 12) (by omega)
  have hdays := daysInMonth_ge ((index + 12) / 12) ((index + 12) % 12 + 1)
  rw [show index + 13 = index + 12 + 1 by omega, hlast]
  rw [show index + 2 * 6 = index + 12 by omega] at hpairs
  omega

end Date

/-- A reading of a UTC clock: seconds since the Unix epoch, and the date they fall on. -/
structure Instant where
  seconds : Nat
  date : Date
  sameDay : date.toOrdinal = 719163 + seconds / 86400

end GenusOs.Python
