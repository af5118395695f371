import GenusOs.Python.DateTime
import Mathlib

/-!
# ISO 8601 texts of datetimes

`datetime.isoformat()`: every part at a fixed width, the fraction of a second and the seconds of
the offset only where they are not zero, no offset for a naive datetime.

* `isoformat_injective`: the text determines the datetime.
-/

namespace GenusOs.Python

/-- `datetime.datetime`: its date, the microsecond of that day and its UTC offset in
microseconds, if it has one. -/
structure DateTime where
  date : Date
  micros : Nat
  offsetMicros : Option Int
  date_valid : Date.new date.year date.month date.day = some date
  micros_lt : micros < 86400000000
  offset_lt : ∀ o ∈ offsetMicros, o.natAbs < 86400000000
  deriving DecidableEq

namespace DateTime

open Date (pad)

def fraction (micros : Nat) : String := if micros = 0 then "" else "." ++ pad 6 micros

/-- `HH:MM:SS[.ffffff]`. -/
def clockText (micros : Nat) : String :=
  pad 2 (micros / 3600000000) ++ ":" ++ pad 2 (micros / 60000000 % 60) ++ ":" ++
    pad 2 (micros / 1000000 % 60) ++ fraction (micros % 1000000)

/-- `[:SS[.ffffff]]`. -/
def secondsText (micros : Nat) : String :=
  if micros = 0 then "" else ":" ++ (pad 2 (micros / 1000000) ++ fraction (micros % 1000000))

/-- `+HH:MM[:SS[.ffffff]]`. -/
def offsetText (offset : Int) : String :=
  let micros := offset.natAbs
  (if offset < 0 then "-" else "+") ++ pad 2 (micros / 3600000000) ++ ":" ++
    pad 2 (micros / 60000000 % 60) ++ secondsText (micros % 60000000)

def isoformat (d : DateTime) : String :=
  d.date.isoformat ++ "T" ++ clockText d.micros ++ (d.offsetMicros.map offsetText).getD ""

/-! ## Numbers of a fixed width -/

variable {a b width : Nat} {r r' : List Char}

theorem pad_toList (width n : Nat) : (pad width n).toList =
    List.replicate (width - (Nat.toDigits 10 n).length) '0' ++ Nat.toDigits 10 n := by
  simp [pad, Nat.toList_repr]

theorem length_pad (hwidth : 0 < width) (h : a < 10 ^ width) :
    (pad width a).toList.length = width := by
  have hle := (Nat.length_toDigits_le_iff (by decide : 1 < 10) hwidth).mpr h
  rw [pad_toList, List.length_append, List.length_replicate]
  omega

theorem pad_value (width n : Nat) : Nat.ofDigitChars 10 (pad width n).toList 0 = n := by
  rw [pad_toList, Nat.ofDigitChars_append, Nat.ofDigitChars_replicate_zero, Nat.mul_zero,
    Nat.ofDigitChars_ten_toDigits]

theorem pad_injective (hwidth : 0 < width) (ha : a < 10 ^ width) (hb : b < 10 ^ width)
    (h : (pad width a).toList ++ r = (pad width b).toList ++ r') : a = b ∧ r = r' := by
  obtain ⟨htext, hr⟩ := List.append_inj h
    ((length_pad hwidth ha).trans (length_pad hwidth hb).symm)
  refine ⟨?_, hr⟩
  rw [← pad_value width a, htext, pad_value]

theorem fraction_injective (ha : a < 1000000) (hb : b < 1000000) (hr : r.head? ≠ some '.')
    (hr' : r'.head? ≠ some '.') (h : (fraction a).toList ++ r = (fraction b).toList ++ r') :
    a = b ∧ r = r' := by
  unfold fraction at h
  split at h
  · next hzero =>
    split at h
    · next hzero' => exact ⟨hzero.trans hzero'.symm, by simpa using h⟩
    · rw [String.toList_append, String.toList_empty, List.nil_append] at h
      rw [h] at hr
      exact absurd rfl hr
  · split at h
    · rw [String.toList_append, String.toList_empty, List.nil_append] at h
      rw [← h] at hr'
      exact absurd rfl hr'
    · rw [String.toList_append, String.toList_append] at h
      exact pad_injective (by decide) ha hb (List.cons.inj h).2

/-! ## Datetimes -/

theorem colon_toList : (":" : String).toList = [':'] := rfl

theorem hyphen_toList : ("-" : String).toList = ['-'] := rfl

theorem t_toList : ("T" : String).toList = ['T'] := rfl

theorem clockText_injective (ha : a < 86400000000) (hb : b < 86400000000)
    (hr : r.head? ≠ some '.') (hr' : r'.head? ≠ some '.')
    (h : (clockText a).toList ++ r = (clockText b).toList ++ r') : a = b ∧ r = r' := by
  simp only [clockText, String.toList_append, List.append_assoc, colon_toList, List.cons_append,
    List.nil_append] at h
  obtain ⟨hhours, h⟩ := pad_injective (by decide) (by omega) (by omega) h
  obtain ⟨hminutes, h⟩ := pad_injective (by decide) (by omega) (by omega) (List.cons.inj h).2
  obtain ⟨hseconds, h⟩ := pad_injective (by decide) (by omega) (by omega) (List.cons.inj h).2
  obtain ⟨hmicros, h⟩ := fraction_injective (by omega) (by omega) hr hr' h
  exact ⟨by omega, h⟩

theorem signText (offset : Int) : ((if offset < 0 then "-" else "+" : String)).toList =
    [if offset < 0 then '-' else '+'] := by
  split
  · rfl
  · rfl

theorem offsetText_head (offset : Int) : (offsetText offset).toList.head? ≠ some '.' := by
  simp only [offsetText, String.toList_append, signText, List.append_assoc, List.cons_append,
    List.head?_cons]
  split
  · decide
  · decide

theorem secondsText_injective (ha : a < 60000000) (hb : b < 60000000)
    (h : (secondsText a).toList = (secondsText b).toList) : a = b := by
  unfold secondsText at h
  split at h
  · next hzero =>
    split at h
    · next hzero' => exact hzero.trans hzero'.symm
    · rw [String.toList_append, colon_toList] at h
      exact absurd h.symm (List.cons_ne_nil _ _)
  · split at h
    · rw [String.toList_append, colon_toList] at h
      exact absurd h (List.cons_ne_nil _ _)
    · simp only [String.toList_append, colon_toList, List.cons_append, List.nil_append] at h
      obtain ⟨hseconds, h⟩ := pad_injective (by decide) (by omega) (by omega) (List.cons.inj h).2
      rw [← List.append_nil (fraction (a % 1000000)).toList,
        ← List.append_nil (fraction (b % 1000000)).toList] at h
      have hmicros := (fraction_injective (by omega) (by omega) (by simp) (by simp) h).1
      omega

theorem sign_injective {o o' : Int} (habs : o.natAbs = o'.natAbs)
    (h : (if o < 0 then '-' else '+') = if o' < 0 then '-' else '+') : o = o' := by
  split_ifs at h
  · omega
  · exact absurd h (by decide)
  · exact absurd h (by decide)
  · omega

theorem offsetText_injective {o o' : Int} (ho : o.natAbs < 86400000000)
    (ho' : o'.natAbs < 86400000000) (h : (offsetText o).toList = (offsetText o').toList) :
    o = o' := by
  simp only [offsetText, String.toList_append, signText, colon_toList, List.append_assoc,
    List.cons_append, List.nil_append] at h
  obtain ⟨hsign, h⟩ := List.cons.inj h
  generalize hn : o.natAbs = n at h ho
  generalize hn' : o'.natAbs = n' at h ho'
  obtain ⟨hhours, h⟩ := pad_injective (by decide) (by omega) (by omega) h
  obtain ⟨hminutes, h⟩ := pad_injective (by decide) (by omega) (by omega) (List.cons.inj h).2
  have hseconds := secondsText_injective (by omega) (by omega) h
  exact sign_injective (by omega) hsign

theorem date_bounds (d : DateTime) :
    d.date.year < 10000 ∧ d.date.month < 100 ∧ d.date.day < 100 := by
  have h := d.date_valid
  unfold Date.new at h
  split at h
  · next hvalid =>
    obtain ⟨-, hyear, -, hmonth, -, hday⟩ := hvalid
    have hdays : daysInMonth d.date.year d.date.month ≤ 31 := by
      unfold daysInMonth
      split_ifs
      all_goals decide
    omega
  · cases h

/-- **The text determines the datetime.** -/
theorem isoformat_injective {d e : DateTime} (h : d.isoformat = e.isoformat) : d = e := by
  have htext := congrArg String.toList h
  obtain ⟨hyear, hmonth, hday⟩ := d.date_bounds
  obtain ⟨hyear', hmonth', hday'⟩ := e.date_bounds
  simp only [isoformat, Date.isoformat, String.toList_append, hyphen_toList, t_toList,
    List.append_assoc, List.cons_append, List.nil_append] at htext
  obtain ⟨hy, htext⟩ := pad_injective (by decide) hyear hyear' htext
  obtain ⟨hm, htext⟩ := pad_injective (by decide) hmonth hmonth' (List.cons.inj htext).2
  obtain ⟨hd, htext⟩ := pad_injective (by decide) hday hday' (List.cons.inj htext).2
  have hhead : ∀ o : Option Int, ((o.map offsetText).getD "").toList.head? ≠ some '.' := by
    intro o
    cases o with
    | none => simp
    | some o => exact offsetText_head o
  obtain ⟨hmicros, htext⟩ := clockText_injective d.micros_lt e.micros_lt (hhead _) (hhead _)
    (List.cons.inj htext).2
  have hoffset : d.offsetMicros = e.offsetMicros := by
    have hnonempty : ∀ o : Int, (offsetText o).toList ≠ [] := by
      intro o
      simp [offsetText, signText]
    cases hdo : d.offsetMicros with
    | none =>
      cases heo : e.offsetMicros with
      | none => rfl
      | some o =>
        rw [hdo, heo] at htext
        exact absurd htext.symm (hnonempty o)
    | some o =>
      cases heo : e.offsetMicros with
      | none =>
        rw [hdo, heo] at htext
        exact absurd htext (hnonempty o)
      | some o' =>
        rw [hdo, heo] at htext
        rw [offsetText_injective (d.offset_lt o hdo) (e.offset_lt o' heo) htext]
  obtain ⟨⟨y, m, day⟩, micros, offset, _, _, _⟩ := d
  obtain ⟨⟨y', m', day'⟩, micros', offset', _, _, _⟩ := e
  simp only at hy hm hd hmicros hoffset
  subst hy hm hd hmicros hoffset
  rfl

end DateTime

end GenusOs.Python
