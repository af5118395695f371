import Mathlib

/-!
# Counting the members of a list that one update touches

The list of a system's participants changes at one index at a time. These lemmas say what that
does to the number of participants in a given state, in additive form, so that `omega` can use
them.
-/

namespace GenusOs

variable {α : Type*} {l : List α} {i j : Nat} {a b : α} (p : α → Bool)

/-- Replacing `a` by `b` trades the one's contribution for the other's. -/
theorem countP_set_add (h : l[i]? = some a) :
    (l.set i b).countP p + (if p a then 1 else 0) = l.countP p + (if p b then 1 else 0) := by
  obtain ⟨hi, rfl⟩ := List.getElem?_eq_some_iff.mp h
  have hpos : p l[i] = true → 0 < l.countP p :=
    fun hp => List.countP_pos_iff.mpr ⟨l[i], List.getElem_mem hi, hp⟩
  rw [List.countP_set hi]
  by_cases hp : p l[i] = true
  · have := hpos hp
    simp only [hp, ↓reduceIte]
    omega
  · simp [hp]

/-- Replacing `a` by `b` trades the one's amount for the other's. -/
theorem sum_map_set (f : α → Nat) (h : l[i]? = some a) :
    ((l.set i b).map f).sum + f a = (l.map f).sum + f b := by
  induction l generalizing i with
  | nil => cases h
  | cons c l ih =>
    cases i with
    | zero =>
      obtain rfl : c = a := Option.some.inj h
      rw [List.set_cons_zero, List.map_cons, List.map_cons, List.sum_cons, List.sum_cons]
      omega
    | succ i =>
      have hrest := ih h
      rw [List.set_cons_succ, List.map_cons, List.map_cons, List.sum_cons, List.sum_cons]
      omega

/-- An entry of the updated list is the new one or an old one at another index. -/
theorem getElem?_set_some (h : (l.set i b)[j]? = some a) :
    (j = i ∧ a = b) ∨ (j ≠ i ∧ l[j]? = some a) := by
  rw [List.getElem?_set] at h
  split at h
  · next hij =>
    split at h
    · exact Or.inl ⟨hij.symm, (Option.some.inj h).symm⟩
    · cases h
  · next hij => exact Or.inr ⟨fun hji => hij hji.symm, h⟩

theorem getElem?_snoc_some (h : (l ++ [b])[j]? = some a) :
    (j = l.length ∧ a = b) ∨ (j < l.length ∧ l[j]? = some a) := by
  rw [List.getElem?_append] at h
  split at h
  · next hj => exact Or.inr ⟨hj, h⟩
  · next hj =>
    have hlen : j - l.length = 0 := by
      by_contra hne
      rw [List.getElem?_eq_none (by simp; omega)] at h
      cases h
    rw [hlen] at h
    exact Or.inl ⟨by omega, (Option.some.inj h).symm⟩

end GenusOs
