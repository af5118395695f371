import Mathlib

/-!
# Greedy packing

A list cut into groups of bounded weight, in order: an item opens a new group where it no longer
fits the current one.

* `flatten_pack`: no item is lost, split, repeated or moved.
* `ne_nil_of_mem_pack`: no group is empty.
* `fits_of_mem_pack`: a group is over the capacity only where it is a single item.
-/

namespace GenusOs

variable {α : Type*} (weight : α → Nat) (cap : Int)

/-- The groups, where `current` is the open one and `size` its weight. -/
def pack (current : List α) (size : Nat) : List α → List (List α)
  | [] => if current.isEmpty then [] else [current]
  | a :: as =>
    if !current.isEmpty && decide (cap < size + weight a) then
      current :: pack [a] (weight a) as
    else pack (current ++ [a]) (size + weight a) as

variable {weight cap}

/-- A group the packer may close: one item, or as many as fit. -/
def Fits (weight : α → Nat) (cap : Int) (g : List α) : Prop :=
  g.length = 1 ∨ ((g.map weight).sum : Int) ≤ cap

namespace Packing

theorem flatten_pack (current : List α) (size : Nat) (as : List α) :
    (pack weight cap current size as).flatten = current ++ as := by
  induction as generalizing current size with
  | nil =>
    cases current with
    | nil => rfl
    | cons b bs => simp [pack]
  | cons a as ih =>
    rw [pack]
    split
    · rw [List.flatten_cons, ih]
      rfl
    · rw [ih, List.append_assoc]
      rfl

theorem ne_nil_of_mem_pack {current g : List α} {size : Nat} {as : List α}
    (h : g ∈ pack weight cap current size as) : g ≠ [] := by
  induction as generalizing current size with
  | nil =>
    cases current with
    | nil => cases h
    | cons b bs =>
      rw [List.mem_singleton.mp h]
      exact List.cons_ne_nil b bs
  | cons a as ih =>
    rw [pack] at h
    split at h
    case isTrue hfull =>
      rcases List.mem_cons.mp h with rfl | hg
      · simp only [Bool.and_eq_true, Bool.not_eq_true', List.isEmpty_eq_false_iff] at hfull
        exact hfull.1
      · exact ih hg
    case isFalse => exact ih h

/-- What the open group keeps: its size is its weight, and it is empty or fits. -/
theorem fits_of_mem_pack {current g : List α} {size : Nat} {as : List α}
    (hsize : (current.map weight).sum = size) (hopen : current ≠ [] → Fits weight cap current)
    (h : g ∈ pack weight cap current size as) : Fits weight cap g := by
  induction as generalizing current size with
  | nil =>
    cases current with
    | nil => cases h
    | cons b bs =>
      rw [List.mem_singleton.mp h]
      exact hopen (List.cons_ne_nil b bs)
  | cons a as ih =>
    rw [pack] at h
    split at h
    case isTrue hfull =>
      rcases List.mem_cons.mp h with rfl | hg
      · simp only [Bool.and_eq_true, Bool.not_eq_true', List.isEmpty_eq_false_iff] at hfull
        exact hopen hfull.1
      · exact ih (by simp) (fun _ => Or.inl rfl) hg
    case isFalse hroom =>
      refine ih (by simp [hsize]) (fun _ => ?_) h
      cases current with
      | nil => exact Or.inl rfl
      | cons b bs =>
        have hle : ((size + weight a : Nat) : Int) ≤ cap := by simpa using hroom
        right
        rw [List.map_append, List.sum_append, hsize]
        simpa using hle

end Packing

end GenusOs
