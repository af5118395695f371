import Mathlib

/-!
# A list that is added to and cleared

Acts add to a list at its end or clear it. What acts leave is what they add after their last
clearing, behind what was there before if none of them clears.

* `run_eq`: acts on a list, by the acts on the empty one.
* `run_append`: acts one after the other.
-/

namespace GenusOs.Resets

/-- Clear the list, or add to it. -/
inductive Act (α : Type*)
  | clear
  | push (xs : List α)

variable {α : Type*}

def Act.apply (kept : List α) : Act α → List α
  | .clear => []
  | .push xs => kept ++ xs

/-- The list after the acts. -/
def run (acts : List (Act α)) (kept : List α) : List α := acts.foldl Act.apply kept

/-- One of the acts clears. -/
def clears (acts : List (Act α)) : Bool :=
  acts.any fun act =>
    match act with
    | .clear => true
    | .push _ => false

/-- What the acts leave of a list. -/
def left (acts : List (Act α)) (kept : List α) : List α := if clears acts then [] else kept

theorem clears_append (acts acts' : List (Act α)) :
    clears (acts ++ acts') = (clears acts || clears acts') := List.any_append

/-- **Acts keep what was there in front, unless they clear.** -/
theorem run_eq (acts : List (Act α)) (kept : List α) :
    run acts kept = left acts kept ++ run acts [] := by
  induction acts generalizing kept with
  | nil => exact (List.append_nil kept).symm
  | cons act acts ih =>
    cases act with
    | clear =>
      show run acts [] = left (.clear :: acts) kept ++ run acts []
      rfl
    | push xs =>
      show run acts (kept ++ xs) = left acts kept ++ run acts ([] ++ xs)
      rw [ih (kept ++ xs), ih ([] ++ xs), ← List.append_assoc]
      unfold left
      split <;> rfl

theorem run_append (acts acts' : List (Act α)) (kept : List α) :
    run (acts ++ acts') kept = left acts' (run acts kept) ++ run acts' [] := by
  rw [← run_eq]
  exact List.foldl_append

theorem left_of_not {acts : List (Act α)} (h : clears acts = false) (kept : List α) :
    left acts kept = kept := by
  rw [left, h]
  rfl

theorem left_of_clears {acts : List (Act α)} (h : clears acts = true) (kept : List α) :
    left acts kept = [] := by
  rw [left, h]
  rfl

@[simp] theorem left_nil (acts : List (Act α)) : left acts [] = [] := by
  unfold left
  split <;> rfl

theorem mem_run {acts : List (Act α)} {x : α} (h : x ∈ run acts []) :
    ∃ xs, .push xs ∈ acts ∧ x ∈ xs := by
  induction acts using List.reverseRecOn with
  | nil => cases h
  | append_singleton acts act ih =>
    rw [run_append] at h
    rcases List.mem_append.mp h with h | h
    · have hx : x ∈ run acts [] := by
        unfold left at h
        split at h
        · cases h
        · exact h
      obtain ⟨xs, hxs, hmem⟩ := ih hx
      exact ⟨xs, List.mem_append_left _ hxs, hmem⟩
    · cases act with
      | clear => cases h
      | push xs => exact ⟨xs, by simp, by simpa [run, Act.apply] using h⟩

end GenusOs.Resets
