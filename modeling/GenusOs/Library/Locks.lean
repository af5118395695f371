import Mathlib

/-!
# Locks

Who holds the lock on a row, or on an entry of an index, until its transaction ends.
-/

namespace GenusOs

/-- The holder of each lock. -/
abbrev Locks (κ π : Type*) := κ → Option π

namespace Locks

variable {κ π : Type*} {locks : Locks κ π} {k k' : κ} {p q : π}

/-- The end of a transaction. -/
def release [DecidableEq π] (locks : Locks κ π) (p : π) : Locks κ π :=
  fun k => if locks k = some p then none else locks k

@[simp] theorem release_eq_some [DecidableEq π] :
    locks.release p k = some q ↔ locks k = some q ∧ q ≠ p := by
  unfold release
  split
  · next h => simp only [h, Option.some.injEq, reduceCtorEq, false_iff, not_and, not_not]; tauto
  · next h =>
    constructor
    · intro hq
      exact ⟨hq, fun heq => h (heq ▸ hq)⟩
    · exact And.left

variable [DecidableEq κ]

def take (locks : Locks κ π) (k : κ) (p : π) : Locks κ π := Function.update locks k (some p)

@[simp] theorem take_self : locks.take k p k = some p := Function.update_self ..

theorem take_of_ne (h : k' ≠ k) : locks.take k p k' = locks k' := Function.update_of_ne h ..

/-- A lock that is held stays with its holder when another one is taken. -/
theorem take_of_held (h : locks k' = some q) (hfree : locks k = none) :
    locks.take k p k' = some q := by
  rw [take_of_ne, h]
  rintro rfl
  rw [hfree] at h
  cases h

end Locks

end GenusOs
