import Mathlib

/-!
# Mailboxes that are drained in blocks

A mailbox takes items one by one, and a reader empties it now and then, block by block.

* `Drained.push`, `Drained.drain`: what the two sides keep.
* `Drained.pending_eq_nil`: blocks of the same weight that carry everything leave nothing behind.
-/

namespace GenusOs

variable {α : Type*} {accepted pending : List α} {blocks : List (List α)}

/-- What was accepted is what the blocks carried and then what is pending, each item once and in
order; a block carries something. -/
structure Drained (accepted : List α) (blocks : List (List α)) (pending : List α) : Prop where
  split : accepted = blocks.flatten ++ pending
  nonempty : ∀ block ∈ blocks, block ≠ []

namespace Drained

theorem nil : Drained ([] : List α) [] [] := ⟨rfl, fun _ h => (List.not_mem_nil h).elim⟩

theorem push (h : Drained accepted blocks pending) (x : α) :
    Drained (accepted ++ [x]) blocks (pending ++ [x]) :=
  ⟨by rw [h.split, List.append_assoc], h.nonempty⟩

/-- **The reader takes what is pending.** -/
theorem drain (h : Drained accepted blocks pending) (hne : pending ≠ []) :
    Drained accepted (blocks ++ [pending]) [] := by
  constructor
  · rw [h.split, List.flatten_append, List.flatten_singleton, List.append_nil]
  · intro block hblock
    rcases List.mem_append.mp hblock with hblock | hblock
    · exact h.nonempty block hblock
    · exact List.mem_singleton.mp hblock ▸ hne

theorem sum_map_flatten (cost : α → Nat) (blocks : List (List α)) :
    (blocks.flatten.map cost).sum = (blocks.map fun block => (block.map cost).sum).sum := by
  induction blocks with
  | nil => rfl
  | cons block blocks ih =>
    rw [List.flatten_cons, List.map_append, List.sum_append, ih, List.map_cons, List.sum_cons]

/-- **Nothing is left behind** where other blocks of the same weights carry everything. -/
theorem pending_eq_nil (h : Drained accepted blocks pending) {blocks' : List (List α)}
    (h' : Drained accepted blocks' []) (cost : α → Nat) (hcost : ∀ x, 0 < cost x)
    (hsame : (blocks.map fun block => (block.map cost).sum) =
      blocks'.map fun block => (block.map cost).sum) : pending = [] := by
  have hall : (accepted.map cost).sum = (blocks.flatten.map cost).sum := by
    rw [h'.split, List.append_nil, sum_map_flatten, ← hsame, ← sum_map_flatten]
  have hsum : (accepted.map cost).sum =
      (blocks.flatten.map cost).sum + (pending.map cost).sum := by
    rw [h.split, List.map_append, List.sum_append]
  cases pending with
  | nil => rfl
  | cons x pending =>
    have hx := hcost x
    rw [List.map_cons, List.sum_cons] at hsum
    omega

end Drained

end GenusOs
