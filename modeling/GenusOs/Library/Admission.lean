import Mathlib

/-!
# Admission under individual limits

Rows are admitted one after the other; each weighs something and has a limit of its own. `Admitted`
says of the rows in the order of their admission that each that weighs something kept the total
within its limit, the earlier rows counted. Rows that are admitted may lose weight later.

* `Admitted.snoc`: admitting one more row.
* `Admitted.lighter`: losing weight.
* `Admitted.sum_le`: the total is within the largest limit.
-/

namespace GenusOs

variable {α β : Type*}

/-- Every row that weighs something kept the total of the rows up to it within its limit. -/
def Admitted (weight limit : α → Nat) (rows : List α) : Prop :=
  ∀ before row after, rows = before ++ row :: after → 0 < weight row →
    (before.map weight).sum + weight row ≤ limit row

namespace Admitted

variable {weight limit : α → Nat} {weight' limit' : β → Nat} {rows : List α} {rows' : List β}

theorem nil : Admitted weight limit [] := by
  intro before row after h
  simp at h

theorem snoc {row : α} (h : Admitted weight limit rows)
    (hrow : 0 < weight row → (rows.map weight).sum + weight row ≤ limit row) :
    Admitted weight limit (rows ++ [row]) := by
  intro before r after heq hpos
  rcases List.eq_nil_or_concat after with rfl | ⟨after', last, rfl⟩
  · obtain ⟨rfl, hr⟩ := List.append_inj' heq rfl
    obtain rfl := List.singleton_inj.mp hr
    exact hrow hpos
  · rw [List.concat_eq_append, ← List.cons_append, ← List.append_assoc] at heq
    obtain ⟨rfl, -⟩ := List.append_inj' heq rfl
    exact h before r after' rfl hpos

theorem sum_le_of_forall₂ {R : α → β → Prop} (h : List.Forall₂ R rows rows')
    (hweight : ∀ r r', R r r' → weight' r' ≤ weight r) :
    (rows'.map weight').sum ≤ (rows.map weight).sum := by
  induction h with
  | nil => exact Nat.le_refl _
  | cons hr _ ih =>
    simp only [List.map_cons, List.sum_cons]
    exact Nat.add_le_add (hweight _ _ hr) ih

/-- Rows may lose weight, and keep their limits as long as they weigh something. -/
theorem lighter (h : Admitted weight limit rows)
    (hrows : List.Forall₂ (fun r r' => weight' r' ≤ weight r ∧
      (0 < weight' r' → limit' r' = limit r)) rows rows') : Admitted weight' limit' rows' := by
  intro before' r' after' heq hpos
  rw [heq] at hrows
  obtain ⟨r, after, ⟨hweight, hlimit⟩, -, hdrop⟩ :=
    List.forall₂_cons_right_iff.mp (List.forall₂_drop_append _ _ _ hrows)
  have hsum := sum_le_of_forall₂ (List.forall₂_take_append _ _ _ hrows) fun _ _ hr => hr.1
  have hsplit : rows = rows.take before'.length ++ r :: after := by
    rw [← hdrop, List.take_append_drop]
  have := h _ r after hsplit (Nat.lt_of_lt_of_le hpos hweight)
  rw [hlimit hpos]
  omega

/-- **The total is within the largest limit** of the rows that weigh something. -/
theorem sum_le {bound : Nat} (h : Admitted weight limit rows)
    (hbound : ∀ r ∈ rows, 0 < weight r → limit r ≤ bound) : (rows.map weight).sum ≤ bound := by
  induction rows using List.reverseRecOn with
  | nil => exact Nat.zero_le _
  | append_singleton rows row ih =>
    rw [List.map_append, List.sum_append, List.map_singleton, List.sum_singleton]
    rcases Nat.eq_zero_or_pos (weight row) with hzero | hpos
    · rw [hzero, Nat.add_zero]
      refine ih (fun before r after heq => ?_) fun r hr => hbound r (List.mem_append_left _ hr)
      exact h before r (after ++ [row]) (by rw [heq]; simp)
    · exact (h rows row [] rfl hpos).trans (hbound row (by simp) hpos)

end Admitted

end GenusOs
