import Mathlib

/-!
# Bounded batches

A worker that takes the first `n` rows of a table, ordered by a column, at each turn. Rows of one
key may come in any order.

* `Batch`: what the worker may be given.
* `exists_in_every_batch_iff`: a wanted row is in every batch if and only if fewer than `n` unwanted
  rows come no later than some wanted one.
-/

namespace GenusOs

variable {α κ : Type*} [LinearOrder κ]

/-- `SELECT … FROM rows ORDER BY key LIMIT n`. -/
def Batch (key : α → κ) (n : Nat) (rows out : List α) : Prop :=
  ∃ ordered : List α, ordered.Perm rows ∧ ordered.Pairwise (fun a b => key a ≤ key b) ∧
    out = ordered.take n

namespace Batch

variable {key : α → κ} {wanted : α → Bool} {n : Nat} {rows out : List α} {a : α}

theorem mem (h : Batch key n rows out) (ha : a ∈ out) : a ∈ rows := by
  obtain ⟨ordered, hperm, -, rfl⟩ := h
  exact hperm.subset (List.mem_of_mem_take ha)

/-- A row with fewer than `n` rows up to it, the wanted ones aside, brings a wanted row with it. -/
theorem exists_wanted (h : Batch key n rows out) (ha : a ∈ rows) (hw : wanted a = true)
    (hcount : rows.countP (fun b => !wanted b && key b ≤ key a) < n) :
    ∃ b ∈ out, wanted b = true := by
  obtain ⟨ordered, hperm, hsorted, rfl⟩ := h
  by_contra hnone
  have hmem : a ∈ ordered := hperm.symm.subset ha
  rw [← List.take_append_drop n ordered] at hmem
  rcases List.mem_append.mp hmem with htake | hdrop
  · exact hnone ⟨a, htake, hw⟩
  · -- the whole batch is unwanted, and comes before the row
    have hall : ∀ b ∈ ordered.take n, (!wanted b && decide (key b ≤ key a)) = true := by
      intro b hb
      rw [← List.take_append_drop n ordered] at hsorted
      have hle := (List.pairwise_append.mp hsorted).2.2 b hb a hdrop
      have hunwanted : wanted b = false := by
        rw [← Bool.not_eq_true]
        exact fun hb' => hnone ⟨b, hb, hb'⟩
      simp [hunwanted, hle]
    have hlength : n ≤ ordered.length := by
      by_contra hlt
      rw [List.drop_eq_nil_of_le (by omega)] at hdrop
      cases hdrop
    have hbatch : (ordered.take n).countP (fun b => !wanted b && decide (key b ≤ key a)) = n := by
      rw [List.countP_eq_length.mpr hall, List.length_take, Nat.min_eq_left hlength]
    have hle := (List.take_sublist n ordered).countP_le
      (p := fun b => !wanted b && decide (key b ≤ key a))
    rw [hbatch, hperm.countP_eq] at hle
    omega

/-- Ties may be resolved to the disadvantage of the wanted rows. -/
theorem exists_worst (rows : List α) (wanted : α → Bool) : ∃ ordered : List α,
    ordered.Perm rows ∧ ordered.Pairwise (fun a b => key a ≤ key b) ∧
      ordered.Pairwise (fun a b => wanted a = true → wanted b = false → key a < key b) := by
  let worst : α → α → Prop := fun a b =>
    key a < key b ∨ key a = key b ∧ (wanted a = true → wanted b = true)
  have htotal : Std.Total worst := ⟨fun a b => by
    rcases lt_trichotomy (key a) (key b) with h | h | h
    · exact .inl (.inl h)
    · cases hb : wanted b with
      | true => exact .inl (.inr ⟨h, fun _ => hb⟩)
      | false => exact .inr (.inr ⟨h.symm, fun hb' => by rw [hb] at hb'; cases hb'⟩)
    · exact .inr (.inl h)⟩
  have htrans : IsTrans α worst := ⟨fun a b c h h' => by
    rcases h with h | ⟨h, hw⟩ <;> rcases h' with h' | ⟨h', hw'⟩
    · exact .inl (h.trans h')
    · exact .inl (h' ▸ h)
    · exact .inl (h ▸ h')
    · exact .inr ⟨h.trans h', fun ha => hw' (hw ha)⟩⟩
  classical
  refine ⟨rows.insertionSort worst, List.perm_insertionSort worst rows, ?_, ?_⟩
  · refine (List.pairwise_insertionSort worst rows).imp fun {a b} h => ?_
    rcases h with h | ⟨h, -⟩
    · exact h.le
    · exact h.le
  · refine (List.pairwise_insertionSort worst rows).imp fun {a b} h ha hb => ?_
    rcases h with h | ⟨-, hw⟩
    · exact h
    · rw [hw ha] at hb
      cases hb

/-- **Which batches serve.** -/
theorem exists_in_every_batch_iff :
    (∀ out, Batch key n rows out → ∃ a ∈ out, wanted a = true) ↔
      ∃ a ∈ rows, wanted a = true ∧
        rows.countP (fun b => !wanted b && key b ≤ key a) < n := by
  refine ⟨fun hall => ?_, fun ⟨a, ha, hw, hcount⟩ out h => h.exists_wanted ha hw hcount⟩
  obtain ⟨ordered, hperm, hsorted, hworst⟩ := @exists_worst _ _ _ key rows wanted
  obtain ⟨a, ha, hw⟩ := hall _ ⟨ordered, hperm, hsorted, rfl⟩
  refine ⟨a, hperm.subset (List.mem_of_mem_take ha), hw, ?_⟩
  obtain ⟨before, after, hbatch⟩ := List.append_of_mem ha
  have hordered : ordered = before ++ a :: (after ++ ordered.drop n) := by
    rw [← List.cons_append, ← List.append_assoc, ← hbatch, List.take_append_drop]
  have hbefore : before.length < n := by
    have hlength := congrArg List.length hbatch
    simp only [List.length_take, List.length_append, List.length_cons] at hlength
    omega
  -- the rows from the wanted one on do not count
  have hrest : (a :: (after ++ ordered.drop n)).countP
      (fun b => !wanted b && key b ≤ key a) = 0 := by
    rw [List.countP_cons_of_neg (by simp [hw]), List.countP_eq_zero]
    intro b hb
    cases hb' : wanted b with
    | true => simp
    | false =>
      rw [hordered, List.pairwise_append, List.pairwise_cons] at hworst
      simp [hworst.2.1.1 b hb hw hb']
  have hle := List.countP_le_length (l := before) (p := fun b => !wanted b && key b ≤ key a)
  rw [← hperm.countP_eq, hordered, List.countP_append, hrest]
  omega

end Batch

end GenusOs
