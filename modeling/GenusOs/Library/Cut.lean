import Mathlib

/-!
# Cutting a list where a pattern first stands

`cutAt sep l` is what is in front of the first `sep` in `l` and what is behind it, as
`str.partition` and `str.split(sep, 1)` find it.

* `cutAt_eq_none_iff`: there is no cut exactly where the pattern does not stand.
* `cutAt_append`: what comes behind a cut does not move it.
* `cutAt_of_notMem`, `cutAt_pair`: what can be skipped in front of the first place.
* `infix_flatten_iff`: where the pattern stands in pieces that are put together.
-/

namespace GenusOs

variable {α : Type*} [DecidableEq α] {sep l r a b : List α} {x y z : α}

def cutAt (sep : List α) : List α → Option (List α × List α)
  | [] => if sep = [] then some ([], []) else none
  | c :: cs =>
    if sep <+: c :: cs then some ([], (c :: cs).drop sep.length)
    else (cutAt sep cs).map (Prod.map (c :: ·) id)

theorem cutAt_cons_of_hit (h : sep <+: x :: l) :
    cutAt sep (x :: l) = some ([], (x :: l).drop sep.length) := by
  rw [cutAt, if_pos h]

theorem cutAt_cons_of_not (h : ¬ sep <+: x :: l) :
    cutAt sep (x :: l) = (cutAt sep l).map (Prod.map (x :: ·) id) := by
  rw [cutAt, if_neg h]

theorem cutAt_eq_none_iff : cutAt sep l = none ↔ ¬ sep <:+: l := by
  induction l with
  | nil => simp [cutAt, List.infix_nil]
  | cons x l ih =>
    rw [List.infix_cons_iff]
    by_cases h : sep <+: x :: l
    · rw [cutAt_cons_of_hit h]
      simp [h]
    · rw [cutAt_cons_of_not h, Option.map_eq_none_iff, ih]
      simp [h]

theorem eq_of_cutAt (h : cutAt sep l = some (a, b)) : l = a ++ sep ++ b := by
  induction l generalizing a with
  | nil =>
    rw [cutAt] at h
    split at h
    · next hsep =>
      cases h
      rw [hsep]
      rfl
    · cases h
  | cons x l ih =>
    by_cases hp : sep <+: x :: l
    · rw [cutAt_cons_of_hit hp] at h
      cases h
      obtain ⟨t, ht⟩ := hp
      rw [← ht, List.drop_left, List.nil_append]
    · rw [cutAt_cons_of_not hp] at h
      obtain ⟨⟨a', b'⟩, hcut, heq⟩ := Option.map_eq_some_iff.mp h
      cases heq
      rw [ih hcut]
      rfl

@[simp] theorem cutAt_self (sep b : List α) : cutAt sep (sep ++ b) = some ([], b) := by
  cases hl : sep ++ b with
  | nil =>
    obtain ⟨rfl, rfl⟩ := List.append_eq_nil_iff.mp hl
    rfl
  | cons x l =>
    rw [cutAt_cons_of_hit (hl ▸ List.prefix_append sep b), ← hl, List.drop_left]

/-- **What comes behind a cut does not move it.** -/
theorem cutAt_append (h : cutAt sep l = some (a, b)) (r : List α) :
    cutAt sep (l ++ r) = some (a, b ++ r) := by
  induction l generalizing a with
  | nil =>
    rw [cutAt] at h
    split at h
    · next hsep =>
      cases h
      subst hsep
      cases r with
      | nil => rfl
      | cons x r => exact cutAt_cons_of_hit List.nil_prefix
    · cases h
  | cons x l ih =>
    by_cases hp : sep <+: x :: l
    · rw [cutAt_cons_of_hit hp] at h
      cases h
      have hp' : sep <+: x :: (l ++ r) := hp.trans (List.prefix_append (x :: l) r)
      rw [List.cons_append, cutAt_cons_of_hit hp', ← List.cons_append,
        List.drop_append_of_le_length hp.length_le]
    · rw [cutAt_cons_of_not hp] at h
      obtain ⟨⟨a', b'⟩, hcut, heq⟩ := Option.map_eq_some_iff.mp h
      cases heq
      have hlen : sep.length ≤ (x :: l).length := by
        rw [eq_of_cutAt hcut]
        simp only [List.length_cons, List.length_append]
        omega
      have hp' : ¬ sep <+: x :: (l ++ r) := fun hpre =>
        hp (List.prefix_of_prefix_length_le hpre (List.prefix_append (x :: l) r) hlen)
      rw [List.cons_append, cutAt_cons_of_not hp', ih hcut]
      rfl

/-- Nothing is cut before the first element of the pattern. -/
theorem cutAt_of_notMem (h : x ∉ a) (b : List α) :
    cutAt (x :: sep) (a ++ b) = (cutAt (x :: sep) b).map (Prod.map (a ++ ·) id) := by
  induction a with
  | nil =>
    rw [List.nil_append]
    cases cutAt (x :: sep) b <;> rfl
  | cons y a ih =>
    rw [List.mem_cons, not_or] at h
    have hp : ¬ x :: sep <+: y :: (a ++ b) := fun hpre =>
      h.1 (List.cons_prefix_cons.mp hpre).1
    rw [List.cons_append, cutAt_cons_of_not hp, ih h.2]
    cases cutAt (x :: sep) b <;> rfl

/-- No pair is cut before it stands, nor across an element that is not its second. -/
theorem cutAt_pair (h : ¬ [x, y] <:+: a) (hz : z ≠ y) (b : List α) :
    cutAt [x, y] (a ++ z :: b) = (cutAt [x, y] (z :: b)).map (Prod.map (a ++ ·) id) := by
  induction a with
  | nil =>
    rw [List.nil_append]
    cases cutAt [x, y] (z :: b) <;> rfl
  | cons w a ih =>
    rw [List.infix_cons_iff, not_or] at h
    have hp : ¬ [x, y] <+: w :: (a ++ z :: b) := by
      intro hpre
      obtain ⟨rfl, hrest⟩ := List.cons_prefix_cons.mp hpre
      cases a with
      | nil => exact hz (List.cons_prefix_cons.mp hrest).1.symm
      | cons v a =>
        obtain ⟨rfl, -⟩ := List.cons_prefix_cons.mp hrest
        exact h.1 (List.prefix_append [x, y] a)
    rw [List.cons_append, cutAt_cons_of_not hp, ih h.2]
    cases cutAt [x, y] (z :: b) <;> rfl

theorem cutAt_singleton (h : x ∉ a) (b : List α) : cutAt [x] (a ++ x :: b) = some (a, b) := by
  have hself : cutAt [x] (x :: b) = some ([], b) := cutAt_self [x] b
  rw [cutAt_of_notMem h, hself]
  simp

/-- The cut falls at the first place. -/
theorem notMem_of_cutAt (h : cutAt [x] l = some (a, b)) : x ∉ a := by
  by_contra hmem
  obtain ⟨u, v, rfl, hu⟩ := List.eq_append_cons_of_mem hmem
  have hl := eq_of_cutAt h
  rw [hl, List.append_assoc, List.append_assoc, List.cons_append, cutAt_singleton hu] at h
  have hlen := congrArg List.length (Prod.mk.inj (Option.some.inj h)).1
  simp only [List.length_append, List.length_cons] at hlen
  omega

theorem cutAt_pair_self (h : ¬ [x, y] <:+: a) (hne : x ≠ y) (b : List α) :
    cutAt [x, y] (a ++ x :: y :: b) = some (a, b) := by
  have hself : cutAt [x, y] (x :: y :: b) = some ([], b) := cutAt_self [x, y] b
  rw [cutAt_pair h hne, hself]
  simp

/-! ## Putting together -/

omit [DecidableEq α] in
/-- **A pattern that stands in no piece reaches over a border** where it stands in the pieces put
together. -/
theorem infix_flatten_iff {pieces : List (List α)} (hne : sep ≠ [])
    (h : ∀ piece ∈ pieces, ¬ sep <:+: piece) :
    sep <:+: pieces.flatten ↔ ∃ left right, pieces = left ++ right ∧ ∃ u v, u ≠ [] ∧ v ≠ [] ∧
      sep = u ++ v ∧ u <:+ left.flatten ∧ v <+: right.flatten := by
  constructor
  · intro hin
    induction pieces with
    | nil => exact absurd (List.infix_nil.mp hin) hne
    | cons piece pieces ih =>
      rw [List.flatten_cons] at hin
      rcases List.infix_append_iff_ne_nil.mp hin with hin | hin | ⟨u, v, hu, hv, hsep, hsuf, hpre⟩
      · exact absurd hin (h piece List.mem_cons_self)
      · obtain ⟨left, right, rfl, u, v, hu, hv, hsep, hsuf, hpre⟩ :=
          ih (fun q hq => h q (List.mem_cons_of_mem piece hq)) hin
        exact ⟨piece :: left, right, rfl, u, v, hu, hv, hsep,
          hsuf.trans (List.suffix_append piece _), hpre⟩
      · exact ⟨[piece], pieces, rfl, u, v, hu, hv, hsep, by simpa using hsuf, hpre⟩
  · rintro ⟨left, right, rfl, u, v, hu, hv, hsep, hsuf, hpre⟩
    rw [List.flatten_append]
    exact List.infix_append_iff_ne_nil.mpr (.inr (.inr ⟨u, v, hu, hv, hsep, hsuf, hpre⟩))

end GenusOs
