import Mathlib

/-!
# Lists whose elements of one kind come first

`Leading p l`: no element of `l` that fails `p` stands before one that meets it.

* `leading_append`: what a concatenation has to meet.
* `Leading.split`: such a list is its elements of that kind, then the others.
-/

namespace GenusOs

variable {α : Type*} {p : α → Bool} {a : α} {l m : List α}

/-- The elements that meet `p` come first. -/
def Leading (p : α → Bool) (l : List α) : Prop := l.Pairwise fun a b => p b = true → p a = true

@[simp] theorem leading_nil : Leading p [] := List.Pairwise.nil

theorem leading_append : Leading p (l ++ m) ↔
    Leading p l ∧ Leading p m ∧ ∀ a ∈ l, ∀ b ∈ m, p b = true → p a = true :=
  List.pairwise_append

theorem leading_of_none (h : ∀ a ∈ l, p a = false) : Leading p l := by
  apply List.Pairwise.imp_of_mem (R := fun _ _ => True)
  · intro a b _ hb _ hpb
    rw [h b hb] at hpb
    cases hpb
  · exact List.pairwise_of_forall fun _ _ => trivial

theorem leading_of_all (h : ∀ a ∈ l, p a = true) : Leading p l := by
  apply List.Pairwise.imp_of_mem (R := fun _ _ => True)
  · intro a b ha _ _ _
    exact h a ha
  · exact List.pairwise_of_forall fun _ _ => trivial

/-- In front of a list that holds such an element, only such elements may stand. -/
theorem leading_append_iff_of_none (h : ∀ a ∈ l, p a = false) :
    Leading p (l ++ m) ↔ Leading p m ∧ (m.filter p ≠ [] → l = []) := by
  rw [leading_append]
  constructor
  · rintro ⟨-, hm, hcross⟩
    refine ⟨hm, fun hne => ?_⟩
    obtain ⟨b, hb⟩ := List.exists_mem_of_ne_nil _ hne
    obtain ⟨hb, hpb⟩ := List.mem_filter.mp hb
    rw [List.eq_nil_iff_forall_not_mem]
    intro a ha
    have hpa := hcross a ha b hb hpb
    rw [h a ha] at hpa
    cases hpa
  · rintro ⟨hm, hnil⟩
    refine ⟨leading_of_none h, hm, fun a ha b hb hpb => ?_⟩
    rw [hnil (List.ne_nil_of_mem (List.mem_filter.mpr ⟨hb, hpb⟩))] at ha
    cases ha

theorem leading_append_iff_of_all (h : ∀ a ∈ l, p a = true) :
    Leading p (l ++ m) ↔ Leading p m := by
  rw [leading_append]
  constructor
  · rintro ⟨-, hm, -⟩
    exact hm
  · intro hm
    exact ⟨leading_of_all h, hm, fun a ha _ _ _ => h a ha⟩

/-- The elements of that kind, then the others. -/
theorem Leading.split (h : Leading p l) : l = l.filter p ++ l.filter (!p ·) := by
  induction l with
  | nil => rfl
  | cons a l ih =>
    obtain ⟨hhead, htail⟩ := List.pairwise_cons.mp h
    cases hp : p a with
    | true =>
      rw [List.filter_cons_of_pos hp, List.filter_cons_of_neg (by simp [hp]), List.cons_append,
        ← ih htail]
    | false =>
      have hnone : ∀ b ∈ l, p b = false := by
        intro b hb
        by_contra hpb
        rw [Bool.not_eq_false] at hpb
        rw [hhead b hb hpb] at hp
        cases hp
      have hnil : l.filter p = [] := by
        rw [List.filter_eq_nil_iff]
        intro b hb
        rw [hnone b hb]
        exact Bool.false_ne_true
      have hall : l.filter (!p ·) = l := by
        rw [List.filter_eq_self]
        intro b hb
        rw [hnone b hb]
        rfl
      rw [List.filter_cons_of_neg (by simp [hp]),
        List.filter_cons_of_pos (by simp [hp]), hnil, hall]
      rfl

theorem leading_of_split {rest : List α} (hl : ∀ a ∈ l, p a = true)
    (hrest : ∀ a ∈ rest, p a = false) : Leading p (l ++ rest) :=
  (leading_append_iff_of_all hl).mpr (leading_of_none hrest)

end GenusOs
