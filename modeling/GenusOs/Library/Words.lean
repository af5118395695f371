import Mathlib

/-!
# The words of a list

The words of a list are its longest stretches without a blank. What is done to blanks only
(trimming, squeezing, dropping blank lines) does not change them, so they carry facts over such a
clean-up.

* `words_append_cons`, `words_append_blanks`: how a blank cuts.
* `flatten_words`: the words are all that is not blank.
* `infix_iff_words`: a pattern without blanks stands in the list exactly where it stands in a word.
-/

namespace GenusOs

variable {α β : Type*} {p : α → Bool} {l a b w : List α} {x : α}

/-- The longest stretches of a list without a blank. -/
def words (p : α → Bool) (l : List α) : List (List α) := (l.splitOnP p).filter (!·.isEmpty)

@[simp] theorem words_nil : words p [] = [] := rfl

/-- **A blank ends a word.** -/
theorem words_append_cons (h : p x = true) (a b : List α) :
    words p (a ++ x :: b) = words p a ++ words p b := by
  rw [words, List.splitOnP_append_cons a b h, List.filter_append]
  rfl

theorem words_cons (h : p x = true) (l : List α) : words p (x :: l) = words p l :=
  words_append_cons h [] l

theorem words_of_clean (h : ∀ x ∈ l, p x = false) (hne : l ≠ []) : words p l = [l] := by
  rw [words, List.splitOnP_eq_singleton h]
  simp [hne]

theorem words_of_blanks (h : ∀ x ∈ l, p x = true) : words p l = [] := by
  induction l with
  | nil => rfl
  | cons x l ih =>
    rw [words_cons (h x List.mem_cons_self), ih fun y hy => h y (List.mem_cons_of_mem x hy)]

/-- Blanks at the end are in no word. -/
theorem words_append_blanks (h : ∀ x ∈ b, p x = true) (a : List α) :
    words p (a ++ b) = words p a := by
  cases b with
  | nil => rw [List.append_nil]
  | cons x b =>
    rw [words_append_cons (h x List.mem_cons_self),
      words_of_blanks fun y hy => h y (List.mem_cons_of_mem x hy), List.append_nil]

/-- A list is clean, or its first blank cuts it. -/
theorem clean_or_cut (p : α → Bool) (l : List α) : (∀ x ∈ l, p x = false) ∨
    ∃ a x b, l = a ++ x :: b ∧ p x = true ∧ ∀ y ∈ a, p y = false := by
  induction l with
  | nil => exact .inl fun x hx => (List.not_mem_nil hx).elim
  | cons x l ih =>
    cases hx : p x with
    | true => exact .inr ⟨[], x, l, rfl, hx, fun y hy => (List.not_mem_nil hy).elim⟩
    | false =>
      rcases ih with hclean | ⟨a, y, b, rfl, hy, hclean⟩
      · exact .inl (List.forall_mem_cons.mpr ⟨hx, hclean⟩)
      · exact .inr ⟨x :: a, y, b, rfl, hy, List.forall_mem_cons.mpr ⟨hx, hclean⟩⟩

/-- What holds of clean lists, and of a clean list with a blank and any such list behind it, holds
of every list. -/
theorem words_induction {P : List α → Prop} (clean : ∀ a, (∀ x ∈ a, p x = false) → P a)
    (cut : ∀ a x b, (∀ y ∈ a, p y = false) → p x = true → P b → P (a ++ x :: b)) (l : List α) :
    P l := by
  induction hn : l.length using Nat.strongRecOn generalizing l with
  | ind n ih =>
    rcases clean_or_cut p l with hclean | ⟨a, x, b, rfl, hx, hclean⟩
    · exact clean l hclean
    · refine cut a x b hclean hx (ih b.length ?_ b rfl)
      rw [← hn, List.length_append, List.length_cons]
      omega

theorem flatten_words_of_clean (h : ∀ x ∈ l, p x = false) : (words p l).flatten = l := by
  cases l with
  | nil => rfl
  | cons x l => rw [words_of_clean h (List.cons_ne_nil x l), List.flatten_singleton]

/-- The words are all that is not blank. -/
theorem flatten_words (p : α → Bool) (l : List α) : (words p l).flatten = l.filter (!p ·) := by
  have hclean {a : List α} (ha : ∀ x ∈ a, p x = false) : a.filter (!p ·) = a :=
    List.filter_eq_self.mpr fun x hx => by simp [ha x hx]
  induction l using words_induction (p := p) with
  | clean a ha => rw [flatten_words_of_clean ha, hclean ha]
  | cut a x b ha hx ih =>
    rw [words_append_cons hx, List.flatten_append, ih, flatten_words_of_clean ha,
      List.filter_append, List.filter_cons_of_neg (by simp [hx]), hclean ha]

/-- A pattern without blanks does not reach over a blank. -/
theorem infix_append_cons_iff (hw : ∀ y ∈ w, p y = false) (hx : p x = true) :
    w <:+: a ++ x :: b ↔ w <:+: a ∨ w <:+: b := by
  constructor
  · intro h
    rcases List.infix_append_iff_ne_nil.mp h with h | h | ⟨u, v, -, hv, rfl, -, hpre⟩
    · exact .inl h
    · rcases List.infix_cons_iff.mp h with h | h
      · cases w with
        | nil => exact .inr (List.nil_infix)
        | cons y w =>
          have hy := hw y List.mem_cons_self
          rw [(List.cons_prefix_cons.mp h).1, hx] at hy
          cases hy
      · exact .inr h
    · cases v with
      | nil => exact absurd rfl hv
      | cons y v =>
        have hy := hw y (List.mem_append_right u List.mem_cons_self)
        rw [(List.cons_prefix_cons.mp hpre).1, hx] at hy
        cases hy
  · rintro (h | h)
    · exact List.infix_append_of_infix_left h
    · exact h.trans ((List.suffix_cons x b).isInfix.trans (List.suffix_append a _).isInfix)

/-- **A pattern without blanks stands in a list where it stands in a word.** -/
theorem infix_iff_words (hw : ∀ y ∈ w, p y = false) (hne : w ≠ []) (l : List α) :
    w <:+: l ↔ ∃ v ∈ words p l, w <:+: v := by
  induction l using words_induction (p := p) with
  | clean a ha =>
    cases a with
    | nil => simp [hne]
    | cons x a => simp [words_of_clean ha (List.cons_ne_nil x a)]
  | cut a x b ha hx ih =>
    rw [infix_append_cons_iff hw hx, words_append_cons hx, ih]
    cases a with
    | nil => simp [hne]
    | cons y a => simp [words_of_clean ha (List.cons_ne_nil y a), or_and_right, exists_or]

/-! ## Lines -/

/-- What is cut at a separator is cut so at every one that joins lines. -/
theorem apply_intercalate {g : List α → List β} (hnil : g [] = [])
    (hcut : ∀ a b, g (a ++ x :: b) = g a ++ g b) (ls : List (List α)) :
    g ([x].intercalate ls) = ls.flatMap g := by
  induction ls with
  | nil => exact hnil
  | cons a ls ih =>
    cases ls with
    | nil => rw [List.intercalate_singleton, List.flatMap_singleton]
    | cons b ls =>
      have hjoin : [x].intercalate (a :: b :: ls) = a ++ x :: [x].intercalate (b :: ls) := by
        rw [List.intercalate_cons_cons, List.append_assoc, List.singleton_append]
      rw [hjoin, hcut, ih, ← List.flatMap_cons]

/-- Dropping what gives nothing at the start changes nothing. -/
theorem flatMap_dropWhile {q : α → Bool} {g : α → List β} (h : ∀ x, q x = true → g x = [])
    (l : List α) : (l.dropWhile q).flatMap g = l.flatMap g := by
  induction l with
  | nil => rfl
  | cons x l ih =>
    cases hx : q x with
    | true => rw [List.dropWhile_cons_of_pos hx, ih, List.flatMap_cons, h x hx, List.nil_append]
    | false => rw [List.dropWhile_cons_of_neg (by simp [hx])]

/-- Dropping what gives nothing at the end changes nothing. -/
theorem flatMap_rdropWhile {q : α → Bool} {g : α → List β} (h : ∀ x, q x = true → g x = [])
    (l : List α) : (l.rdropWhile q).flatMap g = l.flatMap g := by
  induction l using List.reverseRecOn with
  | nil => rfl
  | append_singleton l x ih =>
    cases hx : q x with
    | true =>
      rw [List.rdropWhile_concat_pos q l x hx, ih, List.flatMap_append, List.flatMap_singleton,
        h x hx, List.append_nil]
    | false => rw [List.rdropWhile_concat_neg q l x (by simp [hx])]

end GenusOs
