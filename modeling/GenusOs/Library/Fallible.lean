import Mathlib

/-!
# Loops that may fail

`mapM` and `foldlM` over a list, in `Except`: what they answer where they do not fail.
-/

namespace GenusOs.Fallible

variable {α β ε σ : Type*} {a : α} {as : List α} {b : β} {bs : List β}

/-- What `mapM` answers, it has computed. -/
theorem mem_of_mapM {f : α → Except ε β} (h : as.mapM f = .ok bs) (hb : b ∈ bs) :
    ∃ a ∈ as, f a = .ok b := by
  induction as generalizing bs with
  | nil =>
    cases h
    cases hb
  | cons a as ih =>
    rw [List.mapM_cons] at h
    cases hfirst : f a with
    | error error =>
      rw [hfirst] at h
      cases h
    | ok first =>
      cases hrest : as.mapM f with
      | error error =>
        rw [hfirst, hrest] at h
        cases h
      | ok rest =>
        rw [hfirst, hrest] at h
        cases h
        rcases List.mem_cons.mp hb with rfl | hb
        · exact ⟨a, List.mem_cons_self, hfirst⟩
        · obtain ⟨a', ha', heq⟩ := ih hrest hb
          exact ⟨a', List.mem_cons_of_mem a ha', heq⟩

/-- A reflexive and transitive relation that each turn follows relates the two ends of a loop. -/
theorem foldlM_follows {R : σ → σ → Prop} {f : σ → α → Except ε σ} {s t : σ} (hrefl : ∀ s, R s s)
    (htrans : ∀ s t u, R s t → R t u → R s u) (hstep : ∀ a ∈ as, ∀ s t, f s a = .ok t → R s t)
    (h : as.foldlM f s = .ok t) : R s t := by
  induction as generalizing s with
  | nil =>
    cases h
    exact hrefl _
  | cons a as ih =>
    rw [List.foldlM_cons] at h
    cases hturn : f s a with
    | error error =>
      rw [hturn] at h
      cases h
    | ok u =>
      rw [hturn] at h
      have hrest := ih (fun a' ha' => hstep a' (List.mem_cons_of_mem a ha')) h
      exact htrans s u t (hstep a List.mem_cons_self s u hturn) hrest

end GenusOs.Fallible
