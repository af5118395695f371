import Mathlib

/-!
# Labelled transition systems and their runs

A `System` is a set of initial states and a labelled step relation. A `Run` records the labels of
its steps, oldest first, so that a statement about "any interleaving" is a statement about every
run. The rules below package the induction over runs once: an invariant
(`Run.preserves`, `Reachable.invariant`), and a preorder that every step follows
(`Run.follows`), such as "a terminal record never changes".
-/

namespace GenusOs

/-- States, labels of the steps, the initial states and the steps. -/
structure System (σ : Type*) (α : Type*) where
  init : σ → Prop
  step : σ → α → σ → Prop

namespace System

variable {σ α : Type*} {S : System σ α}

/-- `Run S s as s'`: the steps labelled `as` lead from `s` to `s'`. -/
inductive Run (S : System σ α) : σ → List α → σ → Prop
  | nil (s : σ) : Run S s [] s
  | cons {s t u : σ} {a : α} {as : List α} : S.step s a t → Run S t as u → Run S s (a :: as) u

/-- A state some run from an initial state ends in. -/
def Reachable (S : System σ α) (s : σ) : Prop := ∃ s₀ as, S.init s₀ ∧ Run S s₀ as s

namespace Run

theorem single {s t : σ} {a : α} (h : S.step s a t) : Run S s [a] t := .cons h (.nil t)

theorem append {s t u : σ} {as bs : List α} (h : Run S s as t) (k : Run S t bs u) :
    Run S s (as ++ bs) u := by
  induction h with
  | nil => exact k
  | cons hs _ ih => exact .cons hs (ih k)

/-- A run over `as ++ bs` passes through a state between the two. -/
theorem split {s u : σ} {as bs : List α} (h : Run S s (as ++ bs) u) :
    ∃ t, Run S s as t ∧ Run S t bs u := by
  induction as generalizing s with
  | nil => exact ⟨s, .nil s, h⟩
  | cons a as ih =>
    cases h with
    | cons hs hr =>
      obtain ⟨t, ht, hu⟩ := ih hr
      exact ⟨t, .cons hs ht, hu⟩

/-- The last step of a non-empty run. -/
theorem snoc_inv {s u : σ} {as : List α} {a : α} (h : Run S s (as ++ [a]) u) :
    ∃ t, Run S s as t ∧ S.step t a u := by
  obtain ⟨t, ht, hu⟩ := h.split
  cases hu with
  | cons hs hr => cases hr; exact ⟨t, ht, hs⟩

/-- **Invariant rule.** What every step preserves, every run preserves. -/
theorem preserves {I : σ → Prop} (hstep : ∀ s a t, I s → S.step s a t → I t)
    {s t : σ} {as : List α} (h : Run S s as t) (hs : I s) : I t := by
  induction h with
  | nil => exact hs
  | cons hst _ ih => exact ih (hstep _ _ _ hs hst)

/-- The invariant rule for steps whose labels all meet a condition. -/
theorem preserves_of_labels {I : σ → Prop} {P : α → Prop}
    (hstep : ∀ s a t, P a → I s → S.step s a t → I t)
    {s t : σ} {as : List α} (h : Run S s as t) (hP : ∀ a ∈ as, P a) (hs : I s) : I t := by
  induction h with
  | nil => exact hs
  | cons hst _ ih =>
    exact ih (fun a ha => hP a (List.mem_cons_of_mem _ ha))
      (hstep _ _ _ (hP _ List.mem_cons_self) hs hst)

/-- **Progress rule.** A reflexive and transitive relation that every step from an invariant
state follows relates the two ends of every run. -/
theorem follows {I : σ → Prop} {R : σ → σ → Prop} (hrefl : ∀ s, R s s)
    (htrans : ∀ s t u, R s t → R t u → R s u)
    (hI : ∀ s a t, I s → S.step s a t → I t) (hstep : ∀ s a t, I s → S.step s a t → R s t)
    {s t : σ} {as : List α} (h : Run S s as t) (hs : I s) : R s t := by
  induction h with
  | nil => exact hrefl _
  | cons hst _ ih => exact htrans _ _ _ (hstep _ _ _ hs hst) (ih (hI _ _ _ hs hst))

end Run

/-- An invariant of the initial states and of the steps holds in every reachable state. -/
theorem Reachable.invariant {I : σ → Prop} (hinit : ∀ s, S.init s → I s)
    (hstep : ∀ s a t, I s → S.step s a t → I t) {s : σ} (h : Reachable S s) : I s := by
  obtain ⟨s₀, as, h₀, hr⟩ := h
  exact hr.preserves hstep (hinit s₀ h₀)

theorem Reachable.run {s t : σ} {as : List α} (h : Reachable S s) (k : Run S s as t) :
    Reachable S t := by
  obtain ⟨s₀, bs, h₀, hr⟩ := h
  exact ⟨s₀, bs ++ as, h₀, hr.append k⟩

/-! ## The runs whose steps all meet a condition -/

/-- The steps of `S` that start as `P` asks. -/
def restrict (S : System σ α) (P : σ → α → Prop) : System σ α where
  init := S.init
  step s a t := P s a ∧ S.step s a t

/-! ## Systems with a step function -/

/-- The system of a step function that says `none` where an action is not possible. -/
def ofStep (init : σ → Prop) (step : σ → α → Option σ) : System σ α where
  init := init
  step s a t := step s a = some t

/-- One more step in front of a run whose steps meet a condition. -/
theorem run_restrict_cons {init : σ → Prop} {step : σ → α → Option σ} {P : σ → α → Prop}
    {s t u : σ} {a : α} {as : List α} (hP : P s a) (hs : step s a = some t)
    (h : Run ((ofStep init step).restrict P) t as u) :
    Run ((ofStep init step).restrict P) s (a :: as) u :=
  .cons ⟨hP, hs⟩ h

/-- Evaluating the actions one after the other, each where it starts as `P` asks, gives a run whose
steps all do. -/
theorem run_restrict_of_foldlM {init : σ → Prop} {step : σ → α → Option σ} {P : σ → α → Prop}
    [∀ s a, Decidable (P s a)] {as : List α} : ∀ {s t : σ},
    as.foldlM (fun s a => if P s a then step s a else none) s = some t →
      Run ((ofStep init step).restrict P) s as t := by
  induction as with
  | nil =>
    intro s t h
    cases h
    exact .nil s
  | cons a as ih =>
    intro s t h
    rw [List.foldlM_cons] at h
    obtain ⟨u, hu, ht⟩ := Option.bind_eq_some_iff.mp h
    obtain ⟨hP, hs⟩ := Option.ite_none_right_eq_some.mp hu
    exact run_restrict_cons hP hs (ih ht)

/-- A run whose steps meet a condition is a run. -/
theorem Run.of_restrict {P : σ → α → Prop} {s t : σ} {as : List α} (h : Run (S.restrict P) s as t) :
    Run S s as t := by
  induction h with
  | nil s => exact .nil s
  | cons hs _ ih => exact .cons hs.2 ih

/-- Evaluating the actions one after the other gives a run. -/
theorem run_of_foldlM {init : σ → Prop} {step : σ → α → Option σ} {as : List α} :
    ∀ {s t : σ}, as.foldlM step s = some t → Run (ofStep init step) s as t := by
  induction as with
  | nil =>
    intro s t h
    cases h
    exact .nil s
  | cons a as ih =>
    intro s t h
    rw [List.foldlM_cons] at h
    obtain ⟨u, hu, ht⟩ := Option.bind_eq_some_iff.mp h
    exact .cons hu (ih ht)

/-- A run of a step function is its evaluation. -/
theorem Run.foldlM_eq {init : σ → Prop} {step : σ → α → Option σ} {s t : σ} {as : List α}
    (h : Run (ofStep init step) s as t) : as.foldlM step s = some t := by
  induction h with
  | nil s => rfl
  | cons hs _ ih =>
    rw [List.foldlM_cons]
    exact Option.bind_eq_some_iff.mpr ⟨_, hs, ih⟩

/-! ## What is observed along a run -/

variable {ε : Type*} {obs : σ → α → List ε}

/-- The system that notes what `obs` sees of each step. -/
def record (S : System σ α) (obs : σ → α → List ε) : System (σ × List ε) α where
  init s := S.init s.1 ∧ s.2 = []
  step s a t := S.step s.1 a t.1 ∧ t.2 = s.2 ++ obs s.1 a

theorem Run.of_record {s t : σ × List ε} {as : List α} (h : Run (S.record obs) s as t) :
    Run S s.1 as t.1 := by
  induction h with
  | nil s => exact .nil s.1
  | cons hs _ ih => exact .cons hs.1 ih

/-- Evaluating the actions with what is observed of them gives a recorded run. -/
theorem run_record_of_foldlM {init : σ → Prop} {step : σ → α → Option σ} {as : List α} :
    ∀ {s t : σ × List ε},
      as.foldlM (fun s a => (step s.1 a).map fun u => (u, s.2 ++ obs s.1 a)) s = some t →
      Run ((ofStep init step).record obs) s as t := by
  induction as with
  | nil =>
    intro s t h
    cases h
    exact .nil s
  | cons a as ih =>
    intro s t h
    rw [List.foldlM_cons] at h
    obtain ⟨u, hu, ht⟩ := Option.bind_eq_some_iff.mp h
    obtain ⟨v, hv, rfl⟩ := Option.map_eq_some_iff.mp hu
    have hstep : ((ofStep init step).record obs).step s a (v, s.2 ++ obs s.1 a) := ⟨hv, rfl⟩
    exact .cons hstep (ih ht)

end System

end GenusOs
