import GenusOs.Library.Run
import GenusOs.Library.Transaction
import Mathlib

/-!
# Transactions under a row lock

A `Script` is a transaction statement by statement: reads, each of which may decide how it goes on,
and then everything from its first write to its commit. Scripts on one key start with a
`SELECT … FOR UPDATE` of the key's row, which is held until they commit, raise or crash. What the
other steps of the system change is not what a held row guards.

* `Locked.step_inv`, `Locked.step_refines`: every statement of an interleaving changes nothing
  others see, or is the whole transaction at the moment it commits.
* `Locked.served`, `Locked.served_ok`: a call is answered by its whole transaction.
* `Locked.refines`: an interleaving of statements is a run of whole transactions.
-/

namespace GenusOs.RowLock

open Transaction

/-! ## Scripts -/

inductive Script (σ ε α : Type)
  | done (t : Transaction σ ε α)
  | read (next : σ → Script σ ε α)

variable {σ ε α β κ γ ο π : Type}

/-- The script as one transaction. -/
def Script.atomic : Script σ ε α → Transaction σ ε α
  | .done t => t
  | .read next => fun s => (next s).atomic s

/-- The script with its answer put in other words. -/
def Script.map (f : α → β) : Script σ ε α → Script σ ε β
  | .done t => .done (f <$> t)
  | .read next => .read fun s => (next s).map f

theorem map_apply (f : α → β) (t : Transaction σ ε α) (s : σ) :
    (f <$> t) s = (t s).map fun p => (f p.1, p.2) := by
  show (t s >>= fun p => pure (f p.1, p.2)) = _
  cases t s <;> rfl

theorem Script.atomic_map (f : α → β) (script : Script σ ε α) (s : σ) :
    (script.map f).atomic s = (script.atomic s).map fun p => (f p.1, p.2) := by
  induction script with
  | done t => exact map_apply f t s
  | read next ih => exact ih s

/-- Reads of the script depend on the part of the state its key guards, and what it writes changes
no other part. -/
inductive Script.Local (part : κ → σ → π) (k : κ) : Script σ ε α → Prop
  | done {t : Transaction σ ε α}
      (h : ∀ s a s', t s = .ok (a, s') → ∀ k', k' ≠ k → part k' s' = part k' s) :
      Local part k (.done t)
  | read {next : σ → Script σ ε α} (hread : ∀ s s', part k s = part k s' → next s = next s')
      (hnext : ∀ s, Local part k (next s)) : Local part k (.read next)

theorem Script.Local.map {part : κ → σ → π} {k : κ} {script : Script σ ε α}
    (h : script.Local part k) (f : α → β) : (script.map f).Local part k := by
  induction h with
  | @done t h =>
    refine .done fun s b s' hs => ?_
    rw [map_apply] at hs
    cases ht : t s with
    | error e =>
      rw [ht] at hs
      cases hs
    | ok p =>
      rw [ht] at hs
      obtain ⟨rfl, rfl⟩ := Prod.mk.inj (Except.ok.inj hs)
      exact h s p.1 p.2 ht
  | read hread _ ih =>
    exact .read (fun s s' hs => congrArg (Script.map f) (hread s s' hs)) ih

theorem atomic_of_map {f : α → β} {script : Script σ ε α} {s t : σ} {b : β}
    (h : (script.map f).atomic s = .ok (b, t)) : ∃ a, script.atomic s = .ok (a, t) ∧ f a = b := by
  rw [Script.atomic_map] at h
  cases hs : script.atomic s with
  | error e =>
    rw [hs] at h
    cases h
  | ok p =>
    rw [hs] at h
    obtain ⟨rfl, rfl⟩ := Prod.mk.inj (Except.ok.inj h)
    exact ⟨p.1, rfl, rfl⟩

/-! ## Interleavings -/

/-- Calls `γ` of scripts under a lock on their key, between other steps `ο` of the system. -/
structure Locked (σ ε α κ γ ο : Type) where
  key : γ → κ
  body : γ → Script σ ε α
  outside : ο → σ → Option σ

/-- The shared state, the script that holds each lock, and the answers given so far. -/
structure State (σ ε α κ γ : Type) where
  shared : σ
  holder : κ → Option (γ × Script σ ε α)
  answers : List (γ × Except ε α)

inductive Step (κ γ ο : Type)
  /-- A call runs its first statement, which takes the lock. -/
  | start (call : γ)
  /-- The holder of the lock runs its next statement. -/
  | next (k : κ)
  /-- The holder is lost. -/
  | crash (k : κ)
  | outside (o : ο)

/-- A call commits or raises, by `t`. -/
def State.finish (X : State σ ε α κ γ) (call : γ) (t : Transaction σ ε α) : State σ ε α κ γ :=
  { X with
    shared := t.commit X.shared
    answers := X.answers ++ [(call, (t X.shared).map Prod.fst)] }

variable [DecidableEq κ]

def State.setHolder (X : State σ ε α κ γ) (k : κ) (h : Option (γ × Script σ ε α)) :
    State σ ε α κ γ :=
  { X with holder := Function.update X.holder k h }

namespace Locked

variable (L : Locked σ ε α κ γ ο)

/-- One statement. A script that is done after its first statement has found no row to lock. -/
def step (X : State σ ε α κ γ) : Step κ γ ο → Option (State σ ε α κ γ)
  | .start call =>
    match X.holder (L.key call), L.body call with
    | some _, _ => none
    | none, .done t => some (X.finish call t)
    | none, .read next =>
      match next X.shared with
      | .done t => some (X.finish call t)
      | script => some (X.setHolder (L.key call) (some (call, script)))
  | .next k =>
    match X.holder k with
    | none => none
    | some (call, .done t) => some ((X.finish call t).setHolder k none)
    | some (call, .read next) => some (X.setHolder k (some (call, next X.shared)))
  | .crash k => some (X.setHolder k none)
  | .outside o => (L.outside o X.shared).map fun s => { X with shared := s }

/-- The whole transactions, and the other steps of the system. -/
def atomicStep (X : σ × List (γ × Except ε α)) : γ ⊕ ο → Option (σ × List (γ × Except ε α))
  | .inl call =>
    let t := (L.body call).atomic
    some (t.commit X.1, X.2 ++ [(call, (t X.1).map Prod.fst)])
  | .inr o => (L.outside o X.1).map fun s => (s, X.2)

/-- Interleavings of statements. -/
def system (init : σ → Prop) : System (State σ ε α κ γ) (Step κ γ ο) :=
  .ofStep (fun X => init X.shared ∧ X.holder = (fun _ => none) ∧ X.answers = []) L.step

/-- Runs of whole transactions. -/
def atomicSystem (init : σ → Prop) : System (σ × List (γ × Except ε α)) (γ ⊕ ο) :=
  .ofStep (fun X => init X.1 ∧ X.2 = []) L.atomicStep

end Locked

/-- What others see of a state: uncommitted work is not part of it. -/
def State.visible (X : State σ ε α κ γ) : σ × List (γ × Except ε α) := (X.shared, X.answers)

/-! ## A lock makes its transactions atomic -/

variable {part : κ → σ → π} {present : π → Prop} {L : Locked σ ε α κ γ ο}

/-- The calls are local to their keys, wait for nothing where their row is missing, and a row that
is present is changed by calls on its key alone. -/
structure Locked.Guarded (L : Locked σ ε α κ γ ο) (part : κ → σ → π) (present : π → Prop) :
    Prop where
  isLocal : ∀ call, (L.body call).Local part (L.key call)
  found : ∀ call next s, L.body call = .read next →
    present (part (L.key call) s) ∨ ∃ t, next s = .done t
  outside : ∀ o s s', L.outside o s = some s' → ∀ k, present (part k s) → part k s' = part k s

/-- What remains of a script that holds a lock is worth the whole script. -/
structure Held (L : Locked σ ε α κ γ ο) (part : κ → σ → π) (present : π → Prop) (s : σ) (k : κ)
    (call : γ) (script : Script σ ε α) : Prop where
  key : L.key call = k
  present : present (part k s)
  isLocal : script.Local part k
  atomic : ∀ s', part k s' = part k s → script.atomic s' = (L.body call).atomic s'

/-- The invariant of an interleaving. -/
def Inv (L : Locked σ ε α κ γ ο) (part : κ → σ → π) (present : π → Prop)
    (X : State σ ε α κ γ) : Prop :=
  ∀ k call script, X.holder k = some (call, script) → Held L part present X.shared k call script

omit [DecidableEq κ] in
theorem Held.of_part {s s' : σ} {k : κ} {call : γ} {script : Script σ ε α}
    (h : Held L part present s k call script) (hp : part k s' = part k s) :
    Held L part present s' k call script where
  key := h.key
  present := hp ▸ h.present
  isLocal := h.isLocal
  atomic s'' hs'' := h.atomic s'' (hs''.trans hp)

theorem commit_congr {t u : Transaction σ ε α} {s : σ} (h : t s = u s) :
    t.commit s = u.commit s := by
  unfold Transaction.commit
  rw [h]

omit [DecidableEq κ] in
/-- A transaction leaves the parts of other keys alone, whether it commits or raises. -/
theorem Script.Local.commit {t : Transaction σ ε α} {k k' : κ} (h : (Script.done t).Local part k)
    (hk : k' ≠ k) (s : σ) : part k' (t.commit s) = part k' s := by
  cases h with
  | done h =>
    exact Transaction.commit_induction (P := fun s' => part k' s' = part k' s) rfl
      fun a s' hs' => h s a s' hs' k' hk

omit [DecidableEq κ] in
theorem Script.Local.next {next : σ → Script σ ε α} {k : κ} (h : (Script.read next).Local part k)
    (s : σ) : (next s).Local part k ∧
      ∀ s', part k s' = part k s → (next s).atomic s' = (Script.read next).atomic s' := by
  cases h with
  | read hread hnext =>
    refine ⟨hnext s, fun s' hs' => ?_⟩
    rw [hread s s' hs'.symm]
    rfl

namespace Locked

variable {X Y : State σ ε α κ γ}

/-- The state after a call has finished on a lock that no other script holds. -/
theorem inv_finish (hi : Inv L part present X) {call : γ} {t : Transaction σ ε α}
    (ht : (Script.done t).Local part (L.key call)) :
    Inv L part present ((X.finish call t).setHolder (L.key call) none) := by
  intro k c script hk
  by_cases hkey : k = L.key call
  · rw [hkey] at hk
    simp [State.setHolder] at hk
  · simp only [State.setHolder, Function.update_of_ne hkey] at hk
    exact (hi k c script hk).of_part (ht.commit hkey X.shared)

theorem inv_setHolder (hi : Inv L part present X) {call : γ} {script : Script σ ε α}
    (h : Held L part present X.shared (L.key call) call script) :
    Inv L part present (X.setHolder (L.key call) (some (call, script))) := by
  intro k c script' hk
  by_cases hkey : k = L.key call
  · subst hkey
    simp only [State.setHolder, Function.update_self, Option.some.injEq, Prod.mk.injEq] at hk
    obtain ⟨rfl, rfl⟩ := hk
    exact h
  · simp only [State.setHolder, Function.update_of_ne hkey] at hk
    exact hi k c script' hk

theorem setHolder_none {k : κ} (h : X.holder k = none) : X.setHolder k none = X := by
  unfold State.setHolder
  rw [← h, Function.update_eq_self]

variable (hL : L.Guarded part present)

include hL

/-- **Step lemma.** -/
theorem step_inv (hi : Inv L part present X) {a : Step κ γ ο} (h : L.step X a = some Y) :
    Inv L part present Y := by
  cases a with
  | start call =>
    simp only [step] at h
    have hlocal := hL.isLocal call
    split at h
    · cases h
    · next t hfree hbody =>
      cases h
      rw [hbody] at hlocal
      have := inv_finish hi hlocal
      rwa [setHolder_none (by exact hfree)] at this
    · next next hfree hbody =>
      rw [hbody] at hlocal
      have hnext := hlocal.next X.shared
      split at h
      · next t ht =>
        cases h
        have := inv_finish hi (ht ▸ hnext.1)
        rwa [setHolder_none (by exact hfree)] at this
      · next script hdone =>
        cases h
        refine inv_setHolder hi ⟨rfl, ?_, hnext.1, fun s' hs' => hbody ▸ hnext.2 s' hs'⟩
        rcases hL.found call next X.shared hbody with hp | ⟨t, ht⟩
        · exact hp
        · exact absurd ht (hdone t)
  | next k =>
    simp only [step] at h
    split at h
    · cases h
    · next call t hk =>
      cases h
      have hheld := hi k call (.done t) hk
      rw [← hheld.key]
      exact inv_finish hi (hheld.key ▸ hheld.isLocal)
    · next call next hk =>
      cases h
      have hheld := hi k call (.read next) hk
      obtain rfl := hheld.key
      have hnext := hheld.isLocal.next X.shared
      exact inv_setHolder hi ⟨rfl, hheld.present, hnext.1, fun s' hs' =>
        (hnext.2 s' hs').trans (hheld.atomic s' hs')⟩
  | crash k =>
    cases h
    intro k' c script hk
    by_cases hkey : k' = k
    · rw [hkey] at hk
      simp [State.setHolder] at hk
    · simp only [State.setHolder, Function.update_of_ne hkey] at hk
      exact hi k' c script hk
  | outside o =>
    obtain ⟨s, hs, rfl⟩ := Option.map_eq_some_iff.mp h
    intro k c script hk
    have hheld := hi k c script hk
    exact hheld.of_part (hL.outside o X.shared s hs k hheld.present)

omit hL in
/-- **A statement changes nothing others see, or is a whole transaction.** -/
theorem step_refines (hi : Inv L part present X) {a : Step κ γ ο} (h : L.step X a = some Y) :
    Y.visible = X.visible ∨ ∃ b, L.atomicStep X.visible b = some Y.visible := by
  cases a with
  | start call =>
    simp only [step] at h
    split at h
    · cases h
    · next t hfree hbody =>
      cases h
      refine Or.inr ⟨.inl call, ?_⟩
      simp only [atomicStep, hbody]
      rfl
    · next next hfree hbody =>
      split at h
      · next t ht =>
        cases h
        have hatomic : (L.body call).atomic X.shared = t X.shared := by
          rw [hbody]
          show (next X.shared).atomic X.shared = _
          rw [ht]
          rfl
        refine Or.inr ⟨.inl call, ?_⟩
        simp only [atomicStep, State.visible, State.finish, commit_congr hatomic, hatomic]
      · next script hdone =>
        cases h
        exact Or.inl rfl
  | next k =>
    simp only [step] at h
    split at h
    · cases h
    · next call t hk =>
      cases h
      have hatomic : t X.shared = (L.body call).atomic X.shared :=
        (hi k call (.done t) hk).atomic X.shared rfl
      refine Or.inr ⟨.inl call, ?_⟩
      simp only [atomicStep, State.visible, State.setHolder, State.finish, commit_congr hatomic,
        hatomic]
    · next call next hk =>
      cases h
      exact Or.inl rfl
  | crash k =>
    cases h
    exact Or.inl rfl
  | outside o =>
    obtain ⟨s, hs, rfl⟩ := Option.map_eq_some_iff.mp h
    refine Or.inr ⟨.inr o, ?_⟩
    simp only [atomicStep, State.visible, hs, Option.map_some]

omit hL in
/-- A call is answered by the whole transaction, at the moment it commits or raises. -/
theorem served (hi : Inv L part present X) {a : Step κ γ ο} (h : L.step X a = some Y) {call : γ}
    {r : Except ε α} (hanswers : Y.answers = X.answers ++ [(call, r)]) :
    Y.shared = (L.body call).atomic.commit X.shared ∧
      r = ((L.body call).atomic X.shared).map Prod.fst := by
  rcases step_refines hi h with heq | ⟨b, hb⟩
  · rw [(Prod.mk.inj heq).2] at hanswers
    simp at hanswers
  · cases b with
    | inl call' =>
      obtain ⟨hshared, hnew⟩ := Prod.mk.inj (Option.some.inj hb)
      rw [← hnew] at hanswers
      obtain ⟨rfl, rfl⟩ := Prod.mk.inj (List.singleton_inj.mp (List.append_cancel_left hanswers))
      exact ⟨hshared.symm, rfl⟩
    | inr o =>
      obtain ⟨s, -, hs⟩ := Option.map_eq_some_iff.mp hb
      rw [← (Prod.mk.inj hs).2] at hanswers
      simp [State.visible] at hanswers

omit hL in
/-- Where it is answered, the transaction has committed. -/
theorem served_ok (hi : Inv L part present X) {a : Step κ γ ο} (h : L.step X a = some Y) {call : γ}
    {answer : α} (hanswers : Y.answers = X.answers ++ [(call, .ok answer)]) :
    (L.body call).atomic X.shared = .ok (answer, Y.shared) := by
  obtain ⟨hshared, hr⟩ := served hi h hanswers
  rw [hshared]
  cases hatomic : (L.body call).atomic X.shared with
  | error e =>
    rw [hatomic] at hr
    cases hr
  | ok p =>
    rw [hatomic] at hr
    rw [commit_of_ok hatomic, Except.ok.inj hr]

variable {init : σ → Prop}

theorem reachable_inv (h : (L.system init).Reachable X) : Inv L part present X :=
  h.invariant (I := Inv L part present)
    (fun X h₀ k call script hk => by
      rw [h₀.2.1] at hk
      cases hk)
    fun _ _ _ hi hs => step_inv hL hi hs

/-- **An interleaving is a run of whole transactions.** -/
theorem refines {as : List (Step κ γ ο)} (hi : Inv L part present X)
    (h : (L.system init).Run X as Y) :
    ∃ bs, (L.atomicSystem init).Run X.visible bs Y.visible := by
  induction h with
  | nil => exact ⟨[], .nil _⟩
  | cons hs _ ih =>
    obtain ⟨bs, hbs⟩ := ih (step_inv hL hi hs)
    rcases step_refines hi hs with heq | ⟨b, hb⟩
    · exact ⟨bs, heq ▸ hbs⟩
    · exact ⟨b :: bs, .cons hb hbs⟩

theorem reachable_visible (h : (L.system init).Reachable X) :
    (L.atomicSystem init).Reachable X.visible := by
  obtain ⟨X₀, as, h₀, hrun⟩ := h
  obtain ⟨bs, hbs⟩ := refines hL (reachable_inv hL ⟨X₀, [], h₀, .nil X₀⟩) hrun
  exact ⟨X₀.visible, bs, ⟨h₀.1, h₀.2.2⟩, hbs⟩

end Locked

end GenusOs.RowLock
