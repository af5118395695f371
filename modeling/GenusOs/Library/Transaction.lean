import Mathlib

/-!
# Transactions

A transaction reads and writes a state and either commits with an answer or raises, and then
nothing it wrote stays. `Keeps R s m` says that `m`, where it commits from `s`, relates `s` to the
state after by `R`; with a reflexive and transitive `R` it is proved statement by statement.

* `bind_ok`, `pure_ok`, `require_ok`, …: what a committed transaction has gone through.
* `Keeps.bind`, `Keeps.read`, `Keeps.write`, …: the rules for `Keeps`.
-/

namespace GenusOs

/-- A transaction over `σ` that commits with an answer of type `α` or raises an `ε`. -/
abbrev Transaction (σ ε α : Type) := StateT σ (Except ε) α

namespace Transaction

variable {σ ε α β : Type}

/-- The state after the transaction: what was written by one that raises is rolled back. -/
def commit (m : Transaction σ ε α) (s : σ) : σ :=
  match m s with
  | .ok (_, t) => t
  | .error _ => s

/-- `raise e`. -/
def raise (e : ε) : Transaction σ ε α := fun _ => .error e

/-- `if not p: raise e`. -/
def require (p : Prop) [Decidable p] (e : ε) : Transaction σ ε Unit :=
  if p then pure () else raise e

/-- `if p: m`. -/
def onlyIf (p : Prop) [Decidable p] (m : Transaction σ ε Unit) : Transaction σ ε Unit :=
  if p then m else pure ()

/-- A value that is there, or else `raise e`. -/
def getOrRaise (a : Option α) (e : ε) : Transaction σ ε α :=
  match a with
  | some a => pure a
  | none => raise e

/-- A pure computation that may raise. -/
def fromExcept (a : Except ε α) : Transaction σ ε α :=
  match a with
  | .ok a => pure a
  | .error e => raise e

/-! ## What a committed transaction has gone through -/

variable {m : Transaction σ ε α} {f : α → Transaction σ ε β} {s t u : σ} {a : α} {b : β} {e : ε}

@[simp]
theorem bind_ok :
    (m >>= f) s = .ok (b, t) ↔ ∃ a u, m s = .ok (a, u) ∧ f a u = .ok (b, t) := by
  show (m s >>= fun p => f p.1 p.2) = .ok (b, t) ↔ _
  cases h : m s with
  | error e => simp [bind, Except.bind]
  | ok p =>
    obtain ⟨a, u⟩ := p
    show f a u = .ok (b, t) ↔ ∃ a' u', Except.ok (a, u) = .ok (a', u') ∧ f a' u' = .ok (b, t)
    constructor
    · exact fun h => ⟨a, u, rfl, h⟩
    · rintro ⟨_, _, ⟨⟩, h⟩
      exact h

@[simp]
theorem pure_ok {c : α} : (pure c : Transaction σ ε α) s = .ok (a, t) ↔ a = c ∧ t = s := by
  show Except.ok (c, s) = .ok (a, t) ↔ _
  simp [eq_comm]

@[simp]
theorem raise_ok : (raise e : Transaction σ ε α) s = .ok (a, t) ↔ False := by
  simp [raise]

@[simp]
theorem get_ok : (get : Transaction σ ε σ) s = .ok (u, t) ↔ u = s ∧ t = s := by
  show Except.ok (s, s) = .ok (u, t) ↔ _
  simp [eq_comm]

@[simp]
theorem modify_ok {g : σ → σ} {x : Unit} :
    (modify g : Transaction σ ε Unit) s = .ok (x, t) ↔ t = g s := by
  show Except.ok ((), g s) = .ok (x, t) ↔ _
  simp [eq_comm]

@[simp]
theorem require_ok {p : Prop} [Decidable p] {x : Unit} :
    (require p e : Transaction σ ε Unit) s = .ok (x, t) ↔ p ∧ t = s := by
  unfold require
  split <;> simp [*]

@[simp]
theorem getOrRaise_ok {o : Option α} :
    (getOrRaise o e : Transaction σ ε α) s = .ok (a, t) ↔ o = some a ∧ t = s := by
  unfold getOrRaise
  cases o with
  | none => simp
  | some c =>
    rw [pure_ok, Option.some.injEq, eq_comm (a := c)]

@[simp]
theorem fromExcept_ok {o : Except ε α} :
    (fromExcept o : Transaction σ ε α) s = .ok (a, t) ↔ o = .ok a ∧ t = s := by
  unfold fromExcept
  cases o with
  | error e' => simp
  | ok c =>
    rw [pure_ok, Except.ok.injEq, eq_comm (a := c)]

theorem commit_of_ok (h : m s = .ok (a, t)) : commit m s = t := by
  simp [commit, h]

/-- A property of the state before and of every committed state holds after. -/
theorem commit_induction {P : σ → Prop} (hs : P s) (h : ∀ a t, m s = .ok (a, t) → P t) :
    P (commit m s) := by
  unfold commit
  split
  · next a t hm => exact h a t hm
  · exact hs

/-! ## Reads -/

/-- A read leaves the state as it is. -/
def Reads (m : Transaction σ ε α) : Prop := ∀ s a t, m s = .ok (a, t) → t = s

namespace Reads

theorem bind (hm : Reads m) (hf : ∀ a, Reads (f a)) : Reads (m >>= f) := by
  intro s b u h
  obtain ⟨a, t, h₁, h₂⟩ := bind_ok.mp h
  rw [hf a t b u h₂, hm s a t h₁]

theorem pure (a : α) : Reads (pure a : Transaction σ ε α) := fun _ _ _ h => (pure_ok.mp h).2

theorem raise (e : ε) : Reads (raise e : Transaction σ ε α) := fun _ _ _ h => (raise_ok.mp h).elim

theorem get : Reads (get : Transaction σ ε σ) := fun _ _ _ h => (get_ok.mp h).2

theorem require (p : Prop) [Decidable p] (e : ε) : Reads (require p e : Transaction σ ε Unit) :=
  fun _ _ _ h => (require_ok.mp h).2

theorem getOrRaise (o : Option α) (e : ε) : Reads (getOrRaise o e : Transaction σ ε α) :=
  fun _ _ _ h => (getOrRaise_ok.mp h).2

theorem fromExcept (o : Except ε α) : Reads (fromExcept o : Transaction σ ε α) :=
  fun _ _ _ h => (fromExcept_ok.mp h).2

theorem ite {p : Prop} [Decidable p] {m' : Transaction σ ε α} (h : Reads m) (h' : Reads m') :
    Reads (if p then m else m') := by
  split
  · exact h
  · exact h'

end Reads

/-! ## Relations that transactions keep -/

/-- Where the transaction commits from `s`, `R` relates `s` to the state after. -/
def Keeps (R : σ → σ → Prop) (s : σ) (m : Transaction σ ε α) : Prop :=
  ∀ a t, m s = .ok (a, t) → R s t

namespace Keeps

variable {R R' : σ → σ → Prop} {g : σ → σ}

theorem commit [Std.Refl R] (h : Keeps R s m) : R s (commit m s) :=
  commit_induction (refl_of R s) h

theorem mono (hR : ∀ s t, R s t → R' s t) (h : Keeps R s m) : Keeps R' s m :=
  fun a t hm => hR s t (h a t hm)

/-- A statement, and then those that follow, from the state it leaves. -/
theorem bind [IsTrans σ R] (hm : Keeps R s m)
    (hf : ∀ a t, m s = .ok (a, t) → Keeps R t (f a)) : Keeps R s (m >>= f) := by
  intro b u h
  obtain ⟨a, t, h₁, h₂⟩ := bind_ok.mp h
  exact trans_of R (hm a t h₁) (hf a t h₁ b u h₂)

/-- A read, and then the statements that follow, which may use what it has read. -/
theorem read (hm : Reads m) (hf : ∀ a, m s = .ok (a, s) → Keeps R s (f a)) :
    Keeps R s (m >>= f) := by
  intro b u h
  obtain ⟨a, t, h₁, h₂⟩ := bind_ok.mp h
  obtain rfl := hm s a t h₁
  exact hf a h₁ b u h₂

theorem get {f : σ → Transaction σ ε β} (hf : Keeps R s (f s)) : Keeps R s (get >>= f) := by
  refine read .get fun a ha => ?_
  rw [(get_ok.mp ha).1]
  exact hf

theorem require {p : Prop} [Decidable p] {f : Unit → Transaction σ ε β}
    (hf : p → Keeps R s (f ())) : Keeps R s (require p e >>= f) :=
  read (.require p e) fun _ h => hf (require_ok.mp h).1

theorem write (hg : R s (g s)) : Keeps R s (modify g : Transaction σ ε Unit) := by
  intro a t h
  rw [modify_ok.mp h]
  exact hg

theorem pure [Std.Refl R] (a : α) : Keeps R s (pure a : Transaction σ ε α) := by
  intro b t h
  rw [(pure_ok.mp h).2]
  exact refl_of R s

theorem of_reads [Std.Refl R] (hm : Reads m) : Keeps R s m := by
  intro a t h
  rw [hm s a t h]
  exact refl_of R s

theorem raise : Keeps R s (raise e : Transaction σ ε α) := fun _ _ h => (raise_ok.mp h).elim

theorem ite {p : Prop} [Decidable p] {m' : Transaction σ ε α} (h : p → Keeps R s m)
    (h' : ¬p → Keeps R s m') : Keeps R s (if p then m else m') := by
  split
  · next hp => exact h hp
  · next hp => exact h' hp

theorem onlyIf [Std.Refl R] {p : Prop} [Decidable p] {m : Transaction σ ε Unit}
    (h : p → Keeps R s m) : Keeps R s (onlyIf p m) :=
  ite h fun _ => pure ()

/-- A statement repeated for every row of a list. -/
theorem mapM [Std.Refl R] [IsTrans σ R] {γ : Type} {g : γ → Transaction σ ε α}
    (h : ∀ c s, Keeps R s (g c)) (cs : List γ) (s : σ) : Keeps R s (cs.mapM g) := by
  induction cs generalizing s with
  | nil => exact .pure []
  | cons c cs ih =>
    rw [List.mapM_cons]
    exact .bind (h c s) fun a t _ => .bind (ih t) fun as u _ => .pure (a :: as)

end Keeps

end Transaction

end GenusOs
