import GenusOs.Library.Locks
import GenusOs.Library.Run
import Mathlib

/-!
# Two-phase locking

A `Script` is a transaction statement by statement. It locks, and what it sees under its locks
decides how it goes on; it ends with its writes, or raises. Its locks are kept until it ends.

* `serial`: whatever the interleaving, the store and the answers are those of whole transactions,
  one after the other.
* `no_deadlock`: where all scripts lock in one order, no transactions wait for one another.
-/

namespace GenusOs.TwoPhase

variable {σ κ α γ π : Type}

inductive Script (σ κ α : Type)
  /-- The writes and the commit, where no constraint refuses them. -/
  | finish (write : σ → Option (α × σ))
  | lock (k : κ) (next : σ → Script σ κ α)

namespace Script

/-- The script as one transaction. -/
def run : Script σ κ α → σ → Option (α × σ)
  | finish write, s => write s
  | lock _ next, s => (next s).run s

def raise : Script σ κ α := finish fun _ => none

/-- It raises in the end, whatever it still sees. -/
def Fails (script : Script σ κ α) : Prop := ∀ s, script.run s = none

end Script

/-- What holds of every store, and what a lock guards of it. -/
structure Rules (σ κ : Type) where
  valid : σ → Prop
  /-- What the lock guards in one store is still there in another. -/
  guard : κ → σ → σ → Prop
  refl : ∀ k s, guard k s s
  trans : ∀ k s t u, guard k s t → guard k t u → guard k s u

/-- A store that has what locks guard in another. -/
structure Rules.Seen (R : Rules σ κ) (held : Set κ) (s t : σ) : Prop where
  valid : R.valid t
  guard : ∀ k ∈ held, R.guard k s t

theorem Rules.Seen.refl {R : Rules σ κ} {held : Set κ} {s : σ} (hs : R.valid s) : R.Seen held s s :=
  ⟨hs, fun k _ => R.refl k s⟩

theorem Rules.Seen.trans {R : Rules σ κ} {held : Set κ} {s t u : σ}
    (h : R.Seen held s t) (h' : R.Seen held t u) :
    R.Seen held s u :=
  ⟨h'.valid, fun k hk => R.trans k s t u (h.guard k hk) (h'.guard k hk)⟩

theorem Rules.Seen.mono {R : Rules σ κ} {held held' : Set κ} {s t : σ}
    (h : R.Seen held' s t) (hsub : held ⊆ held') :
    R.Seen held s t :=
  ⟨h.valid, fun k hk => h.guard k (hsub hk)⟩

namespace Script

/-- With what `s` shows under the locks of `held`, a script goes on to see what nobody else changes,
and it writes nothing that other locks guard. -/
inductive Covered (R : Rules σ κ) : Set κ → σ → Script σ κ α → Prop
  | finish {held : Set κ} {s : σ} {write : σ → Option (α × σ)}
      (h : ∀ t, R.Seen held s t → ∀ a u, write t = some (a, u) → ∀ k ∉ held, R.guard k t u) :
      Covered R held s (.finish write)
  | lock {held : Set κ} {s : σ} {k : κ} {next : σ → Script σ κ α}
      (hsees : ∀ t, R.Seen held s t → ∀ u, R.Seen (insert k held) t u →
        (next t).Fails ∨ next u = next t)
      (hnext : ∀ t, R.Seen held s t → Covered R (insert k held) t (next t)) :
      Covered R held s (.lock k next)

/-- A script locks upwards. -/
inductive Ascends (r : κ → κ → Prop) : Set κ → Script σ κ α → Prop
  | finish (held : Set κ) (write : σ → Option (α × σ)) : Ascends r held (.finish write)
  | lock {held : Set κ} {k : κ} {next : σ → Script σ κ α} (habove : ∀ j ∈ held, r j k)
      (hnext : ∀ s, Ascends r (insert k held) (next s)) : Ascends r held (.lock k next)

end Script

/-! ## Interleavings -/

/-- The store, who holds the locks, what is left of each transaction, and the answers given so far.
-/
structure State (σ κ α γ π : Type) where
  store : σ
  locks : Locks κ π := fun _ => none
  running : π → Option (γ × Script σ κ α) := fun _ => none
  answers : List (γ × α) := []

inductive Step (γ π : Type)
  | start (p : π) (call : γ)
  /-- A transaction takes its next lock and goes on. -/
  | lock (p : π)
  /-- A transaction writes and commits, or raises. -/
  | finish (p : π)
  /-- A connection is lost. -/
  | abort (p : π)

variable {X Y : State σ κ α γ π} {p q : π} {body : γ → Script σ κ α}

/-- The locks of a transaction. -/
def State.held (X : State σ κ α γ π) (p : π) : Set κ := { k | X.locks k = some p }

@[simp] theorem mem_held {k : κ} : k ∈ X.held p ↔ X.locks k = some p := Iff.rfl

theorem held_disjoint {k : κ} (h : k ∈ X.held p) (hne : q ≠ p) : k ∉ X.held q := by
  intro hq
  have hsame : some q = some p := (mem_held.mp hq).symm.trans (mem_held.mp h)
  exact hne (Option.some.inj hsame)

/-! ### What holds of each transaction -/

/-- What holds of the store, the locks of a transaction and what is left of it. -/
structure Orderly (P : σ → Set κ → γ → Script σ κ α → Prop) (X : State σ κ α γ π) : Prop where
  idle : ∀ p, X.running p = none → X.held p = ∅
  active : ∀ p call script, X.running p = some (call, script) → P X.store (X.held p) call script

/-- `P` holds of each call at its start, and each statement of a transaction keeps it for that
transaction and for those with other locks. -/
structure Kept (valid : σ → Prop) (P : σ → Set κ → γ → Script σ κ α → Prop)
    (body : γ → Script σ κ α) : Prop where
  start : ∀ s, valid s → ∀ call, P s ∅ call (body call)
  lock : ∀ s, valid s → ∀ held call k next, P s held call (.lock k next) →
    P s (insert k held) call (next s)
  commit : ∀ s t, valid s → valid t → ∀ held call write a, P s held call (.finish write) →
    write s = some (a, t) →
    ∀ held' call' script, Disjoint held held' → P s held' call' script → P t held' call' script

variable {P : σ → Set κ → γ → Script σ κ α → Prop} {call : γ} {script : Script σ κ α}

theorem orderly_init (s : σ) : Orderly P ({ store := s } : State σ κ α γ π) where
  idle _ _ := Set.eq_empty_of_forall_notMem fun _ hk => nomatch (show none = some _ from hk)
  active _ _ _ hq := nomatch (show none = some _ from hq)

/-! ### What a lock is for -/

section Worth

variable {R : Rules σ κ}

/-- What is left of a transaction is worth the whole of it, as long as its locks guard what it has
seen. -/
structure Worth (R : Rules σ κ) (body : γ → Script σ κ α) (s : σ) (held : Set κ) (call : γ)
    (script : Script σ κ α) : Prop where
  covered : ∃ s₀, R.Seen held s₀ s ∧ script.Covered R held s₀
  worth : ∀ t, R.Seen held s t → ∀ a u, script.run t = some (a, u) → (body call).run t = some (a, u)

theorem Worth.lock {s : σ} {held : Set κ} {k : κ} {next : σ → Script σ κ α} (hs : R.valid s)
    (h : Worth R body s held call (.lock k next)) :
    Worth R body s (insert k held) call (next s) := by
  obtain ⟨⟨s₀, hseen, hcovered⟩, hworth⟩ := h
  cases hcovered with
  | lock hsees hnext =>
    refine ⟨⟨s, .refl hs, hnext s hseen⟩, fun t ht a u hrun => ?_⟩
    apply hworth t (ht.mono (Set.subset_insert k held)) a u
    rcases hsees s hseen t ht with hfails | hsame
    · cases (hfails t).symm.trans hrun
    · show (next t).run t = _
      rw [hsame]
      exact hrun

/-- Another transaction commits. -/
theorem Worth.other {s t : σ} {held : Set κ} (h : Worth R body s held call script)
    (hseen : R.Seen held s t) :
    Worth R body t held call script := by
  obtain ⟨⟨s₀, hseen₀, hcovered⟩, hworth⟩ := h
  exact ⟨⟨s₀, hseen₀.trans hseen, hcovered⟩, fun u hu => hworth u (hseen.trans hu)⟩

theorem worth_kept (hbody : ∀ call s, R.valid s → (body call).Covered R ∅ s) :
    Kept R.valid (Worth R body) body where
  start s hs call := ⟨⟨s, .refl hs, hbody call s hs⟩, fun _ _ _ _ h => h⟩
  lock _ hs _ _ _ _ h := h.lock hs
  commit s t _ ht held call write a h hwrite held' call' script hdisjoint h' := by
    obtain ⟨s₀, hseen, hcovered⟩ := h.covered
    refine h'.other ⟨ht, fun k hk => ?_⟩
    cases hcovered with
    | finish hkeeps => exact hkeeps s hseen a t hwrite k fun hk' =>
        Set.disjoint_left.mp hdisjoint hk' hk

end Worth

/-! ### Waiting -/

section Waiting

/-- `p` waits for a lock of `q`. -/
def Waits (X : State σ κ α γ π) (p q : π) : Prop :=
  ∃ call k next, X.running p = some (call, .lock k next) ∧ X.locks k = some q ∧ q ≠ p

variable {r : κ → κ → Prop}

theorem ascends_kept (hbody : ∀ call, (body call).Ascends r ∅) :
    Kept (fun _ => True) (fun _ held _ script => script.Ascends r held) body where
  start _ _ call := hbody call
  lock s _ _ _ _ _ h := by
    cases h with
    | lock _ hnext => exact hnext s
  commit _ _ _ _ _ _ _ _ _ _ _ _ _ _ h := h

/-- The lock that a transaction takes next. -/
def State.wanted (X : State σ κ α γ π) (p : π) : Option κ :=
  match X.running p with
  | some (_, .lock k _) => some k
  | _ => none

theorem wanted_eq {k : κ} {next : σ → Script σ κ α} (h : X.running p = some (call, .lock k next)) :
    X.wanted p = some k := by
  rw [State.wanted, h]

/-- `q` waits for a lock above the one that `p` waits for. -/
def Above (r : κ → κ → Prop) (X : State σ κ α γ π) (q p : π) : Prop :=
  ∃ k, X.wanted p = some k ∧ ∃ k', X.wanted q = some k' ∧ r k k'

instance [IsStrictOrder κ r] : IsStrictOrder π (Above r X) where
  irrefl p := by
    rintro ⟨k, hk, k', hk', hr⟩
    cases hk.symm.trans hk'
    exact Std.Irrefl.irrefl k hr
  trans p q q' := by
    rintro ⟨k, hk, k', hk', hr⟩ ⟨j, hj, j', hj', hr'⟩
    cases hk.symm.trans hj'
    exact ⟨j, hj, k', hk', IsTrans.trans _ _ _ hr' hr⟩

end Waiting

/-! ### The statements -/

section Statements

variable [DecidableEq π]

/-- The end of a transaction. -/
def State.release (X : State σ κ α γ π) (p : π) : State σ κ α γ π :=
  { X with locks := X.locks.release p, running := Function.update X.running p none }

def State.goOn (X : State σ κ α γ π) (p : π) (call : γ) (script : Script σ κ α) : State σ κ α γ π :=
  { X with running := Function.update X.running p (some (call, script)) }

@[simp] theorem running_goOn {call : γ} {script : Script σ κ α} :
    (X.goOn p call script).running q = if q = p then some (call, script) else X.running q :=
  Function.update_apply ..

@[simp] theorem running_release : (X.release p).running q = if q = p then none else X.running q :=
  Function.update_apply ..

theorem held_release : (X.release p).held q = if q = p then ∅ else X.held q := by
  ext k
  show (X.locks.release p) k = some q ↔ _
  rw [Locks.release_eq_some]
  split
  · next heq => simp [heq]
  · next hne => simp [hne]

/-- A transaction ends, and the others have `P` of the new store. -/
theorem orderly_release {s : σ} {answers : List (γ × α)} (h : Orderly P X)
    (hothers : ∀ q call script, q ≠ p → X.running q = some (call, script) →
      P s (X.held q) call script) :
    Orderly P { X.release p with store := s, answers } := by
  refine ⟨fun q hq => ?_, fun q call script hq => ?_⟩
  · show (X.release p).held q = ∅
    rw [held_release]
    split
    · rfl
    · next hne => exact h.idle q ((if_neg hne).symm.trans (running_release.symm.trans hq))
  · show P s ((X.release p).held q) call script
    have hrunning := running_release.symm.trans hq
    rw [held_release]
    split at hrunning
    · cases hrunning
    · next hne =>
      rw [if_neg hne]
      exact hothers q call script hne hrunning

/-- A transaction goes on, with what it holds from now on. -/
theorem orderly_goOn {Y : State σ κ α γ π} (h : Orderly P X) (hstore : Y.store = X.store)
    (hrunning : ∀ q, Y.running q = if q = p then some (call, script) else X.running q)
    (hheld : ∀ q, q ≠ p → Y.held q = X.held q) (hp : P X.store (Y.held p) call script) :
    Orderly P Y := by
  refine ⟨fun q hq => ?_, fun q call' script' hq => ?_⟩
  · rw [hrunning] at hq
    split at hq
    · cases hq
    · next hne => rw [hheld q hne, h.idle q hq]
  · rw [hstore]
    rw [hrunning] at hq
    split at hq
    · next heq =>
      subst heq
      obtain ⟨rfl, rfl⟩ := Prod.mk.inj (Option.some.inj hq)
      exact hp
    · next hne =>
      rw [hheld q hne]
      exact h.active q call' script' hq

variable [DecidableEq κ]

def State.take (X : State σ κ α γ π) (k : κ) (p : π) : State σ κ α γ π :=
  { X with locks := X.locks.take k p }

theorem held_take {k : κ} (hfree : X.locks k = none ∨ X.locks k = some p) :
    (X.take k p).held q = if q = p then insert k (X.held q) else X.held q := by
  ext j
  show X.locks.take k p j = some q ↔ _
  by_cases hj : j = k
  · subst hj
    rw [Locks.take_self]
    split
    · next heq => simp [heq]
    · next hne =>
      have hfree' : X.locks j ≠ some q := by
        rcases hfree with hnone | hself
        · simp [hnone]
        · rw [hself]
          exact fun heq => hne (Option.some.inj heq).symm
      simp [hfree', Ne.symm hne]
  · rw [Locks.take_of_ne hj]
    split
    · simp [hj]
    · rfl

section Body

variable (body)

/-- One statement of one transaction, where it need not wait. -/
def State.step (X : State σ κ α γ π) : Step γ π → Option (State σ κ α γ π)
  | .start p call => if (X.running p).isSome then none else some (X.goOn p call (body call))
  | .lock p =>
    match X.running p with
    | some (call, .lock k next) =>
      if X.locks k = none ∨ X.locks k = some p then
        some ((X.goOn p call (next X.store)).take k p)
      else none
    | _ => none
  | .finish p =>
    match X.running p with
    | some (call, .finish write) =>
      match write X.store with
      | none => some (X.release p)
      | some (a, t) => some { X.release p with store := t, answers := X.answers ++ [(call, a)] }
    | _ => none
  | .abort p => if (X.running p).isSome then some (X.release p) else none

variable (init : σ → Prop)

/-- The statements of the calls of `body`, interleaved. -/
def interleaved : System (State σ κ α γ π) (Step γ π) :=
  .ofStep (fun X => ∃ s, init s ∧ X = { store := s }) (State.step body)

/-- Whole transactions. -/
def atomic : System (σ × List (γ × α)) γ where
  init X := init X.1 ∧ X.2 = []
  step X call Y := ∃ a, (body call).run X.1 = some (a, Y.1) ∧ Y.2 = X.2 ++ [(call, a)]

end Body

/-- **Step lemma.** -/
theorem orderly_step {valid : σ → Prop} (hP : Kept valid P body)
    (hX : valid X.store) (hY : valid Y.store)
    (h : Orderly P X) {step : Step γ π} (hstep : X.step body step = some Y) : Orderly P Y := by
  cases step with
  | start p call =>
    obtain ⟨hidle, hgoes⟩ := Option.ite_none_left_eq_some.mp hstep
    cases hgoes
    have hnone : X.running p = none := Option.not_isSome_iff_eq_none.mp hidle
    refine orderly_goOn h rfl (fun q => running_goOn) (fun _ _ => rfl) ?_
    show P X.store (X.held p) call (body call)
    rw [h.idle p hnone]
    exact hP.start X.store hX call
  | lock p =>
    unfold State.step at hstep
    dsimp only at hstep
    split at hstep
    case h_2 => cases hstep
    case h_1 call k next hrunning =>
      obtain ⟨hfree, hgoes⟩ := Option.ite_none_right_eq_some.mp hstep
      cases hgoes
      have hheld (q : π) := held_take (X := X.goOn p call (next X.store)) (q := q) hfree
      refine orderly_goOn h rfl (fun q => running_goOn)
        (fun q hne => (hheld q).trans (if_neg hne)) ?_
      rw [hheld p, if_pos rfl]
      exact hP.lock X.store hX _ call k next (h.active p call _ hrunning)
  | finish p =>
    unfold State.step at hstep
    dsimp only at hstep
    split at hstep
    case h_2 => cases hstep
    case h_1 call write hrunning =>
      split at hstep
      · cases hstep
        exact orderly_release h fun q call script _ hq => h.active q call script hq
      · next a t hwrite =>
        cases hstep
        refine orderly_release h fun q call' script hne hq => ?_
        have hdisjoint : Disjoint (X.held p) (X.held q) :=
          Set.disjoint_left.mpr fun k hk => held_disjoint hk hne
        exact hP.commit X.store t hX hY _ call write a
          (h.active p call _ hrunning) hwrite _ call' script hdisjoint
          (h.active q call' script hq)
  | abort p =>
    obtain ⟨-, hgoes⟩ := Option.ite_none_right_eq_some.mp hstep
    cases hgoes
    exact orderly_release h fun q call script _ hq => h.active q call script hq

/-! ## Transactions are serial -/

variable {R : Rules σ κ} {init : σ → Prop}

/-- A statement changes nothing others see, or is a whole transaction. -/
theorem atomic_step (h : Orderly (Worth R body) X) (hvalid : R.valid X.store)
    (hX : (atomic body init).Reachable (X.store, X.answers)) {step : Step γ π}
    (hstep : X.step body step = some Y) :
    (atomic body init).Reachable (Y.store, Y.answers) := by
  cases step with
  | start p call =>
    obtain ⟨-, hY⟩ := Option.ite_none_left_eq_some.mp hstep
    cases hY
    exact hX
  | lock p =>
    unfold State.step at hstep
    dsimp only at hstep
    split at hstep
    case h_2 => cases hstep
    case h_1 call k next hrunning =>
      obtain ⟨-, hY⟩ := Option.ite_none_right_eq_some.mp hstep
      cases hY
      exact hX
  | finish p =>
    unfold State.step at hstep
    dsimp only at hstep
    split at hstep
    case h_2 => cases hstep
    case h_1 call write hrunning =>
      split at hstep
      · cases hstep
        exact hX
      · next a t hwrite =>
        cases hstep
        have hworth := (h.active p call _ hrunning).worth X.store (.refl hvalid) a t hwrite
        exact hX.run (.single ⟨a, hworth, rfl⟩)
  | abort p =>
    obtain ⟨-, hY⟩ := Option.ite_none_right_eq_some.mp hstep
    cases hY
    exact hX

/-- **Transactions are serial**: the store and the answers are those of whole transactions, in the
order in which they commit. -/
theorem serial (hbody : ∀ call s, R.valid s → (body call).Covered R ∅ s)
    (hvalid : ∀ s answers, (atomic body init).Reachable (s, answers) → R.valid s)
    (h : (interleaved body init).Reachable X) :
    (atomic body init).Reachable (X.store, X.answers) := by
  have hsound : Orderly (Worth R body) X ∧ (atomic body init).Reachable (X.store, X.answers) := by
    refine h.invariant (I := fun X => Orderly (Worth R body) X ∧
      (atomic body init).Reachable (X.store, X.answers))
      ?_ fun X step Y hX hstep => ?_
    · rintro X ⟨s, hs, rfl⟩
      exact ⟨orderly_init s, (s, []), [], ⟨hs, rfl⟩, .nil _⟩
    · have hvalidX := hvalid _ _ hX.2
      have hY := atomic_step hX.1 hvalidX hX.2 hstep
      exact ⟨orderly_step (worth_kept hbody) hvalidX (hvalid _ _ hY) hX.1 hstep, hY⟩
  exact hsound.2

/-! ## A transaction alone -/

variable {k : κ} {a : α} {t : σ}

theorem step_lock {next : σ → Script σ κ α} (hrunning : X.running p = some (call, .lock k next))
    (hfree : X.locks k = none ∨ X.locks k = some p) :
    X.step body (.lock p) = some ((X.goOn p call (next X.store)).take k p) := by
  simp only [State.step, hrunning, if_pos hfree]

theorem step_start (hidle : X.running p = none) :
    X.step body (.start p call) = some (X.goOn p call (body call)) := by
  simp [State.step, hidle]

/-- The end of a transaction that goes on with a lock. -/
theorem release_goOn_take : ((X.goOn p call script).take k p).release p = { X.release p with
    locks := ((X.locks.take k p).release p) } := by
  unfold State.release State.take State.goOn
  simp

section Body

variable (body) (init)

theorem finish_alone : ∀ {X : State σ κ α γ π}, X.running p = some (call, script) →
    (∀ k, X.locks k = none ∨ X.locks k = some p) → script.run X.store = some (a, t) →
    ∃ steps, (interleaved body init).Run X steps
      { X.release p with
        locks := fun _ => none, store := t, answers := X.answers ++ [(call, a)] } := by
  induction script with
  | finish write =>
    intro X hrunning hlocks hrun
    have hfree : X.locks.release p = fun _ => none := by
      funext k
      rcases hlocks k with h | h <;> simp [Locks.release, h]
    refine ⟨[.finish p], .single ?_⟩
    show State.step body X (.finish p) = _
    simp only [State.step, hrunning]
    rw [show write X.store = some (a, t) from hrun, ← hfree]
    rfl
  | lock k next ih =>
    intro X hrunning hlocks hrun
    have hY : ((X.goOn p call (next X.store)).take k p).running p = some (call, next X.store) := by
      show (X.goOn p call (next X.store)).running p = _
      rw [running_goOn, if_pos rfl]
    have hlocks' (j : κ) : X.locks.take k p j = none ∨ X.locks.take k p j = some p := by
      by_cases hj : j = k
      · subst hj
        exact .inr Locks.take_self
      · rw [Locks.take_of_ne hj]
        exact hlocks j
    obtain ⟨steps, hsteps⟩ := ih X.store hY hlocks' hrun
    refine ⟨.lock p :: steps, .cons (step_lock hrunning (hlocks k)) ?_⟩
    rw [release_goOn_take] at hsteps
    exact hsteps

/-- A transaction can be made as a whole. -/
theorem run_alone (hidle : X.running p = none) (hlocks : X.locks = fun _ => none)
    (hrun : (body call).run X.store = some (a, t)) : ∃ steps, (interleaved body init).Run X steps
      { X with store := t, answers := X.answers ++ [(call, a)] } := by
  obtain ⟨steps, hsteps⟩ := finish_alone body init (X := X.goOn p call (body call))
    (by rw [running_goOn, if_pos rfl]) (fun k => .inl (congrFun hlocks k)) hrun
  refine ⟨.start p call :: steps, .cons (step_start hidle) ?_⟩
  have hsame : (X.goOn p call (body call)).release p = { X with locks := X.locks.release p } := by
    unfold State.release State.goOn
    simp [← hidle]
  rw [hsame] at hsteps
  rw [hlocks]
  exact hsteps

/-- What is left of a script that takes these locks in turn and sees `s`. -/
def Script.after (s : σ) : List κ → Script σ κ α → Option (Script σ κ α)
  | [], script => some script
  | k :: ks, .lock k' next => if k = k' then (next s).after s ks else none
  | _ :: _, .finish _ => none

/-- A transaction takes free locks in turn. -/
theorem run_locks {ks : List κ} {script' : Script σ κ α} :
    ∀ {X : State σ κ α γ π} {script : Script σ κ α},
    X.running p = some (call, script) → (∀ k ∈ ks, X.locks k = none ∨ X.locks k = some p) →
    script.after X.store ks = some script' → ∃ steps Y, (interleaved body init).Run X steps Y ∧
      Y.store = X.store ∧
      Y.running = Function.update X.running p (some (call, script')) ∧
        Y.locks = fun k => if k ∈ ks then some p else X.locks k := by
  induction ks with
  | nil =>
    intro X script hrunning _ hafter
    cases hafter
    refine ⟨[], X, .nil X, rfl, ?_, by simp⟩
    rw [← hrunning, Function.update_eq_self]
  | cons k ks ih =>
    intro X script hrunning hfree hafter
    cases script with
    | finish write => cases hafter
    | lock k' next =>
      obtain ⟨rfl, hrest⟩ := Option.ite_none_right_eq_some.mp hafter
      have hgone : ((X.goOn p call (next X.store)).take k p).running p =
          some (call, next X.store) := by
        show (X.goOn p call (next X.store)).running p = _
        rw [running_goOn, if_pos rfl]
      have hfree' : ∀ j ∈ ks, X.locks.take k p j = none ∨ X.locks.take k p j = some p := by
        intro j hj
        by_cases heq : j = k
        · subst heq
          exact .inr Locks.take_self
        · rw [Locks.take_of_ne heq]
          exact hfree j (List.mem_cons_of_mem k hj)
      obtain ⟨steps, Y, hsteps, hstore, hrunning', hlocks⟩ := ih hgone hfree' hrest
      refine ⟨.lock p :: steps, Y, .cons (step_lock hrunning (hfree k List.mem_cons_self)) hsteps,
        hstore, ?_, ?_⟩
      · rw [hrunning']
        exact Function.update_idem _ _ _
      · rw [hlocks]
        funext j
        by_cases hj : j ∈ ks
        · simp [hj]
        · by_cases heq : j = k
          · subst heq
            simp [hj, State.take]
          · simp [hj, heq, State.take, State.goOn, Locks.take_of_ne heq]

end Body

/-! ## No deadlock -/

/-- **No deadlock**: among any transactions, one waits for none of the others. -/
theorem no_deadlock [IsStrictOrder κ r] (hbody : ∀ call, (body call).Ascends r ∅)
    (h : (interleaved body init).Reachable X) {D : Set π} (hfinite : D.Finite) (hne : D.Nonempty) :
    ∃ p ∈ D, ∀ q ∈ D, ¬ Waits X p q := by
  have hordered : Orderly (fun _ held _ script => script.Ascends r held) X := by
    refine h.invariant (I := Orderly fun _ held _ script => script.Ascends r held) ?_
      fun X step Y hX hstep =>
      orderly_step (ascends_kept hbody) trivial trivial hX hstep
    rintro X ⟨s, -, rfl⟩
    exact orderly_init s
  by_contra hall
  push Not at hall
  obtain ⟨p, hp⟩ := hne
  -- upwards from lock to lock: what a member waits for is below what its holder waits for
  have hup : ∀ q ∈ D, ∃ q' ∈ D, Above r X q' q := by
    intro q hq
    obtain ⟨q', hq', call, k, next, hrunning, hholds, -⟩ := hall q hq
    obtain ⟨-, -, call', k', next', hrunning', -, -⟩ := hall q' hq'
    refine ⟨q', hq', k, wanted_eq hrunning, k', wanted_eq hrunning', ?_⟩
    cases hordered.active q' call' _ hrunning' with
    | lock habove _ => exact habove k hholds
  exact (hfinite.wellFoundedOn (r := Above r X)).induction hp fun q hq ih =>
    let ⟨q', hq', habove⟩ := hup q hq
    ih q' hq' habove

end Statements

end GenusOs.TwoPhase
