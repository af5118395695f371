import Mathlib

/-!
# Machines that end, and stuttering simulation

A machine takes turns until it stops with a result. One machine follows another when each turn of
the other is matched by a turn of its own, up to turns in between that change nothing the relation
looks at. A rank that every such turn lowers keeps them from going on for ever, so that the two
machines end together.

* `Follows.ends`: where the leader ends, the follower ends.
* `Follows.led`: where the follower ends, the leader ends.
-/

namespace GenusOs.Stutter

inductive Turn (σ ω : Type*)
  | next (s : σ)
  | stop (r : ω)

variable {σ τ ω ρ : Type*}

/-- The machine stops with `r` when it is started from `s`. -/
inductive Ends (turn : σ → Turn σ ω) : σ → ω → Prop
  | stop {s : σ} {r : ω} : turn s = .stop r → Ends turn s r
  | next {s t : σ} {r : ω} : turn s = .next t → Ends turn t r → Ends turn s r

theorem Ends.unique {turn : σ → Turn σ ω} {s : σ} {r r' : ω} (h : Ends turn s r)
    (h' : Ends turn s r') : r = r' := by
  induction h with
  | stop hs =>
    cases h' with
    | stop hs' => exact Turn.stop.inj (hs.symm.trans hs')
    | next hs' _ => cases hs.symm.trans hs'
  | next hs _ ih =>
    cases h' with
    | stop hs' => cases hs.symm.trans hs'
    | next hs' h' =>
      cases hs.symm.trans hs'
      exact ih h'

/-- What the machine makes of `s` in `n` turns. -/
def runFor (turn : σ → Turn σ ω) : Nat → σ → Turn σ ω
  | 0, s => .next s
  | n + 1, s =>
    match turn s with
    | .next t => runFor turn n t
    | .stop r => .stop r

theorem ends_of_runFor {turn : σ → Turn σ ω} {n : Nat} {s : σ} {r : ω}
    (h : runFor turn n s = .stop r) : Ends turn s r := by
  induction n generalizing s with
  | zero => cases h
  | succ n ih =>
    rw [runFor] at h
    cases hs : turn s with
    | next t =>
      rw [hs] at h
      exact .next hs (ih h)
    | stop r' =>
      rw [hs] at h
      cases h
      exact .stop hs

/-- One more turn at the end. -/
theorem runFor_succ {turn : σ → Turn σ ω} {n : Nat} {s t : σ} (h : runFor turn n s = .next t) :
    runFor turn (n + 1) s = turn t := by
  induction n generalizing s with
  | zero =>
    cases h
    rw [runFor]
    cases turn t with
    | next u => rfl
    | stop r => rfl
  | succ n ih =>
    rw [runFor] at h ⊢
    cases hs : turn s with
    | next u =>
      rw [hs] at h
      exact ih h
    | stop r =>
      rw [hs] at h
      cases h

/-- A machine that has stopped makes no more of its state. -/
theorem runFor_stopped {turn : σ → Turn σ ω} {n m : Nat} {s : σ} {r : ω}
    (h : runFor turn n s = .stop r) (hle : n ≤ m) : runFor turn m s = .stop r := by
  induction n generalizing s m with
  | zero => cases h
  | succ n ih =>
    obtain ⟨m, rfl⟩ := Nat.exists_eq_add_one_of_ne_zero (by omega : m ≠ 0)
    rw [runFor] at h ⊢
    cases hs : turn s with
    | next t =>
      rw [hs] at h
      exact ih h (by omega)
    | stop r' =>
      rw [hs] at h
      exact h

/-- The follower's turns are the leader's, or lower the rank, or give the run up. -/
structure Follows (lead : σ → Turn σ ω) (follow : τ → Turn τ ρ) (Rel : σ → τ → Prop)
    (rank : τ → Nat) (Same : ω → ρ → Prop) (Lost : ρ → Prop) : Prop where
  turn : ∀ s t, Rel s t →
    (∃ t', follow t = .next t' ∧ Rel s t' ∧ rank t' < rank t) ∨
    (∃ r, follow t = .stop r ∧ Lost r) ∨
    (∃ s' t', lead s = .next s' ∧ follow t = .next t' ∧ Rel s' t') ∨
    ∃ r r', lead s = .stop r ∧ follow t = .stop r' ∧ Same r r'

namespace Follows

variable {lead : σ → Turn σ ω} {follow : τ → Turn τ ρ} {Rel : σ → τ → Prop} {rank : τ → Nat}
  {Same : ω → ρ → Prop} {Lost : ρ → Prop} {s : σ} {t : τ}

/-- **Where the leader ends, the follower ends the same way or gives the run up.** -/
theorem ends (h : Follows lead follow Rel rank Same Lost) {r : ω} (hend : Ends lead s r)
    (hrel : Rel s t) : ∃ r', Ends follow t r' ∧ (Same r r' ∨ Lost r') := by
  induction hend generalizing t with
  | stop hs =>
    -- the leader stops here: only the follower's own turns are left
    induction hn : rank t using Nat.strong_induction_on generalizing t with
    | _ n ih =>
      rcases h.turn _ t hrel with ⟨t', ht, hrel', hlt⟩ | ⟨r', ht, hlost⟩ | ⟨s', t', hs', _⟩ |
        ⟨r₁, r', hs', ht, hsame⟩
      · obtain ⟨r', hr', hor⟩ := ih _ (hn ▸ hlt) hrel' rfl
        exact ⟨r', .next ht hr', hor⟩
      · exact ⟨r', .stop ht, .inr hlost⟩
      · cases hs.symm.trans hs'
      · cases hs.symm.trans hs'
        exact ⟨r', .stop ht, .inl hsame⟩
  | next hs _ ihlead =>
    induction hn : rank t using Nat.strong_induction_on generalizing t with
    | _ n ih =>
      rcases h.turn _ t hrel with ⟨t', ht, hrel', hlt⟩ | ⟨r', ht, hlost⟩ |
        ⟨s', t', hs', ht, hrel'⟩ | ⟨r₁, r', hs', _⟩
      · obtain ⟨r', hr', hor⟩ := ih _ (hn ▸ hlt) hrel' rfl
        exact ⟨r', .next ht hr', hor⟩
      · exact ⟨r', .stop ht, .inr hlost⟩
      · cases hs.symm.trans hs'
        obtain ⟨r', hr', hor⟩ := ihlead hrel'
        exact ⟨r', .next ht hr', hor⟩
      · cases hs.symm.trans hs'

/-- **Where the follower ends without giving up, the leader ends, and the same way.** -/
theorem led (h : Follows lead follow Rel rank Same Lost) {r' : ρ} (hend : Ends follow t r')
    (hrel : Rel s t) : Lost r' ∨ ∃ r, Ends lead s r ∧ Same r r' := by
  induction hend generalizing s with
  | stop ht =>
    rcases h.turn s _ hrel with ⟨t', ht', _⟩ | ⟨r₁, ht', hlost⟩ | ⟨s', t', _, ht', _⟩ |
      ⟨r, r₁, hs, ht', hsame⟩
    · cases ht.symm.trans ht'
    · cases ht.symm.trans ht'
      exact .inl hlost
    · cases ht.symm.trans ht'
    · cases ht.symm.trans ht'
      exact .inr ⟨r, .stop hs, hsame⟩
  | next ht _ ih =>
    rcases h.turn s _ hrel with ⟨t', ht', hrel', _⟩ | ⟨r₁, ht', _⟩ | ⟨s', t', hs, ht', hrel'⟩ |
      ⟨r, r₁, hs, ht', _⟩
    · cases ht.symm.trans ht'
      exact ih hrel'
    · cases ht.symm.trans ht'
    · cases ht.symm.trans ht'
      rcases ih hrel' with hlost | ⟨r, hr, hsame⟩
      · exact .inl hlost
      · exact .inr ⟨r, .next hs hr, hsame⟩
    · cases ht.symm.trans ht'

end Follows

end GenusOs.Stutter
