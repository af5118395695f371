import GenusOs.Autonomy.HandoffRelease
import Mathlib

/-!
# Leases of handoff checks

A check holds its handoff by a token that `claim` draws and that `confirmation` and `finish` ask
for. Late workers, lapsed leases and owners who acknowledge a second time come in any order.

* `Handoff.Powerless`: the token opens nothing any more, and what only `claim` could undo.
* `Used`: the claims of a handoff since it was armed are its attempts.
* `handoff_leases`: what a token and a count of attempts are good for.
-/

namespace GenusOs.Autonomy

open GenusOs.Python Transaction
open GenusOs.Rows (Rowwise)

variable {env : Platform} {amb : Ambient} {scope : Scope} {s t u : DB} {id token : Uuid}

/-! ## Tokens -/

/-- The confirmation of the handoff is answered to the token. -/
def CanRead (s : DB) (amb : Ambient) (scope : Scope) (id token : Uuid) : Prop :=
  ∃ answer t, confirmation amb scope id token s = .ok (answer, t)

/-- The step claims the handoff. -/
def Step.claims (env : Platform) (id : Uuid) (s : DB) (a : Step) : Bool :=
  match a.call with
  | .claim handoffId =>
    handoffId = id && (claim env a.amb a.scope id s).toOption.any fun done => done.1.isSome
  | _ => false

/-- The step is an acknowledgement that arms the handoff: it waited for its owner before. -/
def Step.arms (env : Platform) (id : Uuid) (s : DB) (a : Step) : Bool :=
  match a.call with
  | .acknowledge handoffId =>
    handoffId = id && s.handoffs.any (fun h => h.id = id && h.state = .awaitingExternalAction) &&
      ((a.tx env).commit s).handoffs.any fun h => h.id = id && h.state = .checking
  | _ => false

/-- The steps of a run that meet a condition, each in the state it is taken in. -/
def stepsIn (env : Platform) (p : DB → Step → Bool) : DB → List Step → Nat
  | _, [] => 0
  | s, a :: as => (if p s a then 1 else 0) + stepsIn env p ((a.tx env).commit s) as

/-- A worker that holds the token has lost the handoff: it was claimed under another, or it is not
being checked. -/
inductive Outdated (env : Platform) (id token : Uuid) (u : DB) : Prop
  | claimed {s : DB} {a : Step} (hs : (storeSystem env).Reachable s)
      (hstep : (storeSystem env).step s a u) (hclaims : a.claims env id s = true)
      (hother : a.amb.uuid 0 ≠ token)
  | left (hs : (storeSystem env).Reachable u)
      (h : ∀ h ∈ u.handoffs, h.id = id → h.state ≠ .checking)

theorem canRead_row (h : CanRead s amb scope id token) :
    ∃ row ∈ s.handoffs, row.id = id ∧ row.state = .checking ∧ row.checkToken = some token := by
  obtain ⟨answer, t, h⟩ := h
  simp only [confirmation, bind_ok, get_ok, getOrRaise_ok] at h
  obtain ⟨_, _, ⟨rfl, rfl⟩, row, _, ⟨hfind, rfl⟩, -⟩ := h
  have hrow := List.find?_some hfind
  simp only [Bool.and_eq_true, decide_eq_true_eq] at hrow
  exact ⟨row, List.mem_of_find?_eq_some hfind, hrow.1.1.1.1.2, hrow.1.1.2, hrow.1.1.1.2⟩

/-- A claim that answers has leased the row. -/
theorem claims_row {a : Step} (hstep : (storeSystem env).step s a t)
    (h : a.claims env id s = true) :
    ∃ row ∈ s.handoffs, row.id = id ∧ row.checkAttempts < MAX_CHECK_ATTEMPTS ∧
      row.leased a.amb ∈ t.handoffs := by
  obtain ⟨scope, amb, call⟩ := a
  cases call with
  | claim handoffId =>
    obtain ⟨hid, hdone⟩ := Bool.and_eq_true_iff.mp h
    obtain rfl := of_decide_eq_true hid
    obtain ⟨⟨answer, v⟩, hclaim, hanswer⟩ := (Option.any_eq_true _ _).mp hdone
    replace hclaim : claim env amb scope handoffId s = .ok (answer, v) := by
      cases hc : claim env amb scope handoffId s with
      | error e =>
        rw [hc] at hclaim
        cases hclaim
      | ok p =>
        rw [hc] at hclaim
        rw [Option.some.inj hclaim]
    have hv : t = v := by
      have ht : t = (Call.run env amb scope (.claim handoffId)).commit s := hstep
      rw [ht]
      apply commit_of_ok
      exact bind_ok.mpr ⟨answer, v, hclaim, rfl⟩
    subst hv
    obtain ⟨u, hu, (⟨rfl, -⟩ | ⟨-, ⟨row, hmem, hready⟩, -, hleased⟩) | ⟨rfl, -⟩⟩ := claim_ok hclaim
    · cases hanswer
    · have hparts := hready
      unfold Handoff.ready at hparts
      simp only [Bool.and_eq_true, decide_eq_true_eq] at hparts
      refine ⟨row, ?_, hparts.1.1.1.1.1.2, hparts.1.1.2, ?_⟩
      · -- a handoff that went back to its owner is not ready
        rcases hu with rfl | rfl
        · exact hmem
        · obtain ⟨r, hr, rfl⟩ := Rows.mem_updateWhere.mp hmem
          by_cases hexhausts : Handoff.exhausts amb handoffId r = true
          · rw [if_pos hexhausts] at hparts
            exact absurd hparts.1.1.1.1.2 (by simp [Handoff.idle])
          · rw [if_neg hexhausts]
            exact hr
      · rw [hleased]
        exact Rows.mem_updateWhere.mpr ⟨row, hmem, by rw [if_pos hready]⟩
    · cases hanswer
  | _ => cases h

/-! ## Tokens that have lost their power -/

/-- A handoff that waits for its owner is held by nobody. -/
def DB.WaitsFree (s : DB) : Prop :=
  ∀ h ∈ s.handoffs, h.state = .awaitingExternalAction → h.checkToken = none

theorem waitsFree_step {a : Step} (hu : s.HandoffsUnique) (hw : s.WaitsFree)
    (h : (storeSystem env).step s a t) : t.WaitsFree := by
  obtain ⟨rows, new, hrows, ht, hnew⟩ := handoffs_move hu h
  intro h' hmem' hstate
  rw [ht] at hmem'
  rcases List.mem_append.mp hmem' with hmem' | hmem'
  · obtain ⟨row, hmem, hmoves⟩ := hrows.origin hmem'
    cases hmoves with
    | stays => exact hw _ hmem hstate
    | resolved | lapsed | released | armed => cases hstate
    | idled | checked => rfl
    | leased _ hs =>
      exact absurd (hs.symm.trans hstate) (by simp)
  · exact (hnew h' (by simpa using hmem')).checkToken

theorem reachable_waitsFree (h : (storeSystem env).Reachable s) :
    s.HandoffsUnique ∧ s.WaitsFree :=
  h.invariant (I := fun s => s.HandoffsUnique ∧ s.WaitsFree)
    (fun s h₀ => by
      rw [show s = {} from h₀]
      exact ⟨List.nodup_nil, by simp [DB.WaitsFree]⟩)
    fun _ _ _ hI hs => ⟨moves_keysUnique hI.1 (handoffs_move hI.1 hs), waitsFree_step hI.1 hI.2 hs⟩

/-- The token does not hold the handoff, or the handoff is over. -/
def Handoff.Powerless (token : Uuid) (h : Handoff) : Prop :=
  h.checkToken ≠ some token ∨ h.state = .resolved ∨ h.state = .expired

/-- A claim that draws another token is all it takes for a token to stay powerless. -/
theorem Moves.powerless {a : Step} {h h' : Handoff} (hm : Moves a h h')
    (hother : a.call = .claim h.id → a.amb.uuid 0 ≠ token) (hp : h.Powerless token) :
    h'.Powerless token := by
  cases hm with
  | stays => exact hp
  | resolved => exact .inr (.inl rfl)
  | lapsed | released => exact .inr (.inr rfl)
  | armed hcall hpending =>
    rcases hp with hp | hs | hs
    · exact .inl hp
    · rw [hs] at hpending
      cases hpending
    · rw [hs] at hpending
      cases hpending
  | idled | checked => exact .inl (by simp [Handoff.idle, Handoff.checked])
  | leased hcall => exact .inl fun heq => hother hcall (Option.some.inj heq)

/-- The token opens no handoff with the identity. -/
def DB.Powerless (s : DB) (id token : Uuid) : Prop :=
  ∀ h ∈ s.handoffs, h.id = id → h.Powerless token

theorem powerless_step {a : Step} (hu : s.HandoffsUnique)
    (hother : a.call = .claim id → a.amb.uuid 0 ≠ token) (hp : s.Powerless id token)
    (h : (storeSystem env).step s a t) : t.Powerless id token := by
  obtain ⟨rows, new, hrows, ht, hnew⟩ := handoffs_move hu h
  intro h' hmem' hid
  rw [ht] at hmem'
  rcases List.mem_append.mp hmem' with hmem' | hmem'
  · obtain ⟨row, hmem, hmoves⟩ := hrows.origin hmem'
    obtain rfl := hmoves.id.symm.trans hid
    exact hmoves.powerless hother (hp row hmem rfl)
  · refine .inl ?_
    rw [(hnew h' (by simpa using hmem')).checkToken]
    simp

theorem Outdated.powerless (h : Outdated env id token u) : u.Powerless id token := by
  cases h with
  | claimed hs hstep hclaims hother =>
    obtain ⟨row, -, rfl, -, hleased⟩ := claims_row hstep hclaims
    have hu := (reachable_waitsFree (hs.run (.single hstep))).1
    intro h' hmem' hid
    rw [hu.eq hmem' hleased hid]
    exact .inl fun heq => hother (Option.some.inj heq)
  | left hs hleft =>
    intro h' hmem' hid
    cases hstate : h'.state with
    | awaitingExternalAction =>
      refine .inl ?_
      rw [(reachable_waitsFree hs).2 h' hmem' hstate]
      simp
    | checking => exact absurd hstate (hleft h' hmem' hid)
    | resolved => exact .inr (.inl hstate)
    | expired => exact .inr (.inr hstate)

theorem Outdated.reachable (h : Outdated env id token u) : (storeSystem env).Reachable u := by
  cases h with
  | claimed hs hstep => exact hs.run (.single hstep)
  | left hs => exact hs

theorem DB.Powerless.not_checking (hp : s.Powerless id token) {h : Handoff}
    (hmem : h ∈ s.handoffs) (hid : h.id = id) (hs : h.state = .checking) :
    h.checkToken ≠ some token := by
  rcases hp h hmem hid with hne | hstate | hstate
  · exact hne
  · rw [hs] at hstate
    cases hstate
  · rw [hs] at hstate
    cases hstate

theorem DB.Powerless.not_canRead (hp : s.Powerless id token) : ¬ CanRead s amb scope id token := by
  intro hread
  obtain ⟨row, hmem, hid, hs, htoken⟩ := canRead_row hread
  exact hp.not_checking hmem hid hs htoken

theorem DB.Powerless.finishCheck (hp : s.Powerless id token) (retry : Bool) :
    (finishCheck amb scope id token retry).commit s = s := by
  have hnone : s.handoffs.find? (Handoff.held scope id token) = none := by
    rw [List.find?_eq_none]
    intro h hmem hheld
    unfold Handoff.held at hheld
    simp only [Bool.and_eq_true, decide_eq_true_eq] at hheld
    exact hp.not_checking hmem hheld.1.1.2 hheld.1.2 hheld.2
  exact commit_of_ok (finishCheck_none hnone)

/-! ## Attempts -/

/-- The handoff was claimed so often, and says so. -/
def Used (s : DB) (id : Uuid) (n : Nat) : Prop :=
  n ≤ MAX_CHECK_ATTEMPTS ∧ (n = 0 ∨ ∃ h ∈ s.handoffs, h.id = id ∧ n ≤ h.checkAttempts)

/-- Only an acknowledgement that arms a handoff forgets its attempts. -/
theorem Moves.attempts {a : Step} {h h' : Handoff} (hm : Moves a h h')
    (harms : a.call = .acknowledge h.id → h.state = .awaitingExternalAction →
      h'.state ≠ .checking) : h.checkAttempts ≤ h'.checkAttempts := by
  cases hm with
  | stays | resolved | lapsed | released | idled | checked => exact Nat.le_refl _
  | leased => exact Nat.le_succ _
  | armed hcall hpending =>
    show h.checkAttempts ≤ if h.state = .checking then h.checkAttempts else 0
    split
    · exact Nat.le_refl _
    · next hne =>
      cases hstate : h.state with
      | awaitingExternalAction => exact absurd rfl (harms hcall hstate)
      | checking => exact absurd hstate hne
      | resolved | expired =>
        rw [hstate] at hpending
        cases hpending

theorem used_step {a : Step} {n : Nat} (hu : s.HandoffsUnique) (h : Used s id n)
    (harms : a.arms env id s = false) (hstep : (storeSystem env).step s a t) :
    Used t id (n + if a.claims env id s then 1 else 0) := by
  by_cases hclaims : a.claims env id s = true
  · rw [if_pos hclaims]
    obtain ⟨row, hmem, rfl, hlt, hleased⟩ := claims_row hstep hclaims
    have hn : n ≤ row.checkAttempts := by
      rcases h.2 with rfl | ⟨row', hmem', hid', hle⟩
      · exact Nat.zero_le _
      · rw [hu.eq hmem hmem' hid'.symm]
        exact hle
    refine ⟨by omega, .inr ⟨row.leased a.amb, hleased, rfl, ?_⟩⟩
    show n + 1 ≤ row.checkAttempts + 1
    omega
  · rw [if_neg hclaims, Nat.add_zero]
    refine ⟨h.1, ?_⟩
    rcases h.2 with rfl | ⟨row, hmem, rfl, hle⟩
    · exact .inl rfl
    · obtain ⟨rows, new, hrows, ht, -⟩ := handoffs_move hu hstep
      obtain ⟨row', hmem', hmoves⟩ := hrows.kept hmem
      have hrow' : row' ∈ t.handoffs := ht ▸ List.mem_append_left _ hmem'
      refine .inr ⟨row', hrow', hmoves.id, hle.trans (hmoves.attempts fun hcall hs hs' => ?_)⟩
      -- the acknowledgement would have armed it
      refine absurd harms (ne_of_eq_of_ne ?_ (by decide : true ≠ false))
      have hcommit : (a.tx env).commit s = t := Eq.symm hstep
      unfold Step.arms
      rw [hcall, hcommit]
      simp only [Bool.and_eq_true, decide_eq_true_eq, List.any_eq_true]
      exact ⟨⟨trivial, row, hmem, rfl, hs⟩, row', hrow', hmoves.id, hs'⟩

/-- The induction is on the steps; the claims so far are the attempts of the row. -/
theorem used_run {as : List Step} {n : Nat} (hs : (storeSystem env).Reachable s)
    (h : Used s id n) (harms : stepsIn env (Step.arms env id) s as = 0) :
    n + stepsIn env (Step.claims env id) s as ≤ MAX_CHECK_ATTEMPTS := by
  induction as generalizing s n with
  | nil => exact h.1
  | cons a as ih =>
    have hstep : (storeSystem env).step s a ((a.tx env).commit s) := rfl
    simp only [stepsIn] at harms ⊢
    have hfirst : a.arms env id s = false := by
      by_contra htrue
      rw [if_pos (by simpa using htrue)] at harms
      omega
    rw [if_neg (by simp [hfirst]), Nat.zero_add] at harms
    have := ih (hs.run (.single hstep))
      (used_step (reachable_handoffsUnique hs) h hfirst hstep) harms
    omega

/-! ## The leases -/

/-- **One token reads a handoff; a token that has lost it never has it back, unless it is drawn
again; and a handoff is claimed at most three times until it is armed again.** -/
theorem handoff_leases (hs : (storeSystem env).Reachable s) (id : Uuid) :
    (∀ amb scope token amb' scope' token', CanRead s amb scope id token →
      CanRead s amb' scope' id token' → token = token') ∧
    (∀ token as t, Outdated env id token s → (storeSystem env).Run s as t →
      (∀ a ∈ as, a.call = .claim id → a.amb.uuid 0 ≠ token) →
      (∀ amb scope, ¬ CanRead t amb scope id token) ∧
        ∀ amb scope retry, (finishCheck amb scope id token retry).commit t = t) ∧
    ∀ as, stepsIn env (Step.arms env id) s as = 0 →
      stepsIn env (Step.claims env id) s as ≤ MAX_CHECK_ATTEMPTS := by
  refine ⟨?_, ?_, ?_⟩
  · intro amb scope token amb' scope' token' hread hread'
    obtain ⟨row, hmem, hid, -, htoken⟩ := canRead_row hread
    obtain ⟨row', hmem', hid', -, htoken'⟩ := canRead_row hread'
    obtain rfl := (reachable_handoffsUnique hs).eq hmem hmem' (hid.trans hid'.symm)
    exact Option.some.inj (htoken.symm.trans htoken')
  · intro token as t hout hrun hfresh
    have hp : t.HandoffsUnique ∧ t.Powerless id token := by
      refine hrun.preserves_of_labels (I := fun s => s.HandoffsUnique ∧ s.Powerless id token)
        (fun s a t hother hI hstep => ?_) hfresh ⟨reachable_handoffsUnique hs, hout.powerless⟩
      exact ⟨moves_keysUnique hI.1 (handoffs_move hI.1 hstep),
        powerless_step hI.1 hother hI.2 hstep⟩
    exact ⟨fun _ _ => hp.2.not_canRead, fun _ _ retry => hp.2.finishCheck retry⟩
  · intro as harms
    have := used_run hs ⟨Nat.zero_le _, .inl rfl⟩ harms
    omega

/-- The check of handoff 7 is claimed again, when its lease has run out. -/
def sampleReclaim : Step where
  scope := ⟨"tenant", "owner"⟩
  amb := {
    utc := fun _ => epoch
    now := ⟨240, ⟨1970, 1, 1⟩, by decide⟩
    uuid := fun k => 30 + k }
  call := .claim 7

theorem late_worker_reads_nothing :
    stepsIn samplePlatform (Step.claims samplePlatform 7) {} (handoffSteps ++ [sampleReclaim]) = 2 ∧
      ∀ amb scope, ¬ CanRead
        ((sampleReclaim.tx samplePlatform).commit (runSteps samplePlatform {} handoffSteps))
          amb scope 7 9 := by
  have hs : (storeSystem samplePlatform).Reachable (runSteps samplePlatform {} handoffSteps) :=
    ⟨{}, handoffSteps, rfl, run_runSteps _ _ _⟩
  have hstep : (storeSystem samplePlatform).step (runSteps samplePlatform {} handoffSteps)
      sampleReclaim _ := rfl
  have hout : Outdated samplePlatform 7 9 _ :=
    .claimed hs hstep (by decide +kernel) (by decide)
  exact ⟨by decide +kernel,
    ((handoff_leases hout.reachable 7).2.1 9 [] _ hout (.nil _) (by simp)).1⟩

end GenusOs.Autonomy
