import GenusOs.Goals.Posting
import Mathlib

/-!
# What an attempt has used

* `Booked`: the running attempt is the one that holds the lease.
* `Funded`: no goal uses more than its budget.
* `closed_attempts_charged_once`: every run.
-/

namespace GenusOs.Goals

open Rows

variable {env : Env} {goals goals' : List Goal} {g r r' holder : Goal}
    {a a' : Attempt} {s t u : Store}
  {attempt : AttemptId} {tokens : Int} {P : Prop} {l l' : Ledger}

/-! ## The invariants -/

/-- The budget of each goal has room for what is used. -/
def Funded (env : Env) (s : Store) : Prop := ∀ g ∈ s.goals, Room env s g g.tokenBudgetOf

/-- The running attempt is the one whose goal holds the lease. -/
theorem Booked.unique (hs : Booked s) (hr : r ∈ s.goals) (hlease : r.leaseId = some attempt)
    (ha : a ∈ s.attempts) (hrunning : a.status = .running) : a.id = attempt ∧ a.goalId = r.id := by
  obtain ⟨g, hg, hid, hheld⟩ := hs.holder a ha hrunning
  have hsame : g = r := hs.one g hg r hr (by rw [hheld]; rfl) (by rw [hlease]; rfl)
  rw [hsame] at hid hheld
  exact ⟨Option.some.inj (hheld.symm.trans hlease), hid.symm⟩

/-- Once an attempt is closed, no lease is held and no attempt is running. -/
theorem Closed.idle (hs : Booked s) (h : Closed env s t r a tokens) :
    (∀ g ∈ t.goals, g.leaseId = none ∧ g.leaseUntil = none) ∧
      ∀ b ∈ t.attempts, b.status ≠ .running := by
  constructor
  · intro g' hg'
    obtain ⟨g, hg, hrow⟩ := h.goals.mem hg'
    rw [hrow.lease, hrow.expiry]
    by_cases hid : g.id = r.id
    · rw [if_pos hid, if_pos hid]
      exact ⟨rfl, rfl⟩
    · rw [if_neg hid, if_neg hid]
      have hfree : ¬ g.leaseId.isSome := fun hsome =>
        hid (congrArg Goal.id (hs.one g hg r h.goal hsome (by rw [h.lease]; rfl)))
      exact ⟨Option.not_isSome_iff_eq_none.mp hfree,
        Option.not_isSome_iff_eq_none.mp fun hsome => hfree (hs.expiry g hg hsome)⟩
  · intro b' hb' hrunning
    obtain ⟨b, hb, hrow⟩ := h.attempts.origin hb'
    by_cases hid : b.id = a.id
    · exact hrow.closed hid hrunning
    · rw [hrow.other hid] at hrunning
      exact hid (hs.unique h.goal h.lease hb hrunning).1

/-- What is booked after a closing: nothing. -/
theorem Closed.booked (hs : Booked s) (h : Closed env s t r a tokens) : Booked t := by
  obtain ⟨hfree, hclosed⟩ := h.idle hs
  refine ⟨?_, fun g hg _ _ hsome _ => ?_, fun g hg hsome => ?_,
    fun b hb hrunning => ?_, fun g hg id hid => ?_⟩
  · unfold KeyUnique
    rw [h.attempts.keys fun _ _ _ hrow => hrow.same]
    exact hs.keys
  · rw [(hfree g hg).1] at hsome
    cases hsome
  · rw [(hfree g hg).2] at hsome
    cases hsome
  · exact absurd hrunning (hclosed b hb)
  · rw [(hfree g hg).1] at hid
    cases hid

/-- A charge that the attempt has reserved stays within the budgets. -/
theorem Closed.funded (hs : Booked s) (hfunded : Funded env s) (h : Closed env s t r a tokens)
    (hle : tokens ≤ max 0 a.tokens) : Funded env t := by
  intro g' hg'
  refine ⟨?_, fun b hb hrunning => absurd hrunning ((h.idle hs).2 b hb)⟩
  obtain ⟨g, hg, hrow⟩ := h.goals.mem hg'
  rw [hrow.used, hrow.budget]
  have hused := (hfunded g hg).used
  split
  · next hpays =>
    have hcharged := (hfunded g hg).charged a h.attempt h.running r h.goal h.goalId.symm hpays
    omega
  · omega

/-- A lease is given with a new attempt, and otherwise stays with its own. -/
theorem Rest.booked (hkeys : KeyUnique Goal.id s.goals) (hs : Booked s) (h : Rest env P s t)
    (hnew : KeyUnique Attempt.id t.attempts) : Booked t := by
  cases h with
  | work hgoals hattempts =>
    refine ⟨hnew, hs.one.rewritten hkeys (fun _ _ h => ⟨h.id, .inl h.lease⟩) hgoals, ?_, ?_, ?_⟩
    · -- rows that work keep their leases, and attempts that run keep their status
      intro g' hg' hsome
      obtain ⟨g, hg, hrow⟩ := hgoals.mem hg'
      rw [hrow.lease]
      rcases hrow.expiry hsome with hsome' | hsome'
      · exact hs.expiry g hg hsome'
      · exact hsome'
    · intro a' ha' hrunning
      obtain ⟨a, ha, hspends⟩ := hattempts.origin ha'
      obtain ⟨g, hg, hid, hlease⟩ := hs.holder a ha (hspends.status ▸ hrunning)
      obtain ⟨g', hg', hrow⟩ := hgoals.kept hg
      exact ⟨g', hg', by rw [hrow.id, hid, hspends.goalId], by rw [hrow.lease, hlease, hspends.id]⟩
    · intro g' hg' id hid
      obtain ⟨g, hg, hrow⟩ := hgoals.mem hg'
      obtain ⟨a, ha, haid, hgoal, hrunning⟩ := hs.held g hg id (hrow.lease ▸ hid)
      obtain ⟨a', ha', hspends⟩ := hattempts.kept ha
      exact ⟨a', ha', hspends.id.trans haid, by rw [hspends.goalId, hgoal, hrow.id],
        hspends.status.trans hrunning⟩
  | create g hgoals hchild hlease hexpiry hused hattempts =>
    -- the new goal has no lease
    have hold {g' : Goal} (hg' : g' ∈ t.goals) (hsome : g'.leaseId.isSome ∨ g'.leaseUntil.isSome) :
        g' ∈ s.goals := by
      rw [hgoals] at hg'
      rcases List.mem_append.mp hg' with hg' | hg'
      · exact hg'
      · rw [List.mem_singleton.mp hg', hlease, hexpiry] at hsome
        rcases hsome with hsome | hsome <;> cases hsome
    refine ⟨hnew, fun g hg g' hg' h h' => hs.one g (hold hg (.inl h)) g' (hold hg' (.inl h')) h h',
      fun g hg h => hs.expiry g (hold hg (.inr h)) h,
        fun a ha hrunning => ?_, fun g hg id hid => ?_⟩
    · rw [hattempts] at ha
      obtain ⟨g, hg, hid, hlease⟩ := hs.holder a ha hrunning
      exact ⟨g, by rw [hgoals]; exact List.mem_append_left _ hg, hid, hlease⟩
    · rw [hattempts]
      exact hs.held g (hold hg (.inl (by rw [hid]; rfl))) id hid
  | dispatch goals g hg attempt leaseUntil hquiet hfree hgoals hattempts =>
    have hkeys' : KeyUnique Goal.id goals := hquiet.keyUnique (fun _ _ h => h.id) hkeys
    -- no lease is out when one is given, so the new attempt has the only one
    have hfree' : ∀ r ∈ goals, r.leaseId = none ∧ r.leaseUntil = none := by
      intro r' hr'
      obtain ⟨r, hr, hrow⟩ := hquiet.mem hr'
      rw [hrow.lease, hrow.expiry]
      refine ⟨hfree r hr, Option.not_isSome_iff_eq_none.mp fun hsome => ?_⟩
      have hleased := hs.expiry r hr hsome
      rw [hfree r hr] at hleased
      cases hleased
    have hgiven : ∀ r' ∈ t.goals, r'.leaseId.isSome ∨ r'.leaseUntil.isSome →
        r'.id = g.id ∧ r'.leaseId = some attempt := by
      intro r' hr' hsome
      rw [hgoals] at hr'
      obtain ⟨r, hr, rfl⟩ := mem_updateWhere.mp hr'
      by_cases hid : r.id = g.id
      · rw [if_pos (decide_eq_true hid)]
        exact ⟨hid, rfl⟩
      · rw [if_neg (by simpa using hid), (hfree' r hr).1, (hfree' r hr).2] at hsome
        rcases hsome with hsome | hsome <;> cases hsome
    refine ⟨hnew, ?_, fun r hr hsome => ?_, fun a ha hrunning => ?_, fun r hr id hid => ?_⟩
    · rw [hgoals]
      exact oneLease_given hkeys' fun r hr => (hfree' r hr).1
    · rw [(hgiven r hr (.inr hsome)).2]
      rfl
    · rw [hattempts] at ha
      rcases List.mem_append.mp ha with ha | ha
      · obtain ⟨r, hr, -, hlease⟩ := hs.holder a ha hrunning
        rw [hfree r hr] at hlease
        cases hlease
      · rw [List.mem_singleton.mp ha, hgoals]
        exact ⟨_, mem_updateWhere.mpr ⟨g, hg, rfl⟩, by simp, by simp⟩
    · obtain ⟨hrid, hlease⟩ := hgiven r hr (.inl (by rw [hid]; rfl))
      refine ⟨_, by rw [hattempts]; exact List.mem_append_right _ (List.mem_singleton_self _), ?_,
        hrid.symm, rfl⟩
      exact Option.some.inj (hlease.symm.trans hid)

theorem SameAccount.room (hP : P) (h : SameAccount env P s r r')
    (hroom : Room env s r r.tokenBudgetOf) :
    Room env s r r'.tokenBudgetOf := by
  rcases h.budget hP with hle | hroom'
  · exact hroom.mono (by exact_mod_cast hle)
  · exact hroom'

/-- What is used grows within the budgets only. -/
theorem Rest.funded (hs : Booked s) (hfunded : Funded env s) (hP : P) (h : Rest env P s t) :
    Funded env t := by
  cases h with
  | work hgoals hattempts =>
    intro g' hg'
    obtain ⟨g, hg, hrow⟩ := hgoals.mem hg'
    have hroom := hrow.toSameAccount.room hP (hfunded g hg)
    refine ⟨by rw [hrow.used]; exact hroom.used,
      fun a' ha' hrunning holder' hholder' hid hpays => ?_⟩
    obtain ⟨a, ha, hspends⟩ := hattempts.origin ha'
    have hrunning' : a.status = .running := hspends.status ▸ hrunning
    rcases hspends.tokens hP hrunning' with hle | hwithin
    · obtain ⟨holder, hholder, hrow'⟩ := hgoals.mem hholder'
      unfold Goal.Pays at hpays
      rw [hrow'.id, hrow'.parent, hrow.id] at hpays
      have hcharged := hroom.charged a ha hrunning' holder hholder
        (hrow'.id.symm.trans (hid.trans hspends.goalId)) hpays
      rw [hrow.used]
      exact (add_le_add_right hle g.tokensUsed).trans hcharged
    · exact hwithin holder' hholder' (hid.trans hspends.goalId) g' hg' hpays
  | create g hgoals hchild hlease hexpiry hused hattempts =>
    intro g' hg'
    -- an attempt belongs to an older goal, which does not pay for the new one
    have holder_old {a : Attempt} (ha : a ∈ t.attempts)
        (hrunning : a.status = .running) {holder : Goal}
        (hholder : holder ∈ t.goals) (hid : holder.id = a.goalId) : holder ∈ s.goals := by
      rw [hattempts] at ha
      rw [hgoals] at hholder
      obtain ⟨r, hr, hrid, -⟩ := hs.holder a ha hrunning
      rcases List.mem_append.mp hholder with hholder | hholder
      · exact hholder
      · rw [List.mem_singleton.mp hholder] at hid
        exact absurd (.inl (hid.trans hrid.symm)) (hchild r hr)
    rw [hgoals] at hg'
    rcases List.mem_append.mp hg' with hg' | hg'
    · refine ⟨(hfunded g' hg').used, fun a ha hrunning holder hholder hid hpays => ?_⟩
      exact (hfunded g' hg').charged a (hattempts ▸ ha) hrunning holder
        (holder_old ha hrunning hholder hid) hid hpays
    · rw [List.mem_singleton.mp hg']
      refine ⟨by rw [hused]; exact Int.natCast_nonneg _,
        fun a ha hrunning holder hholder hid hpays => ?_⟩
      exact absurd hpays (hchild holder (holder_old ha hrunning hholder hid))
  | dispatch goals g hg attempt leaseUntil hquiet hfree hgoals hattempts =>
    -- a dispatch uses nothing, and its attempt begins with no tokens
    have hrows : Rewritten (SameAccount env P s) s.goals t.goals := by
      rw [hgoals]
      refine (hquiet.mono fun _ _ h => h.steady.toSameAccount).trans SameAccount.trans
        (rewritten_updateWhere SameAccount.refl fun r _ _ => ?_)
      exact ⟨rfl, rfl, rfl, fun _ => .inl le_rfl⟩
    intro g' hg'
    obtain ⟨g, hg, hrow⟩ := hrows.mem hg'
    have hused : g'.tokensUsed ≤ g'.tokenBudgetOf := by
      rw [hrow.used]
      exact (hrow.room hP (hfunded g hg)).used
    refine ⟨hused, fun a ha hrunning holder hholder hid hpays => ?_⟩
    rw [hattempts] at ha
    rcases List.mem_append.mp ha with ha | ha
    · obtain ⟨r, hr, -, hlease⟩ := hs.holder a ha hrunning
      rw [hfree r hr] at hlease
      cases hlease
    · rw [List.mem_singleton.mp ha, add_zero]
      exact hused

/-! ## Runs -/

/-- The goals form families, and the running attempts hold the leases. -/
structure InOrder (env : Env) (s : Store) : Prop where
  family : WellFormed env s.goals
  booked : Booked s

/-- The attempt is not running any more. -/
def Attempt.Ended (a : Attempt) (s : Store) : Prop :=
  ∀ a' ∈ s.attempts, a'.id = a.id → a'.status ≠ .running

/-- The goals stay, and none is charged. -/
theorem Rest.used (h : Rest env P s t) (hg : g ∈ s.goals) :
    ∃ g' ∈ t.goals, g'.id = g.id ∧ g'.tokensUsed = g.tokensUsed := by
  cases h with
  | work hgoals hattempts =>
    obtain ⟨g', hg', hrow⟩ := hgoals.kept hg
    exact ⟨g', hg', hrow.id, hrow.used⟩
  | create new hgoals hchild hlease hexpiry hused hattempts =>
    exact ⟨g, by rw [hgoals]; exact List.mem_append_left _ hg, rfl, rfl⟩
  | dispatch goals g₀ hg₀ attempt leaseUntil hquiet hfree hgoals hattempts =>
    obtain ⟨g', hg', hrow⟩ := hquiet.kept hg
    refine ⟨_, by rw [hgoals]; exact mem_updateWhere.mpr ⟨g', hg', rfl⟩, ?_⟩
    split <;> exact ⟨hrow.id, hrow.used⟩

/-- The attempts stay. -/
theorem Rest.attempts (h : Rest env P s t) (ha : a ∈ s.attempts) :
    ∃ a' ∈ t.attempts, a'.id = a.id ∧ a'.status = a.status := by
  cases h with
  | work hgoals hattempts =>
    obtain ⟨a', ha', hspends⟩ := hattempts.kept ha
    exact ⟨a', ha', hspends.id, hspends.status⟩
  | create new hgoals hchild hlease hexpiry hused hattempts =>
    exact ⟨a, by rw [hattempts]; exact ha, rfl, rfl⟩
  | dispatch goals g₀ hg₀ attempt leaseUntil hquiet hfree hgoals hattempts =>
    exact ⟨a, by rw [hattempts]; exact List.mem_append_left _ ha, rfl, rfl⟩

/-- The attempt that is closed has ended, after what else the transaction does. -/
theorem Closed.ended (h : Closed env s u r a tokens) (hrest : Rest env P u t)
    (hkeys : KeyUnique Attempt.id t.attempts) : a.Ended t := by
  intro a₂ ha₂ hid hrunning
  obtain ⟨a₁, ha₁, hends⟩ := h.attempts.kept h.attempt
  obtain ⟨a', ha', hid', hstatus⟩ := hrest.attempts ha₁
  rw [hkeys.eq ha₂ ha' (hid.trans (hends.same.symm.trans hid'.symm)), hstatus] at hrunning
  exact hends.closed rfl hrunning

theorem ledger_goals {op : Nat × LedgerOp} (h : (ledger env).step l op l') :
    l'.store.goals = l.store.goals ∨ ∃ o, (transactions env).step l.store (op.1, o) l'.store := by
  obtain ⟨now, op⟩ := op
  obtain ⟨h, -⟩ := h
  cases op with
  | store op =>
    have h : (l.store.transact env now op).map (fun store => { l with store }) = .ok l' := h
    cases htransact : l.store.transact env now op with
    | error error =>
      rw [htransact] at h
      cases h
    | ok t =>
      rw [htransact] at h
      cases h
      exact .inr ⟨op, htransact⟩
  | reserve goalId attempt callId maximum =>
    have h : l.reserve env now goalId attempt callId maximum = .ok l' := h
    unfold Ledger.reserve at h
    dsimp only at h
    repeat' split at h
    all_goals cases h
    exact .inl rfl
  | settle goalId attempt callId actual =>
    have h : l.settle env goalId attempt callId actual = .ok l' := h
    unfold Ledger.settle at h
    repeat' split at h
    all_goals cases h
    all_goals exact .inl rfl

/-- **Step lemma.** Families and leases, in every step. -/
theorem inOrder_step {op : Nat × LedgerOp} (hl : InOrder env l.store)
    (h : (ledger env).step l op l') :
    InOrder env l'.store := by
  constructor
  · rcases ledger_goals h with hsame | ⟨o, hstep⟩
    · rw [hsame]
      exact hl.family
    · exact wellFormed_step hl.family hstep
  · obtain ⟨u, hclosed, hrest⟩ := ledger_posts hl.family hl.booked h
    rcases hclosed with rfl | ⟨r, a, tokens, hclosed, -⟩
    · exact hrest.booked hl.family.keys hl.booked h.2
    · exact hrest.booked (hclosed.goals.keyUnique (fun _ _ h => h.id) hl.family.keys)
        (hclosed.booked hl.booked) h.2

theorem inOrder_empty : InOrder env {} where
  family := wellFormed_nil
  booked := by
    refine ⟨List.nodup_nil, ?_, ?_, ?_, ?_⟩
    all_goals exact fun _ h => absurd h List.not_mem_nil

theorem inOrder_reachable (h : (ledger env).Reachable l) : InOrder env l.store := by
  refine h.invariant (I := fun l => InOrder env l.store) ?_ fun _ _ _ hl hstep =>
    inOrder_step hl hstep
  rintro l rfl
  exact inOrder_empty

/-- **Step lemma.** In a measured step the budgets go on to have room. -/
theorem funded_step {op : Nat × LedgerOp} (hl : InOrder env l.store) (hfunded : Funded env l.store)
    (hmeasured : op.2.Measured env l) (h : (ledger env).step l op l') : Funded env l'.store := by
  obtain ⟨u, hclosed, hrest⟩ := ledger_posts hl.family hl.booked h
  rcases hclosed with rfl | ⟨r, a, tokens, hclosed, -, hle⟩
  · exact hrest.funded hl.booked hfunded hmeasured
  · exact hrest.funded (hclosed.booked hl.booked) (hclosed.funded hl.booked hfunded (hle hmeasured))
      hmeasured

/-- **Step lemma.** An attempt that has ended stays as it is. -/
theorem ended_step {op : Nat × LedgerOp} (hl : InOrder env l.store) (h : (ledger env).step l op l')
    (ha : a ∈ l.store.attempts) (hended : a.status ≠ .running) :
    ∃ a' ∈ l'.store.attempts, a'.id = a.id ∧ a'.status = a.status := by
  obtain ⟨u, hclosed, hrest⟩ := ledger_posts hl.family hl.booked h
  rcases hclosed with rfl | ⟨r, b, tokens, hclosed, -⟩
  · exact hrest.attempts ha
  · have hne : a.id ≠ b.id := fun hid =>
      hended (hl.booked.keys.eq ha hclosed.attempt hid ▸ hclosed.running)
    obtain ⟨a₁, ha₁, hends⟩ := hclosed.attempts.kept ha
    rw [hends.other hne] at ha₁
    exact hrest.attempts ha₁

/-- **Run lemma.** An attempt that has ended is not charged again. -/
theorem ended_run {ops : List (Nat × LedgerOp)} (hl : InOrder env l.store)
    (hrun : (ledger env).Run l ops l') (ha : a ∈ l.store.attempts) (hended : a.status ≠ .running) :
    ∃ a' ∈ l'.store.attempts, a'.id = a.id ∧ a'.status = a.status := by
  refine hrun.follows (I := fun l => InOrder env l.store) (R := fun l l' => ∀ a ∈ l.store.attempts,
    a.status ≠ .running → ∃ a' ∈ l'.store.attempts, a'.id = a.id ∧ a'.status = a.status)
    ?_ ?_ ?_ ?_ hl a ha hended
  · exact fun _ a ha _ => ⟨a, ha, rfl, rfl⟩
  · intro l₁ l₂ l₃ h h' a ha hended
    obtain ⟨a', ha', hid, hstatus⟩ := h a ha hended
    obtain ⟨a'', ha'', hid', hstatus'⟩ := h' a' ha' (hstatus ▸ hended)
    exact ⟨a'', ha'', hid'.trans hid, hstatus'.trans hstatus⟩
  · exact fun _ _ _ hl hstep => inOrder_step hl hstep
  · exact fun _ _ _ hl hstep a ha hended => ended_step hl hstep ha hended

/-- **What is charged for an attempt.** When an attempt is closed, its goal and the parent are
charged with one amount, which covers what the attempt has used if and only if the worker that ends
it reports as much; nothing else charges a goal, and an attempt is closed once. In the runs that
report and settle no more than was charged, all stays within the budgets. -/
theorem closed_attempts_charged_once (env : Env) :
    (∀ l op l', (ledger env).Reachable l → (ledger env).step l op l' →
      ∀ a ∈ l.store.attempts, a.status = .running → a.Ended l'.store →
        ∃ holder tokens, row l.store.goals a.goalId = some holder ∧
          (∀ g ∈ l.store.goals, ∃ g', row l'.store.goals g.id = some g' ∧
            g'.tokensUsed = g.tokensUsed + if holder.Pays env g.id then tokens else 0) ∧
          (a.tokens ≤ tokens ↔ op.2.Covers a)) ∧
    (∀ l op l', (ledger env).Reachable l → (ledger env).step l op l' →
      (∀ a ∈ l.store.attempts, a.status = .running → ¬ a.Ended l'.store) →
        ∀ g ∈ l.store.goals, ∃ g', row l'.store.goals g.id = some g' ∧
          g'.tokensUsed = g.tokensUsed) ∧
    (∀ l ops l', (ledger env).Reachable l → (ledger env).Run l ops l' →
      ∀ a ∈ l.store.attempts, a.status ≠ .running →
        ∃ a' ∈ l'.store.attempts, a'.id = a.id ∧ a'.status = a.status) ∧
    ∀ l, ((ledger env).restrict fun l op => op.2.Measured env l).Reachable l →
      Funded env l.store := by
  have hrow {l : Ledger} (hl : InOrder env l.store) {g : Goal} {id : GoalId}
      (hg : g ∈ l.store.goals)
      (hid : g.id = id) : row l.store.goals id = some g := hid ▸ row_of_mem hl.family.keys hg
  refine ⟨?closed, ?other, ?once, ?budget⟩
  case closed =>
    intro l op l' hreachable hstep a ha hrunning hended
    have hl := inOrder_reachable hreachable
    obtain ⟨u, hclosed, hrest⟩ := ledger_posts hl.family hl.booked hstep
    rcases hclosed with rfl | ⟨r, b, tokens, hclosed, hcovers, -⟩
    · obtain ⟨a', ha', hid, hstatus⟩ := hrest.attempts ha
      exact absurd (hstatus.trans hrunning) (hended a' ha' hid)
    · -- the attempt that has ended is the one that held the lease
      obtain ⟨hid, hgoal⟩ := hl.booked.unique hclosed.goal hclosed.lease ha hrunning
      obtain rfl : a = b := hl.booked.keys.eq ha hclosed.attempt hid
      refine ⟨r, tokens, hrow hl hclosed.goal hgoal.symm, fun g hg => ?_, hcovers⟩
      obtain ⟨g₁, hg₁, hsettles⟩ := hclosed.goals.kept hg
      obtain ⟨g', hg', hid', hused⟩ := hrest.used hg₁
      exact ⟨g', hrow (inOrder_step hl hstep) hg' (hid'.trans hsettles.id),
        hused.trans hsettles.used⟩
  case other =>
    intro l op l' hreachable hstep hrun g hg
    have hl := inOrder_reachable hreachable
    obtain ⟨u, hclosed, hrest⟩ := ledger_posts hl.family hl.booked hstep
    rcases hclosed with rfl | ⟨r, b, tokens, hclosed, -⟩
    · obtain ⟨g', hg', hid, hused⟩ := hrest.used hg
      exact ⟨g', hrow (inOrder_step hl hstep) hg' hid, hused⟩
    · exact absurd (hclosed.ended hrest hstep.2) (hrun b hclosed.attempt hclosed.running)
  case once =>
    exact fun l ops l' hreachable hrun a ha hended =>
      ended_run (inOrder_reachable hreachable) hrun ha hended
  case budget =>
    intro l hreachable
    have hfunded : InOrder env l.store ∧ Funded env l.store := by
      refine hreachable.invariant (I := fun l => InOrder env l.store ∧ Funded env l.store) ?_ ?_
      · rintro l rfl
        exact ⟨inOrder_empty, fun _ h => absurd h List.not_mem_nil⟩
      · rintro l op l' ⟨hl, hfunded⟩ ⟨hmeasured, hstep⟩
        exact ⟨inOrder_step hl hstep, funded_step hl hfunded hmeasured hstep⟩
    exact hfunded.2

/-! ### An attempt of a child -/

/-- The child has reserved 70 tokens. -/
def sampleReserved : Ledger where
  store := charge 7 (fun _ => 70) sampleLeased
  reservations := [{ attemptId := 7, callId := "call", reserved := 70 }]

/-- The worker ends the attempt. -/
def sampleFinished (tokens : Int) : Ledger := { sampleReserved with
  store := (sampleReserved.store.finish sampleEnv 2 childText 7 { tokens }).toOption.getD {} }

theorem ledger_store {op : Op} {now : Nat} (h : l.store.transact env now op = .ok t)
    (hkeys : (t.attempts.map Attempt.id).Nodup) :
    (ledger env).step l (now, .store op) { l with store := t } := by
  refine ⟨?_, hkeys⟩
  unfold Ledger.transact
  dsimp only
  rw [h]
  rfl

theorem sampleReserved_reachable :
    ((ledger sampleEnv).restrict fun l op =>
      op.2.Measured sampleEnv l).Reachable sampleReserved := by
  have hparent : Store.transact sampleEnv {} 0 (.create sampleParent 10) =
      .ok { goals := [sampleParent.newGoal 0 10 none] } := by decide +kernel
  have hchild : Store.transact sampleEnv { goals := [sampleParent.newGoal 0 10 none] } 0
      (.create sampleChild 11) = .ok sampleFamily := by decide +kernel
  have hclaim : sampleEnabled.transact sampleEnv 1 (.claim (fun g => 11 - g.id) 7) =
      .ok sampleLeased := by
    decide +kernel
  have hreserve : Ledger.reserve sampleEnv 2 childText 7 "call" 70 { store := sampleLeased } =
      .ok sampleReserved := by decide +kernel
  have hkeys : (sampleLeased.attempts.map Attempt.id).Nodup ∧
      (sampleReserved.store.attempts.map Attempt.id).Nodup := by decide +kernel
  exact ⟨{}, [(0, .store (.create sampleParent 10)), (0, .store (.create sampleChild 11)),
    (0, .store (.setEnabled true)), (1, .store (.claim (fun g => 11 - g.id) 7)),
    (2, .reserve childText 7 "call" 70)], rfl,
    .cons ⟨trivial, ledger_store hparent List.nodup_nil⟩
      (.cons ⟨trivial, ledger_store hchild List.nodup_nil⟩
        (.cons ⟨trivial, ledger_store rfl List.nodup_nil⟩
          (.cons ⟨trivial, ledger_store hclaim hkeys.1⟩ (.single ⟨trivial, hreserve, hkeys.2⟩))))⟩

theorem sampleFinished_step {tokens : Int}
    (hfinish : sampleReserved.store.finish sampleEnv 2 childText 7 { tokens } =
      .ok (sampleFinished tokens).store)
    (hkeys : ((sampleFinished tokens).store.attempts.map Attempt.id).Nodup) :
    (ledger sampleEnv).step sampleReserved (2, .store (.finish childText 7 { tokens }))
      (sampleFinished tokens) := ledger_store hfinish hkeys

/-- The attempt of the child is the only one, and it has ended. -/
theorem sampleFinished_ended {tokens : Int}
    (h : (sampleFinished tokens).store.attempts.map Attempt.status =
    [.finished]) (a : Attempt) : a.Ended (sampleFinished tokens).store := by
  intro a' ha' _ hrunning
  have hstatus := List.mem_map_of_mem (f := Attempt.status) ha'
  rw [h, hrunning] at hstatus
  cases List.mem_singleton.mp hstatus

/-- A worker that reports the 70 tokens charges the child and its parent, within their budgets. -/
theorem reported_reservation :
    Funded sampleEnv (sampleFinished 70).store ∧
    ∃ tokens : Int, 70 ≤ tokens ∧ ∀ g ∈ sampleReserved.store.goals,
      ∃ g', row (sampleFinished 70).store.goals g.id = some g' ∧
        g'.tokensUsed = g.tokensUsed + if g.id = 11 ∨ g.id = 10 then tokens else 0 := by
  obtain ⟨hcharged, -, -, hfunded⟩ := closed_attempts_charged_once sampleEnv
  have hstep := @sampleFinished_step 70 (by decide +kernel) (by decide +kernel)
  have hmeasured : (LedgerOp.store (.finish childText 7 { tokens := 70 })).Measured sampleEnv
      sampleReserved := by
    show ∀ a ∈ sampleReserved.store.attempts, a.id = 7 → a.status = .running → 70 ≤ max 0 a.tokens
    decide +kernel
  obtain ⟨l₀, ops, hinit, hrun⟩ := sampleReserved_reachable
  refine ⟨hfunded _ ⟨l₀, _, hinit, hrun.append (.single ⟨hmeasured, hstep⟩)⟩, ?_⟩
  have hattempt : ∃ a ∈ sampleReserved.store.attempts, a.status = .running ∧
      a.id = 7 ∧ a.tokens = 70 ∧
      a.goalId = 11 := by decide +kernel
  obtain ⟨a, ha, hrunning, hid, htokens, hgoal⟩ := hattempt
  obtain ⟨holder, tokens, hrow, hgoals, hcovers⟩ :=
    hcharged _ _ _ ⟨l₀, ops, hinit, hrun.of_restrict⟩ hstep
    a ha hrunning (sampleFinished_ended (by decide +kernel) a)
  have hparent : ∀ r ∈ sampleReserved.store.goals, r.id = 11 →
      r.parentGoalId = some (sampleEnv.idText 10) := by decide +kernel
  have hholder : holder.id = 11 := (row_id hrow).trans hgoal
  refine ⟨tokens, ?_, fun g hg => ?_⟩
  · rw [← htokens]
    exact hcovers.mpr fun _ => htokens.le
  · obtain ⟨g', hrow', hused⟩ := hgoals g hg
    refine ⟨g', hrow', hused.trans ?_⟩
    have hpays : holder.Pays sampleEnv g.id ↔ g.id = 11 ∨ g.id = 10 := by
      unfold Goal.Pays
      rw [hholder, hparent holder (row_mem hrow) hholder,
        Option.some_inj, (idText_injective sampleEnv).eq_iff,
        eq_comm (a := 10)]
    rw [if_congr hpays rfl rfl]

/-- A worker that reports none of them loses the 70 tokens. -/
theorem unreported_reservation_lost :
    ¬ ∀ l op l', (ledger sampleEnv).Reachable l → (ledger sampleEnv).step l op l' →
      ∀ a ∈ l.store.attempts, a.status = .running → a.Ended l'.store →
        ∀ g ∈ l.store.goals, g.id = a.goalId → ∀ g' ∈ l'.store.goals, g'.id = g.id →
          g.tokensUsed + a.tokens ≤ g'.tokensUsed := by
  intro hcharged
  have hstep := @sampleFinished_step 0 (by decide +kernel) (by decide +kernel)
  obtain ⟨l₀, ops, hinit, hrun⟩ := sampleReserved_reachable
  have hattempt : ∃ a ∈ sampleReserved.store.attempts, a.status = .running ∧ a.tokens = 70 ∧
      ∃ g ∈ sampleReserved.store.goals, g.id = a.goalId ∧ g.tokensUsed = 0 ∧
        ∃ g' ∈ (sampleFinished 0).store.goals, g'.id = g.id ∧ g'.tokensUsed = 0 := by decide +kernel
  obtain ⟨a, ha, hrunning, htokens, g, hg, hid, hused, g', hg', hid', hused'⟩ := hattempt
  have hle := hcharged _ _ _ ⟨l₀, ops, hinit, hrun.of_restrict⟩ hstep a ha hrunning
    (sampleFinished_ended (by decide +kernel) a) g hg hid g' hg' hid'
  omega

end GenusOs.Goals
