import GenusOs.Goals.ProviderLedger
import Mathlib

/-!
# What a transaction charges

Each attempt is charged to its goal and to the parent when it is closed, by the recovery of its
lease or by the worker's report.

* `Closed`: an attempt is closed and charged.
* `Rest`: nothing is charged.
* `ledger_posts`: a transaction closes an attempt or none, and does the rest.
-/

namespace GenusOs.Goals

open Rows

variable {env : Env} {goals goals' : List Goal} {q g r r' holder : Goal}
    {a a' : Attempt} {s t u : Store}
  {now : Nat} {goalId : String} {change : GoalUpdate} {operator : Bool} {asked : Asked} {op : Op}
  {attempt : AttemptId} {tokens : Int} {P : Prop}

/-- The goals that an attempt of `holder` is charged to: the goal itself and its parent. -/
def Goal.Pays (env : Env) (holder : Goal) (id : GoalId) : Prop :=
  id = holder.id ∨ holder.parentGoalId = some (env.idText id)

instance (holder : Goal) : DecidablePred (holder.Pays env) :=
    fun _ => inferInstanceAs (Decidable (_ ∨ _))

/-- A budget has room for what the goal has used, with what the running attempt uses that the goal
pays for. -/
structure Room (env : Env) (s : Store) (g : Goal) (budget : Int) : Prop where
  used : g.tokensUsed ≤ budget
  charged : ∀ a ∈ s.attempts, a.status = .running → ∀ holder ∈ s.goals, holder.id = a.goalId →
    holder.Pays env g.id → g.tokensUsed + a.tokens ≤ budget

/-! ## Rows -/

/-- The account of a goal is not charged; its budget may be set to another that has room. -/
structure SameAccount (env : Env) (P : Prop) (s : Store) (r r' : Goal) : Prop where
  id : r'.id = r.id
  parent : r'.parentGoalId = r.parentGoalId
  used : r'.tokensUsed = r.tokensUsed
  budget : P → r.tokenBudgetOf ≤ r'.tokenBudgetOf ∨ Room env s r r'.tokenBudgetOf

/-- Neither is its lease moved. -/
structure Steady (env : Env) (P : Prop) (s : Store) (r r' : Goal) : Prop
    extends SameAccount env P s r r' where
  lease : r'.leaseId = r.leaseId
  expiry : r'.leaseUntil.isSome → r.leaseUntil.isSome ∨ r.leaseId.isSome

/-- A goal once an attempt of `holder` is closed: it is charged if it pays, and the holder has given
up its lease. -/
structure Settles (env : Env) (holder : Goal) (tokens : Int) (r r' : Goal) : Prop where
  id : r'.id = r.id
  parent : r'.parentGoalId = r.parentGoalId
  used : r'.tokensUsed = r.tokensUsed + if holder.Pays env r.id then tokens else 0
  budget : r'.tokenBudgetOf = r.tokenBudgetOf
  lease : r'.leaseId = if r.id = holder.id then none else r.leaseId
  expiry : r'.leaseUntil = if r.id = holder.id then none else r.leaseUntil

theorem Room.mono {budget budget' : Int} (hle : budget ≤ budget') (h : Room env s g budget) :
    Room env s g budget' where
  used := h.used.trans hle
  charged := fun a ha hrunning holder hholder hid hpays =>
    (h.charged a ha hrunning holder hholder hid hpays).trans hle

theorem SameAccount.refl (r : Goal) : SameAccount env P s r r :=
  ⟨rfl, rfl, rfl, fun _ => .inl le_rfl⟩

theorem SameAccount.trans (h : SameAccount env P s r r') (h' : SameAccount env P s r' g) :
    SameAccount env P s r g where
  id := h'.id.trans h.id
  parent := h'.parent.trans h.parent
  used := h'.used.trans h.used
  budget := fun hP => by
    rcases h'.budget hP with hle' | hroom'
    · rcases h.budget hP with hle | hroom
      · exact .inl (hle.trans hle')
      · exact .inr (hroom.mono (by exact_mod_cast hle'))
    · obtain ⟨hused, hcharged⟩ := hroom'
      rw [h.used] at hused hcharged
      rw [h.id] at hcharged
      exact .inr ⟨hused, hcharged⟩

theorem Steady.refl (r : Goal) : Steady env P s r r := ⟨SameAccount.refl r, rfl, .inl⟩

theorem Steady.trans (h : Steady env P s r r') (h' : Steady env P s r' g) : Steady env P s r g where
  toSameAccount := h.toSameAccount.trans h'.toSameAccount
  lease := h'.lease.trans h.lease
  expiry := fun hsome => by
    rcases h'.expiry hsome with hsome' | hsome'
    · exact h.expiry hsome'
    · rw [h.lease] at hsome'
      exact .inr hsome'

theorem Driven.budget (h : Driven r r') : r'.tokenBudgetOf = r.tokenBudgetOf := by
  unfold Goal.tokenBudgetOf
  rw [h.field Goal.tokenBudget fun _ => rfl]

theorem Quiet.steady (h : Quiet r r') : Steady env P s r r' where
  id := h.id
  parent := h.toDriven.field Goal.parentGoalId fun _ => rfl
  used := h.used
  budget := fun _ => .inl h.toDriven.budget.ge
  lease := h.lease
  expiry := fun hsome => by
    rw [h.expiry] at hsome
    exact .inl hsome

/-- What an attempt may use. -/
def Within (env : Env) (goals : List Goal) (a : Attempt) (tokens : Int) : Prop :=
  ∀ holder ∈ goals, holder.id = a.goalId → ∀ g ∈ goals, holder.Pays env g.id →
    g.tokensUsed + tokens ≤ g.tokenBudgetOf

/-- An attempt goes on; what it uses does not grow, or stays within the budgets of `goals`. -/
structure Spends (env : Env) (P : Prop) (goals : List Goal) (a a' : Attempt) : Prop where
  id : a'.id = a.id
  goalId : a'.goalId = a.goalId
  status : a'.status = a.status
  tokens : P → a.status = .running → a'.tokens ≤ a.tokens ∨ Within env goals a a'.tokens

theorem Spends.refl (a : Attempt) : Spends env P goals a a :=
  ⟨rfl, rfl, rfl, fun _ _ => .inl le_rfl⟩

/-- An attempt once the attempt `id` is closed: no other one is touched. -/
structure Ends (id : AttemptId) (a a' : Attempt) : Prop where
  same : a'.id = a.id
  goalId : a'.goalId = a.goalId
  other : a.id ≠ id → a' = a
  closed : a.id = id → a'.status ≠ .running

/-! ## A transaction -/

/-- The attempt `a` of the goal `holder` is closed and charged: it was running, it held the lease,
and every goal that pays is charged with the same amount, once. -/
structure Closed (env : Env) (s t : Store) (holder : Goal) (a : Attempt) (tokens : Int) : Prop where
  goal : holder ∈ s.goals
  attempt : a ∈ s.attempts
  running : a.status = .running
  goalId : a.goalId = holder.id
  lease : holder.leaseId = some a.id
  goals : Rewritten (Settles env holder tokens) s.goals t.goals
  attempts : Rowwise (Ends a.id) s.attempts t.attempts

/-- What a transaction does beside: it charges no goal, and each attempt goes on. -/
inductive Rest (env : Env) (P : Prop) (s t : Store) : Prop
  | work (hgoals : Rewritten (Steady env P s) s.goals t.goals)
      (hattempts : Rowwise (Spends env P t.goals) s.attempts t.attempts)
  | create (g : Goal) (hgoals : t.goals = s.goals ++ [g]) (hnew : ∀ r ∈ s.goals, ¬ r.Pays env g.id)
      (hlease : g.leaseId = none) (hexpiry : g.leaseUntil = none) (hused : g.tokensUsed = 0)
      (hattempts : t.attempts = s.attempts)
  | dispatch (goals : List Goal) (g : Goal) (hg : g ∈ goals)
      (attempt : AttemptId) (leaseUntil : Nat)
      (hquiet : Rewritten Quiet s.goals goals) (hfree : ∀ r ∈ s.goals, r.leaseId = none)
      (hgoals : t.goals = updateWhere (·.id = g.id)
        (fun r => { r with leaseId := some attempt, leaseUntil := some leaseUntil }) goals)
      (hattempts : t.attempts = s.attempts ++ [{ id := attempt, goalId := g.id }])

theorem Rest.of_goals (hgoals : Rewritten (Steady env P s) s.goals t.goals)
    (hattempts : t.attempts = s.attempts) :
    Rest env P s t :=
  .work hgoals (by rw [hattempts]; exact .refl Spends.refl s.attempts)

theorem Rest.refl (s : Store) : Rest env P s s := .of_goals (.refl Steady.refl s.goals) rfl

/-! ## An attempt is closed -/

/-- The goals of `hits` are charged, and the others are not. -/
structure Charges (hits : GoalId → Prop) [DecidablePred hits]
    (tokens : Int) (r r' : Goal) : Prop where
  id : r'.id = r.id
  parent : r'.parentGoalId = r.parentGoalId
  used : r'.tokensUsed = r.tokensUsed + if hits r.id then tokens else 0
  budget : r'.tokenBudgetOf = r.tokenBudgetOf
  lease : r'.leaseId = r.leaseId
  expiry : r'.leaseUntil = r.leaseUntil

section Charges

variable {hits : GoalId → Prop} [DecidablePred hits]

theorem Charges.of_not (h : ¬ hits r.id) : Charges hits tokens r r where
  id := rfl
  parent := rfl
  used := by rw [if_neg h, add_zero]
  budget := rfl
  lease := rfl
  expiry := rfl

theorem Charges.quiet (h : Charges hits tokens r r') (h' : Quiet r' g) :
    Charges hits tokens r g where
  id := h'.id.trans h.id
  parent := (h'.toDriven.field Goal.parentGoalId fun _ => rfl).trans h.parent
  used := h'.used.trans h.used
  budget := h'.toDriven.budget.trans h.budget
  lease := h'.lease.trans h.lease
  expiry := h'.expiry.trans h.expiry

end Charges

/-- The parent is charged. -/
theorem chargeParent_charges {cost : ℚ} (hwf : WellFormed env goals) (hr : r ∈ goals)
    (h : chargeParent env tokens cost r goals = .ok goals') :
    Rewritten (Charges (fun id => r.parentGoalId = some (env.idText id)) tokens) goals goals' := by
  unfold chargeParent at h
  split at h
  · next hnone =>
    cases h
    exact .refl (fun g => .of_not (by rw [hnone]; exact nofun)) goals
  · next text htext =>
    split at h
    · cases h
    next parent hlocked =>
    cases h
    obtain ⟨p, -, hname, -⟩ := hwf.family r hr text htext
    have hparent : text = env.idText parent.id := by
      rw [hname]
      exact congrArg env.idText (id_of_text hlocked hname.symm).symm
    have hmem := row_mem (locked_spec hlocked).2
    refine Rewritten.saved (R := Eq) hwf.keys (fun _ _ h => by rw [h])
      (.refl (fun _ => rfl) goals) hmem rfl
      ?_ ?_
    · rintro a _ hne rfl
      refine .of_not fun hhit => hne ?_
      exact idText_injective env
        (Option.some.inj (hhit.symm.trans (htext.trans (congrArg some hparent))))
    · rintro _ rfl
      refine ⟨rfl, rfl, ?_, rfl, rfl, rfl⟩
      rw [if_pos (htext.trans (congrArg some hparent))]
      rfl

/-- The goal is charged, and gives up its lease. -/
theorem settled {charged : List Goal} {cost : ℚ} (hwf : WellFormed env goals) (hr : r ∈ goals)
    (hcharged : chargeParent env tokens cost r goals = .ok charged)
    (hquiet : Rewritten Quiet charged goals') (hg : Unclaimed r g)
    (hused : g.tokensUsed = r.tokensUsed + tokens) :
    Rewritten (Settles env r tokens) goals (release g.id (save g goals')) := by
  have hid : g.id = r.id := hg.toDriven.id
  have hcharges := (chargeParent_charges hwf hr hcharged).comp (fun _ _ _ h h' => h.quiet h') hquiet
  -- the goal and its parent are charged with the same tokens, the one by `charge` and the other by
  -- `chargeParent`
  have hsaved : Rewritten (Charges (r.Pays env) tokens) goals (save g goals') := by
    refine hcharges.saved hwf.keys (fun _ _ h => h.id) hr hid ?_ ?_
    · intro a b hne h
      refine ⟨h.id, h.parent, h.used.trans ?_, h.budget, h.lease, h.expiry⟩
      have hsame : r.parentGoalId = some (env.idText a.id) ↔ r.Pays env a.id :=
        ⟨.inr, fun hpays => hpays.resolve_left hne⟩
      rw [if_congr hsame rfl rfl]
    · intro b h
      refine ⟨hid, hg.toDriven.field Goal.parentGoalId fun _ => rfl,
        ?_, hg.toDriven.budget, h.lease,
        h.expiry⟩
      rw [if_pos (.inl rfl)]
      exact hused
  -- and the lease of the goal alone is given up
  have hreleased : Rewritten (fun b c => c = if b.id = r.id then
      { b with leaseId := none, leaseUntil := none } else b) (save g goals')
      (release g.id (save g goals')) := by
    unfold Rewritten release updateWhere
    rw [List.forall₂_map_right_iff, hid]
    refine List.forall₂_same.mpr fun b _ => ?_
    simp only [decide_eq_true_eq]
  refine hsaved.comp ?_ hreleased
  rintro a b _ h rfl
  by_cases hholder : a.id = r.id
  · rw [if_pos (h.id.trans hholder)]
    exact ⟨h.id, h.parent, h.used, h.budget, (if_pos hholder).symm, (if_pos hholder).symm⟩
  · rw [if_neg (h.id.symm ▸ hholder)]
    exact ⟨h.id, h.parent, h.used, h.budget, h.lease.trans (if_neg hholder).symm,
      h.expiry.trans (if_neg hholder).symm⟩

/-- Attempts that run hold the leases, at most one at a time: no attempt runs without the lease, and
none that has ended holds it. -/
structure Booked (s : Store) : Prop where
  keys : KeyUnique Attempt.id s.attempts
  one : OneLease s.goals
  expiry : ∀ g ∈ s.goals, g.leaseUntil.isSome → g.leaseId.isSome
  holder : ∀ a ∈ s.attempts, a.status = .running →
    ∃ g ∈ s.goals, g.id = a.goalId ∧ g.leaseId = some a.id
  held : ∀ g ∈ s.goals, ∀ id, g.leaseId = some id →
    ∃ a ∈ s.attempts, a.id = id ∧ a.goalId = g.id ∧ a.status = .running

/-- The rows of the other attempts stay. -/
theorem ends_updateWhere {p : Attempt → Bool} {f : Attempt → Attempt}
    (hkeys : KeyUnique Attempt.id s.attempts)
    (ha : a ∈ s.attempts) (hp : p a = true) (hother : ∀ b, b.id ≠ a.id → p b = false)
    (hid : ∀ b, (f b).id = b.id ∧ (f b).goalId = b.goalId ∧ (f b).status ≠ .running) :
    Rowwise (Ends a.id) s.attempts (updateWhere p f s.attempts) := by
  refine ⟨_, rfl, fun b hb => ?_⟩
  by_cases heq : b.id = a.id
  · rw [hkeys.eq hb ha heq, if_pos hp]
    exact ⟨(hid a).1, (hid a).2.1, fun hne => absurd rfl hne, fun _ => (hid a).2.2⟩
  · rw [hother b heq]
    exact ⟨rfl, rfl, fun _ => rfl, fun h => absurd h heq⟩

/-- **The recovery of a lease** charges what the attempt has used, as its row says. -/
theorem recover_closed (hwf : WellFormed env s.goals) (hs : Booked s) (hr : r ∈ s.goals)
    (hexpired : r.leaseUntil.isSome) (h : recover env now s r = .ok t) :
    ∃ a, Closed env s t r a a.tokens := by
  obtain ⟨attempt, hlease⟩ := Option.isSome_iff_exists.mp (hs.expiry r hr hexpired)
  obtain ⟨a, ha, rfl, hgoal, hrunning⟩ := hs.held r hr attempt hlease
  obtain ⟨goals, g, hg, hcharged, hgoals, hattempts, -⟩ := recover_spec h
  have hmine : decide (some a.id = r.leaseId ∧ a.status = .running) = true :=
    decide_eq_true ⟨hlease.symm, hrunning⟩
  rcases hcharged with ⟨a', husage, hparents, hused⟩ | ⟨hnone, -⟩
  · have hfound : a' = a := by
      have hholds := List.find?_some husage
      refine hs.keys.eq (List.mem_of_find?_eq_some husage) ha ?_
      exact Option.some.inj ((of_decide_eq_true hholds).1.trans hlease)
    subst hfound
    refine ⟨a', hr, ha, hrunning, hgoal, hlease, ?_, ?_⟩
    · rw [hgoals]
      exact settled hwf hr hparents (.refl Quiet.refl goals) hg hused
    · rw [hattempts]
      refine ends_updateWhere hs.keys ha hmine (fun b hne => ?_) fun b => ⟨rfl, rfl, nofun⟩
      exact decide_eq_false fun hb => hne (Option.some.inj (hb.1.trans hlease))
  · exact absurd hmine (List.find?_eq_none.mp hnone a ha)

/-- There is at most one lease to recover. -/
theorem expired_cases (hkeys : KeyUnique Goal.id s.goals) (hone : OneLease s.goals)
    (hexpiry : ∀ g ∈ s.goals, g.leaseUntil.isSome → g.leaseId.isSome) :
    s.goals.filter (fun g => g.leaseUntil.any (· < now)) = [] ∨
      ∃ r ∈ s.goals, r.leaseUntil.isSome ∧
        s.goals.filter (fun g => g.leaseUntil.any (· < now)) = [r] := by
  have hleased : ∀ r ∈ s.goals.filter (fun g => g.leaseUntil.any (· < now)),
      r ∈ s.goals ∧ r.leaseUntil.isSome := by
    intro r hr
    obtain ⟨hmem, hany⟩ := List.mem_filter.mp hr
    refine ⟨hmem, ?_⟩
    obtain ⟨at_, hat, -⟩ := (Option.any_eq_true _ _).mp hany
    rw [hat]
    rfl
  have hnodup : (s.goals.filter fun g => g.leaseUntil.any (· < now)).Nodup :=
    (List.Nodup.of_map _ hkeys).filter _
  cases hlist : s.goals.filter fun g => g.leaseUntil.any (· < now) with
  | nil => exact .inl rfl
  | cons r rows =>
    rw [hlist] at hleased hnodup
    obtain ⟨hr, hsome⟩ := hleased r List.mem_cons_self
    refine .inr ⟨r, hr, hsome, ?_⟩
    cases rows with
    | nil => rfl
    | cons r' rows =>
      obtain ⟨hr', hsome'⟩ := hleased r' (List.mem_cons_of_mem _ List.mem_cons_self)
      have hsame := hone r hr r' hr' (hexpiry r hr hsome) (hexpiry r' hr' hsome')
      rw [hsame] at hnodup
      exact absurd List.mem_cons_self (List.nodup_cons.mp hnodup).1

/-- **`reconcile`** closes the attempt whose lease has run out, if there is one. -/
theorem reconcile_closed (hwf : WellFormed env s.goals)
    (hs : Booked s) (h : reconcile env now s = .ok t) :
    ∃ u, (u = s ∨ ∃ r a, Closed env s u r a a.tokens) ∧ Rewritten Quiet u.goals t.goals ∧
      t.attempts = u.attempts := by
  obtain ⟨u, hfold, rfl⟩ := reconcile_spec h
  refine ⟨u, ?_, ?_, wakeWaiting_attempts⟩
  · rcases @expired_cases s now hwf.keys hs.one hs.expiry with hnone | ⟨r, hr, hsome, hlist⟩
    · rw [hnone] at hfold
      cases hfold
      exact .inl rfl
    · rw [hlist, List.foldlM_cons] at hfold
      cases hrecover : recover env now s r with
      | error error =>
        rw [hrecover] at hfold
        cases hfold
      | ok u' =>
        rw [hrecover] at hfold
        cases hfold
        obtain ⟨a, hclosed⟩ := recover_closed hwf hs hr hsome hrecover
        exact .inr ⟨r, a, hclosed⟩
  · refine wakeWaiting_quiet ?_
    exact (foldlM_recover_unclaimed hwf.keys (.refl Unclaimed.refl s.goals)
      (fun r hr => (List.mem_filter.mp hr).1) hfold).keys_unclaimed hwf.keys

/-! ## The transactions -/

/-- A worker that ends the attempt reports what the attempt has been charged with, or more. -/
def Op.Covers (a : Attempt) : Op → Prop
  | .finish _ attempt report => attempt = a.id → a.tokens ≤ max 0 report.tokens
  | _ => True

/-- **The condition** for the budgets: nothing is reported that was not charged before, and a new
budget has room for what is used. -/
def Op.Measured (env : Env) (s : Store) : Op → Prop
  | .update goalId change _ _ => change.action = .resume → ∀ q, locked env s.goals goalId = .ok q →
    ∀ budget, change.tokenBudget = some budget →
      Room env s q (orDefault (some budget) defaultTokenBudget : Nat)
  | .heartbeat _ attempt usage => ∀ tokens cost, usage = some (tokens, cost) → ∀ a ∈ s.attempts,
    a.id = attempt → a.status = .running → tokens ≤ a.tokens
  | .finish _ attempt report => ∀ a ∈ s.attempts, a.id = attempt → a.status = .running →
    report.tokens ≤ max 0 a.tokens
  | _ => True

/-- A transaction closes an attempt or none, and does the rest. -/
def Posts (env : Env) (covers : Attempt → Prop) (measured : Prop) (s t : Store) : Prop :=
  ∃ u, (u = s ∨ ∃ r a tokens, Closed env s u r a tokens ∧ (a.tokens ≤ tokens ↔ covers a) ∧
    (measured → tokens ≤ max 0 a.tokens)) ∧ Rest env measured u t

theorem Rest.posts {covers : Attempt → Prop} (h : Rest env P s t) : Posts env covers P s t :=
  ⟨s, .inl rfl, h⟩

/-- A transaction of the store. -/
def Op.Posts (env : Env) (op : Op) (s t : Store) : Prop :=
  Goals.Posts env op.Covers (op.Measured env s) s t

/-- The account after a command. -/
theorem transition_account (h : q.transition env now change operator = .ok g) :
    (annotate g change asked).tokensUsed = q.tokensUsed ∧
      ((annotate g change asked).tokenBudget = q.tokenBudget ∨ (change.action = .resume ∧
        (annotate g change asked).tokenBudget = change.tokenBudget.or q.tokenBudget)) := by
  obtain ⟨-, -, a, ha, rfl⟩ := transition_spec h
  have hannotate : (annotate (a.bump change) change asked).tokensUsed = a.tokensUsed ∧
      (annotate (a.bump change) change asked).tokenBudget = a.tokenBudget := by
    unfold annotate Goal.bump
    dsimp only
    split <;> split <;> exact ⟨rfl, rfl⟩
  rw [hannotate.1, hannotate.2]
  cases apply_inv ha with
  | progress _ =>
    unfold Goal.progress
    dsimp only
    split_ifs <;> exact ⟨rfl, .inl rfl⟩
  | resume haction _ _ _ => exact ⟨rfl, .inr ⟨haction, rfl⟩⟩
  | _ => exact ⟨rfl, .inl rfl⟩

theorem update_attempts (h : s.update env now goalId change operator asked = .ok t) :
    t.attempts = s.attempts := by
  unfold Store.update at h
  dsimp only at h
  repeat' split at h
  all_goals first
    | cases h; rfl
    | cases h

theorem update_posts (hkeys : KeyUnique Goal.id s.goals)
    (h : s.update env now goalId change operator asked = .ok t) :
    (Op.update goalId change operator asked).Posts env s t := by
  refine Rest.posts (.of_goals ?_ (update_attempts h))
  refine update_rewritten hkeys h Steady.refl (fun _ _ _ => Steady.trans) (fun _ _ h => h.id)
    (fun _ _ => Quiet.steady) ?self ?restored ?followed
  case self =>
    intro q g hlocked htransition
    have hupdates := @transition_updates _ _ _ _ _ _ asked goalId htransition q.leaseId q.leaseUntil
    obtain ⟨hused, hbudget⟩ := @transition_account _ _ _ _ _ _ asked htransition
    refine ⟨⟨hupdates.id, hupdates.parent, hused, fun hmeasured => ?_⟩, rfl, .inl⟩
    unfold Goal.tokenBudgetOf
    dsimp only
    rcases hbudget with hsame | ⟨haction, hraised⟩
    · rw [hsame]
      exact .inl le_rfl
    · rw [hraised]
      cases hchange : change.tokenBudget with
      | none => exact .inl le_rfl
      | some budget => exact .inr (hmeasured haction q hlocked budget hchange)
  case restored => exact fun _ _ _ _ => ⟨⟨rfl, rfl, rfl, fun _ => .inl le_rfl⟩, rfl, .inl⟩
  case followed =>
    intro r status _ _ _
    unfold Goal.followed
    dsimp only
    split <;> exact ⟨⟨rfl, rfl, rfl, fun _ => .inl le_rfl⟩, rfl, .inl⟩

theorem create_posts {spec : CreateGoal} {newId : GoalId} (hwf : WellFormed env s.goals)
    (h : s.create env now spec newId = .ok t) : (Op.create spec newId).Posts env s t := by
  rcases create_inv h with rfl | ⟨spec', key, rfl, hnew, -⟩
  · exact (Rest.refl t).posts
  · refine Rest.posts
      (.create (spec'.newGoal now newId key) rfl (fun r hr hpays => ?_) rfl rfl rfl rfl)
    rcases hpays with hself | htext
    · exact hnew r hr hself.symm
    · obtain ⟨p, hp, hname, -⟩ := hwf.family r hr _ htext
      exact hnew p hp (idText_injective env hname).symm

/-- The end of a run closes its attempt with what the worker reports. -/
theorem finish_posts {report : Report} (hwf : WellFormed env s.goals) (hs : Booked s)
    (h : s.finish env now goalId attempt report = .ok t) :
    (Op.finish goalId attempt report).Posts env s t := by
  rcases finish_spec h with rfl
    | ⟨r, hr, charged, goals, g, hlease, hcharged, hwoken, hg, hused, hgoals,
    hattempts⟩
  · exact (Rest.refl t).posts
  obtain ⟨a, ha, rfl, hgoal, hrunning⟩ := hs.held r hr attempt hlease
  have hkeys := (chargeParent_unclaimed hwf.keys hcharged).keys_unclaimed hwf.keys
  refine ⟨t,
    .inr ⟨r, a, max 0 report.tokens, ⟨hr, ha, hrunning, hgoal, hlease, ?_, ?_⟩, ?_, ?_⟩, .refl t⟩
  · rw [hgoals]
    exact settled hwf hr hcharged (wakeBlocked_quiet hkeys hwoken) hg hused
  · rw [hattempts]
    refine ends_updateWhere hs.keys ha (decide_eq_true rfl)
      (fun b hne => decide_eq_false hne) fun b => ?_
    refine ⟨rfl, rfl, ?_⟩
    dsimp only
    split <;> nofun
  · exact ⟨fun hcovers _ => hcovers, fun hcovers => hcovers rfl⟩
  · exact fun hmeasured => max_le (le_max_left 0 a.tokens) (hmeasured a ha rfl hrunning)

/-- A claim closes the attempt whose lease has run out. -/
theorem claim_posts {tie : Goal → Nat} (hwf : WellFormed env s.goals) (hs : Booked s)
    (h : s.claim env now tie attempt = .ok t) : (Op.claim tie attempt).Posts env s t := by
  rcases claim_spec hwf.keys h with ⟨-, rfl⟩ | ⟨t', hreconcile, -, hrest⟩
  · exact (Rest.refl t).posts
  obtain ⟨u, hclosed, hwoken, hattempts⟩ := reconcile_closed hwf hs hreconcile
  refine ⟨u, hclosed.imp_right ?_, ?_⟩
  · rintro ⟨r, a, hclosed⟩
    exact ⟨r, a, a.tokens, hclosed, ⟨fun _ => trivial, fun _ => le_rfl⟩,
      fun _ => le_max_right 0 a.tokens⟩
  · rcases hrest with ⟨hquiet, hsame⟩ | ⟨goals, g, hg, leaseUntil, hquiet, hfree, hgoals, hadded⟩
    · exact .of_goals ((hwoken.trans_quiet hquiet).mono fun _ _ => Quiet.steady)
        (hsame.trans hattempts)
    · refine .dispatch goals g hg attempt leaseUntil
        (hwoken.trans_quiet hquiet) (fun r hr => ?_) hgoals
        (by rw [hadded, hattempts])
      obtain ⟨r', hr', hrow⟩ := hwoken.kept hr
      rw [← hrow.lease]
      exact hfree r' hr'

theorem heartbeat_posts {usage : Option (Int × ℚ)} :
    (Op.heartbeat goalId attempt usage).Posts env s (s.heartbeat env now goalId attempt usage) := by
  refine Rest.posts (.work ?_ ?_)
  · refine rewritten_updateWhere Steady.refl fun r _ hholds => ?_
    have hlease := (of_decide_eq_true hholds).2.1
    exact ⟨⟨rfl, rfl, rfl, fun _ => .inl le_rfl⟩, rfl, fun _ => .inr (by rw [hlease]; rfl)⟩
  · unfold Store.heartbeat
    dsimp only
    split
    · cases usage with
      | none => exact .refl Spends.refl s.attempts
      | some used =>
        refine .updateWhere Spends.refl fun a ha hmine =>
          ⟨rfl, rfl, rfl, fun hmeasured hrunning => .inl ?_⟩
        have hid := (of_decide_eq_true hmine).1
        exact max_le le_rfl (hmeasured used.1 used.2 rfl a ha hid hrunning)
    · exact .refl Spends.refl s.attempts

/-- The goals that an attempt is charged to are the goal and its parent. -/
theorem pays_mem {parent : List Goal} (hkeys : KeyUnique Goal.id goals) (hholder : holder ∈ goals)
    (hparent : parentOf env goals holder = .ok parent)
    (hg : g ∈ goals) (hpays : holder.Pays env g.id) :
    g ∈ holder :: parent := by
  rcases hpays with hself | htext
  · rw [hkeys.eq hg hholder hself]
    exact List.mem_cons_self
  · unfold parentOf at hparent
    rw [htext, Option.elim_some, locked_of_row (env.uuid_idText g.id) (row_of_mem hkeys hg)]
      at hparent
    cases hparent
    exact List.mem_cons_of_mem holder List.mem_cons_self

/-- What the budgets of the goal and of its parent admit: the refusals of `reserve` are about the
goals that pay. -/
theorem within_budgets {parent : List Goal} {refused : Goal → Prop} [DecidablePred refused]
    (hkeys : KeyUnique Goal.id goals) (hholder : holder ∈ goals) (hgoal : a.goalId = holder.id)
    (hparent : parentOf env goals holder = .ok parent)
    (hadmitted : ¬ (holder :: parent).any fun g => refused g ∨
      (g.tokenBudgetOf : Int) < g.tokensUsed + tokens) : Within env goals a tokens := by
  intro holder' hholder' hid g hg hpays
  rw [hkeys.eq hholder' hholder (hid.trans hgoal)] at hpays
  by_contra hover
  refine hadmitted (List.any_eq_true.mpr ⟨g, pays_mem hkeys hholder hparent hg hpays, ?_⟩)
  exact decide_eq_true (.inr (not_le.mp hover))

theorem reserve_posts (hkeys : KeyUnique Goal.id s.goals) (hs : Booked s)
    (h : s.reserve env now goalId attempt tokens = .ok t) :
    (Op.reserve goalId attempt tokens).Posts env s t := by
  refine Rest.posts (.work ?_ ?_) <;> rw [reserve_goals h]
  · exact .refl Steady.refl s.goals
  unfold Store.reserve at h
  split at h
  · cases h
  next g hfind =>
  split at h
  · cases h
  next parent hparent =>
  split at h
  · cases h
  next hadmitted =>
  split at h
  · cases h
    have hholds := List.find?_some hfind
    have hg : g ∈ s.goals := List.mem_of_find?_eq_some hfind
    obtain ⟨a, ha, hid, hgoal, -⟩ := hs.held g hg attempt (of_decide_eq_true hholds).2.1
    refine .updateWhere Spends.refl fun b hb hmine => ⟨rfl, rfl, rfl, fun _ _ => ?_⟩
    have hsame : b = a := hs.keys.eq hb ha ((of_decide_eq_true hmine).1.trans hid.symm)
    rcases le_total tokens b.tokens with hle | hle
    · exact .inl (max_le le_rfl hle)
    · refine .inr ?_
      dsimp only
      rw [max_eq_right hle, hsame]
      exact within_budgets hkeys hg hgoal hparent hadmitted
  · cases h

/-- **What a transaction of the store closes and charges.** -/
theorem transact_posts (hwf : WellFormed env s.goals) (hs : Booked s)
    (h : s.transact env now op = .ok t) : op.Posts env s t := by
  cases op with
  | create spec newId => exact create_posts hwf h
  | update goalId change operator asked => exact update_posts hwf.keys h
  | claim tie attempt => exact claim_posts hwf hs h
  | heartbeat goalId attempt usage =>
    cases h
    exact heartbeat_posts
  | finish goalId attempt report => exact finish_posts hwf hs h
  | reserve goalId attempt tokens => exact reserve_posts hwf.keys hs h
  | ingest event =>
    unfold Store.transact at h
    cases h
    refine Rest.posts (.of_goals ?_ ?_)
    · split <;> exact .refl Steady.refl _
    · split <;> rfl
  | setEnabled value =>
    cases h
    exact Rest.posts (.of_goals (.refl Steady.refl s.goals) rfl)

/-! ## The reservations -/

variable {l l' : Ledger} {callId : String} {maximum : Int} {actual : Option Int}

/-- The ledger writes the attempts only. -/
def LedgerOp.Covers (a : Attempt) : LedgerOp → Prop
  | .store op => op.Covers a
  | _ => True

/-- Nor does a settlement exceed its reservation. -/
def LedgerOp.Measured (env : Env) (l : Ledger) : LedgerOp → Prop
  | .store op => op.Measured env l.store
  | .settle _ attempt callId actual => ∀ r ∈ l.reservations, r.attemptId = attempt →
      r.callId = callId →
    ∀ tokens, actual = some tokens → tokens ≤ r.reserved
  | _ => True

theorem attemptOf_spec (h : s.attemptOf env goalId attempt = .ok (a, g)) :
    a ∈ s.attempts ∧ a.id = attempt ∧ row s.goals a.goalId = some g := by
  unfold Store.attemptOf at h
  split at h
  · cases h
  next a' hfind =>
  split at h
  · cases h
  next g' hrow =>
  cases h
  have hholds := List.find?_some hfind
  exact ⟨List.mem_of_find?_eq_some hfind, (of_decide_eq_true hholds).1, hrow⟩

theorem authorizedAttempt_spec (h : s.authorizedAttempt env now goalId attempt = .ok (a, g)) :
    s.attemptOf env goalId attempt = .ok (a, g) := by
  unfold Store.authorizedAttempt at h
  split at h
  · cases h
  next a' g' hattempt =>
  rw [hattempt]
  repeat' split at h
  all_goals cases h
  rfl

/-- **A reservation** stays within the budgets. -/
theorem ledger_reserve_posts (hkeys : KeyUnique Goal.id l.store.goals) (hs : Booked l.store)
    (h : l.reserve env now goalId attempt callId maximum = .ok l') :
    Posts env (fun _ => True) True l.store l'.store := by
  unfold Ledger.reserve at h
  split at h
  · cases h
  split at h
  · cases h
  next a g hauthorized =>
  dsimp only at h
  split at h
  · cases h
  split at h
  · cases h
  split at h
  · cases h
  next parent hparent =>
  split at h
  · cases h
  next hadmitted =>
  cases h
  obtain ⟨ha, hid, hrow⟩ := attemptOf_spec (authorizedAttempt_spec hauthorized)
  refine Rest.posts (.work (.refl Steady.refl l.store.goals) ?_)
  refine .updateWhere Spends.refl fun b hb hmine => ⟨rfl, rfl, rfl, fun _ _ => .inr ?_⟩
  rw [hs.keys.eq hb ha ((of_decide_eq_true hmine).trans hid.symm)]
  exact within_budgets hkeys (row_mem hrow) (row_id hrow).symm hparent hadmitted

/-- **A settlement** that does not exceed its reservation gives tokens back. -/
theorem settle_posts (h : l.settle env goalId attempt callId actual = .ok l') :
    Posts env (fun _ => True) ((LedgerOp.settle goalId attempt callId actual).Measured env l)
      l.store l'.store := by
  unfold Ledger.settle at h
  split at h
  · cases h
  split at h
  · cases h
  next a g hattempt =>
  split at h
  · cases h
  next r hfind =>
  have hfound := List.find?_some hfind
  have hholds := of_decide_eq_true hfound
  split at h
  · cases h
    -- the call was settled before
    exact (Rest.refl _).posts
  next tokens _ =>
  split at h
  · split at h
    · cases h
    · cases h
      exact (Rest.refl _).posts
  split at h
  · cases h
  cases h
  refine Rest.posts (.work (.refl Steady.refl l.store.goals) ?_)
  refine .updateWhere Spends.refl fun b _ _ => ⟨rfl, rfl, rfl, fun hmeasured _ => .inl ?_⟩
  -- the provider has reported no more than was reserved, so the attempt does not go up
  have hle := hmeasured r (List.mem_of_find?_eq_some hfind) hholds.1 hholds.2 tokens rfl
  dsimp only
  omega

/-- **What a transaction closes and charges.** -/
theorem ledger_posts {op : Nat × LedgerOp} (hwf : WellFormed env l.store.goals)
    (hs : Booked l.store)
    (h : (ledger env).step l op l') :
    Posts env op.2.Covers (op.2.Measured env l) l.store l'.store := by
  obtain ⟨now, op⟩ := op
  obtain ⟨h, -⟩ := h
  cases op with
  | store op =>
    have h : (l.store.transact env now op).map (fun store => { l with store }) = .ok l' := h
    cases htransact : l.store.transact env now op with
    | error error =>
      rw [htransact] at h
      cases h
    | ok t =>
      rw [htransact] at h
      cases h
      exact transact_posts hwf hs htransact
  | reserve goalId attempt callId maximum => exact ledger_reserve_posts hwf.keys hs h
  | settle goalId attempt callId actual => exact settle_posts h

end GenusOs.Goals
