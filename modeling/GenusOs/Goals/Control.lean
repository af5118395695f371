import GenusOs.Goals.Review
import Mathlib

/-!
# Who moves a goal

Each transaction moves the goals of a tenant by the same rules: one lease, closed goals stay closed,
and what is held is started again by the operator. A family closes with its parent where the
commands that close it name it by the text that its children keep.

* `governed_step`: what a transaction does to a row.
* `closed_step`: closed parents and their children.
* `one_lease_and_closed_families`: every run.
-/

namespace GenusOs.Goals

open Rows

variable {env : Env} {goals goals' : List Goal} {q g r r' p c : Goal} {s t : Store} {now : Nat}
  {goalId : String} {change : GoalUpdate} {operator : Bool}
      {asked : Asked} {op : Op} {attempt : AttemptId}

/-- `resume`, `approve` and `cancel` -/
def Action.restarts : Action → Bool
  | resume | approve | cancel => true
  | _ => false

/-- `queued`, `waiting` and `running` -/
def Status.active : Status → Bool
  | queued | waiting | running => true
  | _ => false

/-- The operator resumes, approves or cancels. -/
def Op.restarts : Op → Bool
  | .update _ change operator _ => operator && change.action.restarts
  | _ => false

/-- The operation completes or cancels a goal, under any spelling of its id. -/
def Op.closes (env : Env) (op : Op) (id : GoalId) : Prop :=
  op.commands env id .complete ∨ op.commands env id .cancel

/-- The goal is closed, or is once its review is approved. -/
def Goal.Closing (g : Goal) : Prop :=
  g.status.terminal = true ∨ (g.status = .review ∧ g.mode ≠ .ongoing)

/-! ## A row -/

theorem not_active_of_held {status : Status} (h : status.held = true) : status.active = false := by
  cases status with
  | paused | blocked | review => rfl
  | _ => cases h

theorem held_or_terminal {status : Status} (h : status.active = false) :
    status.held = true ∨ status.terminal = true := by
  cases status with
  | queued | waiting | running => cases h
  | paused | blocked | review => exact .inl rfl
  | complete | canceled => exact .inr rfl

theorem not_closing (hterminal : g.status.terminal = false) (hreview : g.status ≠ .review) :
    ¬ g.Closing := by
  rintro (hclosed | ⟨hstatus, -⟩)
  · rw [hterminal] at hclosed
    cases hclosed
  · exact hreview hstatus

theorem Goal.Closing.inactive (h : g.Closing) : g.status.inactive = true := by
  unfold Status.inactive
  rcases h with hclosed | ⟨hreview, -⟩
  · rw [hclosed, Bool.true_or]
  · rw [hreview]
    rfl

/-- A goal goes on: what is closed stays closed, and the version goes up with each change of the
status. -/
structure Onward (r r' : Goal) : Prop where
  closed : r.status.terminal = true → r'.status = r.status
  version : r.version ≤ r'.version
  changed : r'.status ≠ r.status → r.version < r'.version

theorem Onward.refl (r : Goal) : Onward r r := ⟨fun _ => rfl, le_rfl, fun h => absurd rfl h⟩

theorem Onward.trans (h : Onward r r') (h' : Onward r' g) : Onward r g where
  closed := fun hr => (h'.closed (by rw [h.closed hr]; exact hr)).trans (h.closed hr)
  version := h.version.trans h'.version
  changed := fun hne => by
    by_cases hsame : g.status = r'.status
    · exact (h.changed (hsame ▸ hne)).trans_le h'.version
    · exact h.version.trans_lt (h'.changed hsame)

/-- A row that an operation writes: the goal goes on, one that is held is active again only where
the operator has restarted it, and the head of a family closes by a command to it only. -/
structure Governed (env : Env) (op : Op) (r r' : Goal) : Prop extends Onward r r' where
  same : r'.id = r.id
  parent : r'.parentGoalId = r.parentGoalId
  held : r.status.held = true → r'.status.active = true → op.restarts = true
  head : r.parentGoalId = none → r.pausedByParent = none →
    r'.pausedByParent = none ∧ (r'.Closing → r.Closing ∨ op.closes env r.id)

theorem Governed.refl (r : Goal) : Governed env op r r where
  toOnward := Onward.refl r
  same := rfl
  parent := rfl
  held := fun hheld hactive => by
    rw [not_active_of_held hheld] at hactive
    cases hactive
  head := fun _ hmarker => ⟨hmarker, .inl⟩

/-- The parts of a transaction are governed by one operation. -/
theorem Governed.trans (h : Governed env op r r') (h' : Governed env op r' g) :
    Governed env op r g where
  toOnward := h.toOnward.trans h'.toOnward
  same := h'.same.trans h.same
  parent := h'.parent.trans h.parent
  held := fun hheld hactive => by
    cases hmid : r'.status.active with
    | true => exact h.held hheld hmid
    | false =>
      rcases held_or_terminal hmid with hheld' | hclosed
      · exact h'.held hheld' hactive
      · rw [h'.closed hclosed, hmid] at hactive
        cases hactive
  head := fun hnone hmarker => by
    obtain ⟨hmarker', hcloses⟩ := h.head hnone hmarker
    obtain ⟨hmarker'', hcloses'⟩ := h'.head (h.parent.trans hnone) hmarker'
    refine ⟨hmarker'', fun hclosing => ?_⟩
    rcases hcloses' hclosing with hclosing' | hcommand
    · exact hcloses hclosing'
    · exact .inr (h.same ▸ hcommand)

theorem Driven.governed (h : Driven r r') : Governed env op r r' where
  same := h.id
  parent := h.field Goal.parentGoalId fun _ => rfl
  closed := fun hr => h.status_eq (by unfold Status.inactive; rw [hr, Bool.true_or])
  version := h.version
  changed := h.changed
  held := fun hheld hactive => by
    have hsame := h.status_eq (by unfold Status.inactive; rw [hheld, Bool.or_true])
    rw [hsame, not_active_of_held hheld] at hactive
    cases hactive
  head := fun _ hmarker => by
    refine ⟨(h.field Goal.pausedByParent fun _ => rfl).trans hmarker, fun hclosing => .inl ?_⟩
    rcases h.status with hsame | ⟨-, hmoved⟩
    · unfold Goal.Closing at hclosing ⊢
      rw [← hsame, ← h.field Goal.mode fun _ => rfl]
      exact hclosing
    · refine absurd hclosing ?_
      rcases hmoved with hmoved | hmoved | hmoved <;>
        exact not_closing (by rw [hmoved]; rfl) (by rw [hmoved]; decide)

theorem restored_governed (hrestarts : op.restarts = true)
    (hmarker : r.pausedByParent = some goalId)
    (hpaused : r.status = .paused) : Governed env op r r.restored where
  same := rfl
  parent := rfl
  closed := fun hclosed => by
    rw [hpaused] at hclosed
    cases hclosed
  version := Nat.le_succ _
  changed := fun _ => Nat.lt_succ_self _
  held := fun _ _ => hrestarts
  head := fun _ hnone => by
    rw [hmarker] at hnone
    cases hnone

theorem followed_version {action : Action} {status : Status} :
    (r.followed goalId action status).version = r.version + 1 := by
  unfold Goal.followed
  dsimp only
  split <;> rfl

theorem followed_governed {action : Action} {status : Status}
    (hstatus : action = .pause ∧ status = .paused ∨ action = .cancel ∧ status = .canceled)
    (hparent : r.parentGoalId = some goalId) (hopen : r.status.terminal = false) :
    Governed env op r (r.followed goalId action status) where
  same := followed_family.1
  parent := followed_family.2.1
  closed := fun hclosed => by
    rw [hopen] at hclosed
    cases hclosed
  version := by
    rw [followed_version]
    exact Nat.le_succ _
  changed := fun _ => by
    rw [followed_version]
    exact Nat.lt_succ_self _
  held := fun _ hactive => by
    have hfollowed : (r.followed goalId action status).status = status := rfl
    rw [hfollowed] at hactive
    rcases hstatus with ⟨-, rfl⟩ | ⟨-, rfl⟩ <;> cases hactive
  head := fun hnone => by
    rw [hparent] at hnone
    cases hnone

/-- A command raises the version by one. -/
theorem transition_version (h : q.transition env now change operator = .ok g) :
    (annotate g change asked).version = q.version + 1 := by
  obtain ⟨-, -, a, ha, rfl⟩ := transition_spec h
  have hannotate : (annotate (a.bump change) change asked).version = (a.bump change).version := by
    unfold annotate
    split <;> rfl
  have hbump : (a.bump change).version = a.version + 1 := by
    unfold Goal.bump
    dsimp only
    split <;> rfl
  rw [hannotate, hbump]
  cases apply_inv ha with
  | progress _ =>
    unfold Goal.progress
    dsimp only
    split_ifs <;> rfl
  | _ => rfl

/-- What a command needs to start a held goal again, or to close one. -/
theorem transition_moves (h : q.transition env now change operator = .ok g) :
    (q.status.held = true → g.status.active = true → (operator && change.action.restarts) = true) ∧
    ((g.status.terminal = true ∨ (g.status = .review ∧ q.mode ≠ .ongoing)) →
      q.Closing ∨ change.action = .complete ∨ change.action = .cancel) := by
  obtain ⟨hterminal, htaken, a, ha, rfl⟩ := transition_spec h
  have hoperator := transition_operator h
  rw [(@bump_family a change).2.2.2.1]
  -- a status that stays starts nothing, nor does one that is held
  have hsame (hstatus : a.status = q.status) :
      (q.status.held = true → a.status.active = true →
        (operator && change.action.restarts) = true) ∧
      ((a.status.terminal = true ∨ (a.status = .review ∧ q.mode ≠ .ongoing)) →
        q.Closing ∨ change.action = .complete ∨ change.action = .cancel) := by
    rw [hstatus]
    refine ⟨fun hheld hactive => ?_, .inl⟩
    rw [not_active_of_held hheld] at hactive
    cases hactive
  -- a status that is not active starts nothing
  have hstopped (hactive : a.status.active = false)
      (hclosing : ¬ ({ a with mode := q.mode } : Goal).Closing) :
      (q.status.held = true → a.status.active = true →
        (operator && change.action.restarts) = true) ∧
      ((a.status.terminal = true ∨ (a.status = .review ∧ q.mode ≠ .ongoing)) →
        q.Closing ∨ change.action = .complete ∨ change.action = .cancel) := by
    refine ⟨fun _ hactive' => ?_, fun h => absurd h hclosing⟩
    rw [hactive] at hactive'
    cases hactive'
  cases apply_inv ha with
  | progress haction =>
    refine hsame ?_
    unfold Goal.progress
    dsimp only
    split_ifs <;> rfl
  | evidence _ _ => exact hsame rfl
  | wait haction _ _ _ _ _ =>
    refine ⟨fun hheld => ?_, fun hclosing => absurd hclosing ?_⟩
    · rw [haction] at htaken
      cases htaken hheld
    · exact not_closing (g := { q with status := .waiting }) rfl nofun
  | block haction =>
    -- the third report of one blocker blocks the goal; the first two leave it as it is
    by_cases hcount : 3 ≤ (if q.blocker = change.note then q.blockerCount + 1 else 1)
    · have hblocked : (q.block change).status = .blocked := if_pos hcount
      exact hstopped (by rw [hblocked]; rfl) (not_closing (congrArg Status.terminal hblocked)
        (fun hreview => by cases hblocked.symm.trans hreview))
    · exact hsame (if_neg hcount)
  | complete haction _ _ =>
    refine ⟨fun hheld => ?_, fun _ => .inr (.inl haction)⟩
    rw [haction] at htaken
    cases htaken hheld
  | assess haction hmode status hstatus _ _ _ _ _ =>
    refine ⟨fun hheld => ?_, fun hclosing => ?_⟩
    · rw [haction] at htaken
      cases htaken hheld
    · rcases hclosing with hclosed | ⟨-, hfinite⟩
      · rcases hstatus with rfl | rfl <;> cases hclosed
      · exact absurd hmode hfinite
  | approveOngoing haction _ _ _ _ =>
    refine ⟨fun _ _ => ?_, fun hclosing => absurd hclosing ?_⟩
    · rw [hoperator (by rw [haction]; rfl), haction]
      rfl
    · exact not_closing (g := { q with status := .waiting }) rfl nofun
  | approve _ hmode hreview _ =>
    refine ⟨fun _ hactive => ?_, fun _ => .inl (.inr ⟨hreview, hmode⟩)⟩
    cases hactive
  | pause _ => exact hstopped rfl (not_closing rfl nofun)
  | cancel haction =>
    refine ⟨fun _ hactive => ?_, fun _ => .inr (.inr haction)⟩
    cases hactive
  | resume haction _ _ _ =>
    refine ⟨fun _ _ => ?_, fun hclosing => absurd hclosing ?_⟩
    · rw [hoperator (by rw [haction]; rfl), haction]
      rfl
    · exact not_closing (g := { q with status := .queued }) rfl nofun
  | steer _ => exact hsame rfl
  | revise _ _ _ =>
    -- a review that is revised is paused, and any other goal stays as it is
    by_cases hreview : q.status = .review
    · have hpaused : (if q.status = .review then .paused else q.status) = Status.paused :=
        if_pos hreview
      exact hstopped (congrArg Status.active hpaused)
        (not_closing (congrArg Status.terminal hpaused)
        (fun h => by cases hpaused.symm.trans h))
    · exact hsame (if_neg hreview)
  | reconciled _ => exact hsame rfl
  | link _ => exact hsame rfl

/-- The row of the goal itself. -/
theorem transition_governed (hlocked : locked env goals goalId = .ok q)
    (h : q.transition env now change operator = .ok g) (leaseId leaseUntil : Option Nat) :
    Governed env (.update goalId change operator asked) q
      { annotate g change asked with leaseId, leaseUntil } := by
  have hupdates := @transition_updates _ _ _ _ _ _ asked goalId h leaseId leaseUntil
  have hterms := @transition_terms _ _ _ _ _ _ asked h leaseId leaseUntil
  have hversion := @transition_version _ _ _ _ _ _ asked h
  obtain ⟨hheld, hcloses⟩ := transition_moves h
  have hstatus : (annotate g change asked).status = g.status := annotate_status
  refine ⟨⟨fun hclosed => ?closed, ?version, fun _ => ?changed⟩, hupdates.id, hupdates.parent,
    fun hq hactive => hheld hq (hstatus ▸ hactive), fun hnone hmarker =>
      ⟨?marker, fun hclosing => ?head⟩⟩
  case closed =>
    rw [(transition_spec h).1] at hclosed
    cases hclosed
  case version => exact hversion.symm ▸ Nat.le_succ q.version
  case changed => exact hversion.symm ▸ Nat.lt_succ_self q.version
  case marker =>
    -- the mark is cleared, kept as it was, or the text of a parent, which a head does not have
    rcases hupdates.marker with hmarker' | hmarker' | hmarker'
    · exact hmarker'
    · exact hmarker'.trans hmarker
    · exact hmarker'.trans hnone
  case head =>
    have hclosing' : g.status.terminal = true ∨ (g.status = .review ∧ q.mode ≠ .ongoing) := by
      unfold Goal.Closing at hclosing
      rw [hterms.mode] at hclosing
      rw [← hstatus]
      exact hclosing
    have huuid := (locked_spec hlocked).1
    exact (hcloses hclosing').imp_right (Or.imp (fun haction => ⟨huuid, haction⟩)
      fun haction => ⟨huuid, haction⟩)

theorem update_governed (hkeys : KeyUnique Goal.id s.goals)
    (h : s.update env now goalId change operator asked = .ok t) :
    Rewritten (Governed env (.update goalId change operator asked)) s.goals t.goals := by
  refine update_rewritten hkeys h Governed.refl (fun _ _ _ => Governed.trans) (fun _ _ h => h.same)
    (fun _ _ h => h.toDriven.governed) ?_ ?_ ?_
  · exact fun q g hlocked htransition =>
      transition_governed hlocked htransition q.leaseId q.leaseUntil
  · intro r haction hmarker hpaused
    refine restored_governed ?_ hmarker hpaused
    obtain ⟨q, g, -, htransition, -⟩ := update_inv h
    have hoperator : operator = true := transition_operator htransition (by rw [haction]; rfl)
    show (operator && change.action.restarts) = true
    rw [hoperator, haction]
    rfl
  · exact fun r status hstatus hparent hopen => followed_governed hstatus hparent hopen

/-- **What a transaction does to the rows.** -/
theorem governed_step (hkeys : KeyUnique Goal.id s.goals) (h : s.transact env now op = .ok t) :
    (∃ (spec : CreateGoal) (newId : GoalId) (key : Option RequestKey),
      t.goals = s.goals ++ [spec.newGoal now newId key] ∧ (spec.parentGoalId = none ∨
        ∃ p ∈ s.goals, p.status.inactive = false ∧ spec.parentGoalId = some (env.idText p.id))) ∨
      Rewritten (Governed env op) s.goals t.goals := by
  refine transact_rewritten hkeys h Governed.refl (fun _ _ => Driven.governed) ?_
  rintro goalId change operator asked rfl hupdate
  exact update_governed hkeys hupdate

/-! ## One lease -/

/-- At most one goal holds a lease. -/
def OneLease (goals : List Goal) : Prop :=
  ∀ g ∈ goals, ∀ g' ∈ goals, g.leaseId.isSome → g'.leaseId.isSome → g = g'

/-- Rows that give no lease leave one at most. -/
theorem OneLease.rewritten {R : Goal → Goal → Prop} (hkeys : KeyUnique Goal.id goals)
    (hR : ∀ r r', R r r' → r'.id = r.id ∧ (r'.leaseId = r.leaseId ∨ r'.leaseId = none))
    (h : Rewritten R goals goals') (hs : OneLease goals) : OneLease goals' := by
  have hkeys' := h.keyUnique (fun r r' h => (hR r r' h).1) hkeys
  have hleased (r r' : Goal) (h : R r r') (hsome : r'.leaseId.isSome) : r.leaseId.isSome := by
    rcases (hR r r' h).2 with hsame | hnone
    · rwa [← hsame]
    · rw [hnone] at hsome
      cases hsome
  intro g hg g' hg' hsome hsome'
  obtain ⟨r, hr, hrow⟩ := h.mem hg
  obtain ⟨r', hr', hrow'⟩ := h.mem hg'
  have hsame : r = r' := hs r hr r' hr' (hleased r g hrow hsome) (hleased r' g' hrow' hsome')
  refine hkeys'.eq hg hg' ?_
  rw [(hR r g hrow).1, hsame, (hR r' g' hrow').1]

theorem OneLease.unclaimed (hkeys : KeyUnique Goal.id goals) (h : Rewritten Unclaimed goals goals')
    (hs : OneLease goals) : OneLease goals' :=
  hs.rewritten hkeys (fun _ _ h => ⟨h.id, h.lease⟩) h

/-- Where no goal holds a lease, one may be given: the claim looks for this. -/
theorem oneLease_given {f : Goal → Goal} {id : GoalId} (hkeys : KeyUnique Goal.id goals)
    (hfree : ∀ r ∈ goals, r.leaseId = none) :
    OneLease (updateWhere (·.id = id) f goals) := by
  have hgiven : ∀ g ∈ updateWhere (fun r => decide (r.id = id)) f goals, g.leaseId.isSome →
      ∃ r ∈ goals, r.id = id ∧ g = f r := by
    intro g hg hsome
    obtain ⟨r, hr, rfl⟩ := mem_updateWhere.mp hg
    by_cases hid : r.id = id
    · exact ⟨r, hr, hid, if_pos (decide_eq_true hid)⟩
    · rw [if_neg (by simpa using hid), hfree r hr] at hsome
      cases hsome
  intro g hg g' hg' hsome hsome'
  obtain ⟨r, hr, hid, rfl⟩ := hgiven g hg hsome
  obtain ⟨r', hr', hid', rfl⟩ := hgiven g' hg' hsome'
  rw [hkeys.eq hr hr' (hid.trans hid'.symm)]

theorem update_leases (hkeys : KeyUnique Goal.id s.goals)
    (h : s.update env now goalId change operator asked = .ok t) :
    Rewritten (fun r r' => r'.id = r.id ∧ (r'.leaseId = r.leaseId ∨ r'.leaseId = none))
      s.goals t.goals := by
  refine update_rewritten hkeys h (fun _ => ⟨rfl, .inl rfl⟩) ?_ (fun _ _ h => h.1)
    (fun _ _ h => ⟨h.id, .inl h.lease⟩) ?_ ?_ ?_
  · rintro a b c ⟨hid, hlease⟩ ⟨hid', hlease'⟩
    refine ⟨hid'.trans hid, ?_⟩
    rcases hlease' with hsame | hnone
    · rw [hsame]
      exact hlease
    · exact .inr hnone
  · exact fun q g _ htransition =>
      ⟨(transition_terms htransition q.leaseId q.leaseUntil).id, .inl rfl⟩
  · exact fun _ _ _ _ => ⟨rfl, .inl rfl⟩
  · intro r status _ _ _
    refine ⟨followed_family.1, .inl ?_⟩
    unfold Goal.followed
    dsimp only
    split <;> rfl

/-- **Step lemma.** Only a claim gives a lease. -/
theorem oneLease_step (hkeys : KeyUnique Goal.id s.goals) (hs : OneLease s.goals)
    (h : s.transact env now op = .ok t) : OneLease t.goals := by
  cases op with
  | create spec newId =>
    rcases create_inv h with rfl | ⟨spec', key, rfl, -⟩
    · exact hs
    · -- a new goal has no lease
      have hold : ∀ g ∈ s.goals ++ [spec'.newGoal now newId key], g.leaseId.isSome →
        g ∈ s.goals := by
        intro g hg hsome
        rcases List.mem_append.mp hg with hg | hg
        · exact hg
        · rw [List.mem_singleton.mp hg] at hsome
          cases hsome
      exact fun g hg g' hg' hsome hsome' =>
        hs g (hold g hg hsome) g' (hold g' hg' hsome') hsome hsome'
  | update goalId change operator asked =>
      exact hs.rewritten hkeys (fun _ _ h => h) (update_leases hkeys h)
  | claim tie attempt =>
    rcases claim_spec hkeys h with ⟨-, rfl⟩ | ⟨u, hreconcile, -, hrest⟩
    · exact hs
    -- the lease is given where the sweep has found none, so it is the only one
    have hreconciled := reconcile_unclaimed hkeys hreconcile
    have hkeys' := hreconciled.keys_unclaimed hkeys
    rcases hrest with ⟨hquiet, -⟩ | ⟨goals, g, -, leaseUntil, hquiet, hfree, hgoals, -⟩
    · exact (hs.unclaimed hkeys hreconciled).unclaimed hkeys' hquiet.unclaimed
    · rw [hgoals]
      refine oneLease_given (hquiet.unclaimed.keys_unclaimed hkeys') fun r hr => ?_
      obtain ⟨r', hr', hrow⟩ := hquiet.mem hr
      rw [hrow.lease]
      exact hfree r' hr'
  | heartbeat goalId attempt usage =>
    cases h
    exact hs.unclaimed hkeys heartbeat_unclaimed
  | finish goalId attempt report => exact hs.unclaimed hkeys (finish_unclaimed hkeys h)
  | reserve goalId attempt tokens =>
    rw [reserve_goals h]
    exact hs
  | ingest event =>
    unfold Store.transact at h
    cases h
    split <;> exact hs
  | setEnabled value =>
    cases h
    exact hs

/-! ## The worker -/

/-- The worker of an attempt that does not hold the lease of the goal that it names. -/
def Op.Stale (env : Env) (s : Store) : Op → Prop
  | .heartbeat goalId attempt _ | .finish goalId attempt _ | .reserve goalId attempt _ =>
    ∀ g ∈ s.goals, env.uuid goalId = some g.id → g.leaseId ≠ some attempt
  | _ => False

/-- **A worker without the lease changes nothing.** -/
theorem stale_unchanged (hstale : op.Stale env s) (h : s.transact env now op = .ok t) : t = s := by
  cases op with
  | heartbeat goalId attempt usage =>
    cases h
    -- no row passes the test of the statement, so neither the goal nor the attempt is written
    have hnone : ∀ g ∈ s.goals, decide (env.uuid goalId = some g.id ∧ g.leaseId = some attempt ∧
        s.enabled ∧
          ¬ (g.status = .paused ∨ g.status = .canceled ∨ g.status = .blocked)) = false := by
      intro g hg
      exact decide_eq_false fun hholds => hstale g hg hholds.1 hholds.2.1
    unfold Store.heartbeat
    dsimp only
    rw [updateWhere_of_not hnone, if_neg]
    rw [List.any_eq_true]
    rintro ⟨g, hg, hholds⟩
    rw [hnone g hg] at hholds
    cases hholds
  | finish goalId attempt report =>
    have hnone : s.goals.find? (fun g => decide (env.uuid goalId = some g.id ∧
        g.leaseId = some attempt)) = none := by
      refine List.find?_eq_none.mpr fun g hg hholds => ?_
      obtain ⟨huuid, hlease⟩ := of_decide_eq_true hholds
      exact hstale g hg huuid hlease
    have h : s.finish env now goalId attempt report = .ok t := h
    unfold Store.finish at h
    rw [hnone] at h
    cases h
    rfl
  | reserve goalId attempt tokens =>
    have h : s.reserve env now goalId attempt tokens = .ok t := h
    unfold Store.reserve at h
    split at h
    · cases h
    · next g hfind =>
      have hholds := List.find?_some hfind
      obtain ⟨huuid, hlease, -⟩ := of_decide_eq_true hholds
      -- a reservation reads the row of the lease, and there is none
      exact absurd hlease (hstale g (List.mem_of_find?_eq_some hfind) huuid)
  | _ => cases hstale

/-! ## A family -/

/-- The children of a goal that is closed, or that only waits for its approval, are closed. -/
def ChildrenClosed (env : Env) (goals : List Goal) : Prop :=
  ∀ p ∈ goals, p.Closing → ∀ c ∈ goals, c.parentGoalId = some (env.idText p.id) →
    c.status.terminal = true

/-- **The condition**: a goal is completed or canceled by the text that its children keep, or they
are closed already. Children are found by that text, while the goal itself is found under any
spelling. -/
def NamesFamily (env : Env) (s : Store) : Nat × Op → Prop
  | (_, .update goalId change _ _) => change.action = .complete ∨ change.action = .cancel →
    ∀ g, locked env s.goals goalId = .ok g → goalId = env.idText g.id ∨
      ∀ c ∈ s.goals, c.parentGoalId = some (env.idText g.id) → c.status.terminal = true
  | _ => True

/-- A goal that has a child has no parent. -/
theorem WellFormed.parentless (hwf : WellFormed env goals) (hp : p ∈ goals) (hc : c ∈ goals)
    (hparent : c.parentGoalId = some (env.idText p.id)) : p.parentGoalId = none := by
  obtain ⟨-, head, hrow, hhead⟩ := hwf.head hc hparent
  rw [row_of_mem hwf.keys hp] at hrow
  cases hrow
  exact hhead

/-- A goal is completed under a text that no open child keeps. -/
theorem complete_children (h : s.update env now goalId change operator asked = .ok t)
    (haction : change.action = .complete) (hc : c ∈ s.goals)
    (hparent : c.parentGoalId = some goalId) :
    c.status.terminal = true := by
  unfold Store.update at h
  split at h
  · cases h
  split at h
  · cases h
  next hallowed =>
  unfold refusedBefore at hallowed
  split at hallowed
  · cases hallowed
  next hrefused =>
  by_contra hopen
  refine hrefused ⟨haction, List.any_eq_true.mpr ⟨c, hc, ?_⟩⟩
  exact decide_eq_true ⟨hparent, hopen⟩

/-- The children of a goal that is canceled under the text that they keep. -/
theorem cancel_children (hwf : WellFormed env s.goals)
    (h : s.update env now goalId change operator asked = .ok t) (haction : change.action = .cancel)
    (hp : p ∈ s.goals) (hhead : p.parentGoalId = none) (hname : goalId = env.idText p.id)
    (hc : c ∈ t.goals) (hparent : c.parentGoalId = some goalId) : c.status.terminal = true := by
  have huuid : env.uuid goalId = some p.id := by
    rw [hname]
    exact env.uuid_idText p.id
  obtain ⟨g, -, htransition, -, hgoals, -⟩ :=
    head_command hwf h huuid (row_of_mem hwf.keys hp) hhead (.inr (.inr haction))
  rw [hgoals, haction, (transition_status htransition).2.2 haction] at hc
  obtain ⟨r, -, rfl⟩ := mem_updateWhere.mp hc
  split at hparent
  · next hfollows =>
    rw [if_pos hfollows]
    rfl
  · next hstays =>
    rw [if_neg hstays]
    by_contra hopen
    exact hstays (decide_eq_true ⟨hparent, hopen⟩)

/-- A new child has a parent that is active. -/
theorem closed_created {spec : CreateGoal} {newId : GoalId} {key : Option RequestKey}
    (hkeys : KeyUnique Goal.id goals) (hs : ChildrenClosed env goals)
    (hparent : spec.parentGoalId = none ∨
      ∃ p ∈ goals, p.status.inactive = false ∧ spec.parentGoalId = some (env.idText p.id)) :
    ChildrenClosed env (goals ++ [spec.newGoal now newId key]) := by
  intro p hp hclosing c hc htext
  rcases List.mem_append.mp hp with hp | hp
  · rcases List.mem_append.mp hc with hc | hc
    · exact hs p hp hclosing c hc htext
    · rw [List.mem_singleton.mp hc] at htext
      have htext : spec.parentGoalId = some (env.idText p.id) := htext
      rcases hparent with hnone | ⟨p', hp', hactive, hparent⟩
      · rw [hnone] at htext
        cases htext
      · rw [hparent] at htext
        -- the text of an id names one goal, which is active and so not closing
        have hsame : p' = p := hkeys.eq hp' hp (idText_injective env (Option.some.inj htext))
        rw [hsame, hclosing.inactive] at hactive
        cases hactive
  · rw [List.mem_singleton.mp hp] at hclosing
    exact absurd hclosing (not_closing rfl nofun)

/-- **Step lemma.** A parent closes together with its children, a new child has an active parent,
and closed goals stay closed. -/
theorem closed_step {op : Nat × Op} (hwf : WellFormed env s.goals) (hs : ChildrenClosed env s.goals)
    (hnames : NamesFamily env s op) (h : (transactions env).step s op t) :
    ChildrenClosed env t.goals := by
  rcases governed_step hwf.keys h with ⟨spec, newId, key, hgoals, hparent⟩ | hrows
  · rw [hgoals]
    exact closed_created hwf.keys hs hparent
  intro p' hp' hclosing c' hc' hparent
  obtain ⟨p, hp, hpRow⟩ := hrows.mem hp'
  obtain ⟨c, hc, hcRow⟩ := hrows.mem hc'
  rw [hpRow.same] at hparent
  have hchild : c.parentGoalId = some (env.idText p.id) := hcRow.parent.symm.trans hparent
  have hstays (hclosed : c.status.terminal = true) : c'.status.terminal = true := by
    rw [hcRow.closed hclosed]
    exact hclosed
  have hhead := hwf.parentless hp hc hchild
  obtain ⟨-, hcloses⟩ := hpRow.head hhead (hwf.marker_eq_none hp hhead)
  rcases hcloses hclosing with hbefore | hcommand
  · exact hstays (hs p hp hbefore c hc hchild)
  -- the parent is closed by this step
  have hcommanded : ∃ goalId change operator asked, op.2 = .update goalId change operator asked ∧
      env.uuid goalId = some p.id ∧ (change.action = .complete ∨ change.action = .cancel) := by
    rcases hcommand with hcommand | hcommand <;>
      obtain ⟨goalId, change, operator, asked, hop, huuid, haction⟩ := commands_inv hcommand
    · exact ⟨goalId, change, operator, asked, hop, huuid, .inl haction⟩
    · exact ⟨goalId, change, operator, asked, hop, huuid, .inr haction⟩
  obtain ⟨goalId, change, operator, asked, hop, huuid, haction⟩ := hcommanded
  obtain ⟨now, op⟩ := op
  obtain rfl : op = _ := hop
  have hupdate : s.update env now goalId change operator asked = .ok t := h
  rcases hnames haction p (locked_of_row huuid (row_of_mem hwf.keys hp)) with hname | hclosed
  · rw [← hname] at hchild hparent
    rcases haction with haction | haction
    · exact hstays (complete_children hupdate haction hc hchild)
    · exact cancel_children hwf hupdate haction hp hhead hname hc' hparent
  · exact hstays (hclosed c hc hchild)

/-! ## Runs -/

/-- The row of a goal after a transaction. -/
theorem row_step {id : GoalId} (hkeys : KeyUnique Goal.id s.goals)
    (h : s.transact env now op = .ok t)
    (hrow : row s.goals id = some r) : ∃ r', row t.goals id = some r' ∧ Governed env op r r' := by
  rcases governed_step hkeys h with ⟨spec, newId, key, hgoals, -⟩ | hrows
  · refine ⟨r, ?_, Governed.refl r⟩
    rw [hgoals]
    unfold row at hrow ⊢
    rw [List.find?_append, hrow]
    rfl
  · exact hrows.row (fun _ _ h => h.same) hrow

/-- **Run lemma.** -/
theorem onward_run {ops : List (Nat × Op)} {id : GoalId} (hwf : WellFormed env s.goals)
    (hrun : (transactions env).Run s ops t) (hrow : row s.goals id = some r) :
    ∃ r', row t.goals id = some r' ∧ Onward r r' := by
  refine hrun.follows (I := fun s => WellFormed env s.goals) (R := fun s t => ∀ r,
    row s.goals id = some r → ∃ r', row t.goals id = some r' ∧ Onward r r') ?_ ?_ ?_ ?_ hwf r hrow
  · exact fun s r hrow => ⟨r, hrow, Onward.refl r⟩
  · intro s t u h h' r hrow
    obtain ⟨r', hrow', honward⟩ := h r hrow
    obtain ⟨r'', hrow'', honward'⟩ := h' r' hrow'
    exact ⟨r'', hrow'', honward.trans honward'⟩
  · exact fun s op t hwf hstep => wellFormed_step hwf hstep
  · intro s op t hwf hstep r hrow
    obtain ⟨r', hrow', hgoverned⟩ := row_step hwf.keys hstep hrow
    exact ⟨r', hrow', hgoverned.toOnward⟩

/-- **Who moves the goals of a tenant**, in every run: one goal holds a lease, closed goals stay
closed, versions go up, what is held is started by the operator, and a worker without the lease
changes nothing. Where goals are completed and canceled by the text that their children keep, the
children of a closed parent are closed. -/
theorem one_lease_and_closed_families (env : Env) :
    (∀ s, (transactions env).Reachable s → OneLease s.goals) ∧
    (∀ s ops t, (transactions env).Reachable s → (transactions env).Run s ops t →
      ∀ g ∈ s.goals, ∃ g', row t.goals g.id = some g' ∧ Onward g g') ∧
    (∀ s op t, (transactions env).Reachable s → (transactions env).step s op t →
      ∀ g ∈ s.goals, ∀ g', row t.goals g.id = some g' → g.status.held = true →
        g'.status.active = true → op.2.restarts = true) ∧
    (∀ s op t, (transactions env).step s op t → op.2.Stale env s → t = s) ∧
    ∀ s, ((transactions env).restrict (NamesFamily env)).Reachable s →
      ∀ p ∈ s.goals, p.status.terminal = true → ∀ c ∈ s.goals,
        c.parentGoalId = some (env.idText p.id) → c.status.terminal = true := by
  refine ⟨?lease, ?onward, ?held, ?stale, ?family⟩
  -- both are invariants of the transactions
  case lease =>
    intro s hs
    have hleases : WellFormed env s.goals ∧ OneLease s.goals := by
      refine hs.invariant (I := fun s => WellFormed env s.goals ∧ OneLease s.goals) ?_ ?_
      · rintro s rfl
        exact ⟨wellFormed_nil, fun _ h => absurd h List.not_mem_nil⟩
      · rintro s op t ⟨hwf, hs⟩ hstep
        exact ⟨wellFormed_step hwf hstep, oneLease_step hwf.keys hs hstep⟩
    exact hleases.2
  case onward =>
    intro s ops t hs hrun g hg
    have hwf := wellFormed_reachable hs
    exact onward_run hwf hrun (row_of_mem hwf.keys hg)
  case held =>
    intro s op t hs hstep g hg g' hrow hheld hactive
    have hwf := wellFormed_reachable hs
    obtain ⟨r', hrow', hgoverned⟩ := row_step hwf.keys hstep (row_of_mem hwf.keys hg)
    rw [hrow] at hrow'
    cases hrow'
    exact hgoverned.held hheld hactive
  case stale => exact fun s op t hstep hstale => stale_unchanged hstale hstep
  -- under the condition the closed families are an invariant as well
  case family =>
    intro s hs p hp hterminal c hc hparent
    have hclosed : WellFormed env s.goals ∧ ChildrenClosed env s.goals := by
      refine hs.invariant (I := fun s => WellFormed env s.goals ∧ ChildrenClosed env s.goals) ?_ ?_
      · rintro s rfl
        exact ⟨wellFormed_nil, fun _ h => absurd h List.not_mem_nil⟩
      · rintro s op t ⟨hwf, hs⟩ ⟨hnames, hstep⟩
        exact ⟨wellFormed_step hwf hstep, closed_step hwf hs hnames hstep⟩
    exact hclosed.2 p hp (.inl hterminal) c hc hparent

/-! ### A parent that is canceled -/

def sampleCanceled : Store := commanded sampleText .cancel 1 sampleFamily

/-- The child holds the lease, and a worker of another attempt changes nothing; a parent that is
canceled closes its child. -/
theorem canceled_family :
    (OneLease sampleLeased.goals ∧ ∃ g ∈ sampleLeased.goals, g.leaseId = some 7) ∧
    sampleLeased.heartbeat sampleEnv 2 childText 8 (some (5, 1)) = sampleLeased ∧
    (∃ g g', row sampleFamily.goals 11 = some g ∧
      row sampleCanceled.goals 11 = some g' ∧ Onward g g') ∧
    ∃ p ∈ sampleCanceled.goals, ∃ c ∈ sampleCanceled.goals,
      c.parentGoalId = some (sampleEnv.idText p.id) ∧ p.status.terminal = true ∧
        c.status.terminal = true := by
  obtain ⟨hlease, honward, -, hstale, hfamily⟩ := one_lease_and_closed_families sampleEnv
  have hcancel : sampleFamily.update sampleEnv 1 sampleText
      { action := .cancel, version := 1 } true {} =
      .ok sampleCanceled := by decide +kernel
  refine ⟨⟨hlease sampleLeased sampleLeased_reachable, ?_⟩, ?_, ?_, ?_⟩
  · decide +kernel
  · refine hstale sampleLeased (2, .heartbeat childText 8 (some (5, 1))) _ rfl ?_
    have hnone : ∀ g ∈ sampleLeased.goals, g.leaseId ≠ some 8 := by decide +kernel
    exact fun g hg _ => hnone g hg
  · have hrun : (transactions sampleEnv).Run sampleFamily
        [(1, .update sampleText { action := .cancel, version := 1 } true {})] sampleCanceled :=
      .single hcancel
    have hchild : ∃ g ∈ sampleFamily.goals, g.id = 11 ∧ row sampleFamily.goals g.id = some g := by
      decide +kernel
    obtain ⟨g, hg, hid, hrow⟩ := hchild
    obtain ⟨g', hrow', hgoes⟩ := honward _ _ _ sampleFamily_reachable hrun g hg
    rw [hid] at hrow hrow'
    exact ⟨g, g', hrow, hrow', hgoes⟩
  · have hparent : Store.create sampleEnv 0 sampleParent 10 {} =
        .ok { goals := [sampleParent.newGoal 0 10 none] } := by decide +kernel
    have hchild : Store.create sampleEnv 0 sampleChild 11
        { goals := [sampleParent.newGoal 0 10 none] } =
        .ok sampleFamily := by decide +kernel
    have hnames : NamesFamily sampleEnv sampleFamily
        (1, .update sampleText { action := .cancel, version := 1 } true {}) := by
      intro _ g hlocked
      have huuid := (locked_spec hlocked).1
      rw [show sampleEnv.uuid sampleText = some 10 from rfl] at huuid
      rw [← Option.some.inj huuid]
      exact .inl rfl
    have hreachable : ((transactions sampleEnv).restrict (NamesFamily sampleEnv)).Reachable
        sampleCanceled :=
      ⟨{}, [(0, .create sampleParent 10), (0, .create sampleChild 11),
        (1, .update sampleText { action := .cancel, version := 1 } true {})], rfl,
        .cons ⟨trivial, hparent⟩ (.cons ⟨trivial, hchild⟩ (.single ⟨hnames, hcancel⟩))⟩
    have hrows : ∃ p ∈ sampleCanceled.goals, ∃ c ∈ sampleCanceled.goals,
        c.parentGoalId = some (sampleEnv.idText p.id) ∧ p.status.terminal = true := by
      decide +kernel
    obtain ⟨p, hp, c, hc, htext, hterminal⟩ := hrows
    exact ⟨p, hp, c, hc, htext, hterminal,
      hfamily sampleCanceled hreachable p hp hterminal c hc htext⟩

/-- A cancellation in upper case leaves the child queued. -/
theorem upper_case_cancel_leaves_child :
    ¬ ∀ s, (transactions sampleEnv).Reachable s → ∀ p ∈ s.goals, p.status.terminal = true →
      ∀ c ∈ s.goals, c.parentGoalId = some (sampleEnv.idText p.id) → c.status.terminal = true := by
  intro hclosed
  have hcancel : sampleFamily.update sampleEnv 1 sampleUpper
      { action := .cancel, version := 1 } true {} =
      .ok (commanded sampleUpper .cancel 1 sampleFamily) := by decide +kernel
  have hlater : (transactions sampleEnv).Run sampleFamily
      [(1, .update sampleUpper { action := .cancel, version := 1 } true {})]
      (commanded sampleUpper .cancel 1 sampleFamily) := .single hcancel
  have hrows : ∃ p ∈ (commanded sampleUpper .cancel 1 sampleFamily).goals,
      ∃ c ∈ (commanded sampleUpper .cancel 1 sampleFamily).goals, p.status.terminal = true ∧
        c.parentGoalId = some (sampleEnv.idText p.id) ∧ c.status.terminal = false := by
    decide +kernel
  obtain ⟨p, hp, c, hc, hterminal, htext, hopen⟩ := hrows
  rw [hclosed _ (sampleFamily_reachable.run hlater) p hp hterminal c hc htext] at hopen
  cases hopen

end GenusOs.Goals
