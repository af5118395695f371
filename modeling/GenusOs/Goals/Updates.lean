import GenusOs.Goals.Moves
import Mathlib

/-!
# What an update does to the rows

* `update_rewrites`: an update touches the goal itself, its active parent, and the children that it
  pauses, cancels or restores.
* `update_head`: what it leaves of a goal that has no parent, and of its children.
-/

namespace GenusOs.Goals

open Rows

variable {env : Env} {goals goals' : List Goal} {q g r r' : Goal} {s s' : Store} {now : Nat}
  {goalId : String} {change : GoalUpdate} {operator : Bool} {asked : Asked} {action : Action}

/-! ## The transition -/

/-- What every command has passed before its branch is taken, and what its end adds. -/
theorem transition_spec (h : q.transition env now change operator = .ok g) :
    q.status.terminal = false ∧ (q.status.held = true → change.action.takenWhileHeld = true) ∧
      ∃ a, q.apply env now change = .ok a ∧ g = a.bump change := by
  unfold Goal.transition at h
  split at h
  · cases h
  split at h
  · cases h
  next hterminal =>
  split at h
  · cases h
  next hheld =>
  split at h
  · cases h
  split at h
  · cases h
  refine ⟨by simpa using hterminal, fun hq => ?_, ?_⟩
  · by_contra hnot
    exact hheld ⟨hq, hnot⟩
  · cases ha : q.apply env now change with
    | error error =>
      rw [ha] at h
      cases h
    | ok a =>
      rw [ha] at h
      cases h
      exact ⟨a, rfl, rfl⟩

/-- Some commands are the operator's. -/
theorem transition_operator (h : q.transition env now change operator = .ok g)
    (haction : change.action.needsOperator = true) : operator = true := by
  unfold Goal.transition at h
  split at h
  · cases h
  split at h
  · cases h
  split at h
  · cases h
  split at h
  · cases h
  next hallowed =>
  by_contra hnot
  exact hallowed ⟨haction, hnot⟩

/-- The branches, with what they have checked. Each constructor is one action; the proofs about
commands go by cases on it and do not look at `apply` again. -/
inductive Applied (env : Env) (now : Nat) (q : Goal) (change : GoalUpdate) : Goal → Prop
  | progress (haction : change.action = .progress) : Applied env now q change (q.progress change)
  | evidence (haction : change.action = .evidence) (evidence : List Evidence) :
      Applied env now q change { q with progressRevision := q.progressRevision + 1, evidence }
  | wait (haction : change.action = .wait) (kind : Kind)
      (hkind : kind = q.kind ∨ q.parentGoalId = none) (readyAt : Nat) (wait : Wait)
      (hwait : wait.registeredAt = some now ∧ wait.eventType = change.eventType ∧
        wait.eventMatch = change.eventMatch) :
      Applied env now q change { q with kind, status := .waiting, readyAt, wait := some wait }
  | block (haction : change.action = .block) : Applied env now q change (q.block change)
  | complete (haction : change.action = .complete) (hmode : q.mode ≠ .ongoing)
      (hmissing : q.completionMissing = []) : Applied env now q change { q with
        status := if q.requiresReview then .review else .complete }
  | assess (haction : change.action = .assess) (hmode : q.mode = .ongoing) (status : Status)
      (hstatus : status = .waiting ∨ status = .review) (readyAt : Nat) (wait : Wait)
      (hwait : wait.eventType = none) (assessment : Option Assessment) (evidence : List Evidence) :
      Applied env now q change { q with assessment, status, readyAt, wait := some wait, evidence }
  | approveOngoing (haction : change.action = .approve) (hmode : q.mode = .ongoing)
      (hstatus : q.status = .review) (readyAt : Nat) (assessment : Option Assessment) :
      Applied env now q change { q with status := .waiting, readyAt, evidence := [], assessment }
  | approve (haction : change.action = .approve) (hmode : q.mode ≠ .ongoing)
      (hstatus : q.status = .review) (hmissing : q.completionMissing = []) :
      Applied env now q change { q with status := .complete }
  | pause (haction : change.action = .pause) : Applied env now q change { q with status := .paused }
  | cancel (haction : change.action = .cancel) :
      Applied env now q change { q with status := .canceled }
  | resume (haction : change.action = .resume) (costBudgetUsd : Option ℚ) (maxAttempts : Option Nat)
      (deadlineAt : Option Nat) : Applied env now q change { q with
        tokenBudget := change.tokenBudget.or q.tokenBudget
        costBudgetUsd, maxAttempts, deadlineAt, status := .queued, readyAt := now
        blocker := "", blockerCount := 0, failures := 0, noProgressRuns := 0 }
  | steer (haction : change.action = .steer) : Applied env now q change { q with
        checkpoint := change.note }
  | revise (haction : change.action = .revise) (objective : String)
      (successCriteria : List String) :
      Applied env now q change { q with
        objective, successCriteria, evidence := [], criteriaRevisedAt := some now
        status := if q.status = .review then .paused else q.status }
  | reconciled (haction : change.action = .reconciled) : Applied env now q change { q with
        recoveryRequired := false, checkpoint := change.note }
  | link (haction : change.action = .linkTask ∨ change.action = .unlinkTask) :
      Applied env now q change q

/-- `apply` is one of its branches. -/
theorem apply_inv (h : q.apply env now change = .ok g) : Applied env now q change g := by
  unfold Goal.apply at h
  cases haction : change.action with
  | progress =>
    rw [haction] at h
    cases h
    exact .progress haction
  | evidence =>
    simp only [haction, Goal.recordEvidence] at h
    repeat' split at h
    all_goals cases h
    exact .evidence haction _
  | wait =>
    simp only [haction, Goal.startWait] at h
    repeat' split at h
    all_goals cases h
    · -- a short goal may wait for its parent too; both branches register the same wait
      next hshort => exact .wait haction _ (.inr hshort.2) _ _ ⟨rfl, rfl, rfl⟩
    · exact .wait haction _ (.inl rfl) _ _ ⟨rfl, rfl, rfl⟩
  | block =>
    rw [haction] at h
    cases h
    exact .block haction
  | complete =>
    simp only [haction, Goal.complete] at h
    split at h
    · cases h
    next hmode =>
    split at h
    · cases h
    split at h
    · cases h
    next hmissing =>
    cases h
    exact .complete haction hmode (not_not.mp hmissing)
  | assess =>
    simp only [haction, Goal.assess] at h
    split at h
    · cases h
    split at h
    · cases h
    next hmode =>
    split at h
    · cases h
    split at h
    · cases h
      -- an assessment asks for a review, or lets the goal wait until the next one
      exact .assess haction (not_not.mp hmode) _ (.inr rfl) _ _ rfl _ _
    · cases h
      exact .assess haction (not_not.mp hmode) _ (.inl rfl) _ _ rfl _ _
  | approve =>
    simp only [haction, Goal.approve] at h
    split at h
    · cases h
    next hready =>
    rw [not_or, not_not, not_not] at hready
    split at h
    · next hmode =>
      split at h
      · cases h
      · cases h
        exact .approveOngoing haction hmode hready.1 _ _
    · next hmode =>
      cases h
      exact .approve haction hmode hready.1 hready.2
  | pause =>
    rw [haction] at h
    cases h
    exact .pause haction
  | cancel =>
    rw [haction] at h
    cases h
    exact .cancel haction
  | resume =>
    simp only [haction, Goal.resume] at h
    split at h
    · cases h
    · cases h
      exact .resume haction _ _ _
  | steer =>
    rw [haction] at h
    cases h
    exact .steer haction
  | revise =>
    simp only [haction, Goal.revise] at h
    split at h
    · cases h
    · -- a revision is validated as a new goal would be
      cases hspec : CreateGoal.validate
        { objective := (change.objective.filter (· ≠ "")).getD q.objective
          successCriteria := (change.successCriteria.filter (· ≠ [])).getD q.successCriteria } with
      | error error =>
        rw [hspec] at h
        cases h
      | ok spec =>
        rw [hspec] at h
        cases h
        exact .revise haction _ _
  | reconciled =>
    rw [haction] at h
    cases h
    exact .reconciled haction
  | linkTask =>
    rw [haction] at h
    cases h
    exact .link (.inl haction)
  | unlinkTask =>
    rw [haction] at h
    cases h
    exact .link (.inr haction)

/-- The branches leave the family and the markers. -/
theorem apply_family (h : q.apply env now change = .ok g) :
    g.id = q.id ∧ g.parentGoalId = q.parentGoalId ∧ (g.kind = q.kind ∨ q.parentGoalId = none) ∧
      g.pausedByParent = q.pausedByParent ∧ g.beforeParentPause = q.beforeParentPause := by
  cases apply_inv h with
  | progress _ =>
    unfold Goal.progress
    dsimp only
    split_ifs <;> exact ⟨rfl, rfl, .inl rfl, rfl, rfl⟩
  | wait _ _ hkind _ _ _ => exact ⟨rfl, rfl, hkind, rfl, rfl⟩
  | _ => exact ⟨rfl, rfl, .inl rfl, rfl, rfl⟩

/-- A paused goal leaves its pause by a resumption or a cancellation only. -/
theorem apply_paused (h : q.apply env now change = .ok g) (hq : q.status = .paused)
    (htaken : change.action.takenWhileHeld = true) (hresume : change.action ≠ .resume)
    (hcancel : change.action ≠ .cancel) : g.status = .paused := by
  cases apply_inv h with
  | pause _ => rfl
  | steer _ | link _ => exact hq
  | revise _ _ _ =>
    dsimp only
    rw [hq, if_neg (by decide)]
  | approveOngoing _ _ hstatus _ _ | approve _ _ hstatus _ =>
    rw [hq] at hstatus
    cases hstatus
  | resume haction _ _ _ => exact absurd haction hresume
  | cancel haction => exact absurd haction hcancel
  | progress haction | evidence haction _ | wait haction _ _ _ _ _ | block haction
  | complete haction _ _ | assess haction _ _ _ _ _ _ _ _ | reconciled haction =>
    rw [haction] at htaken
    cases htaken

theorem bump_family : (g.bump change).id = g.id ∧ (g.bump change).parentGoalId = g.parentGoalId ∧
    (g.bump change).kind = g.kind ∧ (g.bump change).status = g.status ∧
    ((g.bump change).pausedByParent = none ∨ (g.bump change).pausedByParent =
      g.pausedByParent) := by
  unfold Goal.bump
  dsimp only
  split
  · exact ⟨rfl, rfl, rfl, rfl, .inl rfl⟩
  · exact ⟨rfl, rfl, rfl, rfl, .inr rfl⟩

theorem bump_control (hpause : change.action = .pause → g.pausedByParent = none)
    (hresume : change.action ≠ .resume) (hcancel : change.action ≠ .cancel) :
    (g.bump change).control = g.control := by
  unfold Goal.bump
  dsimp only
  split
  · next haction =>
    rcases haction with haction | haction | haction
    · unfold Goal.control
      rw [hpause haction]
      rfl
    · exact absurd haction hcancel
    · exact absurd haction hresume
  · rfl

theorem annotate_family : (annotate g change asked).id = g.id ∧
    (annotate g change asked).kind = g.kind ∧
    (annotate g change asked).control = g.control := by
  unfold annotate
  split <;> exact ⟨rfl, rfl, rfl⟩

/-! ## The rows -/

/-- A row that an update of the goal `q` under the text `goalId` leaves under control: it is closed,
or it is paused and the command neither starts it itself nor reaches it as a child, by its marker or
by its parent. -/
def Spared (goalId : String) (q : GoalId) (action : Action) (r : Goal) : Prop :=
  r.status.terminal = true ∨ (r.status = .paused ∧
    (r.id = q → (action = .pause → r.pausedByParent = none) ∧ action ≠ .resume ∧ action ≠ .cancel) ∧
    (r.pausedByParent = some goalId → action ≠ .resume) ∧
    (r.parentGoalId = some goalId → action ≠ .cancel))

/-- A row that such an update writes. -/
structure Updates (goalId : String) (q : GoalId) (action : Action) (r r' : Goal) : Prop
    extends Kin r r' where
  control : Spared goalId q action r → r'.control = r.control

variable {id : GoalId}

theorem Updates.refl (r : Goal) : Updates goalId id action r r := ⟨Kin.refl r, fun _ => rfl⟩

theorem spared_congr (hid : r'.id = r.id) (hcontrol : r'.control = r.control)
    (h : Spared goalId id action r) : Spared goalId id action r' := by
  unfold Goal.control at hcontrol
  obtain ⟨hstatus, hparent, hmarker, -⟩ : _ ∧ _ ∧ _ ∧ _ := by
    simpa only [Prod.mk.injEq] using hcontrol
  unfold Spared
  rw [hid, hstatus, hparent, hmarker]
  exact h

theorem Updates.trans {t : Goal} (h : Updates goalId id action r r')
    (h' : Updates goalId id action r' t) :
    Updates goalId id action r t where
  toKin := h.toKin.trans h'.toKin
  control := fun hr => by
    have hcontrol := h.control hr
    exact (h'.control (spared_congr h.id hcontrol hr)).trans hcontrol

theorem Spared.inactive (h : Spared goalId id action r) : r.status.inactive = true := by
  unfold Status.inactive
  rcases h with hterminal | ⟨hpaused, -⟩
  · rw [hterminal, Bool.true_or]
  · rw [hpaused]
    rfl

theorem Moves.updates (h : Moves r r') : Updates goalId id action r r' :=
  ⟨h.toKin, fun hr => h.control hr.inactive⟩

/-- The row of the goal itself. -/
theorem transition_updates (goalId : String) (h : q.transition env now change operator = .ok g)
    (leaseId leaseUntil : Option Nat) :
    Updates goalId q.id change.action q { annotate g change asked with leaseId, leaseUntil } := by
  obtain ⟨hterminal, htaken, a, ha, rfl⟩ := transition_spec h
  obtain ⟨hid, hparent, hkind, hmarker, hbefore⟩ := apply_family ha
  obtain ⟨hid', hparent', hkind', -, hmarker'⟩ := @bump_family a change
  obtain ⟨hid'', hkind'', hcontrol''⟩ := @annotate_family (a.bump change) change asked
  have hcontrol := hcontrol''
  unfold Goal.control at hcontrol''
  obtain ⟨-, hparent'', hmarker'', -⟩ : _ ∧ _ ∧ _ ∧ _ := by
    simpa only [Prod.mk.injEq] using hcontrol''
  refine ⟨⟨hid''.trans (hid'.trans hid), hparent''.trans (hparent'.trans hparent), ?_, ?_⟩, ?_⟩
  · rw [show ({ annotate (a.bump change) change asked with leaseId, leaseUntil } : Goal).kind =
      a.kind from
      hkind''.trans hkind']
    exact hkind
  · show (annotate (a.bump change) change asked).pausedByParent = none ∨
      (annotate (a.bump change) change asked).pausedByParent = q.pausedByParent ∨ _
    rw [hmarker'']
    rcases hmarker' with hnone | hsame
    · exact .inl hnone
    · exact .inr (.inl (hsame.trans hmarker))
  · intro hspared
    rcases hspared with hclosed | ⟨hpaused, howner, -, -⟩
    · rw [hterminal] at hclosed
      cases hclosed
    · -- a spared goal is paused, and the command is none of those that would move it
      obtain ⟨hpause, hresume, hcancel⟩ := howner rfl
      have hheld : q.status.held = true := by
        rw [hpaused]
        rfl
      have hstatus := apply_paused ha hpaused (htaken hheld) hresume hcancel
      have hpause' (haction : change.action = .pause) : a.pausedByParent = none :=
        hmarker.trans (hpause haction)
      refine (hcontrol.trans (bump_control hpause' hresume hcancel)).trans ?_
      unfold Goal.control
      rw [hstatus, hparent, hmarker, hbefore, hpaused]

theorem followed_family {status : Status} : (r.followed goalId action status).id = r.id ∧
    (r.followed goalId action status).parentGoalId = r.parentGoalId ∧
    (r.followed goalId action status).kind = r.kind ∧
    ((r.followed goalId action status).pausedByParent = r.pausedByParent ∨
      (r.followed goalId action status).pausedByParent = some goalId) := by
  unfold Goal.followed
  dsimp only
  split
  · exact ⟨rfl, rfl, rfl, .inr rfl⟩
  · exact ⟨rfl, rfl, rfl, .inl rfl⟩

/-- The row of a child that is restored. -/
theorem restored_updates (hmarker : r.pausedByParent = some goalId) (hpaused : r.status = .paused) :
    Updates goalId id .resume r r.restored := by
  refine ⟨⟨rfl, rfl, .inl rfl, .inl rfl⟩, fun hspared => ?_⟩
  rcases hspared with hclosed | ⟨-, -, hresume, -⟩
  · rw [hpaused] at hclosed
    cases hclosed
  · exact absurd rfl (hresume hmarker)

/-- The row of a child that follows its parent. -/
theorem followed_updates {status : Status}
    (hstatus : action = .pause ∧ status = .paused ∨ action = .cancel ∧ status = .canceled)
    (hparent : r.parentGoalId = some goalId) (hopen : r.status.terminal = false) :
    Updates goalId id action r (r.followed goalId action status) := by
  obtain ⟨hid, hparent', hkind, hmarker⟩ := @followed_family r goalId action status
  refine ⟨⟨hid, hparent', .inl hkind, .inr ?_⟩, fun hspared => ?_⟩
  · rw [hparent]
    exact hmarker
  · rcases hspared with hclosed | ⟨hpaused, -, -, hcancel⟩
    · rw [hopen] at hclosed
      cases hclosed
    · rcases hstatus with ⟨rfl, rfl⟩ | ⟨rfl, rfl⟩
      · unfold Goal.followed
        dsimp only
        rw [if_neg fun hne => hne.2 hpaused]
        unfold Goal.control
        rw [hpaused]
      · exact absurd rfl (hcancel hparent)

/-- The steps of an update: the goal is read, the command is applied, its parent is woken and its
children are moved. A blocker that was reported already writes nothing. -/
theorem update_inv (h : s.update env now goalId change operator asked = .ok s') :
    ∃ q g, locked env s.goals goalId = .ok q ∧ q.transition env now change operator = .ok g ∧
      ((change.action = .block ∧ s' = s) ∨
        ∃ goals, wakeParent env now (annotate g change asked)
            (save (annotate g change asked) s.goals) = .ok goals ∧
          s'.goals = moveChildren goalId change.action (annotate g change asked).status goals) := by
  unfold Store.update at h
  split at h
  · cases h
  next q hlocked =>
  split at h
  · cases h
  split at h
  · cases h
  next g htransition =>
  split at h
  · cases h
  refine ⟨q, g, hlocked, htransition, ?_⟩
  split at h
  · next hrepeated =>
    cases h
    exact .inl ⟨hrepeated.1, rfl⟩
  · dsimp only at h
    split at h
    · cases h
    next goals hwoken =>
    cases h
    exact .inr ⟨goals, hwoken, rfl⟩

theorem annotate_status : (annotate g change asked).status = g.status :=
  status_of_control annotate_family.2.2

/-- The commands that stop a goal and start it again. -/
theorem transition_status (h : q.transition env now change operator = .ok g) :
    (change.action = .pause → g.status = .paused) ∧ (change.action = .resume → g.status = .queued) ∧
      (change.action = .cancel → g.status = .canceled) := by
  obtain ⟨-, -, a, ha, rfl⟩ := transition_spec h
  rw [(@bump_family a change).2.2.2.1]
  unfold Goal.apply at ha
  refine ⟨fun haction => ?_, fun haction => ?_, fun haction => ?_⟩
  · rw [haction] at ha
    cases ha
    rfl
  · simp only [haction, Goal.resume] at ha
    split at ha
    · cases ha
    · cases ha
      rfl
  · rw [haction] at ha
    cases ha
    rfl

/-- What each part of an update does to its row, the update does to all rows. -/
theorem update_rewritten {R : Goal → Goal → Prop} (hkeys : KeyUnique Goal.id s.goals)
    (h : s.update env now goalId change operator asked = .ok s') (hrefl : ∀ r, R r r)
    (htrans : ∀ a b c, R a b → R b c → R a c) (hid : ∀ r r', R r r' → r'.id = r.id)
    (hengine : ∀ r r', Quiet r r' → R r r')
    (hself : ∀ q g, locked env s.goals goalId = .ok q →
      q.transition env now change operator = .ok g →
      R q { annotate g change asked with leaseId := q.leaseId, leaseUntil := q.leaseUntil })
    (hrestored : ∀ r, change.action = .resume → r.pausedByParent = some goalId →
      r.status = .paused →
      R r r.restored)
    (hfollowed : ∀ r status, (change.action = .pause ∧ status = .paused ∨
        change.action = .cancel ∧ status = .canceled) → r.parentGoalId = some goalId →
      r.status.terminal = false → R r (r.followed goalId change.action status)) :
    Rewritten R s.goals s'.goals := by
  obtain ⟨q, g, hlocked, htransition, hsteps⟩ := update_inv h
  rcases hsteps with ⟨-, rfl⟩ | ⟨goals, hwoken, hgoals⟩
  · exact .refl hrefl _
  have hchain {a b c : List Goal} (h : Rewritten R a b) (h' : Rewritten R b c) : Rewritten R a c :=
    h.trans (htrans _ _ _) h'
  -- the goal is saved, its parent is woken, and the children are moved, one after the other
  have hsaved : Rewritten R s.goals (save (annotate g change asked) s.goals) :=
    rewritten_save hkeys hrefl (row_mem (locked_spec hlocked).2)
      (transition_updates goalId htransition none none).id (hself q g hlocked htransition)
  have hwoken : Rewritten R _ goals :=
    (wakeParent_quiet (hsaved.keyUnique hid hkeys) hwoken).mono hengine
  refine hchain (hchain hsaved hwoken) ?_
  obtain ⟨hpause, -, hcancel⟩ := transition_status htransition
  rw [hgoals, annotate_status]
  unfold moveChildren
  split
  · next haction =>
    refine rewritten_updateWhere hrefl fun r _ hp => ?_
    obtain ⟨hmarker, hpaused⟩ : _ ∧ _ := by simpa using hp
    exact hrestored r haction hmarker hpaused
  · next haction =>
    refine rewritten_updateWhere hrefl fun r _ hp => ?_
    obtain ⟨hparent, hopen⟩ : _ ∧ _ := by simpa using hp
    exact haction ▸ hfollowed r _ (.inl ⟨haction, hpause haction⟩) hparent hopen
  · next haction =>
    refine rewritten_updateWhere hrefl fun r _ hp => ?_
    obtain ⟨hparent, hopen⟩ : _ ∧ _ := by simpa using hp
    exact haction ▸ hfollowed r _ (.inr ⟨haction, hcancel haction⟩) hparent hopen
  · exact .refl hrefl goals

/-- **An update** touches the goal itself, its active parent, and the children that it moves. -/
theorem update_rewrites (hkeys : KeyUnique Goal.id s.goals)
    (h : s.update env now goalId change operator asked = .ok s') :
    ∃ q, locked env s.goals goalId = .ok q ∧
      Rewritten (Updates goalId q.id change.action) s.goals s'.goals := by
  obtain ⟨q, -, hlocked, -, -⟩ := update_inv h
  refine ⟨q, hlocked, update_rewritten hkeys h Updates.refl (fun _ _ _ => Updates.trans)
    (fun _ _ h => h.id) (fun _ _ h => h.moves.updates) ?_ ?_ ?_⟩
  · intro q' g hlocked' htransition
    rw [hlocked] at hlocked'
    cases hlocked'
    exact transition_updates goalId htransition q.leaseId q.leaseUntil
  · intro r haction hmarker hpaused
    rw [haction]
    exact restored_updates hmarker hpaused
  · intro r status hstatus hparent hopen
    exact followed_updates hstatus hparent hopen

/-- What is left of a row when the children of a goal are restored. -/
theorem row_restoreChildren {i : GoalId} : row (restoreChildren goalId goals) i =
    (row goals i).map fun r =>
      if r.pausedByParent = some goalId ∧ r.status = .paused then r.restored else r := by
  have h := @row_updateWhere goals i (fun r => r.pausedByParent = some goalId ∧ r.status = .paused)
    Goal.restored fun _ => rfl
  simp only [decide_eq_true_eq] at h
  exact h

/-- What is left of a row when the children of a goal follow it. -/
theorem row_cascade {status : Status} {i : GoalId} : row (cascade goalId action status goals) i =
    (row goals i).map fun r => if r.parentGoalId = some goalId ∧ ¬ r.status.terminal then
      r.followed goalId action status else r := by
  have h := @row_updateWhere goals i (fun r => r.parentGoalId = some goalId ∧ ¬ r.status.terminal)
    (Goal.followed goalId action status) fun _ => followed_family.1
  simp only [decide_eq_true_eq] at h
  exact h

/-! ## The head of a family -/

/-- **An update of a goal without a parent** writes its row and moves its children. -/
theorem update_head (h : s.update env now goalId change operator asked = .ok s')
    (hhead : ∀ q, locked env s.goals goalId = .ok q → q.parentGoalId = none)
    (haction : change.action = .pause ∨ change.action = .resume ∨ change.action = .cancel) :
    ∃ q g, locked env s.goals goalId = .ok q ∧ q.transition env now change operator = .ok g ∧
      Kin q g ∧ s'.goals = moveChildren goalId change.action g.status (save g s.goals) := by
  obtain ⟨q, g, hlocked, htransition, hsteps⟩ := update_inv h
  have hannotate : annotate g change asked = g := by
    unfold annotate
    rcases haction with haction | haction | haction <;> rw [haction]
  rw [hannotate] at hsteps
  have hfamily := @transition_updates _ _ _ _ _ _ asked goalId htransition none none
  rw [hannotate] at hfamily
  refine ⟨q, g, hlocked, htransition,
    ⟨hfamily.id, hfamily.parent, hfamily.kind, hfamily.marker⟩, ?_⟩
  rcases hsteps with ⟨hblock, -⟩ | ⟨goals, hwoken, hgoals⟩
  · rcases haction with haction | haction | haction <;> rw [haction] at hblock <;> cases hblock
  · have hparent : g.parentGoalId = none := hfamily.parent.trans (hhead q hlocked)
    unfold wakeParent at hwoken
    rw [hparent] at hwoken
    cases hwoken
    exact hgoals

end GenusOs.Goals
