import GenusOs.Goals.Family
import Mathlib

/-!
# What is in review is proven

A goal reaches its review with a satisfied entry for each criterion and keeps the entries while it
is there. A pause of its parent puts it away and the resumption brings it back, and in between its
criteria may be revised.

* `judged`: what a command does to the evidence and to the status that a goal stands for.
* `reviewed_and_complete_proven`: every run.
-/

namespace GenusOs.Goals

open Rows

variable {env : Env} {q g a r r' : Goal} {s t : Store}
    {now : Nat} {goalId : String} {change : GoalUpdate}
  {operator : Bool} {asked : Asked} {ids : List GoalId}

/-- Each criterion has an entry, and the last one is satisfied. -/
def Goal.Proven (g : Goal) : Prop :=
  ∀ criterion < g.successCriteria.length, ∃ e, g.latest criterion = some e ∧ e.satisfied = true

/-- Each criterion has an entry, and the last one was verified independently. -/
def Goal.Verified (g : Goal) : Prop :=
  ∀ criterion < g.successCriteria.length, ∃ e check, g.latest criterion = some e ∧
    e.verification = some check ∧ check.independent = true ∧ check.criterionVerified = true

theorem proven_of_completionMissing (h : g.completionMissing = []) : g.Proven := by
  intro criterion hlt
  unfold Goal.completionMissing at h
  rw [List.map_eq_nil_iff, List.filter_eq_nil_iff] at h
  have hsatisfies := h (g.successCriteria[criterion], criterion)
    (List.mk_mem_zipIdx_iff_getElem?.mpr
    (List.getElem?_eq_getElem hlt))
  rw [Bool.not_eq_true, Bool.not_eq_false'] at hsatisfies
  exact (Option.any_eq_true _ _).mp hsatisfies

theorem verified_of_requiresReview (h : g.requiresReview = false)
    (hindependent : g.independentEvidenceRequired = true) : g.humanReview = false ∧ g.Verified := by
  unfold Goal.requiresReview at h
  rw [hindependent, Bool.true_and, Bool.or_eq_false_iff] at h
  refine ⟨h.1, fun criterion hlt => ?_⟩
  have hverifies := List.any_eq_false.mp h.2 criterion (List.mem_range.mpr hlt)
  rw [Bool.not_eq_true, Bool.not_eq_false'] at hverifies
  obtain ⟨check, hcheck, hboth⟩ := (Option.any_eq_true _ _).mp hverifies
  obtain ⟨e, he, hverification⟩ := Option.bind_eq_some_iff.mp hcheck
  rw [Bool.and_eq_true] at hboth
  exact ⟨e, check, he, hverification, hboth.1, hboth.2⟩

/-! ## What a goal stands for -/

/-- The status of a goal, or the one that it gets back when its parent is resumed: a review that a
pause has put away is still one. -/
def Goal.standing (g : Goal) : Status :=
  if g.status = .paused ∧ g.pausedByParent.isSome then
    g.beforeParentPause.getD .queued else g.status

theorem standing_of_unmarked (h : g.pausedByParent = none) : g.standing = g.status := by
  unfold Goal.standing
  rw [if_neg]
  rintro ⟨-, hsome⟩
  rw [h] at hsome
  cases hsome

theorem standing_of_active (h : g.status ≠ .paused) : g.standing = g.status := by
  unfold Goal.standing
  exact if_neg fun hpaused => h hpaused.1

/-- The marker of a pause belongs to a goal that is paused, or closed, and was open before. -/
def Goal.Marked (g : Goal) : Prop :=
  g.pausedByParent.isSome →
    (g.status = .paused ∨ g.status.terminal = true) ∧ g.beforeParentPause ≠ some .complete

/-- The goal is not in review, nor closed as complete. -/
def Goal.Pending (g : Goal) : Prop := g.standing ≠ .review ∧ g.standing ≠ .complete

theorem pending_of_status (h : g.standing = g.status)
    (hstatus : g.status ≠ .review ∧ g.status ≠ .complete) : g.Pending := by
  unfold Goal.Pending
  rw [h]
  exact hstatus

/-- A goal keeps the fields by which it is judged, and what it stands for. -/
structure SameCase (q g : Goal) : Prop where
  standing : g.standing = q.standing
  criteria : g.successCriteria = q.successCriteria
  evidence : g.evidence = q.evidence

/-- What a command makes of the evidence and of the standing. In all cases but the last one a goal
stays judged: it is ongoing or still pending, its case stays, or nothing is missing. In the last one
the evidence goes while the review is put away, which is what the condition is about. -/
inductive Judged (action : Action) (q g : Goal) : Prop
  | ongoing (hmode : g.mode = .ongoing)
  | pending (hpending : g.Pending)
  | same (hsame : SameCase q g)
  | completed (hmissing : g.completionMissing = [])
      (hreview : g.standing = .complete → g.requiresReview = false)
  | approved (haction : action = .approve) (hmissing : g.completionMissing = [])
  /-- The goal was in review when its parent was paused. -/
  | revised (haction : action = .revise) (hpaused : q.status = .paused)
      (hmarker : q.pausedByParent.isSome) (hsame : g.standing = q.standing)

/-- The fields that no command changes. -/
structure SameTerms (q g : Goal) : Prop where
  id : g.id = q.id
  mode : g.mode = q.mode
  humanReview : g.humanReview = q.humanReview
  independent : g.independentEvidenceRequired = q.independentEvidenceRequired

theorem SameTerms.trans {g' : Goal} (h : SameTerms q g) (h' : SameTerms g g') : SameTerms q g' :=
  ⟨h'.id.trans h.id, h'.mode.trans h.mode, h'.humanReview.trans h.humanReview,
    h'.independent.trans h.independent⟩

/-- The row that a command writes. -/
theorem transition_terms (h : q.transition env now change operator = .ok g)
    (leaseId leaseUntil : Option Nat) :
    SameTerms q { annotate g change asked with leaseId, leaseUntil } := by
  obtain ⟨-, -, a, ha, rfl⟩ := transition_spec h
  have hannotate (g : Goal) : SameTerms g { annotate g change asked with leaseId, leaseUntil } := by
    unfold annotate
    split <;> exact ⟨rfl, rfl, rfl, rfl⟩
  have hbump : SameTerms a (a.bump change) := by
    unfold Goal.bump
    dsimp only
    split <;> exact ⟨rfl, rfl, rfl, rfl⟩
  have happly : SameTerms q a := by
    cases apply_inv ha with
    | progress _ =>
      unfold Goal.progress
      dsimp only
      split_ifs <;> exact ⟨rfl, rfl, rfl, rfl⟩
    | _ => exact ⟨rfl, rfl, rfl, rfl⟩
  exact happly.trans (hbump.trans (hannotate (a.bump change)))

/-- The markers of a goal that no command on it has cleared. -/
theorem bump_marker (hpause : change.action ≠ .pause) (hcancel : change.action ≠ .cancel)
    (hresume : change.action ≠ .resume) : g.bump change = { g with version := g.version + 1 } := by
  unfold Goal.bump
  dsimp only
  rw [if_neg]
  rintro (haction | haction | haction)
  · exact hpause haction
  · exact hcancel haction
  · exact hresume haction

theorem bump_unmarked
    (haction : change.action = .pause ∨ change.action = .cancel ∨ change.action = .resume) :
    (g.bump change).pausedByParent = none := by
  unfold Goal.bump
  dsimp only
  rw [if_pos haction]

/-- What is left of an update of the row where no evidence was recorded and nothing blocked. -/
theorem annotate_eq (hevidence : change.action ≠ .evidence) (hblock : change.action ≠ .block) :
    annotate g change asked = g := by
  unfold annotate
  split
  · next haction => exact absurd haction hevidence
  · next haction => exact absurd haction hblock
  · rfl

theorem pending_of_moved (hpaused : g.status ≠ .paused) (hreview : g.status ≠ .review)
    (hcomplete : g.status ≠ .complete) : g.Pending :=
  pending_of_status (standing_of_active hpaused) ⟨hreview, hcomplete⟩

/-- What a goal that is neither held nor closed has not as its status. -/
theorem active_status (hheld : q.status.held ≠ true) (hterminal : q.status.terminal = false) :
    q.status ≠ .paused ∧ q.status ≠ .review ∧ q.status ≠ .complete := by
  refine ⟨?_, ?_, ?_⟩ <;> intro h
  · exact hheld (by rw [h]; rfl)
  · exact hheld (by rw [h]; rfl)
  · rw [h] at hterminal
    cases hterminal

/-- **What a command does** to a goal whose markers belong to a pause, by cases on its branch. -/
theorem judged (hq : q.Marked) (h : q.transition env now change operator = .ok g)
    (leaseId leaseUntil : Option Nat) :
    Judged change.action q { annotate g change asked with leaseId, leaseUntil } := by
  obtain ⟨hterminal, htaken, a, ha, rfl⟩ := transition_spec h
  -- commands that a held goal refuses leave it unmarked, whatever becomes of its evidence
  have hactive (hnot : change.action.takenWhileHeld = false) :
      q.status ≠ .paused ∧ q.status ≠ .review ∧ q.status ≠ .complete :=
    active_status (fun hheld => by rw [htaken hheld] at hnot; cases hnot) hterminal
  have hstatus :
      ({ annotate (a.bump change) change asked with leaseId, leaseUntil } : Goal).status =
      a.status := annotate_status.trans (@bump_family a change).2.2.2.1
  have hpending (hpaused : a.status ≠ .paused) (hreview : a.status ≠ .review)
      (hcomplete : a.status ≠ .complete) :
      Judged change.action q { annotate (a.bump change) change asked with leaseId, leaseUntil } :=
    .pending (pending_of_moved (hstatus ▸ hpaused) (hstatus ▸ hreview) (hstatus ▸ hcomplete))
  cases apply_inv ha with
  | progress haction =>
    obtain ⟨hpaused, hreview, hcomplete⟩ := hactive (by rw [haction]; rfl)
    -- a note that blocks nothing leaves the status
    have hsame : (q.progress change).status = q.status := by
      unfold Goal.progress
      dsimp only
      split_ifs <;> rfl
    exact hpending (hsame ▸ hpaused) (hsame ▸ hreview) (hsame ▸ hcomplete)
  | evidence haction _ =>
    obtain ⟨hpaused, hreview, hcomplete⟩ := hactive (by rw [haction]; rfl)
    exact hpending hpaused hreview hcomplete
  | wait _ _ _ _ _ _ => exact hpending nofun nofun nofun
  | block haction =>
    obtain ⟨hpaused, hreview, hcomplete⟩ := hactive (by rw [haction]; rfl)
    have hblocked : (q.block change).status = .blocked ∨ (q.block change).status = q.status := by
      unfold Goal.block
      dsimp only
      split_ifs
      all_goals first
        | exact .inl rfl
        | exact .inr rfl
    rcases hblocked with hblocked | hsame
    · exact hpending (by rw [hblocked]; decide) (by rw [hblocked]; decide)
        (by rw [hblocked]; decide)
    · exact hpending (hsame ▸ hpaused) (hsame ▸ hreview) (hsame ▸ hcomplete)
  | complete haction _ hmissing =>
    rw [annotate_eq (by rw [haction]; decide) (by rw [haction]; decide),
      bump_marker (by rw [haction]; decide) (by rw [haction]; decide) (by rw [haction]; decide)]
    -- nothing is missing; where a review is required the status is that of a review
    refine .completed hmissing fun hcomplete => ?_
    rw [standing_of_active (by dsimp only; split <;> nofun)] at hcomplete
    dsimp only at hcomplete
    split at hcomplete
    · cases hcomplete
    · next hrequires => exact Bool.not_eq_true _ ▸ hrequires
  | assess _ hmode _ _ _ _ _ _ _ =>
      exact .ongoing ((transition_terms h leaseId leaseUntil).mode.trans hmode)
  | approveOngoing _ hmode _ _ _ =>
    exact .ongoing ((transition_terms h leaseId leaseUntil).mode.trans hmode)
  | approve haction _ _ hmissing =>
    rw [annotate_eq (by rw [haction]; decide) (by rw [haction]; decide),
      bump_marker (by rw [haction]; decide) (by rw [haction]; decide) (by rw [haction]; decide)]
    exact .approved haction hmissing
  | pause haction =>
    rw [annotate_eq (by rw [haction]; decide) (by rw [haction]; decide)] at hstatus ⊢
    exact .pending (pending_of_status (standing_of_unmarked (bump_unmarked (.inl haction)))
      (by rw [hstatus]; exact ⟨nofun, nofun⟩))
  | cancel _ => exact hpending nofun nofun nofun
  | resume _ _ _ _ => exact hpending nofun nofun nofun
  | steer haction =>
    rw [annotate_eq (by rw [haction]; decide) (by rw [haction]; decide),
      bump_marker (by rw [haction]; decide) (by rw [haction]; decide) (by rw [haction]; decide)]
    exact .same ⟨rfl, rfl, rfl⟩
  | revise haction _ _ =>
    rw [annotate_eq (by rw [haction]; decide) (by rw [haction]; decide),
      bump_marker (by rw [haction]; decide) (by rw [haction]; decide) (by rw [haction]; decide)]
    by_cases hmarked : q.pausedByParent.isSome
    · -- a mark belongs to a pause, as the goal is not closed
      have hpaused : q.status = .paused := by
        rcases (hq hmarked).1 with hpaused | hclosed
        · exact hpaused
        · rw [hterminal] at hclosed
          cases hclosed
      refine .revised haction hpaused hmarked ?_
      unfold Goal.standing
      dsimp only
      rw [hpaused, if_neg (show ¬ Status.paused = Status.review from nofun)]
    · refine .pending (pending_of_status (standing_of_unmarked ?_) ?_)
      · exact Option.not_isSome_iff_eq_none.mp hmarked
      · dsimp only
        split
        · exact ⟨nofun, nofun⟩
        · next hreview =>
          refine ⟨hreview, fun hcomplete => ?_⟩
          rw [hcomplete] at hterminal
          cases hterminal
  | reconciled haction =>
    obtain ⟨hpaused, hreview, hcomplete⟩ := hactive (by rw [haction]; rfl)
    exact hpending hpaused hreview hcomplete
  | link haction =>
    rw [annotate_eq (by rcases haction with h | h <;> rw [h] <;> decide)
        (by rcases haction with h | h <;> rw [h] <;> decide),
      bump_marker (by rcases haction with h | h <;> rw [h] <;> decide)
        (by rcases haction with h | h <;> rw [h] <;> decide)
        (by rcases haction with h | h <;> rw [h] <;> decide)]
    exact .same ⟨rfl, rfl, rfl⟩

/-! ## The rows of an update and of the engine -/

/-- A row that keeps its case, or does not stand for a review or a completion. -/
structure Kept (r r' : Goal) : Prop where
  terms : SameTerms r r'
  marked : r.Marked → r'.Marked
  judged : SameCase r r' ∨ r'.Pending

/-- The goal stands for work: it neither waits nor is judged. -/
def Goal.Busy (g : Goal) : Prop := g.standing ≠ .waiting ∧ g.Pending

theorem busy_of_moved (hpaused : g.status ≠ .paused) (hwaiting : g.status ≠ .waiting)
    (hreview : g.status ≠ .review) (hcomplete : g.status ≠ .complete) : g.Busy := by
  refine ⟨?_, pending_of_moved hpaused hreview hcomplete⟩
  rw [standing_of_active hpaused]
  exact hwaiting

/-- A row that keeps its wait too, and stands for the same or for work. -/
structure Carried (r r' : Goal) : Prop extends Kept r r' where
  wait : r'.wait = r.wait
  standing : r'.standing = r.standing ∨ r'.Busy

theorem Driven.carried (h : Driven r r') : Carried r r' := by
  have hstanding : r'.standing = r.standing ∨ r'.Busy := by
    rcases h.status with hsame | ⟨-, hmoved⟩
    · refine .inl ?_
      unfold Goal.standing
      rw [hsame, h.field Goal.pausedByParent fun _ => rfl,
        h.field Goal.beforeParentPause fun _ => rfl]
    · refine .inr ?_
      rcases hmoved with hmoved | hmoved | hmoved <;>
        exact busy_of_moved (by rw [hmoved]; decide)
          (by rw [hmoved]; decide) (by rw [hmoved]; decide)
          (by rw [hmoved]; decide)
  refine ⟨⟨⟨h.id, h.field Goal.mode fun _ => rfl, h.field Goal.humanReview fun _ => rfl,
    h.field Goal.independentEvidenceRequired fun _ => rfl⟩,
    ?_, ?_⟩, h.field Goal.wait fun _ => rfl, hstanding⟩
  · intro hmarked hsome
    rw [h.field Goal.pausedByParent fun _ => rfl] at hsome
    -- the engine does not touch what is put away
    have hinactive : r.status.inactive = true := by
      unfold Status.inactive
      rcases (hmarked hsome).1 with hpaused | hterminal
      · rw [hpaused]
        rfl
      · rw [hterminal, Bool.true_or]
    rw [h.status_eq hinactive, h.field Goal.beforeParentPause fun _ => rfl]
    exact hmarked hsome
  · exact hstanding.imp (fun hsame => ⟨hsame, h.field Goal.successCriteria fun _ => rfl,
      h.field Goal.evidence fun _ => rfl⟩) And.right

theorem restored_carried (hmarker : r.pausedByParent = some goalId) (hpaused : r.status = .paused) :
    Carried r r.restored := by
  have hstanding : r.restored.standing = r.standing ∨ r.restored.Busy := by
    have hbefore : r.standing = r.beforeParentPause.getD .queued := by
      unfold Goal.standing
      rw [if_pos ⟨hpaused, by rw [hmarker]; rfl⟩]
    have hrestored : r.restored.standing = r.restored.status := standing_of_unmarked rfl
    -- what was running is queued again, and everything else is restored as it was
    by_cases hrunning : r.beforeParentPause.getD .queued = .running
    · refine .inr ?_
      unfold Goal.Busy Goal.Pending
      rw [hrestored]
      unfold Goal.restored
      dsimp only
      rw [if_pos hrunning]
      exact ⟨nofun, nofun, nofun⟩
    · refine .inl ?_
      rw [hrestored, hbefore]
      unfold Goal.restored
      dsimp only
      rw [if_neg hrunning]
  exact ⟨⟨⟨rfl, rfl, rfl, rfl⟩, fun _ => nofun,
    hstanding.imp (fun hsame => ⟨hsame, rfl, rfl⟩) And.right⟩, rfl, hstanding⟩

theorem followed_carried {action : Action} {status : Status}
    (hstatus : action = .pause ∧ status = .paused ∨ action = .cancel ∧ status = .canceled)
    (hopen : r.status.terminal = false) : Carried r (r.followed goalId action status) := by
  have hfields : SameTerms r (r.followed goalId action status) ∧
      (r.followed goalId action status).successCriteria = r.successCriteria ∧
      (r.followed goalId action status).evidence = r.evidence ∧
      (r.followed goalId action status).wait = r.wait := by
    unfold Goal.followed
    dsimp only
    split <;> exact ⟨⟨rfl, rfl, rfl, rfl⟩, rfl, rfl, rfl⟩
  obtain ⟨hterms, hcriteria, hevidence, hwait⟩ := hfields
  have hstanding : (r.followed goalId action status).standing = r.standing ∨
      (r.followed goalId action status).Busy := by
    rcases hstatus with ⟨rfl, rfl⟩ | ⟨rfl, rfl⟩
    · refine .inl ?_
      unfold Goal.followed
      dsimp only
      split
      · next hactive =>
        -- the mark remembers the status, for which the paused child still stands
        rw [standing_of_active hactive.2]
        rfl
      · next hpaused =>
        have hpaused : r.status = .paused := by
          by_contra hactive
          exact hpaused ⟨rfl, hactive⟩
        unfold Goal.standing
        dsimp only
        rw [hpaused]
    · exact .inr (busy_of_moved nofun nofun nofun nofun)
  refine ⟨⟨hterms, ?_, hstanding.imp (fun hsame => ⟨hsame, hcriteria, hevidence⟩) And.right⟩, hwait,
    hstanding⟩
  rcases hstatus with ⟨rfl, rfl⟩ | ⟨rfl, rfl⟩
  · unfold Goal.followed
    dsimp only
    split
    · refine fun _ _ => ⟨.inl rfl, fun hcomplete => ?_⟩
      rw [Option.some.inj hcomplete] at hopen
      cases hopen
    · exact fun hmarked hsome => ⟨.inl rfl, (hmarked hsome).2⟩
  · exact fun hmarked hsome => ⟨.inr rfl, (hmarked hsome).2⟩

/-- What holds of the rows of a new goal, and of a row once the engine or a part of an update has
written it, holds of all rows after a transaction. The invariants of the rows are proved by it. -/
theorem transact_invariant {op : Op} {I : Goal → Prop} (hkeys : KeyUnique Goal.id s.goals)
    (hs : ∀ g ∈ s.goals, I g) (h : s.transact env now op = .ok t)
    (hnew : ∀ (spec : CreateGoal) newId key, I (spec.newGoal now newId key))
    (hcarried : ∀ r r', Carried r r' → I r → I r')
    (hself : ∀ goalId change operator asked q g, op = .update goalId change operator asked →
      locked env s.goals goalId = .ok q → q.transition env now change operator = .ok g → I q →
      I { annotate g change asked with leaseId := q.leaseId, leaseUntil := q.leaseUntil }) :
    ∀ g ∈ t.goals, I g := by
  have hrows := @transact_rewritten _ _ _ _ op (fun r r' => r'.id = r.id ∧ (I r → I r')) hkeys h
    (fun _ => ⟨rfl, fun h => h⟩)
      (fun r r' hdriven => ⟨hdriven.id, hcarried r r' hdriven.carried⟩) ?_
  · rcases hrows with ⟨spec, newId, key, hgoals, -⟩ | hrows
    · intro g hg
      rw [hgoals] at hg
      rcases List.mem_append.mp hg with hg | hg
      · exact hs g hg
      · rw [List.mem_singleton.mp hg]
        exact hnew spec newId key
    · intro g hg
      obtain ⟨r, hr, -, hI⟩ := hrows.mem hg
      exact hI (hs r hr)
  · -- an update writes the goal by its command, and the other rows as the engine or a pause does
    intro goalId change operator asked hop hupdate
    refine update_rewritten hkeys hupdate (fun _ => ⟨rfl, fun h => h⟩)
      (fun _ _ _ h h' => ⟨h'.1.trans h.1, fun hI => h'.2 (h.2 hI)⟩) (fun _ _ h => h.1)
      (fun r r' hengine => ⟨hengine.id, hcarried r r' hengine.toDriven.carried⟩) ?_ ?_ ?_
    · intro q g hlocked htransition
      exact ⟨(transition_terms htransition q.leaseId q.leaseUntil).id, fun hI =>
        hself goalId change operator asked q g hop hlocked htransition hI⟩
    · intro r _ hmarker hpaused
      exact ⟨rfl, hcarried _ _ (restored_carried hmarker hpaused)⟩
    · intro r status hstatus _ hopen
      exact ⟨followed_family.1, hcarried _ _ (followed_carried hstatus hopen)⟩

/-! ## The invariants -/

theorem proven_congr (hcriteria : r'.successCriteria = r.successCriteria)
    (hevidence : r'.evidence = r.evidence) (h : r.Proven) : r'.Proven := by
  unfold Goal.Proven Goal.latest at *
  rw [hcriteria, hevidence]
  exact h

theorem verified_congr (hcriteria : r'.successCriteria = r.successCriteria)
    (hevidence : r'.evidence = r.evidence) (h : r.Verified) : r'.Verified := by
  unfold Goal.Verified Goal.latest at *
  rw [hcriteria, hevidence]
  exact h

/-- A row in every run, `ids` being the goals that the operator has approved: its markers belong to
a pause, and a finite goal that is complete without an approval asks for no human review and has
entries that were verified independently. -/
structure Sound (ids : List GoalId) (g : Goal) : Prop where
  independent : g.independentEvidenceRequired = true
  marked : g.Marked
  checked : g.mode ≠ .ongoing → g.standing = .complete →
    g.id ∈ ids ∨ (g.humanReview = false ∧ g.Verified)

/-- A row in the runs that keep what is in review: a finite goal that stands for a review or for a
completion is proven. -/
structure Backed (g : Goal) : Prop where
  marked : g.Marked
  proven : g.mode ≠ .ongoing → g.standing = .review ∨ g.standing = .complete → g.Proven

theorem Kept.sound (h : Kept r r') (hr : Sound ids r) : Sound ids r' where
  independent := h.terms.independent.trans hr.independent
  marked := h.marked hr.marked
  checked := by
    intro hmode hcomplete
    rcases h.judged with hsame | hpending
    · rw [h.terms.id, h.terms.humanReview]
      rw [h.terms.mode] at hmode
      rw [hsame.standing] at hcomplete
      exact (hr.checked hmode hcomplete).imp_right
        (And.imp_right (verified_congr hsame.criteria hsame.evidence))
    · exact absurd hcomplete hpending.2

theorem Kept.backed (h : Kept r r') (hr : Backed r) : Backed r' where
  marked := h.marked hr.marked
  proven := by
    intro hmode hstanding
    rcases h.judged with hsame | hpending
    · rw [h.terms.mode] at hmode
      rw [hsame.standing] at hstanding
      exact proven_congr hsame.criteria hsame.evidence (hr.proven hmode hstanding)
    · exact absurd hstanding (not_or.mpr hpending)

theorem newGoal_standing (spec : CreateGoal) (newId : GoalId) (key : Option RequestKey) :
    (spec.newGoal now newId key).standing = .queued := standing_of_unmarked rfl

/-- The markers after a command. -/
theorem transition_marked (hq : q.Marked) (h : q.transition env now change operator = .ok g)
    (leaseId leaseUntil : Option Nat) :
    ({ annotate g change asked with leaseId, leaseUntil } : Goal).Marked := by
  obtain ⟨hterminal, htaken, a, ha, rfl⟩ := transition_spec h
  obtain ⟨-, -, -, hmarker, hbefore⟩ := apply_family ha
  have hfields : (annotate (a.bump change) change asked).pausedByParent =
        (a.bump change).pausedByParent ∧
      (annotate (a.bump change) change asked).beforeParentPause =
        (a.bump change).beforeParentPause := by
    unfold annotate
    split <;> exact ⟨rfl, rfl⟩
  intro hsome
  rw [show
    ({ annotate (a.bump change) change asked with leaseId, leaseUntil } : Goal).pausedByParent = _
    from hfields.1] at hsome
  by_cases haction : change.action = .pause ∨ change.action = .cancel ∨ change.action = .resume
  · -- these three commands clear the mark
    rw [bump_unmarked haction] at hsome
    cases hsome
  · obtain ⟨hpause, hcancel, hresume⟩ : _ ∧ _ ∧ _ := by simpa only [not_or] using haction
    have hbump := @bump_marker a change hpause hcancel hresume
    rw [hbump] at hsome hfields
    obtain ⟨hstatus, hne⟩ := hq (hmarker ▸ hsome)
    have hpaused : q.status = .paused := by
      rcases hstatus with hpaused | hclosed
      · exact hpaused
      · rw [hterminal] at hclosed
        cases hclosed
    -- a marked goal is paused, and the other commands keep it so
    have hkept : a.status = .paused :=
      apply_paused ha hpaused (htaken (by rw [hpaused]; rfl)) hresume hcancel
    refine ⟨.inl ?_, ?_⟩
    · exact (annotate_status.trans (@bump_family a change).2.2.2.1).trans hkept
    · intro hcomplete
      rw [hbump] at hcomplete
      exact hne (hbefore.symm.trans (hfields.2.symm.trans hcomplete))

/-- A goal that a pause has put away was not complete. -/
theorem Goal.Marked.standing_ne (hq : q.Marked) (hpaused : q.status = .paused)
    (hmarker : q.pausedByParent.isSome) : q.standing ≠ .complete := by
  unfold Goal.standing
  rw [if_pos ⟨hpaused, hmarker⟩]
  intro hcomplete
  cases hbefore : q.beforeParentPause with
  | none =>
    rw [hbefore] at hcomplete
    cases hcomplete
  | some before =>
    rw [hbefore] at hcomplete
    exact (hq hmarker).2 (by rw [hbefore]; exact congrArg some hcomplete)

/-- A command keeps a row sound. -/
theorem transition_sound (hq : Sound ids q) (h : q.transition env now change operator = .ok g)
    (happroved : change.action = .approve → q.id ∈ ids) (leaseId leaseUntil : Option Nat) :
    Sound ids { annotate g change asked with leaseId, leaseUntil } := by
  have hterms := @transition_terms _ _ _ _ _ _ asked h leaseId leaseUntil
  have hjudged := @judged _ _ _ _ _ _ asked hq.marked h leaseId leaseUntil
  have hmarked := @transition_marked _ _ _ _ _ _ asked hq.marked h leaseId leaseUntil
  generalize ({ annotate g change asked with leaseId, leaseUntil } : Goal) = r
    at hterms hjudged hmarked ⊢
  refine ⟨hterms.independent.trans hq.independent, hmarked, fun hmode hcomplete => ?_⟩
  cases hjudged with
  | ongoing hongoing => exact absurd hongoing hmode
  | pending hpending => exact absurd hcomplete hpending.2
  | same hsame =>
    exact (Kept.sound ⟨hterms, fun _ => hmarked, .inl hsame⟩ hq).checked hmode hcomplete
  | completed _ hreview =>
    exact .inr (verified_of_requiresReview (hreview hcomplete)
      (hterms.independent.trans hq.independent))
  | approved haction _ =>
    rw [hterms.id]
    exact .inl (happroved haction)
  | revised _ hpaused hmarker hsame =>
    exact absurd (hsame ▸ hcomplete) (hq.marked.standing_ne hpaused hmarker)

/-- A command keeps a row backed, if it does not revise what is put away. -/
theorem transition_backed (hq : Backed q) (h : q.transition env now change operator = .ok g)
    (hkeeps : change.action = .revise → q.mode ≠ .ongoing →
      ¬ (q.status = .paused ∧ q.pausedByParent.isSome ∧ q.beforeParentPause = some .review))
    (leaseId leaseUntil : Option Nat) :
    Backed { annotate g change asked with leaseId, leaseUntil } := by
  have hterms := @transition_terms _ _ _ _ _ _ asked h leaseId leaseUntil
  have hjudged := @judged _ _ _ _ _ _ asked hq.marked h leaseId leaseUntil
  have hmarked := @transition_marked _ _ _ _ _ _ asked hq.marked h leaseId leaseUntil
  generalize ({ annotate g change asked with leaseId, leaseUntil } : Goal) = r
    at hterms hjudged hmarked ⊢
  refine ⟨hmarked, fun hmode hstanding => ?_⟩
  cases hjudged with
  | ongoing hongoing => exact absurd hongoing hmode
  | pending hpending => exact absurd hstanding (not_or.mpr hpending)
  | same hsame =>
    exact (Kept.backed ⟨hterms, fun _ => hmarked, .inl hsame⟩ hq).proven hmode hstanding
  | completed hmissing _ => exact proven_of_completionMissing hmissing
  | approved _ hmissing => exact proven_of_completionMissing hmissing
  | revised haction hpaused hmarker hsame =>
    rw [hsame] at hstanding
    rw [hterms.mode] at hmode
    -- a revision withdraws the evidence, and what is put away stands for a review all the same
    rcases hstanding with hreview | hcomplete
    · refine absurd ⟨hpaused, hmarker, ?_⟩ (hkeeps haction hmode)
      unfold Goal.standing at hreview
      rw [if_pos ⟨hpaused, hmarker⟩] at hreview
      cases hbefore : q.beforeParentPause with
      | none =>
        rw [hbefore] at hreview
        cases hreview
      | some before =>
        rw [hbefore] at hreview
        exact congrArg some hreview
    · exact absurd hcomplete (hq.marked.standing_ne hpaused hmarker)

/-! ## Runs -/

/-- The goals that the operator approves. -/
def approvals (env : Env) (_ : Store) : Nat × Op → List GoalId
  | (_, .update goalId change operator _) =>
    if change.action = .approve ∧ operator = true then (env.uuid goalId).toList else []
  | _ => []

/-- **The condition**: the criteria of a goal are not revised while a pause of its parent has put it
away from its review. A revision takes the evidence away and a review back to work, which a goal
that is put away does not notice. -/
def KeepsReview (env : Env) (s : Store) : Nat × Op → Prop
  | (_, .update goalId change _ _) => change.action = .revise →
    ∀ g, locked env s.goals goalId = .ok g → g.mode ≠ .ongoing →
      ¬ (g.status = .paused ∧ g.pausedByParent.isSome ∧ g.beforeParentPause = some .review)
  | _ => True

theorem Sound.mono {ids' : List GoalId} (h : Sound ids g) : Sound (ids ++ ids') g where
  independent := h.independent
  marked := h.marked
  checked := fun hmode hcomplete => (h.checked hmode hcomplete).imp_left (List.mem_append_left ids')

/-- **Step lemma.** -/
theorem sound_step {op : Nat × Op} (hkeys : KeyUnique Goal.id s.goals)
    (hs : ∀ g ∈ s.goals, Sound ids g)
    (h : (transactions env).step s op t) : ∀ g ∈ t.goals, Sound (ids ++ approvals env s op) g := by
  refine transact_invariant hkeys (fun g hg => (hs g hg).mono) h ?_ (fun _ _ h => h.toKept.sound) ?_
  · intro spec newId key
    refine ⟨rfl, nofun, fun _ hcomplete => ?_⟩
    rw [newGoal_standing] at hcomplete
    cases hcomplete
  · intro goalId change operator asked q g hop hlocked htransition hq
    refine transition_sound hq htransition (fun haction => ?_) q.leaseId q.leaseUntil
    have hoperator : operator = true := transition_operator htransition (by rw [haction]; rfl)
    obtain ⟨now, op⟩ := op
    obtain rfl : op = _ := hop
    refine List.mem_append_right ids ?_
    have hnoted : approvals env s (now, .update goalId change operator asked) =
        (env.uuid goalId).toList := if_pos ⟨haction, hoperator⟩
    rw [hnoted, (locked_spec hlocked).1]
    exact List.mem_singleton_self q.id

/-- **Step lemma.** -/
theorem backed_step {op : Nat × Op} (hkeys : KeyUnique Goal.id s.goals)
    (hs : ∀ g ∈ s.goals, Backed g)
    (hkeeps : KeepsReview env s op) (h : (transactions env).step s op t) :
    ∀ g ∈ t.goals, Backed g := by
  refine transact_invariant hkeys hs h ?_ (fun _ _ h => h.toKept.backed) ?_
  · intro spec newId key
    refine ⟨nofun, fun _ hstanding => ?_⟩
    rw [newGoal_standing] at hstanding
    rcases hstanding with hreview | hcomplete
    · cases hreview
    · cases hcomplete
  · intro goalId change operator asked q g hop hlocked htransition hq
    obtain ⟨now, op⟩ := op
    obtain rfl : op = _ := hop
    exact transition_backed hq htransition
      (fun haction => hkeeps haction q hlocked) q.leaseId q.leaseUntil

/-- **What is in review or complete is proven**, in the runs that keep what is in review; and in all
runs a finite goal that the operator has not approved is complete on independently verified entries
only. -/
theorem reviewed_and_complete_proven (env : Env) :
    (∀ s, ((transactions env).restrict (KeepsReview env)).Reachable s →
      ∀ g ∈ s.goals, g.mode = .finite → g.status = .review ∨ g.status = .complete → g.Proven) ∧
    ∀ ops s ids, ((transactions env).record (approvals env)).Run ({}, []) ops (s, ids) →
      ∀ g ∈ s.goals, g.mode = .finite → g.status = .complete →
        g.id ∈ ids ∨ (g.humanReview = false ∧ g.Verified) := by
  have hactive {g : Goal} (hstatus : g.status = .review ∨ g.status = .complete) :
      g.standing = g.status :=
    standing_of_active (by rcases hstatus with hstatus | hstatus <;> rw [hstatus] <;> decide)
  constructor
  · intro s hs
    have hbacked : WellFormed env s.goals ∧ ∀ g ∈ s.goals, Backed g := by
      refine hs.invariant (I := fun s => WellFormed env s.goals ∧ ∀ g ∈ s.goals, Backed g) ?_ ?_
      · rintro s rfl
        exact ⟨wellFormed_nil, fun _ h => absurd h List.not_mem_nil⟩
      · rintro s op t ⟨hwf, hs⟩ ⟨hkeeps, hstep⟩
        exact ⟨wellFormed_step hwf hstep, backed_step hwf.keys hs hkeeps hstep⟩
    intro g hg hmode hstatus
    refine (hbacked.2 g hg).proven (by rw [hmode]; decide) ?_
    rw [hactive hstatus]
    exact hstatus
  · intro ops s ids hrun
    have hsound : WellFormed env s.goals ∧ ∀ g ∈ s.goals, Sound ids g := by
      refine hrun.preserves (I := fun u => WellFormed env u.1.goals ∧
        ∀ g ∈ u.1.goals, Sound u.2 g) ?_
        ⟨wellFormed_nil, fun _ h => absurd h List.not_mem_nil⟩
      rintro u op v ⟨hwf, hu⟩ ⟨hstep, hnotes⟩
      refine ⟨wellFormed_step hwf hstep, ?_⟩
      rw [hnotes]
      exact sound_step hwf.keys hu hstep
    intro g hg hmode hstatus
    refine (hsound.2 g hg).checked (by rw [hmode]; decide) ?_
    rw [hactive (.inr hstatus)]
    exact hstatus

/-! ### A child that is revised while its parent is paused -/

def childText : String := "00000000000"

/-- A test log for the only criterion. -/
def showEvidence : GoalUpdate :=
  { action := .evidence, version := 1, note := "seen", reference := "log", criterion := some 0,
    satisfied := some true }

theorem recorded_cons {op : Nat × Op} {ops : List (Nat × Op)} {u : Store × List GoalId}
    (h : s.transact env op.1 op.2 = .ok t)
    (hrun : ((transactions env).record (approvals env)).Run (t, ids ++ approvals env s op) ops u) :
    ((transactions env).record (approvals env)).Run (s, ids) (op :: ops) u := by
  have hstep : ((transactions env).record (approvals env)).step (s, ids) op
      (t, ids ++ approvals env s op) := ⟨h, rfl⟩
  exact .cons hstep hrun

/-- The store after updates that go through. -/
def updated (updates : List (String × GoalUpdate)) (s : Store) : Store :=
  updates.foldl (fun s u => (s.update sampleEnv 1 u.1 u.2 true {}).toOption.getD s) s

def sampleReview : Store :=
  updated
    [(childText, showEvidence), (childText, { action := .complete, version := 2, note := "done" })]
    sampleFamily

def sampleApproved : Store := updated
    [(childText, { action := .approve, version := 3 })] sampleReview

theorem sample_steps :
    Store.create sampleEnv 0 sampleParent 10 {} =
      .ok { goals := [sampleParent.newGoal 0 10 none] } ∧
    Store.create sampleEnv 0 sampleChild 11 { goals := [sampleParent.newGoal 0 10 none] } =
      .ok sampleFamily ∧
    sampleFamily.update sampleEnv 1 childText showEvidence true {} =
      .ok (updated [(childText, showEvidence)] sampleFamily) ∧
    (updated [(childText, showEvidence)] sampleFamily).update sampleEnv 1 childText
      { action := .complete, version := 2, note := "done" } true {} = .ok sampleReview := by
  decide +kernel

theorem sampleReview_reachable :
    ((transactions sampleEnv).restrict (KeepsReview sampleEnv)).Reachable sampleReview := by
  obtain ⟨hparent, hchild, hseen, hdone⟩ := sample_steps
  exact ⟨{}, [(0, .create sampleParent 10), (0, .create sampleChild 11),
    (1, .update childText showEvidence true {}),
    (1, .update childText { action := .complete, version := 2, note := "done" } true {})], rfl,
    .cons ⟨trivial, hparent⟩ (.cons ⟨trivial, hchild⟩
      (.cons ⟨nofun, hseen⟩ (.cons ⟨nofun, hdone⟩ (.nil _))))⟩

/-- The child goes to its review, and is approved. -/
theorem approved_child :
    (∃ g ∈ sampleReview.goals, g.id = 11 ∧ g.status = .review ∧ g.Proven) ∧
    ∃ g ∈ sampleApproved.goals, g.id = 11 ∧ g.status = .complete ∧
      (g.id ∈ [11] ∨ (g.humanReview = false ∧ g.Verified)) := by
  obtain ⟨hproven, hverified⟩ := reviewed_and_complete_proven sampleEnv
  constructor
  · have hreview : ∃ g ∈ sampleReview.goals, g.id = 11 ∧ g.status = .review ∧ g.mode = .finite := by
      decide +kernel
    obtain ⟨g, hg, hid, hstatus, hmode⟩ := hreview
    exact ⟨g, hg, hid, hstatus,
      hproven sampleReview sampleReview_reachable g hg hmode (.inl hstatus)⟩
  · obtain ⟨hparent, hchild, hseen, hdone⟩ := sample_steps
    have happroved : sampleReview.update sampleEnv 1 childText
        { action := .approve, version := 3 } true {} =
        .ok sampleApproved := by decide +kernel
    have hnotes : [] ++ approvals sampleEnv {} (0, .create sampleParent 10) ++
        approvals sampleEnv { goals := [sampleParent.newGoal 0 10 none] }
          (0, .create sampleChild 11) ++
        approvals sampleEnv sampleFamily (1, .update childText showEvidence true {}) ++
        approvals sampleEnv (updated [(childText, showEvidence)] sampleFamily)
          (1, .update childText { action := .complete, version := 2, note := "done" } true {}) ++
        approvals sampleEnv sampleReview
          (1, .update childText { action := .approve, version := 3 } true {}) = [11] := by
      decide +kernel
    have hrun : ((transactions sampleEnv).record (approvals sampleEnv)).Run ({}, [])
        [(0, .create sampleParent 10), (0, .create sampleChild 11),
          (1, .update childText showEvidence true {}),
          (1, .update childText { action := .complete, version := 2, note := "done" } true {}),
          (1, .update childText { action := .approve, version := 3 } true {})]
            (sampleApproved, [11]) := by
      rw [← hnotes]
      exact recorded_cons hparent (recorded_cons hchild (recorded_cons hseen (recorded_cons hdone
        (recorded_cons happroved (.nil _)))))
    have hcomplete : ∃ g ∈ sampleApproved.goals, g.id = 11 ∧
        g.status = .complete ∧ g.mode = .finite := by
      decide +kernel
    obtain ⟨g, hg, hid, hstatus, hmode⟩ := hcomplete
    exact ⟨g, hg, hid, hstatus, hverified _ sampleApproved [11] hrun g hg hmode hstatus⟩

/-- The review comes back without the evidence. -/
def sampleRevised : Store :=
  updated [(sampleText, { action := .pause, version := 2 }),
    (childText, { action := .revise, version := 4, note := "again" }),
    (sampleText, { action := .resume, version := 3 })] sampleReview

/-- A child that is revised while its parent is paused comes back to its review without evidence. -/
theorem revised_child_unproven :
    ¬ ∀ s, (transactions sampleEnv).Reachable s → ∀ g ∈ s.goals, g.mode = .finite →
      g.status = .review ∨ g.status = .complete → g.Proven := by
  intro hproven
  have hpause : sampleReview.update sampleEnv 1 sampleText
      { action := .pause, version := 2 } true {} =
      .ok (updated [(sampleText, { action := .pause, version := 2 })] sampleReview) := by
    decide +kernel
  have hrevise :
      (updated [(sampleText, { action := .pause, version := 2 })] sampleReview).update sampleEnv 1
      childText { action := .revise, version := 4, note := "again" } true {} =
      .ok (updated [(sampleText, { action := .pause, version := 2 }),
        (childText, { action := .revise, version := 4, note := "again" })] sampleReview) := by
    decide +kernel
  have hresume : (updated [(sampleText, { action := .pause, version := 2 }),
        (childText,
          { action := .revise, version := 4, note := "again" })] sampleReview).update sampleEnv 1
      sampleText { action := .resume, version := 3 } true {} = .ok sampleRevised := by
    decide +kernel
  have hreachable : (transactions sampleEnv).Reachable sampleRevised := by
    obtain ⟨_, ops, hinit, hrun⟩ := sampleReview_reachable
    have hlater : (transactions sampleEnv).Run sampleReview [
        (1, .update sampleText { action := .pause, version := 2 } true {}),
        (1, .update childText { action := .revise, version := 4, note := "again" } true {}),
        (1, .update sampleText { action := .resume, version := 3 } true {})] sampleRevised :=
      .cons hpause (.cons hrevise (.single hresume))
    exact System.Reachable.run ⟨_, ops, hinit, hrun.of_restrict⟩ hlater
  have hreview : ∃ g ∈ sampleRevised.goals, g.mode = .finite ∧ g.status = .review ∧
      g.successCriteria.length = 1 ∧ g.latest 0 = none := by decide +kernel
  obtain ⟨g, hg, hmode, hstatus, hlength, hnone⟩ := hreview
  obtain ⟨e, he, -⟩ := hproven sampleRevised hreachable g hg hmode (.inl hstatus) 0 (by omega)
  rw [hnone] at he
  cases he

end GenusOs.Goals
