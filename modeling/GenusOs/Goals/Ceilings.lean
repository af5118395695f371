import GenusOs.Goals.Control
import GenusOs.Goals.Posting
import GenusOs.Goals.Turns
import Mathlib

/-!
# Ceilings

* `Bounded`: a goal has had at most the runs of its ceiling, and three failures, or three runs
  without progress, have stopped it.
* `Tame`: what every transaction leaves of a goal, its dispatch apart. The counters of the row
  follow what the transaction notes of its turns.
-/

namespace GenusOs.Goals

open Rows

/-- The ceiling of the runs of a goal. -/
def Goal.maxAttemptsOf (g : Goal) : Nat := orDefault g.maxAttempts defaultMaxAttempts

/-- Three runs have failed, or have made no progress, since the counters of the row began. -/
def Goal.Spent (g : Goal) : Prop := 3 ≤ g.failures ∨ 3 ≤ g.noProgressRuns

/-- Only the operator starts the goal again: it is blocked or canceled, or it is paused, and was
blocked before if its parent has paused it. -/
def Goal.Stopped (g : Goal) : Prop :=
  g.status = .blocked ∨ g.status = .canceled ∨
    g.status = .paused ∧ (g.pausedByParent ≠ none → g.beforeParentPause = some .blocked)

/-- What holds of the counters of each row: a goal has had at most the runs of its ceiling, and one
that is spent is stopped. -/
structure Bounded (g : Goal) : Prop where
  attempts : g.attempts ≤ g.maxAttemptsOf
  stopped : g.Spent → g.Stopped
  progress : g.attemptProgress ≤ g.progressRevision

/-- What the row says of the turns of its goal. -/
def Goal.tally (g : Goal) : Tally where
  moved := g.attemptProgress < g.progressRevision
  failures := g.failures
  idle := g.noProgressRuns

/-- A row that gets no new run, where `events` is what is noted of its turns: its attempts stay, so
do its bounds, and its counters go on as what is noted says. -/
structure Tame (events : List TurnEvent) (r r' : Goal) : Prop where
  id : r'.id = r.id
  attempts : r'.attempts = r.attempts
  bounded : Bounded r → Bounded r'
  tally : Bounded r → r'.tally = r.tally.after r.id events

variable {env : Env} {goals goals' start : List Goal} {q g r r' : Goal} {s t : Store} {now : Nat}
  {goalId : String} {change : GoalUpdate} {operator : Bool} {asked : Asked} {tie : Goal → Nat}
  {attempt : AttemptId} {report : Report} {tokens : Int} {cost : ℚ} {events : List TurnEvent}

theorem Goal.Stopped.inactive (h : g.Stopped) : g.status.inactive = true := by
  rcases h with hstatus | hstatus | ⟨hstatus, -⟩ <;> rw [hstatus] <;> rfl

/-- A goal that was stopped before its parent paused it. -/
theorem Goal.Stopped.before (h : g.Stopped) (hpaused : g.status = .paused) :
    g.pausedByParent ≠ none → g.beforeParentPause = some .blocked := by
  rcases h with hstatus | hstatus | ⟨-, hby⟩
  · rw [hpaused] at hstatus
    cases hstatus
  · rw [hpaused] at hstatus
    cases hstatus
  · exact hby

/-- The ceilings are checked one by one. -/
theorem exceeded_eq_empty : g.exceeded env now = "" ↔
    g.tokensUsed < g.tokenBudgetOf ∧ g.costUsd < g.costBudgetOf ∧
      g.attempts < g.maxAttemptsOf ∧ now < g.deadlineOf := by
  unfold Goal.exceeded Goal.maxAttemptsOf
  dsimp only
  split
  · next hreached =>
    simp [not_lt.mpr hreached]
  next htokens =>
  split
  · next hreached =>
    simp [not_lt.mpr hreached]
  next hcost =>
  split
  · next hreached =>
    simp [not_lt.mpr hreached]
  next hattempts =>
  split
  · next hreached =>
    simp [not_lt.mpr hreached]
  next hdeadline =>
  exact iff_of_true rfl ⟨not_le.mp htokens, not_le.mp hcost,
    not_le.mp hattempts, not_le.mp hdeadline⟩

theorem Tame.refl (r : Goal) : Tame [] r r := ⟨rfl, rfl, fun h => h, fun _ => rfl⟩

theorem Tame.trans {events' : List TurnEvent} (h : Tame events r r') (h' : Tame events' r' g) :
    Tame (events ++ events') r g where
  id := h'.id.trans h.id
  attempts := h'.attempts.trans h.attempts
  bounded hr := h'.bounded (h.bounded hr)
  tally hr := by
    rw [h'.tally (h.bounded hr), h.tally hr, h.id, Tally.after_append]

/-- Nothing is noted of the row. -/
theorem Tame.other (h : Tame [] r r') (hother : ∀ e ∈ events, e.goal ≠ r.id) :
    Tame events r r' where
  id := h.id
  attempts := h.attempts
  bounded := h.bounded
  tally hr := by
    rw [h.tally hr, Tally.after_nil, Tally.after_other hother]

/-- The counts of a goal, of which its bounds are a matter. -/
def Goal.counts (g : Goal) : GoalId × Nat × Option Nat × Nat × Nat × Nat × Nat :=
  (g.id, g.attempts, g.maxAttempts, g.failures, g.noProgressRuns, g.progressRevision,
    g.attemptProgress)

theorem counts_eq (hcounts : r'.counts = r.counts) : r'.id = r.id ∧ r'.attempts = r.attempts ∧
    r'.maxAttemptsOf = r.maxAttemptsOf ∧ r'.tally = r.tally ∧ (r'.Spent ↔ r.Spent) ∧
      (r'.attemptProgress ≤ r'.progressRevision ↔ r.attemptProgress ≤ r.progressRevision) := by
  obtain ⟨hid, hattempts, hmax, hfailures, hruns, hrevision, hprogress⟩ :
      r'.id = r.id ∧ r'.attempts = r.attempts ∧ r'.maxAttempts = r.maxAttempts ∧
        r'.failures = r.failures ∧ r'.noProgressRuns = r.noProgressRuns ∧
        r'.progressRevision = r.progressRevision ∧ r'.attemptProgress = r.attemptProgress := by
    simpa only [Goal.counts, Prod.mk.injEq] using hcounts
  unfold Goal.maxAttemptsOf Goal.tally Goal.Spent
  rw [hmax, hfailures, hruns, hrevision, hprogress]
  exact ⟨hid, hattempts, rfl, rfl, Iff.rfl, Iff.rfl⟩

/-- A row that keeps its counts. -/
theorem tame_of_counts (hcounts : r'.counts = r.counts)
    (hstopped : r.Spent → r.Stopped → r'.Stopped) : Tame [] r r' := by
  obtain ⟨hid, hattempts, hmax, htally, hspent, hprogress⟩ := counts_eq hcounts
  refine ⟨hid, hattempts, fun hr => ⟨?_, fun h => ?_, hprogress.mpr hr.progress⟩, fun _ => htally⟩
  · rw [hattempts, hmax]
    exact hr.attempts
  · exact hstopped (hspent.mp h) (hr.stopped (hspent.mp h))

/-- An active goal is not spent. -/
theorem Bounded.fresh (h : Bounded r) (hactive : r.status.inactive = false) : ¬ r.Spent := by
  intro hspent
  have hinactive := (h.stopped hspent).inactive
  rw [hactive] at hinactive
  cases hinactive

/-- A goal that wakes, is queued or is blocked. -/
theorem tame_of_active {status : Status} {version readyAt : Nat} {blocker : String}
    (hactive : r.status.inactive = false) :
    Tame [] r { r with status, version, readyAt, blocker } := by
  refine tame_of_counts rfl fun _ hstopped => ?_
  rw [hstopped.inactive] at hactive
  cases hactive

/-! ## Rows -/

theorem Rewritten.trans_tame (h : Rewritten (Tame []) start goals)
    (h' : Rewritten (Tame events) goals goals') : Rewritten (Tame events) start goals' :=
  h.comp (fun _ _ _ h h' => h.trans h') h'

theorem Rewritten.tame_trans (h : Rewritten (Tame events) start goals)
    (h' : Rewritten (Tame []) goals goals') : Rewritten (Tame events) start goals' :=
  h.comp (fun _ _ _ h h' => List.append_nil events ▸ h.trans h') h'

theorem Rewritten.keys_tame (h : Rewritten (Tame events) goals goals')
    (hkeys : KeyUnique Goal.id goals) :
    KeyUnique Goal.id goals' :=
  h.keyUnique (fun _ _ h => h.id) hkeys

/-- The row that something is noted of is written. -/
theorem Rewritten.save_noted (hkeys : KeyUnique Goal.id start)
    (hstart : Rewritten (Tame []) start goals)
    (hr : r ∈ start) (h : Tame events r g) (hown : ∀ e ∈ events, e.goal = r.id) :
    Rewritten (Tame events) start (save g goals) :=
  hstart.saved hkeys (fun _ _ h => h.id) hr h.id
    (fun _ _ hne hab => hab.other fun e he heq => hne (heq.symm.trans (hown e he))) fun _ _ =>
    ⟨h.id, h.attempts,
      fun hr => ⟨(h.bounded hr).attempts, (h.bounded hr).stopped, (h.bounded hr).progress⟩, h.tally⟩

/-- A row that nothing is noted of is written. -/
theorem Rewritten.save_tame (hkeys : KeyUnique Goal.id start)
    (hstart : Rewritten (Tame []) start goals) (hr : r ∈ start) (h : Tame [] r g) :
    Rewritten (Tame []) start (save g goals) :=
  hstart.save_noted hkeys hr h fun _ he => absurd he List.not_mem_nil

theorem lease_tame {p : Goal → Bool} {leaseId leaseUntil : Goal → Option Nat} :
    Rewritten (Tame []) goals (updateWhere p
      (fun r => { r with leaseId := leaseId r, leaseUntil := leaseUntil r }) goals) :=
  rewritten_updateWhere Tame.refl fun _ _ _ => tame_of_counts rfl fun _ h => h

theorem chargeParent_tame (hkeys : KeyUnique Goal.id goals)
    (h : chargeParent env tokens cost g goals = .ok goals') : Rewritten (Tame []) goals goals' := by
  unfold chargeParent at h
  split at h
  · cases h
    exact .refl Tame.refl goals
  · split at h
    · cases h
    · next parent hparent =>
      cases h
      refine (Rewritten.refl Tame.refl goals).save_tame hkeys (row_mem (locked_spec hparent).2) ?_
      exact tame_of_counts rfl fun _ h => h

/-- An active parent wakes. -/
theorem woken_tame {parent : Goal} (hkeys : KeyUnique Goal.id goals) (hmem : parent ∈ goals)
    (hactive : ¬ parent.status.inactive = true) : Rewritten (Tame []) goals
      (save { parent with status := .queued, readyAt := now, version := parent.version + 1 }
        goals) := by
  rw [Bool.not_eq_true] at hactive
  exact (Rewritten.refl Tame.refl goals).save_tame hkeys hmem (tame_of_active hactive)

theorem wakeBlocked_tame {was : Status} (hkeys : KeyUnique Goal.id goals)
    (h : wakeBlocked env now was g goals = .ok goals') : Rewritten (Tame []) goals goals' := by
  unfold wakeBlocked at h
  split at h
  · cases h
    exact .refl Tame.refl goals
  split at h
  · cases h
  next parent hparent =>
  split at h
  · cases h
    exact .refl Tame.refl goals
  · next hactive =>
    cases h
    exact woken_tame hkeys (row_mem (locked_spec hparent).2) hactive

theorem wakeParent_tame (hkeys : KeyUnique Goal.id goals)
    (h : wakeParent env now g goals = .ok goals') :
    Rewritten (Tame []) goals goals' := by
  unfold wakeParent at h
  split at h
  · cases h
    exact .refl Tame.refl goals
  split at h
  · split at h
    · cases h
    next parent hparent =>
    split at h
    · cases h
      exact .refl Tame.refl goals
    · next hactive =>
      cases h
      exact woken_tame hkeys (row_mem (locked_spec hparent).2) hactive
  · cases h
    exact .refl Tame.refl goals

/-! ## The engine -/

/-- A recovery is no turn: it counts neither as a failure nor as a run. -/
theorem recover_tame (hkeys : KeyUnique Goal.id start)
    (hstart : Rewritten (Tame []) start s.goals) (hr : r ∈ start)
    (h : recover env now s r = .ok t) : Rewritten (Tame []) start t.goals ∧
      t.attempts.map Attempt.run = s.attempts.map Attempt.run := by
  unfold recover at h
  dsimp only at h
  split at h
  · cases h
  next goals hparents =>
  cases h
  have hcharged : Rewritten (Tame []) start goals := by
    split at hparents
    · exact hstart.trans_tame (chargeParent_tame (hstart.keys_tame hkeys) hparents)
    · cases hparents
      exact hstart
  refine ⟨(hcharged.save_tame hkeys hr ?_).trans_tame lease_tame, map_updateWhere fun _ _ => rfl⟩
  -- what has stopped is not queued again
  split
  · refine tame_of_counts rfl fun _ hstopped => ?_
    simp only [Goal.charge, hstopped.inactive, if_true]
    exact hstopped
  · refine tame_of_counts rfl fun _ hstopped => ?_
    simp only [hstopped.inactive, if_true]
    exact hstopped

theorem foldlM_recover_tame {rows : List Goal} (hkeys : KeyUnique Goal.id start)
    (hstart : Rewritten (Tame []) start s.goals) (hrows : ∀ r ∈ rows, r ∈ start)
    (h : rows.foldlM (recover env now) s = .ok t) : Rewritten (Tame []) start t.goals ∧
      t.attempts.map Attempt.run = s.attempts.map Attempt.run := by
  induction rows generalizing s with
  | nil =>
    cases h
    exact ⟨hstart, rfl⟩
  | cons r rows ih =>
    obtain ⟨hr, hrows⟩ := List.forall_mem_cons.mp hrows
    rw [List.foldlM_cons] at h
    cases hstep : recover env now s r with
    | error error =>
      rw [hstep] at h
      cases h
    | ok u =>
      rw [hstep] at h
      obtain ⟨hgoals, hattempts⟩ := recover_tame hkeys hstart hr hstep
      obtain ⟨hgoals', hattempts'⟩ := ih hgoals hrows h
      exact ⟨hgoals', hattempts'.trans hattempts⟩

theorem wakeWaiting_tame (hkeys : KeyUnique Goal.id s.goals) :
    Rewritten (Tame []) s.goals (wakeWaiting now s).goals := by
  have hfold : ∀ (rows goals : List Goal), (∀ r ∈ rows, r ∈ s.goals ∧ r.status = .waiting) →
      Rewritten (Tame []) s.goals goals → Rewritten (Tame []) s.goals (rows.foldl
        (fun goals g =>
          save { g with status := .queued, readyAt := now, version := g.version + 1 } goals)
        goals) := by
    intro rows
    induction rows with
    | nil => exact fun goals _ h => h
    | cons r rows ih =>
      intro goals hrows h
      obtain ⟨⟨hmem, hwaiting⟩, hrows⟩ := List.forall_mem_cons.mp hrows
      have hactive : r.status.inactive = false := by
        rw [hwaiting]
        rfl
      exact ih _ hrows (h.save_tame hkeys hmem (tame_of_active hactive))
  unfold wakeWaiting
  dsimp only
  split
  · exact .refl Tame.refl s.goals
  · refine hfold _ _ (fun r hr => ?_) (.refl Tame.refl s.goals)
    obtain ⟨hmem, hwaiting⟩ := List.mem_filter.mp (List.mem_filter.mp hr).1
    exact ⟨hmem, of_decide_eq_true hwaiting⟩

theorem reconcile_tame (hkeys : KeyUnique Goal.id s.goals) (h : reconcile env now s = .ok t) :
    Rewritten (Tame []) s.goals t.goals ∧
      t.attempts.map Attempt.run = s.attempts.map Attempt.run := by
  obtain ⟨u, hfold, rfl⟩ := reconcile_spec h
  obtain ⟨hgoals, hattempts⟩ := foldlM_recover_tame hkeys (.refl Tame.refl s.goals)
    (fun r hr => (List.mem_filter.mp hr).1) hfold
  rw [wakeWaiting_attempts]
  exact ⟨hgoals.trans_tame (wakeWaiting_tame (hgoals.keys_tame hkeys)), hattempts⟩

/-- **The sweep** finds the first goal that is ready, once those at a ceiling are blocked; by
induction on how many it may still ask. -/
theorem sweep_tame {turns : Nat} {found : Option Goal} (hkeys : KeyUnique Goal.id goals)
    (h : sweep env now tie turns goals = (found, goals')) : Rewritten (Tame []) goals goals' ∧
      ∀ g, found = some g → firstReady tie (ready env now goals') = some g ∧
        g.exceeded env now = "" := by
  induction turns generalizing goals with
  | zero =>
    rw [sweep] at h
    obtain ⟨rfl, rfl⟩ := Prod.mk.inj h
    refine ⟨.refl Tame.refl _, fun g hg => ?_⟩
    cases hg
  | succ turns ih =>
    rw [sweep] at h
    split at h
    · obtain ⟨rfl, rfl⟩ := Prod.mk.inj h
      refine ⟨.refl Tame.refl _, fun g hg => ?_⟩
      cases hg
    · next g hfirst =>
      dsimp only at h
      split at h
      · next hreached =>
        obtain ⟨rfl, rfl⟩ := Prod.mk.inj h
        -- below every ceiling: this is the goal that is found
        refine ⟨.refl Tame.refl _, ?_⟩
        rintro _ ⟨⟩
        exact ⟨hfirst, hreached⟩
      · -- at a ceiling: the goal is blocked, and the sweep goes on
        obtain ⟨hmem, hactive⟩ := ready_spec (firstReady_mem hfirst)
        have hblocked : Rewritten (Tame []) goals (save { g with
            status := .blocked, blocker := g.exceeded env now, version := g.version + 1 } goals) :=
          (Rewritten.refl Tame.refl goals).save_tame hkeys hmem (tame_of_active hactive)
        obtain ⟨hrest, hfound⟩ := ih (hblocked.keys_tame hkeys) h
        exact ⟨hblocked.trans_tame hrest, hfound⟩

/-- **The end of a turn**: a third failure, or a third run without progress, blocks the goal. -/
theorem endTurn_tame (hrunning : g.status = .running) :
    Tame [.ended g.id (report.error ≠ "")] g (g.endTurn env now report) := by
  have hsame : (g.endTurn env now report).id = g.id ∧
      (g.endTurn env now report).attempts = g.attempts ∧
      (g.endTurn env now report).maxAttempts = g.maxAttempts ∧
      (g.endTurn env now report).progressRevision = g.progressRevision ∧
      (g.endTurn env now report).attemptProgress = g.attemptProgress := by
    unfold Goal.endTurn
    dsimp only
    split_ifs <;> exact ⟨rfl, rfl, rfl, rfl, rfl⟩
  obtain ⟨hid, hattempts, hmax, hrevision, hprogress⟩ := hsame
  refine ⟨hid, hattempts, fun hg => ⟨?attempts, fun hspent => ?stopped, ?progress⟩,
    fun hg => ?tally⟩
  case attempts =>
    rw [hattempts, Goal.maxAttemptsOf, hmax]
    exact hg.attempts
  case stopped =>
    -- a goal that runs is not spent, and a turn adds one failure or one run without progress
    have hfresh : ¬ g.Spent := by
      apply hg.fresh
      rw [hrunning]
      rfl
    unfold Goal.Spent at hfresh
    unfold Goal.endTurn Goal.Spent at hspent
    unfold Goal.endTurn
    dsimp only at hspent ⊢
    split_ifs at hspent ⊢ <;> first
      | exact .inl rfl
      | exact absurd hspent (by dsimp only; omega)
  case progress =>
    rw [hrevision, hprogress]
    exact hg.progress
  case tally =>
    have hnext : g.tally.after g.id [.ended g.id (report.error ≠ "")] =
        g.tally.next (.ended g.id (report.error ≠ "")) := Tally.after_own g.tally _ rfl
    rw [hnext]
    unfold Goal.tally
    rw [hrevision, hprogress]
    -- no progress is that the revision is where the dispatch has found it
    have hmoved : g.progressRevision = g.attemptProgress ↔
        ¬ g.attemptProgress < g.progressRevision := by
      have hle := hg.progress
      omega
    by_cases hfailed : report.error = ""
    · simp only [Goal.endTurn, hfailed, ne_eq, not_true_eq_false,
        decide_false, if_false, Tally.next, hmoved]
      split_ifs <;> simp_all
    · simp only [Goal.endTurn, hfailed, ne_eq, not_false_eq_true, decide_true, if_true, Tally.next]
      split_ifs <;> rfl

theorem finish_tame (hkeys : KeyUnique Goal.id s.goals)
    (h : s.finish env now goalId attempt report = .ok t) :
    Rewritten (Tame (noted env s (now, .finish goalId attempt report))) s.goals t.goals ∧
      t.attempts.map Attempt.run = s.attempts.map Attempt.run := by
  unfold Store.finish at h
  split at h
  · next hfind =>
    cases h
    -- no goal is held by the attempt: nothing is written, and nothing noted
    have hnone : noted env s (now, .finish goalId attempt report) = [] := by
      unfold noted
      dsimp only
      rw [hfind]
    rw [hnone]
    exact ⟨.refl Tame.refl s.goals, rfl⟩
  next r hfind =>
  have hnoted : noted env s (now, .finish goalId attempt report) =
      if r.status = .running then [.ended r.id (report.error ≠ "")] else [] := by
    unfold noted
    dsimp only
    rw [hfind]
  dsimp only at h
  split at h
  · cases h
  next charged hcharged =>
  split at h
  · cases h
  next goals hwoken =>
  cases h
  -- the parent is charged, the siblings wake, and then the goal itself is saved
  have hcharged := chargeParent_tame hkeys hcharged
  have hwoken := hcharged.trans_tame (wakeBlocked_tame (hcharged.keys_tame hkeys) hwoken)
  rw [hnoted]
  refine ⟨(hwoken.save_noted hkeys (List.mem_of_find?_eq_some hfind) ?_ ?_).tame_trans lease_tame,
    map_updateWhere fun _ _ => rfl⟩
  · -- the charge, the turn and the version
    have hcharge : Tame [] r { r.charge (max 0 report.tokens) (max 0 report.cost) with
        recoveryRequired := r.recoveryRequired || report.interrupted } :=
      tame_of_counts rfl fun _ h => h
    have hversion (g : Goal) : Tame [] g { g with version := g.version + 1 } :=
      tame_of_counts rfl fun _ h => h
    by_cases hrunning : r.status = .running
    · rw [if_pos hrunning, if_pos (show (r.charge _ _).status = .running from hrunning)]
      exact (hcharge.trans (endTurn_tame hrunning)).trans (hversion _)
    · rw [if_neg hrunning, if_neg (show ¬ (r.charge _ _).status = .running from hrunning)]
      exact hcharge.trans (hversion _)
  · intro e he
    split at he
    · rw [List.mem_singleton.mp he]
      rfl
    · cases he

/-! ## Updates -/

theorem bump_counts : (g.bump change).counts = g.counts := by
  unfold Goal.bump
  dsimp only
  split <;> rfl

theorem annotate_counts : (annotate g change asked).counts = g.counts := by
  unfold annotate
  split <;> rfl

/-- What the operator resumes has runs left, and starts anew. -/
theorem resume_tame (h : q.resume env now change = .ok g) :
    Tame [.resumed q.id] q (g.bump change) := by
  unfold Goal.resume at h
  dsimp only at h
  split at h
  · cases h
  next hreached =>
  cases h
  obtain ⟨hid, hattempts, hmax, htally, hspent, hprogress⟩ := counts_eq (@bump_counts _ change)
  refine ⟨hid, hattempts, fun hq => ⟨?attempts, fun h => ?stopped, hprogress.mpr hq.progress⟩,
    fun _ => ?tally⟩
  case attempts =>
    rw [hattempts, hmax]
    exact (exceeded_eq_empty.mp (not_not.mp hreached)).2.2.1.le
  case stopped =>
    rcases hspent.mp h with hfailures | hruns
    · simp at hfailures
    · simp at hruns
  case tally =>
    have hnext : q.tally.after q.id [.resumed q.id] = q.tally.next (.resumed q.id) :=
      Tally.after_own q.tally _ rfl
    rw [htally, hnext]
    rfl

/-- Something is recorded. -/
theorem recorded_tame
    (hcounts : r'.counts = { r with progressRevision := r.progressRevision + 1 }.counts)
    (hstopped : r.Spent → r.Stopped → r'.Stopped) : Tame [.progressed r.id] r r' := by
  obtain ⟨hid, hattempts, hmax, htally, hspent, hprogress⟩ := counts_eq hcounts
  refine ⟨hid, hattempts, fun hr => ⟨?attempts, fun h => ?stopped, ?progress⟩, fun hr => ?tally⟩
  case attempts =>
    rw [hattempts, hmax]
    exact hr.attempts
  case stopped => exact hstopped (hspent.mp h) (hr.stopped (hspent.mp h))
  case progress => exact hprogress.mpr (Nat.le_succ_of_le hr.progress)
  case tally =>
    have hmoved : decide (r.attemptProgress < r.progressRevision + 1) = true :=
      decide_eq_true (Nat.lt_succ_of_le hr.progress)
    have hnext : r.tally.after r.id [.progressed r.id] = r.tally.next (.progressed r.id) :=
      Tally.after_own r.tally _ rfl
    rw [htally, hnext]
    simp only [Goal.tally, Tally.next, hmoved]

/-- What is stopped takes few commands. -/
theorem Goal.Stopped.taken (h : q.Stopped) (hterminal : q.status.terminal = false)
    (hheld : q.status.held = true → change.action.takenWhileHeld = true) :
    change.action.takenWhileHeld = true ∧ q.status ≠ .review := by
  rcases h with hstatus | hstatus | ⟨hstatus, -⟩
  · rw [hstatus] at hheld ⊢
    exact ⟨hheld rfl, by decide⟩
  · rw [hstatus] at hterminal
    cases hterminal
  · rw [hstatus] at hheld ⊢
    exact ⟨hheld rfl, by decide⟩

/-- What is stopped stays stopped while its status and its markers stay. -/
theorem Goal.Stopped.of_control (h : r.Stopped) (hcontrol : r'.control = r.control) :
    r'.Stopped := by
  obtain ⟨hstatus, -, hmarker, hbefore⟩ : r'.status = r.status ∧ r'.parentGoalId = r.parentGoalId ∧
      r'.pausedByParent = r.pausedByParent ∧
        (r'.pausedByParent.bind fun _ => r'.beforeParentPause) =
        r.pausedByParent.bind fun _ => r.beforeParentPause := by
    simpa only [Goal.control, Prod.mk.injEq] using hcontrol
  unfold Goal.Stopped
  rw [hstatus]
  rcases h with hblocked | hcanceled | ⟨hpaused, hby⟩
  · exact .inl hblocked
  · exact .inr (.inl hcanceled)
  · refine .inr (.inr ⟨hpaused, fun hne => ?_⟩)
    obtain ⟨text, htext⟩ := Option.ne_none_iff_exists'.mp hne
    rw [hmarker] at htext
    have hblocked : r.beforeParentPause = some .blocked := by
      apply hby
      rw [htext]
      exact Option.some_ne_none text
    rw [hmarker, htext, Option.bind_some, Option.bind_some, hblocked] at hbefore
    exact hbefore

/-- **A command** of an agent does not start what has stopped, and what is recorded ends a row of
runs without progress. -/
theorem transition_tame (h : q.transition env now change operator = .ok g) :
    Tame (q.noted change operator) q (annotate g change asked) := by
  have hoperator := transition_operator h
  obtain ⟨hterminal, hheld, a, ha, rfl⟩ := transition_spec h
  have hsame : Tame [] (a.bump change) (annotate (a.bump change) change asked) :=
    tame_of_counts annotate_counts fun _ hstopped => hstopped.of_control annotate_family.2.2
  rw [← List.append_nil (q.noted change operator)]
  refine Tame.trans ?_ hsame
  -- a command that keeps the counts, and what is stopped
  have hkeeps (hnoted : q.noted change operator = []) (hcounts : a.counts = q.counts)
      (hstopped : q.Stopped → change.action.takenWhileHeld = true → q.status ≠ .review →
        (a.bump change).Stopped) : Tame (q.noted change operator) q (a.bump change) := by
    rw [hnoted]
    refine tame_of_counts (bump_counts.trans hcounts) fun _ hq => ?_
    obtain ⟨htaken, hreview⟩ := hq.taken hterminal hheld
    exact hstopped hq htaken hreview
  have hcontrolled (hnoted : q.noted change operator = []) (hpause : change.action ≠ .pause)
      (hresume : change.action ≠ .resume) (hcancel : change.action ≠ .cancel)
      (hcounts : a.counts = q.counts) (hcontrol : q.status ≠ .review → a.control = q.control) :
      Tame (q.noted change operator) q (a.bump change) :=
    hkeeps hnoted hcounts fun hq _ hreview => hq.of_control
      ((bump_control (fun heq => absurd heq hpause) hresume hcancel).trans (hcontrol hreview))
  -- a command that what is stopped does not take
  have hactive (hnot : change.action.takenWhileHeld = false) : ¬ q.Stopped := by
    intro hq
    obtain ⟨htaken, -⟩ := hq.taken hterminal hheld
    rw [hnot] at htaken
    cases htaken
  have hrefused (hnoted : q.noted change operator = [])
      (hnot : change.action.takenWhileHeld = false)
      (hcounts : a.counts = q.counts) : Tame (q.noted change operator) q (a.bump change) :=
    hkeeps hnoted hcounts fun hq _ _ => absurd hq (hactive hnot)
  have hrecorded (hnoted : q.noted change operator = [.progressed q.id])
      (hnot : change.action.takenWhileHeld = false)
      (hcounts : a.counts = { q with progressRevision := q.progressRevision + 1 }.counts) :
      Tame (q.noted change operator) q (a.bump change) := by
    rw [hnoted]
    exact recorded_tame (bump_counts.trans hcounts) fun _ hq => absurd hq (hactive hnot)
  unfold Goal.noted at hkeeps hcontrolled hrefused hrecorded ⊢
  cases apply_inv ha with
  | progress haction =>
    by_cases hnote : change.note = q.checkpoint
    · refine hrefused (by simp [haction, hnote]) (by rw [haction]; rfl) ?_
      simp [Goal.progress, Goal.counts, hnote]
    · refine hrecorded (by simp [haction, hnote]) (by rw [haction]; rfl) ?_
      simp [Goal.progress, Goal.counts, hnote]
  | evidence haction => exact hrecorded (by rw [haction]) (by rw [haction]; rfl) rfl
  | wait haction | block haction | complete haction | assess haction | reconciled haction =>
    exact hrefused (by rw [haction]) (by rw [haction]; rfl) rfl
  | approveOngoing haction _ hstatus | approve haction _ hstatus =>
    -- an approval is given in review, where nothing is stopped
    exact hkeeps (by rw [haction]) rfl fun _ _ hreview => absurd hstatus hreview
  | pause haction =>
    refine hkeeps (by rw [haction]) rfl fun _ _ _ =>
      .inr (.inr ⟨bump_family.2.2.2.1, fun hne => ?_⟩)
    unfold Goal.bump at hne
    rw [if_pos (.inl haction)] at hne
    exact absurd rfl hne
  | cancel haction =>
    exact hkeeps (by rw [haction]) rfl fun _ _ _ => .inr (.inl bump_family.2.2.2.1)
  | resume haction =>
    -- the one command that clears the counts, and only the operator gives it
    have hresumed : operator = true := hoperator (by rw [haction]; rfl)
    unfold Goal.apply at ha
    rw [haction] at ha ⊢
    rw [hresumed]
    exact resume_tame ha
  | steer haction =>
    exact hcontrolled (by rw [haction]) (by simp [haction])
      (by simp [haction]) (by simp [haction]) rfl
      fun _ => rfl
  | revise haction =>
    refine hcontrolled (by rw [haction]) (by simp [haction])
      (by simp [haction]) (by simp [haction]) rfl
      fun hreview => ?_
    unfold Goal.control
    rw [if_neg hreview]
  | link haction =>
    rcases haction with haction | haction <;>
      exact hcontrolled (by rw [haction]) (by simp [haction])
        (by simp [haction]) (by simp [haction]) rfl
        fun _ => rfl

/-- A child that is restored after a pause is blocked if it was. -/
theorem restored_tame (hmarker : r.pausedByParent = some goalId) (hpaused : r.status = .paused) :
    Tame [] r r.restored := by
  refine tame_of_counts rfl fun _ hstopped => .inl ?_
  have hbefore : r.beforeParentPause = some .blocked := by
    apply hstopped.before hpaused
    rw [hmarker]
    exact Option.some_ne_none goalId
  unfold Goal.restored
  rw [hbefore]
  rfl

theorem followed_tame {action : Action} {status : Status}
    (hstatus : action = .pause ∧ status = .paused ∨ action = .cancel ∧ status = .canceled)
    (hopen : r.status.terminal = false) : Tame [] r (r.followed goalId action status) := by
  rcases hstatus with ⟨rfl, rfl⟩ | ⟨rfl, rfl⟩
  · by_cases hpaused : r.status = .paused
    · -- it was paused already, and keeps its markers
      unfold Goal.followed
      rw [if_neg (by simp [hpaused])]
      exact tame_of_counts rfl fun _ hstopped => .inr (.inr ⟨rfl, hstopped.before hpaused⟩)
    · unfold Goal.followed
      rw [if_pos ⟨rfl, hpaused⟩]
      refine tame_of_counts rfl fun _ hstopped => .inr (.inr ⟨rfl, fun _ => ?_⟩)
      rcases hstopped with hstatus | hstatus | ⟨hstatus, -⟩
      · exact congrArg some hstatus
      · rw [hstatus] at hopen
        cases hopen
      · exact absurd hstatus hpaused
  · unfold Goal.followed
    rw [if_neg (by simp)]
    exact tame_of_counts rfl fun _ _ => .inr (.inl rfl)

/-- What may be noted of a command. -/
theorem mem_noted {e : TurnEvent} (he : e ∈ q.noted change operator) :
    e = .progressed q.id ∨ e = .resumed q.id := by
  unfold Goal.noted at he
  split at he
  · split at he
    · exact .inl (List.mem_singleton.mp he)
    · cases he
  · exact .inl (List.mem_singleton.mp he)
  · split at he
    · exact .inr (List.mem_singleton.mp he)
    · cases he
  · cases he

theorem noted_goal {e : TurnEvent} (he : e ∈ q.noted change operator) : e.goal = q.id := by
  rcases mem_noted he with rfl | rfl <;> rfl

theorem noted_run {e : TurnEvent} (he : e ∈ q.noted change operator) : e.run = none := by
  rcases mem_noted he with rfl | rfl <;> rfl

theorem update_tame (hkeys : KeyUnique Goal.id s.goals)
    (h : s.update env now goalId change operator asked = .ok t) :
    ∃ q ∈ s.goals, noted env s (now, .update goalId change operator asked) =
      q.noted change operator ∧
      (∃ g, q.transition env now change operator = .ok g) ∧
      Rewritten (Tame (q.noted change operator)) s.goals t.goals := by
  obtain ⟨q, g, hlocked, htransition, hsteps⟩ := update_inv h
  have hnoted : noted env s (now, .update goalId change operator asked) =
      q.noted change operator := by
    unfold noted
    dsimp only
    rw [hlocked]
  have hmem := row_mem (locked_spec hlocked).2
  refine ⟨q, hmem, hnoted, ⟨g, htransition⟩, ?_⟩
  rcases hsteps with ⟨haction, rfl⟩ | ⟨goals, hwoken, hgoals⟩
  · -- the command was taken before, and nothing is written
    have hnone : q.noted change operator = [] := by
      unfold Goal.noted
      rw [haction]
    rw [hnone]
    exact .refl Tame.refl t.goals
  -- the goal is saved, its parent wakes, and the children follow
  have hsaved : Rewritten (Tame (q.noted change operator)) s.goals
      (save (annotate g change asked) s.goals) :=
    (Rewritten.refl Tame.refl s.goals).save_noted hkeys hmem (transition_tame htransition)
      fun _ he => noted_goal he
  have hwoken := hsaved.tame_trans (wakeParent_tame (hsaved.keys_tame hkeys) hwoken)
  obtain ⟨hpause, -, hcancel⟩ := transition_status htransition
  refine hwoken.tame_trans ?_
  rw [hgoals, annotate_status]
  unfold moveChildren
  split
  · refine rewritten_updateWhere Tame.refl fun r _ hp => ?_
    obtain ⟨hmarker, hpaused⟩ : _ ∧ _ := of_decide_eq_true hp
    exact restored_tame hmarker hpaused
  · next haction =>
    refine rewritten_updateWhere Tame.refl fun r _ hp => ?_
    obtain ⟨-, hopen⟩ : _ ∧ _ := of_decide_eq_true hp
    exact followed_tame (.inl ⟨haction, hpause haction⟩) (by simpa using hopen)
  · next haction =>
    refine rewritten_updateWhere Tame.refl fun r _ hp => ?_
    obtain ⟨-, hopen⟩ : _ ∧ _ := of_decide_eq_true hp
    exact followed_tame (.inr ⟨haction, hcancel haction⟩) (by simpa using hopen)
  · exact .refl Tame.refl goals

end GenusOs.Goals
