import GenusOs.Goals.Ceilings
import Mathlib

/-!
# Dispatch

* `Dispatched`: what a claim gives its lease to.
* `Counted`: the counters of the goals are what the history of their turns comes to.
* `attempts_begin_in_order`: every run.
-/

namespace GenusOs.Goals

open Rows

variable {env : Env} {goals : List Goal} {q g r : Goal}
    {s t : Store} {now : Nat} {change : GoalUpdate}
  {operator : Bool} {tie : Goal → Nat} {attempt : AttemptId} {log events : List TurnEvent}

/-- **A dispatch**: the goal that runs holds the lease of the new attempt and nobody else holds one;
it has room below each ceiling and is not stopped by its turns, its parent is active, and no goal
that can be dispatched comes before it. -/
structure Dispatched (env : Env) (now : Nat) (goals : List Goal) (attempt : AttemptId) (g : Goal) :
    Prop where
  mem : g ∈ goals
  status : g.status = .running
  lease : g.leaseId = some attempt
  only : ∀ r ∈ goals, r.leaseId.isSome → r = g
  tokens : g.tokensUsed < g.tokenBudgetOf
  cost : g.costUsd < g.costBudgetOf
  attempts : g.attempts ≤ g.maxAttemptsOf
  deadline : now < g.deadlineOf
  unspent : ¬ g.Spent
  due : g.readyAt ≤ now
  parent : ∀ p ∈ goals, g.parentGoalId = some (env.idText p.id) → p.status.inactive = false
  first : ∀ r ∈ ready env now goals,
    r.priority < g.priority ∨ r.priority = g.priority ∧ g.readyAt ≤ r.readyAt

/-- The row of a goal that is dispatched. -/
def Goal.dispatched (g : Goal) (now : Nat) (attempt : AttemptId) : Goal := { g with
  status := .running
  version := g.version + 1
  attempts := g.attempts + 1
  attemptProgress := g.progressRevision
  leaseId := some attempt
  leaseUntil := some (future now leaseSeconds) }

theorem dispatched_rows : updateWhere (·.id = g.id) (fun r => { r with
        leaseId := some attempt, leaseUntil := some (future now leaseSeconds) })
      (save { g with
        status := .running, version := g.version + 1, attempts := g.attempts + 1
        attemptProgress := g.progressRevision } goals) =
      updateWhere (·.id = g.id) (fun _ => g.dispatched now attempt) goals := by
  unfold save updateWhere
  rw [List.map_map]
  refine List.map_congr_left fun r _ => ?_
  by_cases hid : r.id = g.id
  · simp [hid, Goal.dispatched]
  · simp [hid]

/-- **A claim** dispatches nothing, or the first goal that is ready once those at a ceiling are
blocked. -/
theorem claim_tame (hkeys : KeyUnique Goal.id s.goals) (h : s.claim env now tie attempt = .ok t) :
    (Rewritten (Tame []) s.goals t.goals ∧
      t.attempts.map Attempt.run = s.attempts.map Attempt.run) ∨
      ∃ goals g, Rewritten (Tame []) s.goals goals ∧ (∀ r ∈ goals, r.leaseId = none) ∧
        firstReady tie (ready env now goals) = some g ∧ g.exceeded env now = "" ∧
        t.goals = updateWhere (·.id = g.id) (fun _ => g.dispatched now attempt) goals ∧
        t.attempts.map Attempt.run = s.attempts.map Attempt.run ++ [(attempt, g.id)] := by
  unfold Store.claim at h
  split at h
  · cases h
    exact .inl ⟨.refl Tame.refl _, rfl⟩
  split at h
  · cases h
  -- what has run out is recovered and who is due is woken, before anything is chosen
  next u hreconcile =>
  obtain ⟨hreconciled, hattempts⟩ := reconcile_tame hkeys hreconcile
  split at h
  · cases h
    exact .inl ⟨hreconciled, hattempts⟩
  next hfree =>
  have hkeys' := hreconciled.keys_tame hkeys
  split at h
  · next goals hsweep =>
    cases h
    exact .inl ⟨hreconciled.trans_tame (sweep_tame hkeys' hsweep).1, hattempts⟩
  · next g goals hsweep =>
    cases h
    obtain ⟨hswept, hfound⟩ := sweep_tame hkeys' hsweep
    obtain ⟨hfirst, hreached⟩ := hfound g rfl
    refine .inr ⟨goals, g, hreconciled.trans_tame hswept,
      fun r hr => ?_, hfirst, hreached, dispatched_rows, ?_⟩
    · -- the sweep gives no lease, and before it there was none
      obtain ⟨r₀, hr₀, hquiet⟩ := (sweep_quiet hkeys' hsweep).1.mem hr
      rw [hquiet.lease]
      by_contra hsome
      exact hfree (List.any_eq_true.mpr ⟨r₀, hr₀, Option.isSome_iff_ne_none.mpr hsome⟩)
    · rw [List.map_append, hattempts]
      rfl

/-- The goal that a claim dispatches. -/
theorem dispatched_spec (hkeys : KeyUnique Goal.id goals) (hfree : ∀ r ∈ goals, r.leaseId = none)
    (hbounded : ∀ r ∈ goals, Bounded r) (hfirst : firstReady tie (ready env now goals) = some g)
    (hreached : g.exceeded env now = "") : Dispatched env now
      (updateWhere (·.id = g.id) (fun _ => g.dispatched now attempt) goals) attempt
      (g.dispatched now attempt) := by
  have hready : g ∈ ready env now goals := firstReady_mem hfirst
  obtain ⟨hmem, hactive⟩ := ready_spec hready
  obtain ⟨htokens, hcost, hattempts, hdeadline⟩ := exceeded_eq_empty.mp hreached
  obtain ⟨-, hcan⟩ := List.mem_filter.mp hready
  obtain ⟨-, hdue, hparent⟩ := of_decide_eq_true hcan
  have hrows {r : Goal}
      (hr : r ∈ updateWhere (·.id = g.id) (fun _ => g.dispatched now attempt) goals) :
      r = g.dispatched now attempt ∨ r ∈ goals ∧ r.id ≠ g.id := by
    obtain ⟨r₀, hr₀, rfl⟩ := mem_updateWhere.mp hr
    by_cases hid : r₀.id = g.id
    · exact .inl (if_pos (decide_eq_true hid))
    · rw [if_neg (by simpa using hid)]
      exact .inr ⟨hr₀, hid⟩
  -- a parent that holds a goal back is not the goal that is dispatched
  have hkept {r : Goal} (hr : r ∈ goals) (hinactive : r.status.inactive = true) :
      r ∈ updateWhere (·.id = g.id) (fun _ => g.dispatched now attempt) goals := by
    refine mem_updateWhere_of_not hr (decide_eq_false fun hid => ?_)
    rw [hkeys.eq hr hmem hid, hactive] at hinactive
    cases hinactive
  refine ⟨mem_updateWhere.mpr ⟨g, hmem, by simp⟩, rfl, rfl, fun r hr hsome => ?only, htokens, hcost,
    hattempts, hdeadline, (hbounded g hmem).fresh hactive, hdue, fun p hp htext => ?parent,
    fun r hr => ?first⟩
  case only =>
    rcases hrows hr with rfl | ⟨hr, -⟩
    · rfl
    · rw [hfree r hr] at hsome
      cases hsome
  case parent =>
    rcases hrows hp with rfl | ⟨hp, -⟩
    · rfl
    · by_contra hinactive
      refine hparent (List.any_eq_true.mpr ⟨p, hp, decide_eq_true ⟨htext.symm, ?_⟩⟩)
      simpa using hinactive
  case first =>
    obtain ⟨hmem', hcan'⟩ := List.mem_filter.mp hr
    obtain ⟨hstatus, hdue', hparent'⟩ := of_decide_eq_true hcan'
    rcases hrows hmem' with rfl | ⟨hr', -⟩
    · rcases hstatus with hstatus | hstatus <;> cases hstatus
    · -- what is ready after the dispatch was ready before, and came behind the goal
      have hready' : r ∈ ready env now goals := by
        refine List.mem_filter.mpr ⟨hr', decide_eq_true ⟨hstatus, hdue', fun hany => hparent' ?_⟩⟩
        obtain ⟨p, hp, hinactive⟩ := List.any_eq_true.mp hany
        exact List.any_eq_true.mpr ⟨p, hkept hp (of_decide_eq_true hinactive).2, hinactive⟩
      have hle := List.le_of_mem_argmin hready' hfirst
      rcases Prod.Lex.toLex_le_toLex.mp hle with hlt | ⟨heq, hrest⟩
      · exact .inl (OrderDual.toDual_lt_toDual.mp hlt)
      · refine .inr ⟨(OrderDual.toDual_inj.mp heq).symm, ?_⟩
        rcases Prod.Lex.toLex_le_toLex.mp hrest with hlt | ⟨heq', -⟩
        · exact hlt.le
        · exact heq'.le

/-- What is noted of a claim. -/
theorem noted_claim {runs : List (AttemptId × GoalId)} (h : s.claim env now tie attempt = .ok t)
    (hattempts : t.attempts.map Attempt.run = s.attempts.map Attempt.run ++ runs) :
    noted env s (now, .claim tie attempt) = runs.map fun run => .dispatched run.2 run.1 := by
  have hnew : (t.attempts.drop s.attempts.length).map Attempt.run = runs := by
    rw [List.map_drop, hattempts, ← List.length_map Attempt.run, List.drop_left]
  unfold noted
  dsimp only
  rw [h, ← hnew, List.map_map]
  rfl

/-! ## Every run -/

/-- The rows say what the history comes to: each goal has the attempts that were dispatched, and its
counters are those of its turns. With the bounds of the rows this is what every run keeps. -/
structure Counted (s : Store) (log : List TurnEvent) : Prop where
  goals : ∀ g ∈ s.goals, Bounded g
  tallies : ∀ g ∈ s.goals, g.tally = tally log g.id
  attempts : ∀ g ∈ s.goals, g.attempts = (s.attempts.map Attempt.goalId).count g.id
  runs : s.attempts.map Attempt.run = log.filterMap TurnEvent.run
  known : ∀ e ∈ log, ∃ g ∈ s.goals, g.id = e.goal
  held : HeldUntilResumed log

theorem Counted.empty : Counted {} [] where
  goals _ hg := absurd hg List.not_mem_nil
  tallies _ hg := absurd hg List.not_mem_nil
  attempts _ hg := absurd hg List.not_mem_nil
  runs := rfl
  known _ he := absurd he List.not_mem_nil
  held := heldUntilResumed_nil

theorem Counted.spent_iff (hs : Counted s log) (hg : g ∈ s.goals) :
    g.Spent ↔ Exhausted log g.id := by
  unfold Exhausted
  rw [← hs.tallies g hg]
  rfl

theorem Counted.stopped (hs : Counted s log) (hg : g ∈ s.goals)
    (h : Exhausted log g.id) : g.Stopped :=
  (hs.goals g hg).stopped ((hs.spent_iff hg).mpr h)

theorem goalIds_eq (as : List Attempt) :
    as.map Attempt.goalId = (as.map Attempt.run).map Prod.snd := by
  rw [List.map_map]
  rfl

/-- A transaction that dispatches nothing. -/
theorem Counted.tame (hs : Counted s log) (hgoals : Rewritten (Tame events) s.goals t.goals)
    (hattempts : t.attempts.map Attempt.run = s.attempts.map Attempt.run)
    (hruns : events.filterMap TurnEvent.run = [])
    (hknown : ∀ e ∈ events, ∃ g ∈ s.goals, g.id = e.goal)
    (hheld : HeldUntilResumed (log ++ events)) : Counted t (log ++ events) where
  goals g' hg' := by
    obtain ⟨g, hg, htame⟩ := hgoals.mem hg'
    exact htame.bounded (hs.goals g hg)
  tallies g' hg' := by
    obtain ⟨g, hg, htame⟩ := hgoals.mem hg'
    rw [htame.tally (hs.goals g hg), hs.tallies g hg, htame.id, tally_append]
  attempts g' hg' := by
    obtain ⟨g, hg, htame⟩ := hgoals.mem hg'
    rw [goalIds_eq, hattempts, ← goalIds_eq, htame.attempts, htame.id]
    exact hs.attempts g hg
  runs := by
    rw [hattempts, hs.runs, List.filterMap_append, hruns, List.append_nil]
  known e he := by
    obtain ⟨g, hg, hid⟩ : ∃ g ∈ s.goals, g.id = e.goal := by
      rcases List.mem_append.mp he with he | he
      · exact hs.known e he
      · exact hknown e he
    obtain ⟨g', hg', htame⟩ := hgoals.kept hg
    exact ⟨g', hg', htame.id.trans hid⟩
  held := hheld

/-- A transaction that nothing is noted of. -/
theorem Counted.quiet (hs : Counted s log) (hgoals : Rewritten (Tame []) s.goals t.goals)
    (hattempts : t.attempts.map Attempt.run = s.attempts.map Attempt.run) : Counted t log := by
  have hcounted : Counted t (log ++ []) := by
    refine hs.tame hgoals hattempts rfl (fun _ he => absurd he List.not_mem_nil) ?_
    rw [List.append_nil]
    exact hs.held
  rw [List.append_nil] at hcounted
  exact hcounted

/-- The new run is counted. -/
theorem Counted.dispatched (hs : Counted { s with goals } log) (hg : g ∈ goals)
    (hreached : g.exceeded env now = "") (hactive : g.status.inactive = false)
    (hgoals : t.goals = updateWhere (·.id = g.id) (fun _ => g.dispatched now attempt) goals)
    (hattempts : t.attempts.map Attempt.run = s.attempts.map Attempt.run ++ [(attempt, g.id)]) :
    Counted t (log ++ [.dispatched g.id attempt]) := by
  -- the dispatch changes one row, and none of the ids
  have hids : t.goals.map Goal.id = goals.map Goal.id := by
    rw [hgoals]
    exact map_updateWhere fun r hid => (of_decide_eq_true hid).symm
  have hcount : t.attempts.map Attempt.goalId = s.attempts.map Attempt.goalId ++ [g.id] := by
    rw [goalIds_eq, hattempts, List.map_append, ← goalIds_eq]
    rfl
  refine ⟨fun r' hr' => ?goals, fun r' hr' => ?tallies, fun r' hr' => ?attempts, ?runs,
    fun e he => ?known, ?held⟩
  case goals =>
    rw [hgoals] at hr'
    obtain ⟨r, hr, rfl⟩ := mem_updateWhere.mp hr'
    split
    · exact ⟨(exceeded_eq_empty.mp hreached).2.2.1,
        fun hspent => absurd hspent ((hs.goals g hg).fresh hactive), le_rfl⟩
    · exact hs.goals r hr
  case tallies =>
    rw [hgoals] at hr'
    rw [tally_append]
    obtain ⟨r, hr, rfl⟩ := mem_updateWhere.mp hr'
    split
    · -- what was recorded before the dispatch does not count for the new turn
      have hnext := Tally.after_own (tally log g.id) (.dispatched g.id attempt) rfl
      refine Eq.trans ?_ hnext.symm
      rw [← hs.tallies g hg]
      unfold Goal.tally Goal.dispatched Tally.next
      simp
    · next hid =>
      have hother : ∀ e ∈ [TurnEvent.dispatched g.id attempt], e.goal ≠ r.id := by
        intro e he
        rw [List.mem_singleton.mp he]
        exact fun heq => hid (decide_eq_true heq.symm)
      rw [Tally.after_other hother]
      exact hs.tallies r hr
  case attempts =>
    rw [hgoals] at hr'
    rw [hcount, List.count_append]
    obtain ⟨r, hr, rfl⟩ := mem_updateWhere.mp hr'
    split
    · rw [show (g.dispatched now attempt).id = g.id from rfl, List.count_singleton_self]
      exact congrArg (· + 1) (hs.attempts g hg)
    · next hid =>
      rw [List.count_singleton, if_neg fun heq => hid (decide_eq_true (eq_of_beq heq).symm),
        Nat.add_zero]
      exact hs.attempts r hr
  case runs =>
    rw [hattempts, List.filterMap_append]
    exact congrArg (· ++ [(attempt, g.id)]) hs.runs
  case known =>
    have hmem : e.goal ∈ goals.map Goal.id := by
      rcases List.mem_append.mp he with he | he
      · obtain ⟨r, hr, hid⟩ := hs.known e he
        rw [← hid]
        exact List.mem_map_of_mem hr
      · rw [List.mem_singleton.mp he]
        exact List.mem_map_of_mem hg
    rw [← hids] at hmem
    exact List.mem_map.mp hmem
  case held =>
    -- a goal that its turns have stopped is not active, so it is not this one
    refine hs.held.concat fun hspent => ?_
    exact absurd ((hs.spent_iff hg).mpr hspent) ((hs.goals g hg).fresh hactive)

/-- Nothing was noted of a goal before it is created. -/
theorem Counted.created {spec : CreateGoal} {newId : GoalId} {key : Option RequestKey}
    (hs : Counted s log)
    (hnew : ∀ r ∈ s.goals, r.id ≠ newId) :
    Counted { s with goals := s.goals ++ [spec.newGoal now newId key] } log := by
  have hunknown : ∀ e ∈ log, e.goal ≠ newId := by
    intro e he heq
    obtain ⟨r, hr, hid⟩ := hs.known e he
    exact hnew r hr (hid.trans heq)
  refine ⟨fun g hg => ?goals, fun g hg => ?tallies,
    fun g hg => ?attempts, hs.runs, fun e he => ?known,
    hs.held⟩
  case goals =>
    rcases List.mem_append.mp hg with hg | hg
    · exact hs.goals g hg
    · rw [List.mem_singleton.mp hg]
      refine ⟨Nat.zero_le _, fun hspent => ?_, le_rfl⟩
      rcases hspent with hspent | hspent <;> simp [CreateGoal.newGoal] at hspent
  case tallies =>
    rcases List.mem_append.mp hg with hg | hg
    · exact hs.tallies g hg
    · rw [List.mem_singleton.mp hg]
      exact (Tally.after_other (n := {}) hunknown).symm
  case attempts =>
    rcases List.mem_append.mp hg with hg | hg
    · exact hs.attempts g hg
    · rw [List.mem_singleton.mp hg]
      -- an attempt of the new id would have its dispatch in the history
      refine (List.count_eq_zero.mpr fun hmem => ?_).symm
      obtain ⟨a, ha, hid⟩ := List.mem_map.mp hmem
      have hrun := List.mem_map_of_mem (f := Attempt.run) ha
      rw [hs.runs] at hrun
      obtain ⟨e, he, hrun⟩ := List.mem_filterMap.mp hrun
      refine hunknown e he ?_
      cases e with
      | dispatched goal attempt =>
        cases hrun
        exact hid
      | progressed | ended | resumed => cases hrun
  case known =>
    obtain ⟨g, hg, heq⟩ := hs.known e he
    exact ⟨g, List.mem_append_left _ hg, heq⟩

/-- A command that goes through, of a goal that its turns have stopped, resumes it: that is what
makes the hold last. -/
theorem Counted.commanded (hs : Counted s log) (hq : q ∈ s.goals)
    (h : q.transition env now change operator = .ok g) :
    HeldUntilResumed (log ++ q.noted change operator) := by
  obtain ⟨hterminal, hheld, -⟩ := transition_spec h
  -- a goal that is stopped takes only the commands that a held one takes
  have hactive (hnot : change.action.takenWhileHeld = false) : ¬ Exhausted log q.id := by
    intro hspent
    obtain ⟨htaken, -⟩ := (hs.stopped hq hspent).taken hterminal hheld
    rw [hnot] at htaken
    cases htaken
  unfold Goal.noted
  split
  · next haction =>
    split
    · exact hs.held.concat fun hspent => absurd hspent (hactive (by rw [haction]; rfl))
    · rw [List.append_nil]
      exact hs.held
  · next haction =>
    exact hs.held.concat fun hspent => absurd hspent (hactive (by rw [haction]; rfl))
  · split
    · exact hs.held.concat fun _ => rfl
    · rw [List.append_nil]
      exact hs.held
  · rw [List.append_nil]
    exact hs.held

/-- A turn ends where a goal runs. -/
theorem Counted.finished {goalId : String} {report : Report} (hs : Counted s log) :
    HeldUntilResumed (log ++ noted env s (now, .finish goalId attempt report)) ∧
      ∀ e ∈ noted env s (now, .finish goalId attempt report),
        e.run = none ∧ ∃ g ∈ s.goals, g.id = e.goal := by
  have hnone : HeldUntilResumed (log ++ []) ∧
      ∀ e ∈ ([] : List TurnEvent), e.run = none ∧ ∃ g ∈ s.goals, g.id = e.goal := by
    rw [List.append_nil]
    exact ⟨hs.held, fun _ he => absurd he List.not_mem_nil⟩
  unfold noted
  dsimp only
  split
  · next r hfind =>
    have hr := List.mem_of_find?_eq_some hfind
    split
    · next hrunning =>
      refine ⟨hs.held.concat fun hspent => ?_, fun e he => ?_⟩
      · have hinactive := (hs.stopped hr hspent).inactive
        rw [hrunning] at hinactive
        cases hinactive
      · rw [List.mem_singleton.mp he]
        exact ⟨rfl, r, hr, rfl⟩
    · exact hnone
  · exact hnone

/-- **One transaction.** By cases on it: a claim dispatches and may end a turn of a recovered goal,
a command may record something or resume, the end of a run ends a turn, and the rest notes
nothing. -/
theorem counted_step {op : Nat × Op} (hkeys : KeyUnique Goal.id s.goals) (hs : Counted s log)
    (h : s.transact env op.1 op.2 = .ok t) : Counted t (log ++ noted env s op) ∧
      (t.attempts.map Attempt.run = s.attempts.map Attempt.run ∨
        ∃ tie attempt g, op.2 = .claim tie attempt ∧ Dispatched env op.1 t.goals attempt g ∧
          t.attempts.map Attempt.run = s.attempts.map Attempt.run ++ [(attempt, g.id)]) := by
  obtain ⟨now, op⟩ := op
  -- a transaction that notes nothing and moves no counter
  have hquiet (hnoted : noted env s (now, op) = []) (hgoals : Rewritten (Tame []) s.goals t.goals)
      (hattempts : t.attempts.map Attempt.run = s.attempts.map Attempt.run) :
      Counted t (log ++ noted env s (now, op)) := by
    rw [hnoted, List.append_nil]
    exact hs.quiet hgoals hattempts
  have hsame (hgoals : t.goals = s.goals) : Rewritten (Tame []) s.goals t.goals :=
    hgoals ▸ .refl Tame.refl s.goals
  cases op with
  | create spec newId =>
    rcases create_inv h with rfl | ⟨spec', key, rfl, hnew, -⟩
    · exact ⟨hquiet rfl (hsame rfl) rfl, .inl rfl⟩
    · refine ⟨?_, .inl rfl⟩
      rw [show noted env s (now, .create spec newId) = [] from rfl, List.append_nil]
      exact hs.created hnew
  | update goalId change operator asked =>
    obtain ⟨q, hq, hnoted, ⟨g, htransition⟩, hgoals⟩ := update_tame hkeys h
    have hattempts := congrArg (List.map Attempt.run) (update_attempts h)
    rw [hnoted]
    refine ⟨hs.tame hgoals hattempts ?_ (fun e he => ⟨q, hq, (noted_goal he).symm⟩)
      (hs.commanded hq htransition), .inl hattempts⟩
    exact List.filterMap_eq_nil_iff.mpr fun e he => noted_run he
  | claim tie attempt =>
    rcases claim_tame hkeys h with
      ⟨hgoals, hattempts⟩ | ⟨goals, g, hgoals, hfree, hfirst, hreached, hrows, hattempts⟩
    · refine ⟨hquiet ?_ hgoals hattempts, .inl hattempts⟩
      exact noted_claim h (hattempts.trans (List.append_nil _).symm)
    · have hkeys' := hgoals.keys_tame hkeys
      -- first the sweep, which is quiet, and then the dispatch itself
      have hcounted : Counted { s with goals } log := hs.quiet hgoals rfl
      obtain ⟨hmem, hactive⟩ := ready_spec (firstReady_mem hfirst)
      rw [noted_claim h hattempts]
      refine ⟨hcounted.dispatched hmem hreached hactive hrows hattempts,
        .inr ⟨tie, attempt, g.dispatched now attempt, rfl, ?_, hattempts⟩⟩
      rw [hrows]
      exact dispatched_spec hkeys' hfree hcounted.goals hfirst hreached
  | heartbeat goalId attempt usage =>
    cases h
    have hattempts : (s.heartbeat env now goalId attempt usage).attempts.map Attempt.run =
        s.attempts.map Attempt.run := by
      unfold Store.heartbeat
      dsimp only
      split
      · split
        · exact map_updateWhere fun _ _ => rfl
        · rfl
      · rfl
    exact ⟨hquiet rfl lease_tame hattempts, .inl hattempts⟩
  | finish goalId attempt report =>
    obtain ⟨hgoals, hattempts⟩ := finish_tame hkeys h
    obtain ⟨hheld, hknown⟩ := hs.finished
    exact ⟨hs.tame hgoals hattempts (List.filterMap_eq_nil_iff.mpr fun e he => (hknown e he).1)
      (fun e he => (hknown e he).2) hheld, .inl hattempts⟩
  | reserve goalId attempt tokens =>
    have hattempts : t.attempts.map Attempt.run = s.attempts.map Attempt.run := by
      have hreserve := h
      unfold Store.transact Store.reserve at hreserve
      dsimp only at hreserve
      repeat' split at hreserve
      all_goals first
        | cases hreserve; exact map_updateWhere fun _ _ => rfl
        | cases hreserve
    exact ⟨hquiet rfl (hsame (reserve_goals h)) hattempts, .inl hattempts⟩
  | ingest event =>
    cases h
    refine ⟨hquiet rfl (hsame ?_) ?_, .inl ?_⟩ <;> dsimp only <;> split <;> rfl
  | setEnabled value =>
    cases h
    exact ⟨hquiet rfl (hsame rfl) rfl, .inl rfl⟩

/-- **Which goals run, how often, and which are held**, in every run. The counters of a goal are
what the history of its turns comes to, and its attempts are the dispatches of the history: never
more than its ceiling. After three turns in a row that have failed, or three without progress, the
goal is stopped, and nothing happens to it before the operator has resumed it. An attempt begins by
a claim, which gives the one lease to a goal below all its ceilings that comes before any other that
can be dispatched. -/
theorem attempts_begin_in_order (env : Env) :
    (∀ s log, (history env).Reachable (s, log) →
      (∀ g ∈ s.goals, g.tally = tally log g.id ∧ (Exhausted log g.id → g.Stopped) ∧
        (s.attempts.map Attempt.goalId).count g.id ≤ g.maxAttemptsOf) ∧
      s.attempts.map Attempt.run = log.filterMap TurnEvent.run ∧ HeldUntilResumed log) ∧
    ∀ s log op t log', (history env).Reachable (s, log) → (history env).step (s, log) op (t, log') →
      t.attempts.map Attempt.run = s.attempts.map Attempt.run ∨
        ∃ tie attempt g, op.2 = .claim tie attempt ∧ Dispatched env op.1 t.goals attempt g ∧
          t.attempts.map Attempt.run = s.attempts.map Attempt.run ++ [(attempt, g.id)] := by
  have hcounted {u : Store × List TurnEvent} (h : (history env).Reachable u) :
      WellFormed env u.1.goals ∧ Counted u.1 u.2 := by
    refine h.invariant (I := fun u => WellFormed env u.1.goals ∧ Counted u.1 u.2) ?_ ?_
    · rintro ⟨s, log⟩ ⟨rfl, rfl⟩
      exact ⟨wellFormed_nil, .empty⟩
    · rintro u op v ⟨hwf, hs⟩ ⟨hstep, hlog⟩
      rw [hlog]
      exact ⟨wellFormed_step hwf hstep, (counted_step hwf.keys hs hstep).1⟩
  constructor
  · intro s log h
    obtain ⟨-, hs⟩ := hcounted h
    refine ⟨fun g hg => ⟨hs.tallies g hg, hs.stopped hg, ?_⟩, hs.runs, hs.held⟩
    rw [← hs.attempts g hg]
    exact (hs.goals g hg).attempts
  · rintro s log op t log' h ⟨hstep, -⟩
    obtain ⟨hwf, hs⟩ := hcounted h
    exact (counted_step hwf.keys hs hstep).2

/-! ### Three turns that fail -/

/-- The transactions one after the other, with what is noted of them. -/
def transactAll (env : Env) (ops : List (Nat × Op)) (u : Store × List TurnEvent) :
    Except String (Store × List TurnEvent) :=
  ops.foldlM (fun u op => (u.1.transact env op.1 op.2).map fun t => (t, u.2 ++ noted env u.1 op)) u

theorem history_run {ops : List (Nat × Op)} {u v : Store × List TurnEvent}
    (h : transactAll env ops u = .ok v) : (history env).Run u ops v := by
  induction ops generalizing u with
  | nil =>
    cases h
    exact .nil v
  | cons op ops ih =>
    unfold transactAll at h
    rw [List.foldlM_cons] at h
    cases hstep : u.1.transact env op.1 op.2 with
    | error error =>
      rw [hstep] at h
      cases h
    | ok t =>
      rw [hstep] at h
      have hnoted : (history env).step u op (t, u.2 ++ noted env u.1 op) := ⟨hstep, rfl⟩
      exact .cons hnoted (ih h)

/-- A turn of the goal that fails: the claim, a second before the end. -/
def failedTurn (now : Nat) (attempt : AttemptId) : List (Nat × Op) :=
  [(now, .claim Goal.id attempt),
    (now + 1000000, .finish sampleText attempt { error := "no such file" })]

/-- A goal whose first three turns fail, five minutes after each other. -/
def sampleTries : List (Nat × Op) :=
  [(0, .create sampleParent 10), (0, .setEnabled true)] ++ failedTurn 300000000 1 ++
    failedTurn 600000000 2 ++ failedTurn 900000000 3

def sampleTried : Store × List TurnEvent :=
  (transactAll sampleEnv sampleTries ({}, [])).toOption.getD ({}, [])

def sampleResume : Nat × Op :=
  (1500000000, .update sampleText { action := .resume, version := 7 } true {})

/-- The operator has resumed it. -/
def sampleAnew : Store × List TurnEvent :=
  (transactAll sampleEnv [sampleResume] sampleTried).toOption.getD ({}, [])

def sampleFourth : Store × List TurnEvent :=
  (transactAll sampleEnv [(1800000000, .claim Goal.id 5)] sampleAnew).toOption.getD ({}, [])

/-- After three turns that fail a claim gives the goal no lease, until the operator has resumed it.
-/
theorem three_failed_turns_hold :
    (history sampleEnv).Reachable sampleTried ∧
    sampleTried.2 = [.dispatched 10 1, .ended 10 true, .dispatched 10 2, .ended 10 true,
      .dispatched 10 3, .ended 10 true] ∧
    (∀ g ∈ sampleTried.1.goals, g.tally = { failures := 3 } ∧ g.Stopped) ∧
    transactAll sampleEnv [(1200000000, .claim Goal.id 4)] sampleTried = .ok sampleTried ∧
    HeldUntilResumed sampleFourth.2 ∧
    sampleFourth.2 = sampleTried.2 ++ [.resumed 10, .dispatched 10 5] ∧
    ∃ g, Dispatched sampleEnv 1800000000 sampleFourth.1.goals 5 g ∧ g.id = 10 := by
  obtain ⟨hstates, hsteps⟩ := attempts_begin_in_order sampleEnv
  have htries : transactAll sampleEnv sampleTries ({}, []) = .ok sampleTried := by decide +kernel
  have hresume : transactAll sampleEnv [sampleResume] sampleTried = .ok sampleAnew := by
    decide +kernel
  have htried : (history sampleEnv).Reachable sampleTried :=
    ⟨({}, []), sampleTries, ⟨rfl, rfl⟩, history_run htries⟩
  have hanew : (history sampleEnv).Reachable sampleAnew := htried.run (history_run hresume)
  have hclaim : (history sampleEnv).step sampleAnew
      (1800000000, .claim Goal.id 5) sampleFourth := by
    have hok : sampleAnew.1.transact sampleEnv 1800000000 (.claim Goal.id 5) =
        .ok sampleFourth.1 := by
      decide +kernel
    exact ⟨hok, by decide +kernel⟩
  have hfourth : (history sampleEnv).Reachable sampleFourth := hanew.run (.single hclaim)
  have hlog : sampleTried.2 = [.dispatched 10 1, .ended 10 true, .dispatched 10 2, .ended 10 true,
      .dispatched 10 3, .ended 10 true] := by decide +kernel
  have hids : ∀ g ∈ sampleTried.1.goals, g.id = 10 := by decide +kernel
  obtain ⟨hgoals, -, -⟩ := hstates sampleTried.1 sampleTried.2 htried
  obtain ⟨-, -, hheld⟩ := hstates sampleFourth.1 sampleFourth.2 hfourth
  refine ⟨htried, hlog, fun g hg => ?_, by decide +kernel, hheld, by decide +kernel, ?_⟩
  · obtain ⟨htally, hstopped, -⟩ := hgoals g hg
    have hthree : tally sampleTried.2 10 = { failures := 3 } := by
      rw [hlog]
      rfl
    rw [hids g hg] at htally hstopped
    refine ⟨htally.trans hthree, hstopped (.inl ?_)⟩
    rw [hthree]
  · have hnew : ¬ sampleFourth.1.attempts.map Attempt.run =
      sampleAnew.1.attempts.map Attempt.run := by
      decide +kernel
    obtain ⟨tie, attempt, g, hop, hdispatched, hruns⟩ :=
      (hsteps sampleAnew.1 sampleAnew.2 _ sampleFourth.1 sampleFourth.2 hanew hclaim).resolve_left
        hnew
    have hlast : sampleFourth.1.attempts.map Attempt.run =
        sampleAnew.1.attempts.map Attempt.run ++ [(5, 10)] := by decide +kernel
    obtain ⟨rfl, hid⟩ : attempt = 5 ∧ g.id = 10 := by
      simpa using hruns.symm.trans hlast
    exact ⟨g, hdispatched, hid⟩

end GenusOs.Goals
