import GenusOs.Goals.Updates
import GenusOs.Library.Run
import Mathlib

/-!
# A parent is paused and resumed

* `WellFormed`: goals form families of two generations, whose children keep the text of the parent's
  id.
* `held_run`: between a pause and the next resumption a child that no command reaches stays as it
  was.
* `resume_restores_iff_same_text`: the children that the pause has stopped are restored if and only
  if the resumption names the parent by the text that they keep.
-/

namespace GenusOs.Goals

open Rows

variable {env : Env} {goals goals' : List Goal} {q g r r' c : Goal} {i p : GoalId} {s s' t : Store}
  {now : Nat} {goalId : String} {change : GoalUpdate} {operator : Bool} {asked : Asked}

/-- The transactions that go through; the others are rolled back. -/
def transactions (env : Env) : System Store (Nat × Op) where
  init s := s = {}
  step s op t := s.transact env op.1 op.2 = .ok t

/-! ## Families -/

/-- Families of two generations: a parent is there and has no parent, and a long-term goal has none.
A child keeps its parent's id as a text, in the spelling in which UUIDs are written, and a marker of
a pause is that text. -/
structure WellFormed (env : Env) (goals : List Goal) : Prop where
  keys : KeyUnique Goal.id goals
  family : ∀ c ∈ goals, ∀ text, c.parentGoalId = some text →
    ∃ p ∈ goals, text = env.idText p.id ∧ p.parentGoalId = none
  long : ∀ g ∈ goals, g.kind = .long → g.parentGoalId = none
  marker : ∀ c ∈ goals, ∀ text, c.pausedByParent = some text → c.parentGoalId = some text

/-- Families stay what they are while rows are rewritten as `Kin` says. -/
theorem WellFormed.rewritten (hwf : WellFormed env goals) (h : Rewritten Kin goals goals') :
    WellFormed env goals' where
  keys := h.keyUnique (fun _ _ h => h.id) hwf.keys
  family := by
    intro c' hc' text htext
    obtain ⟨c, hc, hkin⟩ := h.mem hc'
    obtain ⟨p, hp, htext, hhead⟩ := hwf.family c hc text (hkin.parent.symm.trans htext)
    obtain ⟨p', hrow, hkin'⟩ := h.row (fun _ _ h => h.id) (row_of_mem hwf.keys hp)
    exact ⟨p', row_mem hrow, by rw [hkin'.id]; exact htext, hkin'.parent.trans hhead⟩
  long := by
    intro g' hg' hlong
    obtain ⟨g, hg, hkin⟩ := h.mem hg'
    rw [hkin.parent]
    rcases hkin.kind with hkind | hnone
    · exact hwf.long g hg (hkind.symm.trans hlong)
    · exact hnone
  marker := by
    intro c' hc' text htext
    obtain ⟨c, hc, hkin⟩ := h.mem hc'
    rw [hkin.parent]
    rcases hkin.marker with hnone | hsame | hparent
    · rw [hnone] at htext
      cases htext
    · exact hwf.marker c hc text (hsame.symm.trans htext)
    · exact hparent.symm.trans htext

/-- A new row: a goal of its own, or a short-term child of a long-term goal. -/
def Created (env : Env) (goals goals' : List Goal) : Prop :=
  goals' = goals ∨ ∃ g, goals' = goals ++ [g] ∧ (∀ r ∈ goals, r.id ≠ g.id) ∧
    g.pausedByParent = none ∧
    (g.parentGoalId = none ∨
      ∃ p ∈ goals, p.kind = .long ∧ g.kind = .short ∧ g.parentGoalId = some (env.idText p.id))

/-- `create` adds a new goal, or finds the one that it has added before. A parent is a long-term
goal that is active. -/
theorem create_inv {spec : CreateGoal} {newId : GoalId} (h : s.create env now spec newId = .ok t) :
    t = s ∨ ∃ (spec : CreateGoal) (key : Option RequestKey),
      t = { s with goals := s.goals ++ [spec.newGoal now newId key] } ∧
        (∀ r ∈ s.goals, r.id ≠ newId) ∧
      (spec.parentGoalId = none ∨ ∃ p ∈ s.goals, p.kind = .long ∧ p.status.inactive = false ∧
        spec.kind = .short ∧ spec.parentGoalId = some (env.idText p.id)) := by
  unfold Store.create at h
  split at h
  · cases h
  next spec' _ =>
  split at h
  · next hnone =>
      -- no parent is asked for
    dsimp only at h
    split at h
    · cases h
      exact .inl rfl
    split at h
    · cases h
    · next hnew =>
      cases h
      refine .inr ⟨spec', _, rfl, ?_, .inl hnone⟩
      simp only [not_or, List.any_eq_true, decide_eq_true_eq, not_exists, not_and] at hnew
      exact hnew.2
  · next text _ =>
      -- a parent is asked for: it is found under its canonical text, and has to be long and active
    split at h
    · cases h
    next parentGoalId hcanonical =>
    split at h
    · cases h
    next parent hlocked =>
    dsimp only at h
    split at h
    · cases h
      exact .inl rfl
    split at h
    · cases h
    next hparent =>
    split at h
    · cases h
    next hshort =>
    split at h
    · cases h
    · next hnew =>
      cases h
      simp only [List.any_eq_true, decide_eq_true_eq, not_exists, not_and] at hnew
      obtain ⟨hlong, hactive⟩ : parent.kind = .long ∧ parent.status.inactive = false := by
        simpa only [not_or, not_not, Bool.not_eq_true] using hparent
      refine .inr ⟨{ spec' with parentGoalId := some parentGoalId }, _, rfl, hnew,
        .inr ⟨parent, row_mem (locked_spec hlocked).2, hlong, hactive, not_not.mp hshort, ?_⟩⟩
      obtain ⟨id, -, rfl⟩ := Option.map_eq_some_iff.mp hcanonical
      have huuid := (locked_spec hlocked).1
      rw [env.uuid_idText] at huuid
      rw [← Option.some.inj huuid]

/-- What is created fits into the families. -/
theorem create_created {spec : CreateGoal} {newId : GoalId}
    (h : s.create env now spec newId = .ok t) :
    Created env s.goals t.goals := by
  rcases create_inv h with rfl | ⟨spec', key, rfl, hnew, hparent⟩
  · exact .inl rfl
  · refine .inr ⟨spec'.newGoal now newId key, rfl, hnew, rfl, ?_⟩
    rcases hparent with hnone | ⟨p, hp, hlong, -, hshort, htext⟩
    · exact .inl hnone
    · exact .inr ⟨p, hp, hlong, hshort, htext⟩

theorem WellFormed.created (hwf : WellFormed env goals) (h : Created env goals goals') :
    WellFormed env goals' := by
  rcases h with rfl | ⟨g, rfl, hnew, hmarker, hfamily⟩
  · exact hwf
  · refine ⟨hwf.keys.insert hnew, ?_, ?_, ?_⟩
    · intro c hc text htext
      rcases List.mem_append.mp hc with hc | hc
      · obtain ⟨p, hp, hfound⟩ := hwf.family c hc text htext
        exact ⟨p, List.mem_append_left _ hp, hfound⟩
      · obtain rfl := List.mem_singleton.mp hc
        rcases hfamily with hnone | ⟨p, hp, hlong, -, hparent⟩
        · rw [hnone] at htext
          cases htext
        · rw [hparent] at htext
          exact ⟨p, List.mem_append_left _ hp, (Option.some.inj htext).symm, hwf.long p hp hlong⟩
    · intro c hc hlong
      rcases List.mem_append.mp hc with hc | hc
      · exact hwf.long c hc hlong
      · obtain rfl := List.mem_singleton.mp hc
        rcases hfamily with hnone | ⟨-, -, -, hshort, -⟩
        · exact hnone
        · rw [hshort] at hlong
          cases hlong
    · intro c hc text htext
      rcases List.mem_append.mp hc with hc | hc
      · exact hwf.marker c hc text htext
      · obtain rfl := List.mem_singleton.mp hc
        rw [hmarker] at htext
        cases htext

/-! ## The transactions -/

/-- **What a transaction does to the rows.** -/
theorem transact_cases {op : Op} (hkeys : KeyUnique Goal.id s.goals)
    (h : s.transact env now op = .ok t) :
    Created env s.goals t.goals ∨ Rewritten Moves s.goals t.goals ∨
      ∃ goalId change operator asked q, op = .update goalId change operator asked ∧
        locked env s.goals goalId = .ok q ∧
        Rewritten (Updates goalId q.id change.action) s.goals t.goals := by
  cases op with
  | create spec newId => exact .inl (create_created h)
  | update goalId change operator asked =>
    obtain ⟨q, hlocked, hrows⟩ := update_rewrites hkeys h
    exact .inr (.inr ⟨goalId, change, operator, asked, q, rfl, hlocked, hrows⟩)
  | claim tie attempt => exact .inr (.inl (claim_moves hkeys h))
  | heartbeat goalId attempt usage =>
    cases h
    exact .inr (.inl heartbeat_moves)
  | finish goalId attempt report => exact .inr (.inl (finish_moves hkeys h))
  | reserve goalId attempt tokens => exact .inl (.inl (reserve_goals h))
  | ingest event =>
    unfold Store.transact at h
    cases h
    exact .inl (.inl (by split <;> rfl))
  | setEnabled value =>
    cases h
    exact .inl (.inl rfl)

/-- What the engine, and each part of an update, does to its row, a transaction does to all rows. -/
theorem transact_rewritten {op : Op} {R : Goal → Goal → Prop} (hkeys : KeyUnique Goal.id s.goals)
    (h : s.transact env now op = .ok t) (hrefl : ∀ r, R r r)
    (hdriven : ∀ r r', Driven r r' → R r r')
    (hupdate : ∀ goalId change operator asked, op = .update goalId change operator asked →
      s.update env now goalId change operator asked = .ok t → Rewritten R s.goals t.goals) :
    (∃ (spec : CreateGoal) (newId : GoalId) (key : Option RequestKey),
      t.goals = s.goals ++ [spec.newGoal now newId key] ∧ (spec.parentGoalId = none ∨
        ∃ p ∈ s.goals, p.status.inactive = false ∧ spec.parentGoalId = some (env.idText p.id))) ∨
      Rewritten R s.goals t.goals := by
  have hsame (hgoals : t.goals = s.goals) : Rewritten R s.goals t.goals := by
    rw [hgoals]
    exact .refl hrefl _
  cases op with
  | create spec newId =>
    rcases create_inv h with rfl | ⟨spec', key, rfl, -, hparent⟩
    · exact .inr (hsame rfl)
    · refine .inl ⟨spec', newId, key, rfl, hparent.imp_right ?_⟩
      rintro ⟨p, hp, -, hactive, -, htext⟩
      exact ⟨p, hp, hactive, htext⟩
  | update goalId change operator asked => exact .inr (hupdate goalId change operator asked rfl h)
  | claim tie attempt => exact .inr ((claim_driven hkeys h).mono hdriven)
  | heartbeat goalId attempt usage =>
    cases h
    exact .inr (heartbeat_unclaimed.mono fun r r' h => hdriven r r' h.toDriven)
  | finish goalId attempt report =>
    exact .inr ((finish_unclaimed hkeys h).mono fun r r' h => hdriven r r' h.toDriven)
  | reserve goalId attempt tokens => exact .inr (hsame (reserve_goals h))
  | ingest event =>
    unfold Store.transact at h
    cases h
    exact .inr (hsame (by split <;> rfl))
  | setEnabled value =>
    cases h
    exact .inr (hsame rfl)

/-- **Step lemma.** -/
theorem wellFormed_step {op : Nat × Op} (hwf : WellFormed env s.goals)
    (h : (transactions env).step s op t) : WellFormed env t.goals := by
  rcases transact_cases hwf.keys h with hcreated | hmoves | ⟨_, _, _, _, _, -, -, hupdates⟩
  · exact hwf.created hcreated
  · exact hwf.rewritten (hmoves.mono fun _ _ h => h.toKin)
  · exact hwf.rewritten (hupdates.mono fun _ _ h => h.toKin)

theorem wellFormed_nil : WellFormed env [] where
  keys := List.nodup_nil
  family := by simp
  long := by simp
  marker := by simp

/-- **Run lemma.** -/
theorem wellFormed_reachable (h : (transactions env).Reachable s) : WellFormed env s.goals := by
  refine h.invariant (I := fun s => WellFormed env s.goals) ?_ fun _ _ _ hwf hstep =>
    wellFormed_step hwf hstep
  intro s hinit
  rw [show s = {} from hinit]
  exact wellFormed_nil

/-! ## Between the pause and the resumption -/

/-- The operation gives a goal a command, under any spelling of its id. -/
def Op.commands (env : Env) (id : GoalId) (action : Action) : Op → Prop
  | .update goalId change _ _ => env.uuid goalId = some id ∧ change.action = action
  | _ => False

/-- A row that no command reaches keeps its control fields. -/
theorem step_keeps {op : Nat × Op} (hkeys : KeyUnique Goal.id s.goals)
    (h : (transactions env).step s op t) (hrow : row s.goals i = some r)
    (hinactive : r.status.inactive = true)
    (hspared : ∀ goalId change operator asked q, op.2 = .update goalId change operator asked →
      locked env s.goals goalId = .ok q → Spared goalId q.id change.action r) :
    ∃ r', row t.goals i = some r' ∧ r'.control = r.control := by
  rcases transact_cases hkeys h with hcreated | hmoves
    | ⟨goalId, change, _, _, q, hop, hlocked, hupdates⟩
  · rcases hcreated with hsame | ⟨g, hgoals, -⟩
    · exact ⟨r, by rw [hsame]; exact hrow, rfl⟩
    · refine ⟨r, ?_, rfl⟩
      rw [hgoals]
      unfold row at hrow ⊢
      rw [List.find?_append, hrow]
      rfl
  · obtain ⟨r', hrow', hmoved⟩ := hmoves.row (fun _ _ h => h.id) hrow
    exact ⟨r', hrow', hmoved.control hinactive⟩
  · obtain ⟨r', hrow', hupdated⟩ := hupdates.row (fun _ _ h => h.id) hrow
    exact ⟨r', hrow', hupdated.control (hspared _ _ _ _ q hop hlocked)⟩

/-- What a paused child looks like. -/
def pausedControl (env : Env) (p : GoalId) (marker : Option String) (before : Option Status) :
    Status × Option String × Option String × Option Status :=
  (.paused, some (env.idText p), marker, marker.bind fun _ => before)

/-- The parent `p` is paused and its child `i` too, or the parent has been canceled. `marker` says
whether the child was stopped by its parent, and `before` which status it had. -/
def Held (env : Env) (p i : GoalId) (marker : Option String)
    (before : Option Status) (s : Store) : Prop :=
  WellFormed env s.goals ∧ ∃ parent, row s.goals p = some parent ∧ parent.parentGoalId = none ∧
    (parent.status = .canceled ∨ parent.status = .paused ∧
      ∃ c, row s.goals i = some c ∧ c.control = pausedControl env p marker before)

variable {marker : Option String} {before : Option Status}

/-- A text that a child keeps names its parent only: it is the spelling in which the id is
written. -/
theorem id_of_text (hlocked : locked env goals goalId = .ok q) (htext : env.idText p = goalId) :
    q.id = p := by
  have huuid := (locked_spec hlocked).1
  rw [← htext, env.uuid_idText] at huuid
  exact (Option.some.inj huuid).symm

/-- Any spelling of an id names its row. -/
theorem locked_of_row (huuid : env.uuid goalId = some p) (hrow : row goals p = some r) :
    locked env goals goalId = .ok r := by
  unfold locked
  rw [huuid]
  dsimp only
  rw [hrow]

/-- A text that a goal's children keep names that goal only. -/
theorem idText_injective (env : Env) : Function.Injective env.idText := by
  intro a b h
  have huuid := congrArg env.uuid h
  rw [env.uuid_idText, env.uuid_idText] at huuid
  exact Option.some.inj huuid

theorem WellFormed.marker_eq_none (hwf : WellFormed env goals) (hr : r ∈ goals)
    (hhead : r.parentGoalId = none) : r.pausedByParent = none := by
  cases hmarker : r.pausedByParent with
  | none => rfl
  | some text =>
    have hparent := hwf.marker r hr text hmarker
    rw [hhead] at hparent
    cases hparent

/-- A command that stops the head of a family, or starts it again, writes its row and moves its
children. -/
theorem head_command {head : Goal} (hwf : WellFormed env s.goals)
    (h : s.update env now goalId change operator asked = .ok t) (huuid : env.uuid goalId = some p)
    (hrow : row s.goals p = some head) (hhead : head.parentGoalId = none)
    (haction : change.action = .pause ∨ change.action = .resume ∨ change.action = .cancel) :
    ∃ g head', head.transition env now change operator = .ok g ∧ g.id = p ∧
      t.goals = moveChildren goalId change.action g.status (save g s.goals) ∧
      row t.goals p = some head' ∧ head'.parentGoalId = none ∧ head'.status = g.status := by
  have hlocked := locked_of_row huuid hrow
  obtain ⟨q, g, hlocked', htransition, hkin, hgoals⟩ := update_head h
    (fun q hq => by rw [hlocked] at hq; cases hq; exact hhead) haction
  rw [hlocked] at hlocked'
  cases hlocked'
  obtain rfl : g.id = p := hkin.id.trans (row_id hrow)
  have hgparent : g.parentGoalId = none := hkin.parent.trans hhead
  -- a head carries no mark, so that it is not among the children that move
  have hgmarker : g.pausedByParent = none := by
    have hnone := hwf.marker_eq_none (row_mem hrow) hhead
    rcases hkin.marker with hmarker | hmarker | hmarker
    · exact hmarker
    · exact hmarker.trans hnone
    · exact hmarker.trans hhead
  have hsaved := row_save_self hrow
  refine ⟨g, { g with leaseId := head.leaseId, leaseUntil := head.leaseUntil },
    htransition, rfl, hgoals,
    ?_, hgparent, rfl⟩
  rw [hgoals]
  unfold moveChildren
  split
  · rw [row_restoreChildren, hsaved, Option.map_some, if_neg]
    rintro ⟨hmarker, -⟩
    rw [show g.pausedByParent = some goalId from hmarker] at hgmarker
    cases hgmarker
  · rw [row_cascade, hsaved, Option.map_some, if_neg]
    rintro ⟨hparent, -⟩
    rw [show g.parentGoalId = some goalId from hparent] at hgparent
    cases hgparent
  · rw [row_cascade, hsaved, Option.map_some, if_neg]
    rintro ⟨hparent, -⟩
    rw [show g.parentGoalId = some goalId from hparent] at hgparent
    cases hgparent
  · exact hsaved

/-- An update of the row of an id is a command to that id. -/
theorem commands_of_update {op : Op} {action : Action}
    (hop : op = .update goalId change operator asked)
    (hlocked : locked env goals goalId = .ok q) (haction : change.action = action) :
    op.commands env q.id action := by
  rw [hop]
  exact ⟨(locked_spec hlocked).1, haction⟩

theorem commands_inv {op : Op} {action : Action} (h : op.commands env p action) :
    ∃ goalId change operator asked, op = .update goalId change operator asked ∧
      env.uuid goalId = some p ∧ change.action = action := by
  cases op with
  | update goalId change operator asked => exact ⟨goalId, change, operator, asked, rfl, h.1, h.2⟩
  | _ => exact absurd h id

/-- No operation gives the goal one of the commands, under any spelling of its id. -/
def Untouched (env : Env) (ops : List (Nat × Op)) (actions : List Action) (id : GoalId) : Prop :=
  ∀ op ∈ ops, ∀ action ∈ actions, ¬ op.2.commands env id action

/-- **Step lemma.** A pause holds on, by cases on what the transaction does: a creation adds a row,
the engine leaves what is held, and an update reaches a held child by a command to it or to its
parent. The commands that may reach a child paused on its own are more. -/
theorem held_step {op : Nat × Op} (hmarker : ∀ text, marker = some text → text = env.idText p)
    (hresume : ¬ op.2.commands env p .resume)
    (hchild : ∀ action ∈ [.resume, .cancel], ¬ op.2.commands env i action)
    (hpause : marker.isSome → ¬ op.2.commands env i .pause)
    (hs : Held env p i marker before s) (h : (transactions env).step s op t) :
    Held env p i marker before t := by
  obtain ⟨hwf, parent, hrow, hhead, hcases⟩ := hs
  have hwf' := wellFormed_step hwf h
  -- a parent that is not active is left to the commands that reach it
  have hkept (hinactive : parent.status.inactive = true)
      (hspared : ∀ goalId change operator asked q, op.2 = .update goalId change operator asked →
        locked env s.goals goalId = .ok q → Spared goalId q.id change.action parent) :
      ∃ parent', row t.goals p = some parent' ∧ parent'.parentGoalId = none ∧
        parent'.status = parent.status := by
    obtain ⟨parent', hrow', hcontrol⟩ := step_keeps hwf.keys h hrow hinactive hspared
    exact ⟨parent', hrow', (congrArg (·.2.1) hcontrol).trans hhead, status_of_control hcontrol⟩
  rcases hcases with hcanceled | ⟨hpaused, c, hc, hcontrol⟩
  · -- a canceled parent stays canceled
    obtain ⟨parent', hrow', hhead', hstatus⟩ := hkept (by rw [hcanceled]; rfl)
      fun _ _ _ _ _ _ _ => .inl (by rw [hcanceled]; rfl)
    exact ⟨hwf', parent', hrow', hhead', .inl (hstatus.trans hcanceled)⟩
  by_cases hcancel : op.2.commands env p .cancel
  · -- the cancellation of the parent ends the pause
    obtain ⟨goalId, change, operator, asked, hop, huuid, haction⟩ := commands_inv hcancel
    have hupdate : s.update env op.1 goalId change operator asked = .ok t := by
      have h : s.transact env op.1 op.2 = .ok t := h
      rw [hop] at h
      exact h
    obtain ⟨g, parent', htransition, -, -, hrow', hhead', hstatus⟩ :=
      head_command hwf hupdate huuid hrow hhead (.inr (.inr haction))
    exact ⟨hwf', parent', hrow', hhead',
      .inl (hstatus.trans ((transition_status htransition).2.2 haction))⟩
  · obtain ⟨parent', hrow', hhead', hstatus⟩ := hkept (by rw [hpaused]; rfl) (by
      intro goalId change operator asked q hop hlocked
      have hnone := hwf.marker_eq_none (row_mem hrow) hhead
      refine .inr
        ⟨hpaused, fun hid => ⟨fun _ => hnone, fun haction => ?_, fun haction => ?_⟩, ?_, ?_⟩
      · exact hresume ((hid.symm.trans (row_id hrow)) ▸ commands_of_update hop hlocked haction)
      · exact hcancel ((hid.symm.trans (row_id hrow)) ▸ commands_of_update hop hlocked haction)
      · rw [hnone]
        exact nofun
      · rw [hhead]
        exact nofun)
    refine ⟨hwf', parent', hrow', hhead', .inr ⟨hstatus.trans hpaused, ?_⟩⟩
    -- the parent stays paused, and no command reaches the child by its own id or by the text
    have hstatus : c.status = .paused := congrArg Prod.fst hcontrol
    have hparent : c.parentGoalId = some (env.idText p) := congrArg (·.2.1) hcontrol
    have hmark : c.pausedByParent = marker := congrArg (·.2.2.1) hcontrol
    obtain ⟨c', hc', hcontrol'⟩ := step_keeps hwf.keys h hc (by rw [hstatus]; rfl) (by
      intro goalId change operator asked q hop hlocked
      refine .inr
        ⟨hstatus, fun hid => ⟨fun haction => ?_, fun haction => ?_, fun haction => ?_⟩, ?_, ?_⟩
      · have hq : q.id = i := hid.symm.trans (row_id hc)
        rw [hmark, ← Option.not_isSome_iff_eq_none]
        exact fun hsome => hpause hsome (hq ▸ commands_of_update hop hlocked haction)
      · have hq : q.id = i := hid.symm.trans (row_id hc)
        exact hchild .resume (by decide) (hq ▸ commands_of_update hop hlocked haction)
      · have hq : q.id = i := hid.symm.trans (row_id hc)
        exact hchild .cancel (by decide) (hq ▸ commands_of_update hop hlocked haction)
      · intro htext haction
        have hq : q.id = p := id_of_text hlocked (hmarker goalId (hmark.symm.trans htext)).symm
        exact hresume (hq ▸ commands_of_update hop hlocked haction)
      · intro htext haction
        have hq : q.id = p := id_of_text hlocked (Option.some.inj (hparent.symm.trans htext))
        exact hcancel (hq ▸ commands_of_update hop hlocked haction))
    exact ⟨c', hc', hcontrol'.trans hcontrol⟩

/-- **Run lemma.** -/
theorem held_run {ops : List (Nat × Op)}
    (hmarker : ∀ text, marker = some text → text = env.idText p)
    (hresume : Untouched env ops [.resume] p) (hchild : Untouched env ops [.resume, .cancel] i)
    (hpause : marker.isSome → Untouched env ops [.pause] i)
    (hs : Held env p i marker before s) (h : System.Run (transactions env) s ops t) :
    Held env p i marker before t := by
  refine h.preserves_of_labels (I := Held env p i marker before) (P := fun op =>
    ¬ op.2.commands env p .resume ∧ (∀ action ∈ [.resume, .cancel], ¬ op.2.commands env i action) ∧
      (marker.isSome → ¬ op.2.commands env i .pause)) ?_ ?_ hs
  · rintro s op t ⟨hresume, hchild, hpause⟩ hs hstep
    exact held_step hmarker hresume hchild hpause hs hstep
  · intro op hop
    exact ⟨hresume op hop .resume (by decide), hchild op hop,
      fun hsome => hpause hsome op hop .pause (by decide)⟩

/-! ## The pause and the resumption -/

/-- The same goal, but for its status, its version and the markers of a pause. -/
def SameWork (c c' : Goal) : Prop :=
  c' = { c with
    status := c'.status
    version := c'.version
    pausedByParent := c'.pausedByParent
    beforeParentPause := c'.beforeParentPause }

/-- The status that a pause gives back: a goal that was running has lost its turn. -/
def Status.restored : Status → Status
  | .running => .queued
  | status => status

/-- A child in a well-formed family. -/
theorem WellFormed.head (hwf : WellFormed env goals) (hc : c ∈ goals)
    (hparent : c.parentGoalId = some (env.idText p)) :
    c.id ≠ p ∧ ∃ head, row goals p = some head ∧ head.parentGoalId = none := by
  obtain ⟨head, hmem, htext, hhead⟩ := hwf.family c hc _ hparent
  have hid : head.id = p := (idText_injective env htext).symm
  have hrow : row goals p = some head := hid ▸ row_of_mem hwf.keys hmem
  refine ⟨fun hcp => ?_, head, hrow, hhead⟩
  have hsame : c = head := hwf.keys.eq hc hmem (hcp.trans hid.symm)
  rw [hsame, hhead] at hparent
  cases hparent

/-- The row of a child after a pause of its parent. -/
theorem paused_child (hwf : WellFormed env s.goals)
    (h : s.update env now goalId change operator asked = .ok t) (haction : change.action = .pause)
    (huuid : env.uuid goalId = some p) (hc : c ∈ s.goals)
    (hparent : c.parentGoalId = some (env.idText p)) :
    row t.goals c.id = some (if c.parentGoalId = some goalId ∧ ¬ c.status.terminal then
      c.followed goalId .pause .paused else c) := by
  obtain ⟨hne, head, hrow, hhead⟩ := hwf.head hc hparent
  obtain ⟨g, -, htransition, hgid, hgoals, -⟩ := head_command hwf h huuid hrow hhead (.inl haction)
  rw [hgoals, haction, (transition_status htransition).1 haction]
  show row (cascade goalId .pause .paused (save g s.goals)) c.id = _
  rw [row_cascade, row_save_of_ne (hgid ▸ hne), row_of_mem hwf.keys hc, Option.map_some]

/-- The row of a child after a resumption of its parent. -/
theorem resumed_child (hwf : WellFormed env s.goals)
    (h : s.update env now goalId change operator asked = .ok t) (haction : change.action = .resume)
    (huuid : env.uuid goalId = some p) (hc : c ∈ s.goals)
    (hparent : c.parentGoalId = some (env.idText p)) :
    row t.goals c.id = some (if c.pausedByParent = some goalId ∧ c.status = .paused then
      c.restored else c) := by
  obtain ⟨hne, head, hrow, hhead⟩ := hwf.head hc hparent
  obtain ⟨g, -, htransition, hgid, hgoals, -⟩ :=
    head_command hwf h huuid hrow hhead (.inr (.inl haction))
  rw [hgoals, haction]
  show row (restoreChildren goalId (save g s.goals)) c.id = _
  rw [row_restoreChildren, row_save_of_ne (hgid ▸ hne), row_of_mem hwf.keys hc, Option.map_some]

/-- A pause leaves the work of a child. -/
theorem sameWork_followed {action : Action} {status : Status} :
    SameWork c (c.followed goalId action status) := by
  unfold SameWork Goal.followed
  dsimp only
  split <;> rfl

variable {pauseText resumeText : String} {paused stopped resumed : Store} {ops : List (Nat × Op)}
  {pausedAt resumedAt : Nat} {pause resume : GoalUpdate} {byOperator : Bool} {asked' : Asked}

/-- The row of a child once its parent is resumed, from what the pause has left of it. -/
theorem held_resumed (hs : Held env p i marker before stopped)
    (h : stopped.update env resumedAt resumeText resume operator asked = .ok resumed)
    (haction : resume.action = .resume) (huuid : env.uuid resumeText = some p) :
    ∃ c ∈ stopped.goals, c.id = i ∧ c.control = pausedControl env p marker before ∧
      row resumed.goals i = some (if marker = some resumeText then c.restored else c) := by
  obtain ⟨hwf, parent, hrow, hhead, hcases⟩ := hs
  rcases hcases with hcanceled | ⟨-, c, hc, hcontrol⟩
  · obtain ⟨g, -, htransition, -⟩ := head_command hwf h huuid hrow hhead (.inr (.inl haction))
    have hopen := (transition_spec htransition).1
    rw [hcanceled] at hopen
    cases hopen
  · have hstatus : c.status = .paused := congrArg Prod.fst hcontrol
    have hmark : c.pausedByParent = marker := congrArg (·.2.2.1) hcontrol
    have hresumed := resumed_child hwf h haction huuid (row_mem hc) (congrArg (·.2.1) hcontrol)
    rw [row_id hc, hmark] at hresumed
    refine ⟨c, row_mem hc, row_id hc, hcontrol, ?_⟩
    rw [hresumed]
    simp only [hstatus, and_true]

/-- **A pause of a parent and its next resumption.** A child that the pause has stopped gets its
status back if and only if the resumption names the parent by the text that its children keep; a
child that is paused on its own stays paused; and the children keep their work. -/
theorem resume_restores_iff_same_text (hs : (transactions env).Reachable s)
    (hpause : s.update env pausedAt pauseText pause byOperator asked = .ok paused)
    (hpauseAction : pause.action = .pause) (hpauseText : env.uuid pauseText = some p)
    (hrun : System.Run (transactions env) paused ops stopped) (hops : Untouched env ops [.resume] p)
    (hresume : stopped.update env resumedAt resumeText resume operator asked' = .ok resumed)
    (hresumeAction : resume.action = .resume) (hresumeText : env.uuid resumeText = some p) :
    (∀ c ∈ s.goals, c.parentGoalId = some (env.idText p) →
      (∃ c₁, row paused.goals c.id = some c₁ ∧ c.status ≠ .paused ∧ c₁.status = .paused) →
      Untouched env ops [.pause, .resume, .cancel] c.id →
      ∃ c', row resumed.goals c.id = some c' ∧
        (c'.status = c.status.restored ↔ resumeText = env.idText p)) ∧
    (∀ c ∈ s.goals, c.parentGoalId = some (env.idText p) → c.status = .paused →
      c.pausedByParent = none → Untouched env ops [.resume, .cancel] c.id →
      ∃ c', row resumed.goals c.id = some c' ∧ c'.status = .paused) ∧
    (∀ c ∈ stopped.goals, c.parentGoalId = some (env.idText p) → c.status = .paused →
      c.pausedByParent = none → row resumed.goals c.id = some c) ∧
    (∀ c ∈ s.goals, c.parentGoalId = some (env.idText p) →
      ∃ c', row paused.goals c.id = some c' ∧ SameWork c c') ∧
    (∀ c ∈ stopped.goals, c.parentGoalId = some (env.idText p) →
      ∃ c', row resumed.goals c.id = some c' ∧ SameWork c c') := by
  have hwf := wellFormed_reachable hs
  have hstep : (transactions env).step s
      (pausedAt, .update pauseText pause byOperator asked) paused :=
    hpause
  have hwfPaused := wellFormed_step hwf hstep
  have hwfStopped := wellFormed_reachable ((hs.run (.single hstep)).run hrun)
  -- the state that the pause leaves, for a child whose row it has written
  have hheld {c c₁ : Goal} (hc : c ∈ s.goals) (hparent : c.parentGoalId = some (env.idText p))
      {marker : Option String} {before : Option Status} (hrow : row paused.goals c.id = some c₁)
      (hcontrol : c₁.control = pausedControl env p marker before) :
      Held env p c.id marker before paused := by
    obtain ⟨-, head, hhead, hnone⟩ := hwf.head hc hparent
    obtain ⟨g, head', htransition, -, -, hhead', hnone', hstatus⟩ :=
      head_command hwf hpause hpauseText hhead hnone (.inl hpauseAction)
    exact ⟨hwfPaused, head', hhead', hnone',
      .inr ⟨hstatus.trans ((transition_status htransition).1 hpauseAction), c₁, hrow, hcontrol⟩⟩
  refine ⟨?restored, ?own, ?ownInBetween, ?pauseWork, ?resumeWork⟩
  case restored =>
    rintro c hc hparent ⟨c₁, hrow, hactive, hpaused⟩ huntouched
    have hfollowed := paused_child hwf hpause hpauseAction hpauseText hc hparent
    rw [hrow] at hfollowed
    split at hfollowed
    · next hcascade =>
      obtain rfl := Option.some.inj hfollowed
      -- the pause has named the parent by the text that the child keeps
      have htext : pauseText = env.idText p := Option.some.inj (hcascade.1.symm.trans hparent)
      have hcontrol : (c.followed pauseText .pause .paused).control =
          pausedControl env p (some (env.idText p)) (some c.status) := by
        unfold Goal.followed
        dsimp only
        rw [if_pos ⟨rfl, hactive⟩]
        unfold Goal.control pausedControl
        rw [hparent, htext]
      have hend := held_run (fun _ h => (Option.some.inj h).symm) hops
        (fun op hop action ha => huntouched op hop action (List.mem_cons_of_mem _ ha))
        (fun _ op hop action ha => huntouched op hop action (by
          rw [List.mem_singleton.mp ha]
          exact List.mem_cons_self)) (hheld hc hparent hrow hcontrol) hrun
      obtain ⟨c₂, -, -, hcontrol₂, hrow₂⟩ := held_resumed hend hresume hresumeAction hresumeText
      refine ⟨_, hrow₂, ?_⟩
      have hmark : c₂.pausedByParent = some (env.idText p) := congrArg (·.2.2.1) hcontrol₂
      have hbefore : c₂.beforeParentPause = some c.status := by
        have h := congrArg (·.2.2.2) hcontrol₂
        unfold Goal.control pausedControl at h
        dsimp only at h
        rw [hmark] at h
        exact h
      have hstatus : c₂.status = .paused := congrArg Prod.fst hcontrol₂
      -- under another spelling the statement that restores the children finds none
      by_cases hcanonical : resumeText = env.idText p
      · rw [if_pos (by rw [hcanonical]), iff_true_right hcanonical]
        unfold Goal.restored
        dsimp only
        rw [hbefore]
        cases c.status <;> rfl
      · rw [if_neg fun h => hcanonical (Option.some.inj h).symm,
          hstatus, iff_false_right hcanonical]
        cases hc : c.status with
        | paused => exact absurd hc hactive
        | _ => exact nofun
    · obtain rfl := Option.some.inj hfollowed
      -- the pause has not reached the child, which was not paused
      exact absurd hpaused hactive
  case own =>
    intro c hc hparent hpaused hmarker huntouched
    have hrow := paused_child hwf hpause hpauseAction hpauseText hc hparent
    -- the pause leaves what was paused on its own, and marks it with nobody's text
    have hcontrol : (if c.parentGoalId = some pauseText ∧ ¬ c.status.terminal then
        c.followed pauseText .pause .paused else c).control = pausedControl env p none none := by
      unfold Goal.control pausedControl
      split
      · unfold Goal.followed
        dsimp only
        rw [if_neg fun h => h.2 hpaused, hparent, hmarker]
        rfl
      · rw [hpaused, hparent, hmarker]
        rfl
    have hend := held_run (fun _ h => by cases h) hops huntouched (fun h => by cases h)
      (hheld hc hparent hrow hcontrol) hrun
    obtain ⟨c₂, -, -, hcontrol₂, hrow₂⟩ := held_resumed hend hresume hresumeAction hresumeText
    exact ⟨c₂, hrow₂, congrArg Prod.fst hcontrol₂⟩
  case ownInBetween =>
    intro c hc hparent hpaused hmarker
    rw [resumed_child hwfStopped hresume hresumeAction hresumeText hc hparent, if_neg]
    rintro ⟨hmarked, -⟩
    rw [hmarker] at hmarked
    cases hmarked
  case pauseWork =>
    intro c hc hparent
    refine ⟨_, paused_child hwf hpause hpauseAction hpauseText hc hparent, ?_⟩
    split
    · exact sameWork_followed
    · rfl
  case resumeWork =>
    intro c hc hparent
    refine ⟨_, resumed_child hwfStopped hresume hresumeAction hresumeText hc hparent, ?_⟩
    split <;> rfl

/-! ### A family of two -/

def sampleText : String := "00000000-0000-0000-0000-00000000000a"

/-- The same UUID in upper case. -/
def sampleUpper : String := "00000000-0000-0000-0000-00000000000A"

/-- Goal 10 has a UUID in two spellings; the other ids count digits. -/
def sampleEnv : Env where
  isoformat := toString
  fixed2 := fun _ => "0.00"
  uuid text := if text = sampleText ∨ text = sampleUpper then some 10 else some text.toList.length
  idText id := if id = 10 then sampleText else String.ofList (List.replicate id '0')
  uuid_idText id := by
    have hne (text : String) (h : '-' ∈ text.toList) :
        String.ofList (List.replicate id '0') ≠ text := by
      rintro rfl
      rw [String.toList_ofList] at h
      exact absurd (List.eq_of_mem_replicate h) (by decide)
    by_cases hid : id = 10
    · rw [if_pos hid, if_pos (.inl rfl), hid]
    · rw [if_neg hid, if_neg, String.toList_ofList, List.length_replicate]
      rintro (h | h)
      · exact hne _ (by decide) h
      · exact hne _ (by decide) h

def sampleParent : CreateGoal := { objective := "ship", successCriteria := ["done"], kind := .long }

def sampleChild : CreateGoal :=
  { objective := "test", successCriteria := ["green"], parentGoalId := some sampleText }

def sampleFamily : Store where
  goals := [sampleParent.newGoal 0 10 none,
    sampleChild.newGoal 0 11 (some (.child sampleText "test" ["green"] none))]

theorem sampleFamily_reachable : (transactions sampleEnv).Reachable sampleFamily := by
  have hparent : Store.create sampleEnv 0 sampleParent 10 {} =
      .ok { goals := [sampleParent.newGoal 0 10 none] } := by decide +kernel
  have hchild : Store.create sampleEnv 0 sampleChild 11
      { goals := [sampleParent.newGoal 0 10 none] } =
      .ok sampleFamily := by decide +kernel
  exact ⟨{}, [(0, .create sampleParent 10), (0, .create sampleChild 11)], rfl,
    .cons hparent (.single hchild)⟩

def sampleEnabled : Store := { sampleFamily with enabled := true }

/-- The child is dispatched. -/
def sampleLeased : Store :=
  (sampleEnabled.claim sampleEnv 1 (fun g => 11 - g.id) 7).toOption.getD {}

theorem sampleLeased_reachable : (transactions sampleEnv).Reachable sampleLeased := by
  have hclaim : sampleEnabled.claim sampleEnv 1 (fun g => 11 - g.id) 7 = .ok sampleLeased := by
    decide +kernel
  have hlater : (transactions sampleEnv).Run sampleFamily
      [(0, .setEnabled true), (1, .claim (fun g => 11 - g.id) 7)] sampleLeased :=
    .cons rfl (.single hclaim)
  exact sampleFamily_reachable.run hlater

/-- The store after a command to the parent. -/
def commanded (text : String) (action : Action) (version : Nat) (s : Store) : Store :=
  (s.update sampleEnv 1 text { action, version } true {}).toOption.getD {}

def samplePaused : Store := commanded sampleText .pause 1 sampleFamily

/-- The parent of a child that works is paused. -/
def sampleHeld : Store := commanded sampleText .pause 1 sampleLeased

/-- The worker of the child goes on, and ends. -/
def sampleWork : List (Nat × Op) :=
  [(2, .heartbeat (sampleEnv.idText 11) 7 (some (400, 0))),
    (3, .finish (sampleEnv.idText 11) 7 { tokens := 900 })]

def sampleWorked : Store :=
  ((sampleHeld.heartbeat sampleEnv 2 (sampleEnv.idText 11) 7 (some (400, 0))).finish sampleEnv 3
    (sampleEnv.idText 11) 7 { tokens := 900 }).toOption.getD {}

/-- A child that was running is queued again, its run having ended in between. -/
theorem canonical_resume_restores : ∃ c',
    row (commanded sampleText .resume 3 sampleWorked).goals 11 = some c' ∧
      (c'.status = Status.running.restored ↔ sampleText = sampleEnv.idText 10) ∧
      c'.tokensUsed = 900 ∧ c'.leaseId = none := by
  have hpause : sampleLeased.update sampleEnv 1 sampleText
      { action := .pause, version := 1 } true {} =
      .ok sampleHeld := by decide +kernel
  have hrun : System.Run (transactions sampleEnv) sampleHeld sampleWork sampleWorked := by
    have hheartbeat : sampleHeld.transact sampleEnv 2
        (.heartbeat (sampleEnv.idText 11) 7 (some (400, 0))) =
          .ok (sampleHeld.heartbeat sampleEnv 2 (sampleEnv.idText 11) 7 (some (400, 0))) := rfl
    have hfinish : (sampleHeld.heartbeat sampleEnv 2 (sampleEnv.idText 11) 7 (some (400, 0))).finish
        sampleEnv 3 (sampleEnv.idText 11) 7 { tokens := 900 } = .ok sampleWorked := by
      decide +kernel
    exact .cons hheartbeat (.single hfinish)
  have huntouched (actions : List Action) (id : GoalId) :
      Untouched sampleEnv sampleWork actions id := by
    intro op hop action _
    simp only [sampleWork, List.mem_cons, List.not_mem_nil, or_false] at hop
    rcases hop with rfl | rfl <;> exact not_false
  have hresume : sampleWorked.update sampleEnv 1 sampleText
      { action := .resume, version := 3 } true {} =
      .ok (commanded sampleText .resume 3 sampleWorked) := by decide +kernel
  have hchild : ∃ c ∈ sampleLeased.goals, c.id = 11 ∧ c.status = .running ∧
      c.parentGoalId = some (sampleEnv.idText 10) := by decide +kernel
  obtain ⟨c, hc, hid, hstatus, hparent⟩ := hchild
  have hpaused : ∃ c₁, row sampleHeld.goals 11 = some c₁ ∧ c₁.status = .paused := by
    refine Option.map_eq_some_iff.mp (?_ : (row sampleHeld.goals 11).map Goal.status = some .paused)
    decide +kernel
  obtain ⟨c₁, hrow, hstopped⟩ := hpaused
  obtain ⟨c', hrow', hrestored⟩ :=
    (resume_restores_iff_same_text (p := 10) sampleLeased_reachable hpause
    rfl (by decide +kernel) hrun (huntouched _ _) hresume rfl (by decide +kernel)).1 c hc hparent
    ⟨c₁, hid ▸ hrow, by rw [hstatus]; decide, hstopped⟩ (huntouched _ _)
  rw [hid] at hrow'
  rw [hstatus] at hrestored
  have hused : (row (commanded sampleText .resume 3 sampleWorked).goals 11).map
      (fun c => (c.tokensUsed, c.leaseId)) = some (900, none) := by decide +kernel
  rw [hrow'] at hused
  obtain ⟨htokens, hlease⟩ := Prod.mk.inj (Option.some.inj hused)
  exact ⟨c', hrow', hrestored, htokens, hlease⟩

/-- A resumption in upper case leaves the child paused. -/
theorem upper_case_resume_loses_child :
    (transactions sampleEnv).Reachable sampleFamily ∧
    sampleFamily.update sampleEnv 1 sampleText { action := .pause, version := 1 } true {} =
      .ok samplePaused ∧
    samplePaused.update sampleEnv 1 sampleUpper { action := .resume, version := 2 } true {} =
      .ok (commanded sampleUpper .resume 2 samplePaused) ∧
    sampleFamily.goals.map Goal.status = [.queued, .queued] ∧
    samplePaused.goals.map Goal.status = [.paused, .paused] ∧
    (commanded sampleUpper .resume 2 samplePaused).goals.map Goal.status = [.queued, .paused] := by
  refine ⟨sampleFamily_reachable, ?_⟩
  decide +kernel

end GenusOs.Goals
