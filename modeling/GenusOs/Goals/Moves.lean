import GenusOs.Goals.Store
import Mathlib

/-!
# What the engine does to the rows

* `Driven`: the rows of the engine's transactions; a goal that is held or closed keeps its status,
  and a version goes up with each change of a status. `Unclaimed`: the same where no lease is given.
  `Quiet`: the same where the lease and the charge stay.
* `Moves`: what of it matters in a family.
* `Rewritten`: rows that are rewritten in place, one by one.
-/

namespace GenusOs.Goals

open Rows

variable {env : Env} {goals goals' : List Goal} {g r r' : Goal}
    {i : GoalId} {s s' : Store} {now : Nat}
  {goalId : String} {change : GoalUpdate} {operator : Bool} {asked : Asked}

/-- The fields by which a goal is paused and restored: its status, and the markers that a pause
leaves. -/
def Goal.control (g : Goal) : Status × Option String × Option String × Option Status :=
  (g.status, g.parentGoalId, g.pausedByParent, g.pausedByParent.bind fun _ => g.beforeParentPause)

/-- The same goal in its family: its id and its parent stay, its kind too unless it has no parent,
and a marker is set by its parent only. -/
structure Kin (r r' : Goal) : Prop where
  id : r'.id = r.id
  parent : r'.parentGoalId = r.parentGoalId
  kind : r'.kind = r.kind ∨ r.parentGoalId = none
  marker : r'.pausedByParent = none ∨ r'.pausedByParent = r.pausedByParent ∨
    r'.pausedByParent = r.parentGoalId

/-- A row that a transaction of the engine writes, as far as it matters in a family: a goal that is
held or closed stays under control. -/
structure Moves (r r' : Goal) : Prop extends Kin r r' where
  control : r.status.inactive = true → r'.control = r.control

/-- What the engine leaves of a goal: all that was agreed on, and the evidence. The fields that the
engine writes are set to fixed values, so that two rows of one contract are compared by it. -/
def Goal.contract (g : Goal) : Goal := { g with
  status := .queued
  version := 0
  readyAt := 0
  blocker := ""
  failures := 0
  noProgressRuns := 0
  attempts := 0
  attemptProgress := 0
  tokensUsed := 0
  costUsd := 0
  recoveryRequired := false
  leaseId := none
  leaseUntil := none }

/-- A row that the engine writes. The contract stays, a goal that is not active keeps its status,
and each change of the status raises the version. -/
structure Driven (r r' : Goal) : Prop where
  contract : r'.contract = r.contract
  status : r'.status = r.status ∨ (r.status.inactive = false ∧
    (r'.status = .queued ∨ r'.status = .running ∨ r'.status = .blocked))
  version : r.version ≤ r'.version
  changed : r'.status ≠ r.status → r.version < r'.version

/-- A row that the engine writes without giving a lease: it may take one away. -/
structure Unclaimed (r r' : Goal) : Prop extends Driven r r' where
  lease : r'.leaseId = r.leaseId ∨ r'.leaseId = none

/-- A row that the engine writes without a change of its lease or of its charge, as when a goal
wakes or is blocked. -/
structure Quiet (r r' : Goal) : Prop extends Driven r r' where
  lease : r'.leaseId = r.leaseId
  expiry : r'.leaseUntil = r.leaseUntil
  used : r'.tokensUsed = r.tokensUsed

theorem Kin.refl (r : Goal) : Kin r r := ⟨rfl, rfl, .inl rfl, .inr (.inl rfl)⟩

/-- Relations between a row and what becomes of it are transitive, so that they carry over from the
parts of a transaction to the whole. -/
theorem Kin.trans {t : Goal} (h : Kin r r') (h' : Kin r' t) : Kin r t where
  id := h'.id.trans h.id
  parent := h'.parent.trans h.parent
  kind := by
    rcases h.kind with hkind | hnone
    · rcases h'.kind with hkind' | hnone
      · exact .inl (hkind'.trans hkind)
      · exact .inr (h.parent ▸ hnone)
    · exact .inr hnone
  marker := by
    rcases h'.marker with hnone | hsame | hparent
    · exact .inl hnone
    · rw [hsame]
      exact h.marker
    · exact .inr (.inr (hparent.trans h.parent))

theorem status_of_control (h : r'.control = r.control) : r'.status = r.status := congrArg Prod.fst h

theorem Driven.refl (r : Goal) : Driven r r := ⟨rfl, .inl rfl, le_rfl, fun h => absurd rfl h⟩

theorem Driven.trans {t : Goal} (h : Driven r r') (h' : Driven r' t) : Driven r t where
  contract := h'.contract.trans h.contract
  status := by
    rcases h'.status with hsame | ⟨hactive, hstatus⟩
    · rw [hsame]
      exact h.status
    · refine .inr ⟨?_, hstatus⟩
      rcases h.status with hsame | ⟨hactive', -⟩
      · rw [← hsame]
        exact hactive
      · exact hactive'
  version := h.version.trans h'.version
  changed := fun hne => by
    by_cases hsame : t.status = r'.status
    · exact (h.changed (hsame ▸ hne)).trans_le h'.version
    · exact h.version.trans_lt (h'.changed hsame)

/-- A field of the contract stays. -/
theorem Driven.field {β : Type} (h : Driven r r') (field : Goal → β)
    (hfield : ∀ g : Goal, field g.contract = field g) : field r' = field r := by
  rw [← hfield r', h.contract, hfield]

theorem Driven.id (h : Driven r r') : r'.id = r.id := h.field Goal.id fun _ => rfl

/-- A goal that is no longer active keeps its status. -/
theorem Driven.status_eq (h : Driven r r') (hr : r.status.inactive = true) :
    r'.status = r.status := by
  rcases h.status with hsame | ⟨hactive, -⟩
  · exact hsame
  · rw [hactive] at hr
    cases hr

theorem Driven.moves (h : Driven r r') : Moves r r' where
  id := h.id
  parent := h.field Goal.parentGoalId fun _ => rfl
  kind := .inl (h.field Goal.kind fun _ => rfl)
  marker := .inr (.inl (h.field Goal.pausedByParent fun _ => rfl))
  control := fun hr => by
    unfold Goal.control
    rw [h.status_eq hr, h.field Goal.parentGoalId fun _ => rfl,
      h.field Goal.pausedByParent fun _ => rfl,
      h.field Goal.beforeParentPause fun _ => rfl]

theorem Unclaimed.refl (r : Goal) : Unclaimed r r := ⟨Driven.refl r, .inl rfl⟩

theorem Unclaimed.trans {t : Goal} (h : Unclaimed r r') (h' : Unclaimed r' t) : Unclaimed r t where
  toDriven := h.toDriven.trans h'.toDriven
  lease := by
    rcases h'.lease with hsame | hnone
    · rw [hsame]
      exact h.lease
    · exact .inr hnone

theorem Quiet.refl (r : Goal) : Quiet r r := ⟨Driven.refl r, rfl, rfl, rfl⟩

theorem Quiet.trans {t : Goal} (h : Quiet r r') (h' : Quiet r' t) : Quiet r t where
  toDriven := h.toDriven.trans h'.toDriven
  lease := h'.lease.trans h.lease
  expiry := h'.expiry.trans h.expiry
  used := h'.used.trans h.used

theorem Quiet.unclaimed (h : Quiet r r') : Unclaimed r r' := ⟨h.toDriven, .inl h.lease⟩

/-- A row whose status stays. -/
theorem unclaimed_of_status (hcontract : r'.contract = r.contract) (hstatus : r'.status = r.status)
    (hversion : r.version ≤ r'.version) (hlease : r'.leaseId = r.leaseId ∨ r'.leaseId = none) :
    Unclaimed r r' :=
  ⟨⟨hcontract, .inl hstatus, hversion, fun hne => absurd hstatus hne⟩, hlease⟩

/-- An active row whose status moves on. -/
theorem driven_of_active (hactive : r.status.inactive = false)
    (hcontract : r'.contract = r.contract)
    (hstatus : r'.status = .queued ∨ r'.status = .running ∨ r'.status = .blocked)
    (hversion : r.version < r'.version) : Driven r r' :=
  ⟨hcontract, .inr ⟨hactive, hstatus⟩, hversion.le, fun _ => hversion⟩

/-- A goal that wakes, is dispatched or stops. -/
theorem quiet_of_active {status : Status} {readyAt attempts attemptProgress : Nat}
    {blocker : String}
    (hactive : r.status.inactive = false)
    (hstatus : status = .queued ∨ status = .running ∨ status = .blocked) :
    Quiet r
      { r with status, readyAt, attempts, attemptProgress, blocker, version := r.version + 1 } :=
  ⟨driven_of_active hactive rfl hstatus (Nat.lt_succ_self _), rfl, rfl, rfl⟩

/-! ## Rows -/

theorem row_id (h : row goals i = some r) : r.id = i := by
  simpa using List.find?_some h

theorem row_mem (h : row goals i = some r) : r ∈ goals := List.mem_of_find?_eq_some h

theorem row_of_mem (hkeys : KeyUnique Goal.id goals) (h : r ∈ goals) : row goals r.id = some r := by
  have hsome : (row goals r.id).isSome := List.find?_isSome.mpr ⟨r, h, by simp⟩
  obtain ⟨r', hr'⟩ := Option.isSome_iff_exists.mp hsome
  rw [hr', hkeys.eq (row_mem hr') h (row_id hr')]

theorem row_updateWhere {p : Goal → Bool} {f : Goal → Goal} (hf : ∀ r, (f r).id = r.id) :
    row (updateWhere p f goals) i = (row goals i).map fun r => if p r then f r else r :=
  find?_updateWhere fun r _ => by rw [hf r]

/-- `save` writes all columns but those of the lease. -/
theorem row_save : row (save g goals) i = (row goals i).map fun r =>
    if r.id = g.id then { g with leaseId := r.leaseId, leaseUntil := r.leaseUntil } else r := by
  have h := @find?_updateWhere _ (fun r => decide (r.id = g.id)) (fun r => decide (r.id = i))
    (fun r => { g with leaseId := r.leaseId, leaseUntil := r.leaseUntil }) goals
    fun r hr => by rw [of_decide_eq_true hr]
  simp only [decide_eq_true_eq] at h
  exact h

/-- The other rows stay. -/
theorem row_save_of_ne (hi : i ≠ g.id) : row (save g goals) i = row goals i := by
  rw [row_save]
  cases hrow : row goals i with
  | none => rfl
  | some r =>
    rw [Option.map_some, if_neg fun hid => hi ((row_id hrow).symm.trans hid)]

theorem row_save_self (h : row goals g.id = some r) :
    row (save g goals) g.id = some { g with leaseId := r.leaseId, leaseUntil := r.leaseUntil } := by
  rw [row_save, h, Option.map_some, if_pos (row_id h)]

/-- The row that a text names is the one of the id that the text is a spelling of. -/
theorem locked_spec (h : locked env goals goalId = .ok g) :
    env.uuid goalId = some g.id ∧ row goals g.id = some g := by
  unfold locked at h
  split at h
  · cases h
  · next id huuid =>
    split at h
    · cases h
    · next hrow =>
      cases h
      rw [row_id hrow]
      exact ⟨huuid, hrow⟩

/-- Rows that are rewritten in place, one by one, each as `R` says. No transaction but `create` does
anything else to the table. -/
def Rewritten (R : Goal → Goal → Prop) (goals goals' : List Goal) :
    Prop := List.Forall₂ R goals goals'

variable {R : Goal → Goal → Prop}

theorem Rewritten.refl (hR : ∀ r, R r r) (goals : List Goal) : Rewritten R goals goals :=
  List.forall₂_same.mpr fun r _ => hR r

/-- One part of a transaction after the other. -/
theorem Rewritten.comp {S T : Goal → Goal → Prop} {goals'' : List Goal}
    (hR : ∀ a b c, R a b → S b c → T a c) (h : Rewritten R goals goals')
    (h' : Rewritten S goals' goals'') : Rewritten T goals goals'' := by
  induction h generalizing goals'' with
  | nil =>
    cases h'
    exact .nil
  | cons hab _ ih =>
    cases h' with
    | cons hbc h' => exact .cons (hR _ _ _ hab hbc) (ih h')

theorem Rewritten.trans {goals'' : List Goal} (hR : ∀ {a b c}, R a b → R b c → R a c)
    (h : Rewritten R goals goals') (h' : Rewritten R goals' goals'') : Rewritten R goals goals'' :=
  h.comp (S := R) (T := R) (fun _ _ _ hab hbc => hR hab hbc) h'

theorem Rewritten.trans_driven {goals'' : List Goal} (h : Rewritten Driven goals goals')
    (h' : Rewritten Driven goals' goals'') : Rewritten Driven goals goals'' :=
  h.trans Driven.trans h'

theorem Rewritten.trans_unclaimed {goals'' : List Goal} (h : Rewritten Unclaimed goals goals')
    (h' : Rewritten Unclaimed goals' goals'') : Rewritten Unclaimed goals goals'' :=
  h.trans Unclaimed.trans h'

theorem Rewritten.trans_quiet {goals'' : List Goal} (h : Rewritten Quiet goals goals')
    (h' : Rewritten Quiet goals' goals'') : Rewritten Quiet goals goals'' :=
  h.trans Quiet.trans h'

/-- A weaker relation. -/
theorem Rewritten.mono {S : Goal → Goal → Prop} (hRS : ∀ r r', R r r' → S r r')
    (h : Rewritten R goals goals') : Rewritten S goals goals' :=
  List.Forall₂.imp hRS h

theorem rewritten_updateWhere {p : Goal → Bool} {f : Goal → Goal} (hrefl : ∀ r, R r r)
    (hf : ∀ r ∈ goals, p r = true → R r (f r)) : Rewritten R goals (updateWhere p f goals) := by
  unfold Rewritten updateWhere
  rw [List.forall₂_map_right_iff]
  refine List.forall₂_same.mpr fun r hr => ?_
  split
  · next hp => exact hf r hr hp
  · exact hrefl r

/-- The rows stay at their ids. -/
theorem Rewritten.row (hid : ∀ r r', R r r' → r'.id = r.id) (h : Rewritten R goals goals')
    (hrow : row goals i = some r) : ∃ r', row goals' i = some r' ∧ R r r' := by
  induction h with
  | nil => cases hrow
  | @cons a b as bs hab _ ih =>
    unfold Goals.row at hrow ih ⊢
    rw [List.find?_cons] at hrow ⊢
    rw [hid a b hab]
    cases hi : decide (a.id = i) with
    | true =>
      rw [hi] at hrow
      obtain rfl := Option.some.inj hrow
      exact ⟨b, rfl, hab⟩
    | false =>
      rw [hi] at hrow
      exact ih hrow

theorem Rewritten.ids (hid : ∀ r r', R r r' → r'.id = r.id) (h : Rewritten R goals goals') :
    goals'.map Goal.id = goals.map Goal.id := by
  induction h with
  | nil => rfl
  | cons hab _ ih => rw [List.map_cons, List.map_cons, hid _ _ hab, ih]

theorem Rewritten.keyUnique (hid : ∀ r r', R r r' → r'.id = r.id) (h : Rewritten R goals goals')
    (hkeys : KeyUnique Goal.id goals) : KeyUnique Goal.id goals' := by
  unfold KeyUnique
  rw [h.ids hid]
  exact hkeys

theorem Rewritten.mem (h : Rewritten R goals goals') (hr : r' ∈ goals') : ∃ r ∈ goals, R r r' := by
  induction h with
  | nil => cases hr
  | cons hab _ ih =>
    rcases List.mem_cons.mp hr with rfl | hr
    · exact ⟨_, List.mem_cons_self, hab⟩
    · obtain ⟨r, hmem, hR⟩ := ih hr
      exact ⟨r, List.mem_cons_of_mem _ hmem, hR⟩

theorem Rewritten.kept (h : Rewritten R goals goals') (hr : r ∈ goals) : ∃ r' ∈ goals', R r r' :=
  Rewritten.mem (R := fun r' r => R r r') (List.Forall₂.flip h) hr

/-- `save` writes the row of the goal. -/
theorem rewritten_save (hkeys : KeyUnique Goal.id goals) (hrefl : ∀ r, R r r) (hr : r ∈ goals)
    (hg : g.id = r.id) (hR : R r { g with leaseId := r.leaseId, leaseUntil := r.leaseUntil }) :
    Rewritten R goals (save g goals) := by
  refine rewritten_updateWhere hrefl fun b hb hid => ?_
  have hsame : b = r := hkeys.eq hb hr ((of_decide_eq_true hid).trans hg)
  rw [hsame]
  exact hR

/-- `save` where the rows have been rewritten since the row was read. -/
theorem Rewritten.saved {S : Goal → Goal → Prop} {start : List Goal}
    (hkeys : KeyUnique Goal.id start)
    (hid : ∀ r r', R r r' → r'.id = r.id) (hstart : Rewritten R start goals) (hr : r ∈ start)
    (hg : g.id = r.id) (hother : ∀ a b, a.id ≠ r.id → R a b → S a b)
    (hself : ∀ b, R r b → S r { g with leaseId := b.leaseId, leaseUntil := b.leaseUntil }) :
    Rewritten S start (save g goals) := by
  have hrow : ∀ a b, a ∈ start → R a b →
      S a (if b.id = g.id then { g with leaseId := b.leaseId, leaseUntil := b.leaseUntil }
        else b) := by
    intro a b ha hab
    split
    · next heq =>
      have har : a = r := hkeys.eq ha hr ((hid a b hab).symm.trans (heq.trans hg))
      rw [har] at hab ⊢
      exact hself b hab
    · next hne => exact hother a b (fun heq => hne ((hid a b hab).trans (heq.trans hg.symm))) hab
  clear hr hkeys hother hself
  unfold Rewritten save updateWhere at *
  induction hstart with
  | nil => exact .nil
  | @cons a b as bs hab _ ih =>
    refine .cons ?_ (ih fun a' b' ha' => hrow a' b' (List.mem_cons_of_mem a ha'))
    simpa using hrow a b List.mem_cons_self hab

/-- A row that the engine has driven is written. -/
theorem Rewritten.save_unclaimed {start : List Goal} (hkeys : KeyUnique Goal.id start)
    (hstart : Rewritten Unclaimed start goals) (hr : r ∈ start) (h : Unclaimed r g) :
    Rewritten Unclaimed start (save g goals) :=
  hstart.saved hkeys (fun _ _ h => h.id) hr h.id (fun _ _ _ h => h) fun _ hb =>
    ⟨⟨h.contract, h.status, h.version, h.changed⟩, hb.lease⟩

theorem Rewritten.save_quiet {start : List Goal} (hkeys : KeyUnique Goal.id start)
    (hstart : Rewritten Quiet start goals) (hr : r ∈ start) (h : Quiet r g) :
    Rewritten Quiet start (save g goals) :=
  hstart.saved hkeys (fun _ _ h => h.id) hr h.id (fun _ _ _ h => h) fun _ hb =>
    ⟨⟨h.contract, h.status, h.version, h.changed⟩, hb.lease, hb.expiry, h.used⟩

theorem Rewritten.unclaimed (h : Rewritten Quiet goals goals') : Rewritten Unclaimed goals goals' :=
  h.mono fun _ _ h => h.unclaimed

theorem Rewritten.keys_unclaimed (h : Rewritten Unclaimed goals goals')
    (hkeys : KeyUnique Goal.id goals) :
    KeyUnique Goal.id goals' :=
  h.keyUnique (fun _ _ h => h.id) hkeys

/-! ## The engine -/

theorem chargeParent_unclaimed {tokens : Int} {cost : ℚ} (hkeys : KeyUnique Goal.id goals)
    (h : chargeParent env tokens cost g goals = .ok goals') : Rewritten Unclaimed goals goals' := by
  unfold chargeParent at h
  split at h
  · cases h
    exact .refl Unclaimed.refl goals
  · split at h
    · cases h
    · next parent hparent =>
      cases h
      exact (Rewritten.refl Unclaimed.refl goals).save_unclaimed hkeys
        (row_mem (locked_spec hparent).2)
        (unclaimed_of_status rfl rfl (Nat.le_succ _) (.inl rfl))

theorem rewritten_lease {p : Goal → Bool} {leaseId leaseUntil : Goal → Option Nat}
    (hlease : ∀ r, leaseId r = r.leaseId ∨ leaseId r = none) : Rewritten Unclaimed goals
      (updateWhere p
        (fun r => { r with leaseId := leaseId r, leaseUntil := leaseUntil r }) goals) :=
  rewritten_updateWhere Unclaimed.refl fun r _ _ => unclaimed_of_status rfl rfl le_rfl (hlease r)

/-- The lease of the row is given up. -/
def release (id : GoalId) (goals : List Goal) : List Goal :=
  updateWhere (·.id = id) (fun r => { r with leaseId := none, leaseUntil := none }) goals

theorem release_unclaimed : Rewritten Unclaimed goals (release i goals) :=
  rewritten_lease fun _ => .inr rfl

/-- A goal that is no longer active is not queued again. -/
theorem unclaimed_recovered {readyAt : Nat} (h : Unclaimed r g) : Unclaimed r { g with
    recoveryRequired := true
    version := g.version + 1
    status := if g.status.inactive then g.status else .queued
    readyAt := readyAt } := by
  refine ⟨⟨h.contract, ?_, h.version.trans (Nat.le_succ _), fun _ => Nat.lt_succ_of_le h.version⟩,
    h.lease⟩
  dsimp only
  split
  · exact h.status
  · next hactive =>
    rw [Bool.not_eq_true] at hactive
    refine .inr ⟨?_, .inl rfl⟩
    rcases h.status with hsame | ⟨hactive', -⟩
    · rw [← hsame]
      exact hactive
    · exact hactive'

/-- The running attempt that holds the lease of a goal. -/
def Store.usage (s : Store) (r : Goal) : Option Attempt :=
  s.attempts.find? fun a => some a.id = r.leaseId ∧ a.status = .running

/-- **A goal whose lease has run out** is charged with what its running attempt has used. -/
theorem recover_spec (h : recover env now s r = .ok s') : ∃ goals g, Unclaimed r g ∧
    ((∃ a, s.usage r = some a ∧ chargeParent env a.tokens a.costUsd r s.goals = .ok goals ∧
        g.tokensUsed = r.tokensUsed + a.tokens) ∨
      (s.usage r = none ∧ goals = s.goals)) ∧
    s'.goals = release g.id (save g goals) ∧
    s'.attempts = updateWhere (fun a => some a.id = r.leaseId ∧ a.status = .running)
      (fun a => { a with status := .interrupted }) s.attempts ∧
    s'.events = s.events ∧ s'.links = s.links := by
  unfold recover at h
  dsimp only at h
  split at h
  · cases h
  · next goals hparents =>
    cases h
    refine ⟨goals, _, unclaimed_recovered ?_, ?_, rfl, rfl, rfl, rfl⟩
    · split
      · exact unclaimed_of_status rfl rfl le_rfl (.inl rfl)
      · exact Unclaimed.refl r
    · split at hparents
      · next a husage => exact .inl ⟨a, husage, hparents, rfl⟩
      · next husage =>
        cases hparents
        exact .inr ⟨husage, rfl⟩

/-- A recovery takes a lease away, and charges the goal and its parent. -/
theorem recover_unclaimed {start : List Goal} (hkeys : KeyUnique Goal.id start)
    (hstart : Rewritten Unclaimed start s.goals) (hr : r ∈ start)
    (h : recover env now s r = .ok s') :
    Rewritten Unclaimed start s'.goals := by
  obtain ⟨goals, g, hg, hcharged, hgoals, -⟩ := recover_spec h
  rw [hgoals]
  have hparents : Rewritten Unclaimed start goals := by
    rcases hcharged with ⟨a, -, hparents, -⟩ | ⟨-, rfl⟩
    · exact hstart.trans_unclaimed (chargeParent_unclaimed (hstart.keys_unclaimed hkeys) hparents)
    · exact hstart
  exact (hparents.save_unclaimed hkeys hr hg).trans_unclaimed release_unclaimed

theorem foldlM_recover_unclaimed {start rows : List Goal} (hkeys : KeyUnique Goal.id start)
    (hstart : Rewritten Unclaimed start s.goals) (hrows : ∀ r ∈ rows, r ∈ start)
    (h : rows.foldlM (recover env now) s = .ok s') : Rewritten Unclaimed start s'.goals := by
  induction rows generalizing s with
  | nil =>
    cases h
    exact hstart
  | cons r rows ih =>
    obtain ⟨hr, hrows⟩ := List.forall_mem_cons.mp hrows
    rw [List.foldlM_cons] at h
    cases hstep : recover env now s r with
    | error error =>
      rw [hstep] at h
      cases h
    | ok t =>
      rw [hstep] at h
      exact ih (recover_unclaimed hkeys hstart hr hstep) hrows h

theorem wakeWaiting_quiet (hkeys : KeyUnique Goal.id s.goals) :
    Rewritten Quiet s.goals (wakeWaiting now s).goals := by
  have hfold : ∀ (rows goals : List Goal), (∀ r ∈ rows, r ∈ s.goals ∧ r.status = .waiting) →
      Rewritten Quiet s.goals goals → Rewritten Quiet s.goals (rows.foldl
        (fun goals g =>
          save { g with status := .queued, readyAt := now, version := g.version + 1 } goals)
        goals) := by
    intro rows
    induction rows with
    | nil => exact fun goals _ h => h
    | cons r rows ih =>
      intro goals hrows h
      obtain ⟨⟨hmem, hwaiting⟩, hrows⟩ := List.forall_mem_cons.mp hrows
      have hactive : r.status.inactive = false := by
        rw [hwaiting]
        rfl
      exact ih _ hrows (h.save_quiet hkeys hmem (quiet_of_active hactive (.inl rfl)))
  unfold wakeWaiting
  dsimp only
  split
  · exact .refl Quiet.refl s.goals
  · refine hfold _ _ (fun r hr => ?_) (.refl Quiet.refl s.goals)
    obtain ⟨hmem, hwaiting⟩ := List.mem_filter.mp (List.mem_filter.mp hr).1
    exact ⟨hmem, by simpa using hwaiting⟩

theorem wakeWaiting_attempts : (wakeWaiting now s).attempts = s.attempts := by
  unfold wakeWaiting
  dsimp only
  split <;> rfl

/-- `reconcile` recovers what has run out, and then wakes who waits. -/
theorem reconcile_spec (h : reconcile env now s = .ok s') :
    ∃ t, (s.goals.filter fun g => g.leaseUntil.any (· < now)).foldlM (recover env now) s = .ok t ∧
      s' = wakeWaiting now t := by
  unfold reconcile at h
  cases hfold : (s.goals.filter fun g => g.leaseUntil.any (· < now)).foldlM (recover env now) s with
  | error error =>
    rw [hfold] at h
    cases h
  | ok t =>
    rw [hfold] at h
    cases h
    exact ⟨t, rfl, rfl⟩

theorem reconcile_unclaimed (hkeys : KeyUnique Goal.id s.goals) (h : reconcile env now s = .ok s') :
    Rewritten Unclaimed s.goals s'.goals := by
  obtain ⟨t, hfold, rfl⟩ := reconcile_spec h
  have hrecovered := foldlM_recover_unclaimed hkeys (.refl Unclaimed.refl s.goals)
    (fun r hr => (List.mem_filter.mp hr).1) hfold
  exact hrecovered.trans_unclaimed (wakeWaiting_quiet (hrecovered.keys_unclaimed hkeys)).unclaimed

theorem ready_spec (h : g ∈ ready env now goals) : g ∈ goals ∧ g.status.inactive = false := by
  obtain ⟨hmem, hready⟩ := List.mem_filter.mp h
  simp only [decide_eq_true_eq] at hready
  refine ⟨hmem, ?_⟩
  rcases hready.1 with hstatus | hstatus <;> rw [hstatus] <;> rfl

theorem firstReady_mem {tie : Goal → Nat} (h : firstReady tie goals = some g) : g ∈ goals :=
  List.argmin_mem h

/-- The sweep blocks goals, by induction on how many it may still ask. -/
theorem sweep_quiet {tie : Goal → Nat} {turns : Nat} {found : Option Goal}
    (hkeys : KeyUnique Goal.id goals) (h : sweep env now tie turns goals = (found, goals')) :
    Rewritten Quiet goals goals' ∧ ∀ g, found = some g →
      g ∈ goals' ∧ g.status.inactive = false := by
  induction turns generalizing goals with
  | zero =>
    rw [sweep] at h
    obtain ⟨rfl, rfl⟩ := Prod.mk.inj h
    refine ⟨.refl Quiet.refl _, fun g hg => ?_⟩
    cases hg
  | succ turns ih =>
    rw [sweep] at h
    split at h
    · obtain ⟨rfl, rfl⟩ := Prod.mk.inj h
      refine ⟨.refl Quiet.refl _, fun g hg => ?_⟩
      cases hg
    · next g hfirst =>
      obtain ⟨hmem, hactive⟩ := ready_spec (firstReady_mem hfirst)
      dsimp only at h
      split at h
      · obtain ⟨rfl, rfl⟩ := Prod.mk.inj h
        refine ⟨.refl Quiet.refl _, ?_⟩
        rintro _ ⟨⟩
        exact ⟨hmem, hactive⟩
      · -- at a ceiling: the goal is blocked, and the sweep asks on
        have hblocked := (Rewritten.refl Quiet.refl goals).save_quiet (g := { g with
            status := .blocked, blocker := g.exceeded env now, version :=
              g.version + 1 }) hkeys hmem
          (quiet_of_active hactive (.inr (.inr rfl)))
        obtain ⟨hrest, hfound⟩ := ih (hblocked.keyUnique (fun _ _ h => h.id) hkeys) h
        exact ⟨hblocked.trans_quiet hrest, hfound⟩

/-- **A claim** reconciles, blocks what has reached a ceiling, and may give a lease where there is
none. -/
theorem claim_spec {tie : Goal → Nat} {attempt : AttemptId} (hkeys : KeyUnique Goal.id s.goals)
    (h : s.claim env now tie attempt = .ok s') :
    (s.enabled = false ∧ s' = s) ∨ ∃ t, reconcile env now s = .ok t ∧
      (s.enabled = true ∧ s'.events = t.events) ∧
      ((Rewritten Quiet t.goals s'.goals ∧ s'.attempts = t.attempts) ∨
        ∃ goals, ∃ g ∈ goals, ∃ leaseUntil, Rewritten Quiet t.goals goals ∧
          (∀ r ∈ t.goals, r.leaseId = none) ∧
          s'.goals = updateWhere (·.id = g.id)
            (fun r => { r with leaseId := some attempt, leaseUntil := some leaseUntil }) goals ∧
          s'.attempts = t.attempts ++ [{ id := attempt, goalId := g.id }]) := by
  unfold Store.claim at h
  split at h
  · next hdisabled =>
    cases h
    exact .inl ⟨by simpa using hdisabled, rfl⟩
  next henabled =>
  replace henabled : s.enabled = true := by simpa using henabled
  split at h
  · cases h
  next t hreconcile =>
  refine .inr ⟨t, hreconcile, ?_⟩
  split at h
  · cases h
    exact ⟨⟨henabled, rfl⟩, .inl ⟨.refl Quiet.refl s'.goals, rfl⟩⟩
  next hfree =>
  have hkeys' := (reconcile_unclaimed hkeys hreconcile).keys_unclaimed hkeys
  split at h
  · next goals hsweep =>
    cases h
    exact ⟨⟨henabled, rfl⟩, .inl ⟨(sweep_quiet hkeys' hsweep).1, rfl⟩⟩
  · next g goals hsweep =>
    cases h
    refine ⟨⟨henabled, rfl⟩, ?_⟩
    obtain ⟨hswept, hfound⟩ := sweep_quiet hkeys' hsweep
    obtain ⟨hmem, hactive⟩ := hfound g rfl
    -- the goal that is found begins to run, which is a move like the others; only the lease is not
    have hquiet := hswept.trans_quiet ((Rewritten.refl Quiet.refl goals).save_quiet (g := { g with
        status := .running
        version := g.version + 1
        attempts := g.attempts + 1
        attemptProgress := g.progressRevision }) (hswept.keyUnique (fun _ _ h => h.id) hkeys') hmem
      (quiet_of_active hactive (.inr (.inl rfl))))
    obtain ⟨g', hg', hid⟩ : ∃ g' ∈ save { g with
        status := .running
        version := g.version + 1
        attempts := g.attempts + 1
        attemptProgress := g.progressRevision } goals, g'.id = g.id :=
      ⟨_, mem_updateWhere.mpr ⟨g, hmem, rfl⟩, by simp⟩
    refine .inr ⟨_, g', hg', future now leaseSeconds,
      hquiet, fun r hr => ?_, by rw [hid], by rw [hid]⟩
    by_contra hsome
    exact hfree (List.any_eq_true.mpr ⟨r, hr, Option.isSome_iff_ne_none.mpr hsome⟩)

/-- After it has reconciled, a claim drives the rows and leaves the events. -/
theorem claim_reconciled {tie : Goal → Nat} {attempt : AttemptId}
    (hkeys : KeyUnique Goal.id s.goals)
    (h : s.claim env now tie attempt = .ok s') :
    (s.enabled = false ∧ s' = s) ∨ ∃ t, reconcile env now s = .ok t ∧
      (s.enabled = true ∧ s'.events = t.events) ∧ Rewritten Driven t.goals s'.goals := by
  rcases claim_spec hkeys h with hdisabled | ⟨t, hreconcile, hevents, hrest⟩
  · exact .inl hdisabled
  refine .inr ⟨t, hreconcile, hevents, ?_⟩
  rcases hrest with ⟨hquiet, -⟩ | ⟨goals, g, -, leaseUntil, hquiet, -, hgoals, -⟩
  · exact hquiet.mono fun _ _ h => h.toDriven
  · rw [hgoals]
    refine (hquiet.mono fun _ _ h => h.toDriven).trans_driven (rewritten_updateWhere Driven.refl ?_)
    exact fun _ _ _ => ⟨rfl, .inl rfl, le_rfl, fun hne => absurd rfl hne⟩

theorem claim_driven {tie : Goal → Nat} {attempt : AttemptId} (hkeys : KeyUnique Goal.id s.goals)
    (h : s.claim env now tie attempt = .ok s') : Rewritten Driven s.goals s'.goals := by
  rcases claim_reconciled hkeys h with ⟨-, rfl⟩ | ⟨t, hreconcile, -, hdriven⟩
  · exact .refl Driven.refl s'.goals
  · exact ((reconcile_unclaimed hkeys hreconcile).mono fun _ _ h => h.toDriven).trans_driven hdriven

theorem claim_moves {tie : Goal → Nat} {attempt : AttemptId} (hkeys : KeyUnique Goal.id s.goals)
    (h : s.claim env now tie attempt = .ok s') : Rewritten Moves s.goals s'.goals :=
  (claim_driven hkeys h).mono fun _ _ h => h.moves

/-- A child wakes an active parent only. -/
theorem rewritten_woken {parent : Goal} (hkeys : KeyUnique Goal.id goals) (hmem : parent ∈ goals)
    (hactive : ¬ parent.status.inactive = true) :
    Rewritten Quiet goals
      (save { parent with status := .queued, readyAt := now, version := parent.version + 1 }
        goals) := by
  rw [Bool.not_eq_true] at hactive
  exact (Rewritten.refl Quiet.refl goals).save_quiet hkeys hmem (quiet_of_active hactive (.inl rfl))

theorem wakeBlocked_quiet {was : Status} (hkeys : KeyUnique Goal.id goals)
    (h : wakeBlocked env now was g goals = .ok goals') : Rewritten Quiet goals goals' := by
  unfold wakeBlocked at h
  split at h
  · cases h
    exact .refl Quiet.refl goals
  split at h
  · cases h
  next parent hparent =>
  split at h
  · cases h
    exact .refl Quiet.refl goals
  · next hactive =>
    cases h
    exact rewritten_woken hkeys (row_mem (locked_spec hparent).2) hactive

theorem wakeParent_quiet (hkeys : KeyUnique Goal.id goals)
    (h : wakeParent env now g goals = .ok goals') : Rewritten Quiet goals goals' := by
  unfold wakeParent at h
  split at h
  · cases h
    exact .refl Quiet.refl goals
  split at h
  · split at h
    · cases h
    next parent hparent =>
    split at h
    · cases h
      exact .refl Quiet.refl goals
    · next hactive =>
      cases h
      exact rewritten_woken hkeys (row_mem (locked_spec hparent).2) hactive
  · cases h
    exact .refl Quiet.refl goals

/-- The turn of a running goal queues or blocks it. -/
theorem endTurn_spec {report : Report} :
    (g.endTurn env now report).contract = g.contract ∧
    (g.endTurn env now report).version = g.version ∧
    (g.endTurn env now report).leaseId = g.leaseId ∧
    (g.endTurn env now report).tokensUsed = g.tokensUsed ∧
    ((g.endTurn env now report).status = .queued ∨
      (g.endTurn env now report).status = .blocked) := by
  unfold Goal.endTurn
  dsimp only
  split_ifs <;> first
    | exact ⟨rfl, rfl, rfl, rfl, .inl rfl⟩
    | exact ⟨rfl, rfl, rfl, rfl, .inr rfl⟩

/-- **The end of a run** charges the goal with what the worker reports. -/
theorem finish_spec {attempt : AttemptId} {report : Report}
    (h : s.finish env now goalId attempt report = .ok s') :
    s' = s ∨ ∃ r ∈ s.goals, ∃ charged goals g, r.leaseId = some attempt ∧
      chargeParent env (max 0 report.tokens) (max 0 report.cost) r s.goals = .ok charged ∧
      wakeBlocked env now r.status g charged = .ok goals ∧ Unclaimed r g ∧
      g.tokensUsed = r.tokensUsed + max 0 report.tokens ∧ s'.goals = release g.id (save g goals) ∧
      s'.attempts = updateWhere (·.id = attempt) (fun a => { a with
        status := if report.error ≠ "" then .failed else .finished
        tokens := report.tokens
        costUsd := report.cost }) s.attempts := by
  unfold Store.finish at h
  split at h
  · cases h
    exact .inl rfl
  next r hfind =>
  dsimp only at h
  split at h
  · cases h
  next charged hcharged =>
  split at h
  · cases h
  next goals hwoken =>
  cases h
  have hholds := List.find?_some hfind
  refine .inr ⟨r, List.mem_of_find?_eq_some hfind,
    charged, goals, _, (of_decide_eq_true hholds).2, hcharged, hwoken, ?_, ?_, rfl,
    rfl⟩
  · split
    · next hrunning =>
        -- a goal that runs is queued or blocked by the end of its turn
      obtain ⟨hcontract, hversion, hlease, -, hstatus⟩ := @endTurn_spec env
        { r.charge (max 0 report.tokens) (max 0 report.cost) with
          recoveryRequired := r.recoveryRequired || report.interrupted } now report
      have hactive : r.status.inactive = false := by
        rw [show r.status = .running from hrunning]
        rfl
      refine ⟨driven_of_active hactive hcontract ?_ (Nat.lt_succ_of_le hversion.ge), .inl hlease⟩
      rcases hstatus with hstatus | hstatus
      · exact .inl hstatus
      · exact .inr (.inr hstatus)
    · -- any other status stays
      exact unclaimed_of_status rfl rfl (Nat.le_succ _) (.inl rfl)
  · split
    · exact endTurn_spec.2.2.2.1
    · rfl

theorem finish_unclaimed {attempt : AttemptId} {report : Report} (hkeys : KeyUnique Goal.id s.goals)
    (h : s.finish env now goalId attempt report = .ok s') :
    Rewritten Unclaimed s.goals s'.goals := by
  rcases finish_spec h with rfl | ⟨r, hr, charged, goals, g, -, hcharged, hwoken, hg, -, hgoals, -⟩
  · exact .refl Unclaimed.refl s'.goals
  have hcharged := chargeParent_unclaimed hkeys hcharged
  have hwoken := (wakeBlocked_quiet (hcharged.keys_unclaimed hkeys) hwoken).unclaimed
  rw [hgoals]
  exact
    ((hcharged.trans_unclaimed hwoken).save_unclaimed hkeys hr hg).trans_unclaimed release_unclaimed

theorem finish_moves {attempt : AttemptId} {report : Report} (hkeys : KeyUnique Goal.id s.goals)
    (h : s.finish env now goalId attempt report = .ok s') : Rewritten Moves s.goals s'.goals :=
  (finish_unclaimed hkeys h).mono fun _ _ h => h.moves

theorem heartbeat_unclaimed {attempt : AttemptId} {usage : Option (Int × ℚ)} :
    Rewritten Unclaimed s.goals (s.heartbeat env now goalId attempt usage).goals :=
  rewritten_lease fun _ => .inl rfl

theorem heartbeat_moves {attempt : AttemptId} {usage : Option (Int × ℚ)} :
    Rewritten Moves s.goals (s.heartbeat env now goalId attempt usage).goals :=
  heartbeat_unclaimed.mono fun _ _ h => h.moves

theorem reserve_goals {attempt : AttemptId} {tokens : Int}
    (h : s.reserve env now goalId attempt tokens = .ok s') : s'.goals = s.goals := by
  unfold Store.reserve at h
  split at h
  · cases h
  split at h
  · cases h
  split at h
  · cases h
  split at h
  · cases h
    rfl
  · cases h

end GenusOs.Goals
