import GenusOs.Federation.Sync
import Mathlib

/-!
# The task lattice across deliveries

`resolveConflict` compares the status of a task event with the `current_status` that the event's
own payload names, not with the status this instance holds. A run of deliveries is therefore
non-decreasing exactly when no event exploits the difference: an event ranked below the status
held here must name a current status above its own.
-/

namespace GenusOs.Federation

open GenusOs.Python

/-- An event of a task on its way in, with the clock it carries and the two clock readings. -/
structure TaskDelivery where
  event : SyncEvent
  isTask : extractEntityType event.eventType = "task"
  remoteHlc : HLC
  nowMs : Int
  syncedAt : String

/-- `payload["status"]` in `TASK_STATUS_ORDER`; `none` where the lookup raises. -/
def SyncEvent.newOrder (e : SyncEvent) : Option Int :=
  statusRank (e.payload.get "status" (.str ""))

/-- `payload["current_status"]` in `TASK_STATUS_ORDER`. -/
def SyncEvent.currentOrder (e : SyncEvent) : Option Int :=
  statusRank (e.payload.get "current_status" (.str ""))

/-- The test `receive` applies to a task event. -/
def SyncEvent.advances (e : SyncEvent) : Bool :=
  match e.newOrder, e.currentOrder with
  | some new, some current => new ≥ current
  | _, _ => false

/-- A task event is accepted exactly when it advances on its own payload. -/
theorem TaskDelivery.receive_eq (d : TaskDelivery) (j : EventJournal) :
    (j.receive d.event d.remoteHlc d.nowMs d.syncedAt).2 =
        .accepted { d.event with syncedAt := some d.syncedAt } ∧ d.event.advances = true ∨
      (∀ e, (j.receive d.event d.remoteHlc d.nowMs d.syncedAt).2 ≠ .accepted e) ∧
        d.event.advances = false := by
  have htask : (entityConflictMap.lookup (extractEntityType d.event.eventType)).getD .appendOnly
      = .monotonicLattice := by
    rw [d.isTask]
    rfl
  rw [EventJournal.receive_eq, htask]
  simp only [resolveConflict, SyncEvent.advances, SyncEvent.newOrder, SyncEvent.currentOrder]
  cases statusRank (d.event.payload.get "status" (.str "")) with
  | none => simp
  | some new =>
    cases statusRank (d.event.payload.get "current_status" (.str "")) with
    | none => simp
    | some current =>
      by_cases h : current ≤ new
      · simp [h]
      · simp [h]

namespace EventJournal

/-- The task events a journal accepts, in the order of their delivery. -/
def receiveAll (self : EventJournal) : List TaskDelivery → List SyncEvent
  | [] => []
  | d :: ds =>
    let (self, received) := self.receive d.event d.remoteHlc d.nowMs d.syncedAt
    match received with
    | .accepted e => e :: self.receiveAll ds
    | _ => self.receiveAll ds

end EventJournal

/-- Both statuses have a rank, and the first is at most the second. -/
def SyncEvent.RankLE (a b : SyncEvent) : Prop :=
  ∃ m n, a.newOrder = some m ∧ b.newOrder = some n ∧ m ≤ n

/-- The ranks of accepted statuses never fall. -/
def NonDecreasing (accepted : List SyncEvent) : Prop := accepted.Pairwise SyncEvent.RankLE

/-- Where the event ranks below the status held here, its payload names a current status above
the event's own. -/
def NamesHeldStatus (held : Option Int) (e : SyncEvent) : Prop :=
  ∀ h new current, held = some h → e.newOrder = some new → e.currentOrder = some current →
    new < h → new < current

/-- Every delivery meets the condition against the status held when it arrives: the status of the
event accepted last. -/
def NamesHeldStatusThroughout : Option Int → List TaskDelivery → Prop
  | _, [] => True
  | held, d :: ds =>
    NamesHeldStatus held d.event ∧
      NamesHeldStatusThroughout (if d.event.advances then d.event.newOrder else held) ds

/-! ## One delivery -/

theorem SyncEvent.advances_iff {e : SyncEvent} :
    e.advances = true ↔
      ∃ new current, e.newOrder = some new ∧ e.currentOrder = some current ∧ current ≤ new := by
  unfold advances
  cases e.newOrder <;> cases e.currentOrder <;> simp

/-- An event that does not advance on its own payload meets the condition against any status. -/
theorem NamesHeldStatus.of_not_advances {e : SyncEvent} (h : e.advances = false)
    (held : Option Int) : NamesHeldStatus held e := by
  intro _ new current _ hnew hcurrent _
  by_contra hle
  have : e.advances = true := SyncEvent.advances_iff.mpr ⟨new, current, hnew, hcurrent, by omega⟩
  rw [h] at this
  cases this

/-- For an event that advances on its own payload the condition is that it does not fall below
the status held. -/
theorem namesHeldStatus_iff_of_advances {e : SyncEvent} {new : Int} (h : e.advances = true)
    (hnew : e.newOrder = some new) {held : Option Int} :
    NamesHeldStatus held e ↔ ∀ m, held = some m → m ≤ new := by
  obtain ⟨new', current, hnew', hcurrent, hle⟩ := SyncEvent.advances_iff.mp h
  rw [hnew] at hnew'
  cases hnew'
  constructor
  · intro hn m hm
    by_contra hlt
    have := hn m new current hm hnew hcurrent (by omega)
    omega
  · intro hn m new' _ hm hnew' _ hlt
    rw [hnew] at hnew'
    cases hnew'
    have := hn m hm
    omega

theorem EventJournal.receiveAll_cons (j : EventJournal) (d : TaskDelivery)
    (ds : List TaskDelivery) :
    ∃ j' : EventJournal, j.receiveAll (d :: ds) =
      if d.event.advances then { d.event with syncedAt := some d.syncedAt } :: j'.receiveAll ds
      else j'.receiveAll ds := by
  refine ⟨(j.receive d.event d.remoteHlc d.nowMs d.syncedAt).1, ?_⟩
  simp only [receiveAll]
  rcases d.receive_eq j with ⟨hr, ha⟩ | ⟨hr, ha⟩
  · simp [hr, ha]
  · rw [ha]
    simp only [Bool.false_eq_true, ↓reduceIte]

/-! ## A run of deliveries -/

/-- The induction: against the status `held`, the condition says that the accepted ranks do not
fall and start no lower than `held`. -/
theorem namesHeldStatusThroughout_iff (ds : List TaskDelivery) :
    ∀ (held : Option Int) (j : EventJournal),
      NamesHeldStatusThroughout held ds ↔
        NonDecreasing (j.receiveAll ds) ∧
          ∀ m, held = some m → ∀ e ∈ j.receiveAll ds, ∃ n, e.newOrder = some n ∧ m ≤ n := by
  induction ds with
  | nil => intro held j; simp [NamesHeldStatusThroughout, EventJournal.receiveAll, NonDecreasing]
  | cons d ds ih =>
    intro held j
    obtain ⟨j', hj⟩ := j.receiveAll_cons d ds
    rw [NamesHeldStatusThroughout, hj]
    cases ha : d.event.advances with
    | false =>
      simp only [Bool.false_eq_true, ↓reduceIte, NamesHeldStatus.of_not_advances ha, true_and]
      exact ih held j'
    | true =>
      obtain ⟨new, current, hnew, -, -⟩ := SyncEvent.advances_iff.mp ha
      have hnew' : SyncEvent.newOrder { d.event with syncedAt := some d.syncedAt } = some new :=
        hnew
      simp only [↓reduceIte, namesHeldStatus_iff_of_advances ha hnew, hnew, ih (some new) j',
        NonDecreasing, List.pairwise_cons, SyncEvent.RankLE, hnew', Option.some.injEq,
        exists_and_left, exists_eq_left', List.mem_cons, forall_eq', forall_eq_or_imp]
      constructor
      · rintro ⟨hheld, hsorted, hrest⟩
        refine ⟨⟨hrest, hsorted⟩, fun m hm => ⟨hheld m hm, fun e he => ?_⟩⟩
        obtain ⟨n, hn, hle⟩ := hrest e he
        exact ⟨n, hn, (hheld m hm).trans hle⟩
      · rintro ⟨⟨hrest, hsorted⟩, hheld⟩
        exact ⟨fun m hm => (hheld m hm).1, hsorted, hrest⟩

/-- **Exactly when task statuses do not regress.** The accepted statuses of a run are
non-decreasing if and only if every delivered event that ranks below the status held here names,
in its own payload, a current status above its own. -/
theorem accepted_nonDecreasing_iff (j : EventJournal) (ds : List TaskDelivery) :
    NonDecreasing (j.receiveAll ds) ↔ NamesHeldStatusThroughout none ds := by
  rw [namesHeldStatusThroughout_iff ds none j]
  simp

/-- A finished task, then a late event from before it started: both are accepted. -/
def lateReopening : List TaskDelivery :=
  [{ event :=
      { connectionId := "c1", eventType := "task.updated"
        payload := [("id", .str "t1"), ("status", .str "done"),
          ("current_status", .str "in_progress")] }
     isTask := by decide
     remoteHlc := { wallMs := 2, instanceId := "b" }, nowMs := 10, syncedAt := "" },
   { event :=
      { connectionId := "c1", eventType := "task.created"
        payload := [("id", .str "t1"), ("status", .str "open")] }
     isTask := by decide
     remoteHlc := { wallMs := 1, instanceId := "b" }, nowMs := 11, syncedAt := "" }]

theorem task_status_regresses :
    ¬ ∀ (j : EventJournal) (ds : List TaskDelivery), NonDecreasing (j.receiveAll ds) := by
  intro h
  have hrun := (namesHeldStatusThroughout_iff lateReopening none (.new "a")).mpr
    ⟨h (.new "a") lateReopening, by simp⟩
  have hlate := hrun.2.1 2 0 (-1)
  revert hlate
  decide

end GenusOs.Federation
