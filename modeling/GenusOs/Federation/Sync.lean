import GenusOs.Federation.Models

/-!
# The event journal: `append`, `receive` and conflict resolution

The journal's own state is its clock. Writing the event to the database is best effort in the
source (a failure is logged and swallowed) and decides nothing here.
-/

namespace GenusOs.Federation

open GenusOs.Python

/-! ## Conflict resolution -/

/-- `"task.created"` gives `"task"`: the part in front of the first dot. -/
def extractEntityType (eventType : String) : String :=
  if '.' ∈ eventType.toList then
    String.ofList (eventType.toList.takeWhile (· ≠ '.'))
  else eventType

/-- `TASK_STATUS_ORDER.get(value, -1)`. A list or a dict is unhashable, so the lookup raises. -/
def statusRank : Json → Option Int
  | .str s => some ((taskStatusOrder.lookup s).getD (-1))
  | v => if v.hashable then some (-1) else none

/-- Whether the event is accepted; `none` is a `TypeError`. -/
def resolveConflict (strategy : ConflictStrategy) (event : SyncEvent) : Option Bool :=
  match strategy with
  | .noConflict => some true
  | .appendOnly => some true
  | .additiveMerge =>
    match event.payload.get "action" (.str "") with
    | .str action => some (action ∈ ["create", "deactivate", "add"])
    | _ => some false
  | .monotonicLattice => do
    let newOrder ← statusRank (event.payload.get "status" (.str ""))
    let currentOrder ← statusRank (event.payload.get "current_status" (.str ""))
    return newOrder ≥ currentOrder
  | .authority => some true

/-! ## The journal -/

/-- What a call of `receive` did. -/
inductive Received
  | accepted (event : SyncEvent)
  | rejected
  | raised

/-- Append-only event journal of one instance. -/
structure EventJournal where
  instanceId : String
  clock : HLC

namespace EventJournal

/-- A journal whose clock has not moved. -/
def new (instanceId : String) : EventJournal :=
  { instanceId, clock := { instanceId } }

/-- Append a local event. `nowMs` is the wall clock, `createdAt` the creation time it stores. -/
def append (self : EventJournal) (connectionId : String) (channel : SyncChannel)
    (eventType : String) (payload : Dict) (nowMs : Int) (createdAt : String) :
    EventJournal × SyncEvent :=
  let clock := self.clock.tick nowMs
  ({ self with clock },
    { connectionId, channel, eventType, payload, hlcTimestamp := clock.toString, createdAt })

/-- Process an event received from a peer. The clocks are merged first, also for an event that
conflict resolution then rejects. -/
def receive (self : EventJournal) (remoteEvent : SyncEvent) (remoteHlc : HLC) (nowMs : Int)
    (syncedAt : String) : EventJournal × Received :=
  let self := { self with clock := self.clock.merge remoteHlc nowMs }
  let entityType := extractEntityType remoteEvent.eventType
  let strategy := (entityConflictMap.lookup entityType).getD .appendOnly
  match resolveConflict strategy remoteEvent with
  | none => (self, .raised)
  | some false => (self, .rejected)
  | some true => (self, .accepted { remoteEvent with syncedAt := some syncedAt })

@[simp] theorem append_clock (j : EventJournal) (cid : String) (ch : SyncChannel) (et : String)
    (p : Dict) (nowMs : Int) (at_ : String) :
    (j.append cid ch et p nowMs at_).1.clock = j.clock.tick nowMs := rfl

@[simp] theorem append_hlcTimestamp (j : EventJournal) (cid : String) (ch : SyncChannel)
    (et : String) (p : Dict) (nowMs : Int) (at_ : String) :
    (j.append cid ch et p nowMs at_).2.hlcTimestamp = (j.clock.tick nowMs).toString := rfl

@[simp] theorem receive_clock (j : EventJournal) (e : SyncEvent) (r : HLC) (nowMs : Int)
    (at_ : String) : (j.receive e r nowMs at_).1.clock = j.clock.merge r nowMs := by
  unfold receive
  dsimp only
  split <;> rfl

/-- What `receive` answers is decided by the event alone. -/
theorem receive_eq (j : EventJournal) (e : SyncEvent) (r : HLC) (nowMs : Int) (at_ : String) :
    (j.receive e r nowMs at_).2 =
      match resolveConflict
          ((entityConflictMap.lookup (extractEntityType e.eventType)).getD .appendOnly) e with
      | none => .raised
      | some false => .rejected
      | some true => .accepted { e with syncedAt := some at_ } := by
  unfold receive
  dsimp only
  split <;> rfl

end EventJournal

end GenusOs.Federation
