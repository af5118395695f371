import GenusOs.Library.Run
import Mathlib

/-!
# Execution lanes

`ExecutionLanes` of the engine at the grain of its lock sections: between two of them any other
acquirer may run. Each call of `acquire` is an `Acquirer`; the event loop's part in the hand-over
(a future resolved by a scheduled callback, a cancellation that reaches the task before or after
it) are steps of their own.

A lane's `arrivals` and `served` are history: the calls in the order they reached `acquire`'s lock
section, and in the order they were given a slot.
-/

namespace GenusOs.Engine

inductive Lane
  | interactive
  | background
  | hooks
  deriving DecidableEq, Repr

/-- The future a waiter awaits. -/
inductive FutureState
  | pending
  | resolved
  | cancelled
  deriving DecidableEq, Repr

/-- Where a call of `acquire` stands, up to the `release` of its slot. -/
inductive Phase
  /-- A background call before `_yield_to_interactive`. -/
  | asked
  /-- Waiting in `_yield_to_interactive`. -/
  | yielding
  /-- Before `acquire`'s lock section. -/
  | entering
  /-- Suspended at `await fut`. -/
  | awaiting
  /-- Cancelled with a slot in hand: past the handler's lock section, before its `release`. -/
  | passing
  | holding
  | done
  deriving DecidableEq, Repr

structure Acquirer where
  phase : Phase
  fut : FutureState := .pending
  /-- `call_soon_threadsafe(_resolve, fut)` is in the loop's queue. -/
  scheduled : Bool := false
  /-- The task is to be sent a `CancelledError` when it runs next. -/
  mustCancel : Bool := false
  deriving DecidableEq, Repr

/-- Its `await fut` raises `CancelledError`. -/
def Acquirer.raises (c : Acquirer) : Bool :=
  c.fut == .cancelled || (c.fut == .resolved && c.mustCancel)

/-- Its `await fut` returns. -/
def Acquirer.returns (c : Acquirer) : Bool := c.fut == .resolved && !c.mustCancel

/-- `_LaneState`. -/
structure LaneState where
  limit : Nat
  active : Nat := 0
  waiters : List Nat := []
  handed : Finset Nat := ∅
  yielding : Nat := 0

/-- `_LaneState(limit, uncapped_at_zero=...)`. -/
def LaneState.new (limit : Int) (uncappedAtZero : Bool) : LaneState where
  limit := (max (if uncappedAtZero then 0 else 1) limit).toNat

def LaneState.hasRoom (st : LaneState) : Bool := st.limit == 0 || st.active < st.limit

/-- A lane, the calls of `acquire` made on it and its history. -/
structure LaneTraffic where
  st : LaneState
  acquirers : List Acquirer := []
  arrivals : List Nat := []
  served : List Nat := []

namespace LaneTraffic

variable (t : LaneTraffic)

/-- `fut.done()`. -/
def futDone (i : Nat) : Bool :=
  match t.acquirers[i]? with
  | some c => c.fut != .pending
  | none => false

def setAcquirer (i : Nat) (c : Acquirer) : LaneTraffic :=
  { t with acquirers := t.acquirers.set i c }

/-- The lock section of `acquire`, for a call with no slot yet. -/
def enter (i : Nat) : LaneTraffic :=
  if t.st.hasRoom && t.st.waiters.isEmpty then
    { t.setAcquirer i { phase := .holding } with
      st := { t.st with active := t.st.active + 1 }
      arrivals := t.arrivals ++ [i]
      served := t.served ++ [i] }
  else
    { t.setAcquirer i { phase := .awaiting } with
      st := { t.st with waiters := t.st.waiters ++ [i] }
      arrivals := t.arrivals ++ [i] }

/-- The loop of `_hand_over_locked`: the first waiter that is not done, and those behind it. -/
def popLive (done : Nat → Bool) : List Nat → Option Nat × List Nat
  | [] => (none, [])
  | fut :: waiters => if done fut then popLive done waiters else (some fut, waiters)

/-- `call_soon_threadsafe(_resolve, fut)`. -/
def scheduleResolve (acquirers : List Acquirer) (i : Nat) : List Acquirer :=
  acquirers.modify i ({ · with scheduled := true })

/-- The lock section of `release`, less the notification of yielding calls. -/
def release : LaneTraffic :=
  match popLive t.futDone t.st.waiters with
  | (some fut, waiters) =>
    { t with
      st := { t.st with waiters := waiters, handed := insert fut t.st.handed }
      acquirers := scheduleResolve t.acquirers fut
      served := t.served ++ [fut] }
  | (none, waiters) => { t with st := { t.st with waiters := waiters, active := t.st.active - 1 } }

/-- `_resolve`, run by the event loop. -/
def resolve (i : Nat) (c : Acquirer) : LaneTraffic :=
  t.setAcquirer i { c with
    scheduled := false
    fut := if c.fut = .pending then .resolved else c.fut }

/-- `task.cancel()` on a call suspended at `await fut`: it cancels a pending future, and reaches
the task itself where the future is already resolved. -/
def cancel (i : Nat) (c : Acquirer) : LaneTraffic :=
  match c.fut with
  | .pending => t.setAcquirer i { c with fut := .cancelled }
  | .resolved => t.setAcquirer i { c with mustCancel := true }
  | .cancelled => t

/-- `await fut` returned: `acquire`'s last lock section. -/
def resume (i : Nat) (c : Acquirer) : LaneTraffic :=
  { t.setAcquirer i { c with phase := .holding } with
    st := { t.st with handed := t.st.handed.erase i } }

/-- The lock section of `acquire`'s `except asyncio.CancelledError`. -/
def unwind (i : Nat) (c : Acquirer) : LaneTraffic :=
  { t.setAcquirer i { c with phase := if i ∈ t.st.handed then .passing else .done } with
    st := { t.st with
      handed := t.st.handed.erase i
      waiters := t.st.waiters.erase i } }

/-- The call's slot is given back: by its handler (`passing`) or by the run (`holding`). -/
def giveBack (i : Nat) (c : Acquirer) : LaneTraffic :=
  (t.setAcquirer i { c with phase := .done }).release

end LaneTraffic

/-! ## The lanes together -/

structure ExecutionLanes where
  lanes : Lane → LaneTraffic
  yieldMs : Nat
  interactiveClear : List Nat := []

/-- One lock section, one callback of the event loop or one cancellation, by the call it is of. -/
inductive Action
  | acquire (lane : Lane)
  | yieldToInteractive (i : Nat)
  | stopYielding (i : Nat) (cancelled : Bool)
  | enter (lane : Lane) (i : Nat)
  | resolve (lane : Lane) (i : Nat)
  | cancel (lane : Lane) (i : Nat)
  | resume (lane : Lane) (i : Nat)
  | unwind (lane : Lane) (i : Nat)
  | passOn (lane : Lane) (i : Nat)
  | release (lane : Lane) (i : Nat)
  deriving DecidableEq, Repr

/-- The call an action is of; a new call has no number yet. -/
def Action.call : Action → Option Nat
  | .acquire _ => none
  | .yieldToInteractive i | .stopYielding i _ | .enter _ i | .resolve _ i | .cancel _ i
  | .resume _ i | .unwind _ i | .passOn _ i | .release _ i => some i

namespace ExecutionLanes

/-- `ExecutionLanes(interactive_limit, background_limit, yield_ms, hooks_limit)`. -/
def new (interactiveLimit backgroundLimit yieldMs hooksLimit : Int) : ExecutionLanes where
  lanes
    | .interactive => { st := .new interactiveLimit true }
    | .background => { st := .new backgroundLimit false }
    | .hooks => { st := .new hooksLimit false }
  yieldMs := yieldMs.toNat

variable (w : ExecutionLanes)

def setLane (lane : Lane) (t : LaneTraffic) : ExecutionLanes :=
  { w with lanes := Function.update w.lanes lane t }

/-- `f` at call `i` of `lane`, where it stands as `guard` says. -/
def atAcquirer (lane : Lane) (i : Nat) (guard : Acquirer → Bool)
    (f : LaneTraffic → Nat → Acquirer → LaneTraffic) : Option ExecutionLanes :=
  match (w.lanes lane).acquirers[i]? with
  | some c => if guard c then some (w.setLane lane (f (w.lanes lane) i c)) else none
  | none => none

/-- `_notify_interactive_clear_locked`: every yielding call is woken once no interactive turn
waits. A woken call, like one whose time is up, may stop yielding at any moment. -/
def notifyInteractiveClear : ExecutionLanes :=
  if (w.lanes .interactive).st.waiters.isEmpty then { w with interactiveClear := [] } else w

def notifyAfter (lane : Lane) : ExecutionLanes :=
  if lane = .interactive then w.notifyInteractiveClear else w

/-- The first lock section of `_yield_to_interactive`. -/
def yieldToInteractive (i : Nat) : Option ExecutionLanes :=
  if w.yieldMs = 0 || (w.lanes .interactive).st.waiters.isEmpty then
    w.atAcquirer .background i (·.phase = .asked)
      fun t i c => t.setAcquirer i { c with phase := .entering }
  else
    (w.atAcquirer .background i (·.phase = .asked)
      fun t i c => { t.setAcquirer i { c with phase := .yielding } with
        st := { t.st with yielding := t.st.yielding + 1 } }).map
      fun w => { w with interactiveClear := w.interactiveClear ++ [i] }

/-- The `finally` of `_yield_to_interactive`; a cancelled call never reaches the lane. -/
def stopYielding (i : Nat) (cancelled : Bool) : Option ExecutionLanes :=
  (w.atAcquirer .background i (·.phase = .yielding)
    fun t i c => { t.setAcquirer i { c with phase := if cancelled then .done else .entering } with
      st := { t.st with yielding := t.st.yielding - 1 } }).map
    fun w => { w with interactiveClear := w.interactiveClear.erase i }

/-- The handler's lock section; the yielding calls are told where the call was still queued. -/
def unwind (lane : Lane) (i : Nat) : Option ExecutionLanes :=
  (w.atAcquirer lane i (fun c => c.phase = .awaiting && c.raises) LaneTraffic.unwind).map
    fun w' => if i ∈ (w.lanes lane).st.waiters then w'.notifyAfter lane else w'

def step : Action → Option ExecutionLanes
  | .acquire lane =>
    some (w.setLane lane { w.lanes lane with acquirers := (w.lanes lane).acquirers ++
      [{ phase := if lane = .background then .asked else .entering }] })
  | .yieldToInteractive i => w.yieldToInteractive i
  | .stopYielding i cancelled => w.stopYielding i cancelled
  | .enter lane i => w.atAcquirer lane i (·.phase = .entering) fun t i _ => t.enter i
  | .resolve lane i => w.atAcquirer lane i (·.scheduled) LaneTraffic.resolve
  | .cancel lane i => w.atAcquirer lane i (·.phase = .awaiting) LaneTraffic.cancel
  | .resume lane i =>
    w.atAcquirer lane i (fun c => c.phase = .awaiting && c.returns) LaneTraffic.resume
  | .unwind lane i => w.unwind lane i
  | .passOn lane i =>
    (w.atAcquirer lane i (·.phase = .passing) LaneTraffic.giveBack).map (·.notifyAfter lane)
  | .release lane i =>
    (w.atAcquirer lane i (·.phase = .holding) LaneTraffic.giveBack).map (·.notifyAfter lane)

end ExecutionLanes

/-- Lanes of the given limits under any interleaving of the calls made on them. -/
def laneSystem (interactiveLimit backgroundLimit yieldMs hooksLimit : Int) :
    System ExecutionLanes Action :=
  .ofStep (· = .new interactiveLimit backgroundLimit yieldMs hooksLimit) ExecutionLanes.step

end GenusOs.Engine
