import GenusOs.Goals.Review
import GenusOs.Library.Cut
import Mathlib

/-!
# The bus and the inbox

Events are published on streams. `capture` reads the streams one after the other, in one transaction
that locks the settings row, and copies the events of the types that goals wait for into the inbox;
goals move and events are published in between. The program that publishes and trims the streams is
the environment.
-/

namespace GenusOs.Goals

open Rows

/-- The id of an entry of a stream: milliseconds and a number. -/
abbrev EntryId := ℕ ×ₗ ℕ

/-- What is read of the fields of an entry; each may be missing. -/
structure Envelope where
  tenantId : Option String
  eventType : String
  /-- The instant, where it has a timezone. -/
  timestamp : Option Nat
  /-- The payload, where it is an object. -/
  payload : Option (List (String × String))
  deriving DecidableEq, Repr

/-- An entry of a stream. -/
structure Entry where
  id : EntryId
  envelope : Envelope
  deriving DecidableEq

/-- A stream, with what has been trimmed: `gone` is not read any more, and kept for the
statements. -/
structure Stream where
  gone : List Entry := []
  live : List Entry := []
  deriving DecidableEq

/-- All that has been published. -/
def Stream.entries (s : Stream) : List Entry := s.gone ++ s.live

/-- `f"{stream}:{event_id}"` -/
def rowId (stream : String) (id : EntryId) : String :=
  stream ++ ":" ++ toString (ofLex id).1 ++ "-" ++ toString (ofLex id).2

/-- `int(row['updated_at'].timestamp() * 1000)`, of microseconds. -/
def startOf (updatedAt : Nat) : EntryId := toLex (updatedAt / 1000, 0)

/-- `cursors.get(stream, …)` -/
def cursorOf (updatedAt : Nat) (cursors : String → Option EntryId) (stream : String) : EntryId :=
  (cursors stream).getD (startOf updatedAt)

/-- `xrange(…, min="(" + cursor, max="+", count=1000)`: the oldest thousand entries behind the
cursor. -/
def Stream.xrange (s : Stream) (cursor : EntryId) : List Entry :=
  (s.live.filter (cursor < ·.id)).take 1000

/-- `cursors[stream] = event_id`, after each entry, so that malformed entries are passed over
too. -/
def advance (cursors : String → Option EntryId) (stream : String) (entries : List Entry) :
    String → Option EntryId :=
  match entries.getLast? with
  | some last => Function.update cursors stream (some last.id)
  | none => cursors

/-- The event of an entry, for a tenant; `none` where it is not the tenant's or malformed. -/
def Entry.event (tenant stream : String) (entry : Entry) : Option Event :=
  if entry.envelope.tenantId = some tenant then
    match entry.envelope.payload, entry.envelope.timestamp with
    | some payload, some createdAt =>
      some
        { id := rowId stream entry.id, eventType := entry.envelope.eventType, payload, createdAt }
    | _, _ => none
  else none

/-- `SELECT DISTINCT data->'wait'->>'event_type'` of the waiting goals. -/
def awaitedTypes (goals : List Goal) : List String :=
  (goals.filter (·.status = .waiting)).filterMap fun g => g.wait.bind (·.eventType)

/-- A `capture` that has not committed yet: the streams that are still to be read, the types that
goals waited for when it began, and its cursors and rows. -/
structure Capture where
  awaited : List String
  /-- The streams that are left. -/
  todo : List String
  cursors : String → Option EntryId
  rows : List Event := []

/-- The streams, the settings row and the other tables, with the open capture if there is one. -/
structure Bus where
  store : Store := {}
  streams : String → Stream := fun _ => {}
  cursors : String → Option EntryId := fun _ => none
  updatedAt : Nat := 0
  capture : Option Capture := none

namespace Bus

variable (env : Env) (tenant : String) (validStreams : Finset String) (b : Bus)

/-- The cursor of a stream, as the settings row has it. -/
def cursor (stream : String) : EntryId := cursorOf b.updatedAt b.cursors stream

/-- The cursor of a stream, as the open capture has it. -/
def reading (stream : String) : EntryId :=
  cursorOf b.updatedAt ((b.capture.map (·.cursors)).getD b.cursors) stream

/-- A transaction on the goals. `set_enabled` writes the settings row, and waits for an open
capture. -/
def transact (now : Nat) (op : Op) : Except String Bus :=
  match op with
  | .setEnabled _ =>
    if b.capture.isSome then .error "locked"
    else (b.store.transact env now op).map fun store => { b with store, updatedAt := now }
  | _ => (b.store.transact env now op).map fun store => { b with store }

/-- `xadd`: the ids of a stream go up. -/
def publish (stream : String) (entry : Entry) : Except String Bus :=
  if (b.streams stream).entries.any (entry.id ≤ ·.id) then
    .error "equal or smaller than the top item"
  else
    let extended := { b.streams stream with live := (b.streams stream).live ++ [entry] }
    .ok { b with streams := Function.update b.streams stream extended }

/-- The oldest entries of a stream go. -/
def trim (stream : String) (count : Nat) : Bus :=
  let trimmed : Stream :=
    { gone := (b.streams stream).gone ++ (b.streams stream).live.take count
      live := (b.streams stream).live.drop count }
  { b with streams := Function.update b.streams stream trimmed }

/-- The head of `capture`: the settings row is locked, and the types that goals wait for are
read. -/
def beginCapture : Except String Bus :=
  if b.capture.isSome then .error "locked"
  else if !b.store.enabled then .ok b
  else
    let opened : Capture :=
      { awaited := awaitedTypes b.store.goals, todo := validStreams.sort, cursors := b.cursors }
    .ok { b with capture := some opened }

/-- The loop of `capture`, for the next stream: the entries behind its cursor are read, and those of
the types are copied. -/
def captureStream : Except String Bus :=
  match b.capture with
  | none => .error "no capture"
  | some c =>
    match c.todo with
    | [] => .error "no stream"
    | stream :: todo =>
      let entries := (b.streams stream).xrange (cursorOf b.updatedAt c.cursors stream)
      .ok { b with capture := some { c with
        todo
        cursors := advance c.cursors stream entries
        rows := c.rows ++ (entries.filter (·.envelope.eventType ∈ c.awaited)).filterMap
          (Entry.event tenant stream) } }

/-- The end of `capture`: the rows and the cursors commit together. -/
def commitCapture : Except String Bus :=
  match b.capture with
  | none => .error "no capture"
  | some c =>
    if c.todo ≠ [] then .error "streams left"
    else .ok { b with
      store := { b.store with events := c.rows.foldl (insertNew Event.id) b.store.events }
      cursors := c.cursors
      capture := none }

end Bus

/-- What may happen to the bus, in any order. -/
inductive BusOp
  | goals (op : Op)
  | publish (stream : String) (entry : Entry)
  | trim (stream : String) (count : Nat)
  | beginCapture
  | captureStream
  | commitCapture
  /-- Redis or the database fails. -/
  | abortCapture

/-- A step. A capture goes on where one is open; an error leaves everything as it was. -/
def Bus.step (env : Env) (tenant : String) (validStreams : Finset String) (b : Bus) (now : Nat) :
    BusOp → Except String Bus
  | .goals op => b.transact env now op
  | .publish stream entry => b.publish stream entry
  | .trim stream count => .ok (b.trim stream count)
  | .beginCapture => b.beginCapture validStreams
  | .captureStream => b.captureStream tenant
  | .commitCapture => b.commitCapture
  | .abortCapture => .ok { b with capture := none }

/-- Any interleaving, from no goals, no events and no settings. -/
def bus (env : Env) (tenant : String) (validStreams : Finset String) :
    System Bus (Nat × BusOp) where
  init b := b = {}
  step b op b' := b.step env tenant validStreams op.1 op.2 = .ok b'

variable {tenant stream stream' : String} {id id' : EntryId}
    {entry entry' : Entry} {e : Event} {s : Stream}
  {cursor : EntryId}

/-! ## Entries and rows -/

end GenusOs.Goals
