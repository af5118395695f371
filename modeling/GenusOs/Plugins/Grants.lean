import GenusOs.Library.Run
import Mathlib

/-!
# Plugin grants

`forced_states` for one tenant, called by any number of threads, and what it falls back on: the
cache of a generation, the last good read and the persisted file, which outlives the process. A step
is a read of the cache, the database or the file, a section under `_lock`, or the persisting of a
read. A successful read carries its place in the order in which they were issued.

The table's key and its constraint leave one state a plugin, and `set_grant` writes canonical names.
-/

namespace GenusOs.Plugins.RootGrants

inductive Forced
  | on
  | off
  deriving DecidableEq

/-- `{plugin: "on" | "off"}`. -/
abbrev Grants := List (String × Forced)

def Grants.off (g : Grants) (plugin : String) : Prop := List.lookup plugin g = some .off

def Grants.on (g : Grants) (plugin : String) : Prop := List.lookup plugin g = some .on

/-- `{n: "off" for n, state in remembered.items() if state == "off"}`. -/
def Grants.kept (g : Grants) : Grants := g.filter (·.2 = .off)

/-- `g` has every refusal of `h`. -/
def Grants.Covers (g h : Grants) : Prop := ∀ plugin, h.off plugin → g.off plugin

/-- A successful read. -/
structure Read where
  index : Nat
  grants : Grants
  deriving DecidableEq

/-- Where a call of `forced_states` is. The generation is the one it has read. -/
inductive Phase
  | fresh
  | begun (gen : Nat)
  /-- The cache had no answer. -/
  | asking (gen : Nat)
  | succeeded (gen : Nat) (read : Read)
  /-- Grants are readable again, and the registries are to be rebuilt. -/
  | reloading (read : Read)
  | storing (gen : Nat) (read : Read)
  | persisting (read : Read)
  | failed (gen : Nat)
  /-- Nothing in memory: the file is looked at. -/
  | loading (gen : Nat)
  /-- What is remembered, and which read was stored when `_last_good` was looked at. -/
  | keeping (gen : Nat) (remembered : Option Grants) (seen : Option Nat)
  /-- The read had succeeded. -/
  | answered (grants : Grants)
  | cached (grants : Grants)
  /-- The read had failed. -/
  | fellBack (gen : Nat) (grants : Grants)
  | killed
  deriving DecidableEq

structure State where
  /-- The rows of the tenant. -/
  table : Grants := []
  /-- The persisted grants. -/
  file : Option Grants := none
  generation : Nat := 0
  cache : Option (Nat × Grants) := none
  lastGood : Option Grants := none
  unknownSinceFailure : Bool := false
  calls : Nat → Phase := fun _ => .fresh
  /-- The successful reads, oldest first. -/
  reads : List Grants := []
  /-- The reads that `_last_good` and the file are from. -/
  stored : Option Nat := none
  persisted : Option Nat := none
  /-- How many successful reads there were when a call began. -/
  due : Nat → Nat := fun _ => 0

namespace State

def setCall (s : State) (c : Nat) (phase : Phase) : State :=
  { s with calls := Function.update s.calls c phase }

/-- `gen = generation()`. -/
def begin (s : State) (c : Nat) : State :=
  { s.setCall c (.begun s.generation) with due := Function.update s.due c s.reads.length }

/-- The cache under `_lock`. -/
def check (s : State) (c gen : Nat) : State :=
  match s.cache with
  | some (cachedGen, grants) =>
    if cachedGen = gen then s.setCall c (.cached grants) else s.setCall c (.asking gen)
  | none => s.setCall c (.asking gen)

/-- `_read(tenant)`. -/
def read (s : State) (c gen : Nat) (ok : Bool) : State :=
  if ok then
    { s.setCall c (.succeeded gen ⟨s.reads.length, s.table⟩) with reads := s.reads ++ [s.table] }
  else s.setCall c (.failed gen)

/-- The section that takes the tenant out of `_unknown_since_failure`. -/
def recover (s : State) (c gen : Nat) (read : Read) : State :=
  let recovering := s.unknownSinceFailure
  { s.setCall c
      (if recovering ∧ read.grants.any (·.2 = .off) then .reloading read
        else .storing gen read) with
    unknownSinceFailure := false }

/-- `gen = reload_plugins()`. -/
def reload (s : State) (c : Nat) (read : Read) : State :=
  { s.setCall c (.storing (s.generation + 1) read) with generation := s.generation + 1 }

/-- The section that stores a successful read. -/
def store (s : State) (c gen : Nat) (read : Read) : State :=
  { s.setCall c (.persisting read) with
    lastGood := some read.grants
    cache := some (gen, read.grants)
    stored := some read.index }

/-- `_persist`: nothing is written while there is nothing forced and no file. -/
def persist (s : State) (c : Nat) (read : Read) : State :=
  { s.setCall c (.answered read.grants) with
    file := if read.grants.isEmpty ∧ s.file = none then none else some read.grants
    persisted := some read.index }

/-- The section that looks at `_last_good` after a failed read. -/
def remember (s : State) (c gen : Nat) : State :=
  match s.lastGood with
  | some grants => s.setCall c (.keeping gen (some grants) s.stored)
  | none => s.setCall c (.loading gen)

/-- `_load_persisted`. -/
def load (s : State) (c gen : Nat) : State := s.setCall c (.keeping gen s.file none)

/-- The last section of a call whose read failed. -/
def keep (s : State) (c gen : Nat) (remembered : Option Grants) : State :=
  let kept := Grants.kept (remembered.getD [])
  match remembered with
  | some _ => { s.setCall c (.fellBack gen kept) with cache := some (gen, kept) }
  | none => { s.setCall c (.fellBack gen kept) with unknownSinceFailure := true }

/-- The process ends and starts again: the table and the file are left. -/
def restart (s : State) : State :=
  { table := s.table
    file := s.file
    calls := fun c => if s.calls c = .fresh then .fresh else .killed
    reads := s.reads
    persisted := s.persisted }

end State

/-! ## The steps -/

inductive Act
  | begin (c : Nat)
  /-- The next step of a call; `ok` says if a read of the database succeeds. -/
  | next (c : Nat) (ok : Bool)
  /-- Grants are set or cleared. -/
  | grant (table : Grants)
  /-- Another reload of the plugins. -/
  | bump
  | restart

def State.next (s : State) (c : Nat) (ok : Bool) : Option State :=
  match s.calls c with
  | .begun gen => some (s.check c gen)
  | .asking gen => some (s.read c gen ok)
  | .succeeded gen read => some (s.recover c gen read)
  | .reloading read => some (s.reload c read)
  | .storing gen read => some (s.store c gen read)
  | .persisting read => some (s.persist c read)
  | .failed gen => some (s.remember c gen)
  | .loading gen => some (s.load c gen)
  | .keeping gen remembered _ => some (s.keep c gen remembered)
  | _ => none

def step (s : State) : Act → Option State
  | .begin c => if s.calls c = .fresh then some (s.begin c) else none
  | .next c ok => s.next c ok
  | .grant table => some { s with table := table }
  | .bump => some { s with generation := s.generation + 1 }
  | .restart => some s.restart

/-- The first process starts: nothing was read yet, and no file was written. -/
def forcedStates : System State Act := .ofStep (fun s => ∃ table, s = { table }) step

/-! ## The law -/

/-- The most recently issued successful read that was there when the call began. -/
def State.dueRead (s : State) (c : Nat) : Grants := (s.reads[s.due c - 1]?).getD []

/-- What a step may answer. -/
structure Lawful (s t : State) : Prop where
  /-- A call whose read failed returns what was refused at the read due to it, and no `on`. -/
  refuses : ∀ c gen g, s.calls c ≠ .fellBack gen g → t.calls c = .fellBack gen g →
    (0 < s.due c → g.Covers (s.dueRead c)) ∧ ∀ plugin, ¬ g.on plugin
  /-- A call that is served from the cache does not drop what was refused at the read due to a
  failed one of its generation. -/
  serves : ∀ c g gen d h, s.calls c = .begun gen → t.calls c = .cached g →
    s.calls d = .fellBack gen h → 0 < s.due d → g.Covers (s.dueRead d)

/-! ## The order that is needed -/

/-- The read that an outage would fall back on. -/
def State.base (s : State) : Option Nat := s.stored.or s.persisted

/-- A call holds the read and has not stored it. -/
def Phase.pending : Phase → Option Read
  | .succeeded _ read | .reloading read | .storing _ read => some read
  | _ => none

/-- No read from after the one due to the call has taken a refusal of it away. -/
def State.LiftsNone (s : State) (c : Nat) : Prop :=
  0 < s.due c → ∀ i ∈ s.base, s.due c ≤ i → Grants.Covers ((s.reads[i]?).getD []) (s.dueRead c)

/-- **The steps at which no older read comes late**: reads are stored and persisted in the order in
which they were issued; when a call falls back, every read from before it is stored, and none is
stored until it has its answer in the cache; no later read has taken a refusal away when a call
falls back or a call of its generation looks at the cache; and a process does not end between a read
and its persisting. -/
def Calm (s : State) : Act → Prop
  | .next c _ =>
    match s.calls c with
    | .begun gen => ∀ d h, s.calls d = .fellBack gen h → s.LiftsNone d
    | .storing _ read => ∀ i ∈ s.base, i < read.index
    | .persisting read => ∀ i ∈ s.persisted, i < read.index
    | .failed _ | .loading _ =>
      (∀ d read, (s.calls d).pending = some read → s.due c ≤ read.index) ∧ s.LiftsNone c
    | .keeping _ _ seen => s.stored = seen
    | _ => True
  | .restart => s.reads = [] ∨ s.persisted = some (s.reads.length - 1)
  | _ => True

end GenusOs.Plugins.RootGrants
