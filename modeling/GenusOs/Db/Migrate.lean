import GenusOs.Db.Ledger
import GenusOs.Library.Run
import Mathlib

/-!
# The runner of the migrations

Any number of releases migrate one database. A run holds the advisory lock of its session from its
start to its end or death, and commits several transactions: what it reconciles, what it adopts, and
each migration with its row. What the SQL of a migration, and everybody else, does to the schema and
to the legacy table is arbitrary; nobody else writes the ledger.
-/

namespace GenusOs.Db

open Python

/-- What is not the ledger's: the legacy table, and whether `memory_facts` is there, by which the
runner tells a schema that is not empty. Everybody may change it at any time. -/
structure World where
  legacy : Option (List LegacyRow) := none
  baseline : Bool := false
  deriving DecidableEq, Repr

/-- A call of `status` or `apply`, once the release is discovered. -/
structure Call (sha256 : String → String) where
  release : Release sha256
  applies : Bool := true
  selector : Option String := none
  adoptBaseline : Bool := false
  adoptThrough : Option String := none

/-- What a run answers with. -/
inductive Answer
  | status (rows : List StatusRow)
  | applied (ids : List String)
  deriving DecidableEq, Repr

/-- What is left to do: the history is to be prepared, the run is to decide what it executes, or it
is executing. A run commits at the end of each phase, and may die between any two. -/
inductive Phase
  | prepare
  | decide
  | apply (todo : List Migration) (done : List String)
  deriving DecidableEq

/-- A database, and the run that holds its lock. `executed` and `answers` are kept for the
statements about runs. -/
structure Site (sha256 : String → String) where
  ledger : Ledger := []
  world : World := {}
  /-- The migrations whose SQL is committed. -/
  executed : List Migration := []
  /-- Who holds the lock. -/
  runner : Option (Call sha256 × Phase) := none
  answers : List (Call sha256 × Except MigrationError Answer) := []

/-- The steps of a run, with what everybody else does. The time is that of the transaction; the SQL
of a migration has any outcome, or fails. -/
inductive Step (sha256 : String → String)
  | start (call : Call sha256)
  | prepare (now : Nat)
  | decide (now : Nat) (yaml : YamlLedger)
  | execute (now : Nat) (outcome : Option World)
  | die
  | outside (world : World)

variable {sha256 : String → String} (str : Json → String)

/-- The operator has asked for an adoption. -/
def Call.adoptionRequested (call : Call sha256) :
    Bool := call.adoptBaseline || call.adoptThrough.isSome

/-- What the selectors of a call mean, before it asks for the lock. -/
def Call.selection (call : Call sha256) : Except SelectionError (List Migration × List String) :=
  match selectMigrations call.release.migrations call.selector with
  | .error error => .error error
  | .ok selected =>
    (resolveAdoptThrough call.release.migrations call.adoptThrough).map fun throughIds =>
      (selected, throughIds)

namespace Site

variable (X : Site sha256)

/-- The run ends. -/
def finish (call : Call sha256) (answer : Except MigrationError Answer) : Site sha256 :=
  { X with runner := none, answers := X.answers ++ [(call, answer)] }

/-- The migrations that are executed next; without any, the run ends. -/
def proceed (call : Call sha256) (todo : List Migration) (done : List String) : Site sha256 :=
  if todo = [] then X.finish call (.ok (.applied done))
  else { X with runner := some (call, .apply todo done) }

/-- `_prepare_history`, and what `status` reads after it. What is reconciled is committed also where
the run is refused later. -/
def prepare (call : Call sha256) (now : Nat) : Site sha256 :=
  match reconcileLegacyHistory call.release.migrations now X.world.legacy X.ledger with
  | .error error => X.finish call (.error error)
  | .ok (ledger, unmanaged) =>
    if call.applies then { X with ledger, runner := some (call, .decide) }
    else
      { X with ledger }.finish call
        (.ok (.status (statusRows call.release.migrations X.world.baseline ledger unmanaged)))

/-- `apply`, up to the first migration: the validation, the guard and the adoption. The history is
validated again after an adoption, since that has added rows. -/
def decide (call : Call sha256) (selected : List Migration) (throughIds : List String) (now : Nat)
    (yaml : YamlLedger) : Site sha256 :=
  match validateHistory call.release.migrations X.ledger with
  | .error error => X.finish call (.error error)
  | .ok () =>
    if pending X.ledger selected ≠ [] ∧ ledgerIsUnverified X.ledger ∧ X.world.baseline then
      if !call.adoptionRequested then X.finish call (.error .baselineUnadopted)
      else
        match adoptWithoutExecuting str call.release.migrations throughIds yaml now X.ledger with
        | .error error => X.finish call (.error error)
        | .ok ledger =>
          match validateHistory call.release.migrations ledger with
          | .error error => { X with ledger }.finish call (.error error)
          | .ok () => { X with ledger }.proceed call (pending ledger selected) []
    else X.proceed call (pending X.ledger selected) []

/-- One migration, with its row: the two are one transaction, so that a death leaves both or
neither. -/
def execute (call : Call sha256) (m : Migration) (todo : List Migration)
    (done : List String) (now : Nat)
    (outcome : Option World) : Site sha256 :=
  match outcome with
  | none => X.finish call (.error .database)
  | some world =>
    match insertHistory m now false none X.ledger with
    | .error error => X.finish call (.error error)
    | .ok ledger =>
      { X with ledger, world, executed := X.executed ++ [m] }.proceed call todo
        (done ++ [m.migrationId])

/-- A step of the run that holds the lock, where it is possible. A call begins only where nobody has
the lock, and only if its selectors mean something. -/
def step : Step sha256 → Option (Site sha256)
  | .start call =>
    match X.runner, call.selection with
    | none, .ok _ => some { X with runner := some (call, .prepare) }
    | _, _ => none
  | .prepare now =>
    match X.runner with
    | some (call, .prepare) => some (X.prepare call now)
    | _ => none
  | .decide now yaml =>
    match X.runner with
    | some (call, .decide) =>
      match call.selection with
      | .ok (selected, throughIds) => some (X.decide str call selected throughIds now yaml)
      | .error _ => none
    | _ => none
  | .execute now outcome =>
    match X.runner with
    | some (call, .apply (m :: todo) done) => some (X.execute call m todo done now outcome)
    | _ => none
  | .die =>
    match X.runner with
    | some _ => some { X with runner := none }
    | none => none
  | .outside world => some { X with world }

end Site

/-- The runs of the releases over a database, whose ledger is empty at first. -/
def migrations : System (Site sha256) (Step sha256) :=
  .ofStep (fun X => ∃ world, X = { world }) (Site.step str)

end GenusOs.Db
