import GenusOs.Db.Manifest
import GenusOs.Python.Json
import Mathlib

/-!
# The ledger of the migrations

The rows of `schema_migrations_v2`, what is taken over from the legacy tables, and what a run checks
before it executes anything.
-/

namespace GenusOs.Db

open Python

/-- A field that a row has and its file does not, with the two values, as the message of a drift has
them. -/
structure Mismatch where
  field : String
  database : String
  file : String
  deriving DecidableEq, Repr

/-- The errors of a run, with what their messages are made of. What a run has committed before it
raises stays. -/
inductive MigrationError
  | legacyDrift (migrationId database file : String)
  | drift (migrationId : String) (mismatches : List Mismatch)
  | ambiguousLegacy (version : String) (candidates : List String)
  | missing (migrationId : String)
  | pendingBesideAhead (ahead : List String) (pending : String)
  | unreadableLedger
  | notAList
  | hearsay (count : Nat) (last nextPending : String)
  | baselineUnadopted
  | database
  deriving DecidableEq, Repr

/-- A row of `schema_migrations_v2`. The version, the file name and the checksum are those of the
file that the row is about, and drift is a difference in one of them. -/
structure AppliedMigration where
  migrationId : String
  version : String
  filename : String
  source : String
  appliedAt : Nat
  checksum : String
  reconciledFromLegacy : Bool := false
  adoptedFrom : Option String := none
  deriving DecidableEq, Repr

/-- A row of `schema_migrations`, the table of the retired runner. Nobody in this program writes it,
so that its rows may be anything. -/
structure LegacyRow where
  version : String
  filename : Option String
  appliedAt : Option Nat
  checksum : Option String
  deriving DecidableEq, Repr

/-- The rows in the order of their insertion. -/
abbrev Ledger := List AppliedMigration

/-- The runner has executed the file itself: the row was neither taken over from the legacy table
nor adopted. -/
def AppliedMigration.own (r : AppliedMigration) :
    Bool := !r.reconciledFromLegacy && r.adoptedFrom.isNone

/-- `_insert_history`: a migration that has a row keeps it. File names are unique in the table too,
so that a second migration of one name is refused by the database. -/
def insertHistory (m : Migration) (appliedAt : Nat)
    (reconciledFromLegacy : Bool) (adoptedFrom : Option String)
    (ledger : Ledger) : Except MigrationError Ledger :=
  if ledger.any (·.migrationId = m.migrationId) then .ok ledger
  else if ledger.any (·.filename = m.filename) then .error .database
  else
    .ok (ledger ++
      [{ migrationId := m.migrationId, version := m.version, filename := m.filename
         source := m.source, appliedAt, checksum := m.checksum, reconciledFromLegacy
         adoptedFrom }])

/-- The migration has a row. -/
def recorded (ledger : Ledger) (m : Migration) : Bool := ledger.any (·.migrationId = m.migrationId)

/-- The migrations that have no row, in the order in which they would be executed. -/
def pending (ledger : Ledger) (migrations : List Migration) : List Migration :=
  migrations.filter fun m => !recorded ledger m

/-! ## Legacy history -/

/-- `ORDER BY applied_at, version` -/
def legacyOrder (r : LegacyRow) : Nat ×ₗ Nat ×ₗ String :=
  toLex (if r.appliedAt.isNone then 1 else 0, toLex (r.appliedAt.getD 0, r.version))

/-- The migration that a legacy row means; `none` where the row is instance-local. -/
def legacyMigration (migrations : List Migration) (r : LegacyRow) :
    Except MigrationError (Option Migration) :=
  let filename := (r.filename.filter (· ≠ "")).elim "" fun f => String.ofList (pathName f.toList)
  let checksum := r.checksum.filter (· ≠ "")
  match migrations.find? (·.filename = filename) with
  | some m => .ok (some m)
  | none =>
    match migrations.filter (some ·.checksum = checksum) with
    | [m] => .ok (some m)
    | _ =>
      match migrations.filter (·.version = r.version) with
      | [m] => .ok (some m)
      | [] => .ok none
      | candidates => .error (.ambiguousLegacy r.version (candidates.map (·.filename)))

/-- `filename or str(legacy_filename or "")` -/
def displayFilename (r : LegacyRow) : String :=
  let filename := r.filename.getD ""
  let name := String.ofList (pathName filename.toList)
  if name ≠ "" then name else filename

/-- The loop of `_reconcile_legacy_history`, with the rows that it leaves unmanaged. -/
def reconcileRow (migrations : List Migration) (now : Nat)
    (found : Ledger × List (String × String)) (r : LegacyRow) :
    Except MigrationError (Ledger × List (String × String)) :=
  match legacyMigration migrations r with
  | .error error => .error error
  | .ok none => .ok (found.1, found.2 ++ [(r.version, displayFilename r)])
  | .ok (some m) =>
    match r.checksum.filter fun c => c ≠ "" ∧ c ≠ m.checksum with
    | some checksum => .error (.legacyDrift m.migrationId checksum m.checksum)
    | none => (insertHistory m (r.appliedAt.getD now) true none found.1).map fun ledger =>
        (ledger, found.2)

/-- `_reconcile_legacy_history` -/
def reconcileLegacyHistory (migrations : List Migration)
    (now : Nat) (legacy : Option (List LegacyRow))
    (ledger : Ledger) : Except MigrationError (Ledger × List (String × String)) :=
  match legacy with
  | none => .ok (ledger, [])
  | some rows =>
    (rows.insertionSort fun r r' => legacyOrder r ≤ legacyOrder r').foldlM
      (reconcileRow migrations now) (ledger, [])

/-! ## Validation -/

/-- `_applied`: `ORDER BY applied_at, migration_id`. -/
def applied (ledger : Ledger) : Ledger :=
  ledger.insertionSort fun r r' => toLex (r.appliedAt, r.migrationId) ≤
    toLex (r'.appliedAt, r'.migrationId)

/-- The fields in which a row differs from the file of the release. -/
def mismatches (r : AppliedMigration) (m : Migration) : List Mismatch :=
  [{ field := "filename", database := r.filename, file := m.filename },
   { field := "version", database := r.version, file := m.version },
   { field := "source", database := r.source, file := m.source },
   { field := "checksum", database := r.checksum, file := m.checksum }].filter fun e =>
     e.database ≠ e.file

/-- The loop of `_validate_history`: the ids that are ahead of the release. -/
def validateRows (migrations : List Migration) : Ledger → Except MigrationError (List String)
  | [] => .ok []
  | r :: rows =>
    match migrations.find? (·.migrationId = r.migrationId) with
    | none =>
      if newerThanManifest migrations r.version then
        (validateRows migrations rows).map (r.migrationId :: ·)
      else .error (.missing r.migrationId)
    | some m =>
      if mismatches r m ≠ [] then .error (.drift r.migrationId (mismatches r m))
        else validateRows migrations rows

/-- `_validate_history` -/
def validateHistory (migrations : List Migration) (ledger : Ledger) : Except MigrationError Unit :=
  match validateRows migrations (applied ledger) with
  | .error error => .error error
  | .ok [] => .ok ()
  | .ok ahead =>
    match pending ledger migrations with
    | [] => .ok ()
    | m :: _ => .error (.pendingBesideAhead ahead m.migrationId)

/-- `_ledger_is_unverified` -/
def ledgerIsUnverified (ledger : Ledger) : Bool :=
  !ledger.any fun r => !r.reconciledFromLegacy || r.adoptedFrom.isSome

/-! ## Adoption -/

/-- The file that the retired upgrade has left. -/
inductive YamlLedger
  | absent
  | unreadable
  | data (value : Json)
  deriving Repr

/-- `Path(str(entry["file"])).name`, `str` being that of the values of the file. -/
def legacyFilename (str : Json → String) : Json → Option String
  | .obj entry =>
    match entry.lookup "file" with
    | some file => if file.truthy then some (String.ofList (pathName (str file).toList)) else none
    | none => none
  | _ => none

/-- `_legacy_yaml_filenames` -/
def legacyYamlFilenames (str : Json → String) : YamlLedger → Except MigrationError (List String)
  | .absent => .ok []
  | .unreadable => .error .unreadableLedger
  | .data (.obj data) =>
    match data.lookup "migrations" with
    | none | some .null => .ok []
    | some (.arr entries) => .ok (entries.filterMap (legacyFilename str))
    | some _ => .error .notAList
  | .data _ => .ok []

/-- Where a migration is adopted from: the baseline of the release, what the operator has named, or
the file of the retired upgrade. A migration without a source is not adopted, and so it is
executed. -/
def adoptionSource (baselineId : String) (throughIds yamlFilenames : List String)
    (m : Migration) : Option String :=
  if m.migrationId = baselineId then some "baseline"
  else if m.migrationId ∈ throughIds then some "operator"
  else if m.filename ∈ yamlFilenames then some "yaml_ledger"
  else none

/-- What the legacy table vouches for past the baseline. Its rows say which files have run and not
what they have left, so that they are named in an error and not believed. -/
def hearsayBeyondBaseline (baselineId : String) (ledger : Ledger) : List String :=
  ((ledger.filter fun r => r.reconciledFromLegacy ∧ r.migrationId ≠ baselineId).map
    (·.migrationId)).insertionSort (· ≤ ·)

/-- `_adopt_without_executing`: the migrations that have a source get a row, and nothing is
executed. -/
def adoptWithoutExecuting (str : Json → String) (migrations : List Migration)
    (throughIds : List String)
    (yaml : YamlLedger) (now : Nat) (ledger : Ledger) : Except MigrationError Ledger :=
  let baselineId := (migrations.head?.map (·.migrationId)).getD ""
  match legacyYamlFilenames str yaml with
  | .error error => .error error
  | .ok yamlFilenames =>
    let hearsay := if throughIds = [] ∧ yamlFilenames = [] then
      hearsayBeyondBaseline baselineId ledger else []
    match hearsay.getLast? with
    | some last => .error (.hearsay hearsay.length last
        (((pending ledger migrations).head?.map (·.migrationId)).getD "the remaining migrations"))
    | none =>
      (pending ledger migrations).foldlM (fun ledger m =>
        match adoptionSource baselineId throughIds yamlFilenames m with
        | some source => insertHistory m now false (some source) ledger
        | none => .ok ledger) ledger

/-! ## Status -/

/-- The status of a migration of the release. -/
def rowStatus (ledger : Ledger) (m : Migration) : String :=
  match ledger.find? (·.migrationId = m.migrationId) with
  | none => "pending"
  | some r => if mismatches r m = [] then "applied" else "DRIFT"

/-- A line of what `status` answers. -/
structure StatusRow where
  migrationId : String
  version : String
  filename : String
  source : String
  status : String
  appliedAt : Option Nat
  warned : Bool := false
  deriving DecidableEq, Repr

/-- Something is pending, over a schema that the runner has not made: what `apply` refuses unless
the adoption was asked for. -/
def baselineUnadopted (migrations : List Migration) (baseline : Bool) (ledger : Ledger) : Bool :=
  pending ledger migrations ≠ [] && ledgerIsUnverified ledger && baseline

/-- The rows of `status`: the migrations of the release, what it does not ship, and what is
unmanaged. -/
def statusRows (migrations : List Migration) (baseline : Bool)
    (ledger : Ledger) (unmanaged : List (String × String)) :
    List StatusRow :=
  let warned (m : Migration) : Bool :=
    baselineUnadopted migrations baseline ledger &&
      migrations.head?.map (·.migrationId) = some m.migrationId
  (migrations.map fun m =>
    { migrationId := m.migrationId, version := m.version, filename := m.filename, source := m.source
      status := if warned m then "baseline-unadopted" else rowStatus ledger m
      appliedAt := (ledger.find? (·.migrationId = m.migrationId)).map (·.appliedAt)
      warned := warned m }) ++
  (((applied ledger).filter fun r => !migrations.any (·.migrationId = r.migrationId)).map fun r =>
    { migrationId := r.migrationId, version := r.version, filename := r.filename, source := r.source
      status := if newerThanManifest migrations r.version then "AHEAD" else "MISSING"
      appliedAt := some r.appliedAt }) ++
  unmanaged.map fun row =>
    { migrationId := "unmanaged:" ++ (if row.2 ≠ "" then row.2 else row.1),
        version := row.1, filename := row.2
      source := "", status := "unmanaged", appliedAt := none }

end GenusOs.Db
