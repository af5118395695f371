import GenusOs.Python.Json
import GenusOs.Python.Str
import Mathlib

/-!
# The plugin lockfile

The reader of `plugins.lock` and its four writers: `sync` without force, `record_install`,
`drop_row` and `set_enabled`, for a path that resolves. What the path holds is a file whose text
goes through `json.loads`, or none, or something that is not read.
-/

namespace GenusOs.Plugins

open Python

/-! ## Texts -/

/-- A JSON value as `json.dumps` is given one here: no floats, and keys that are distinct. -/
inductive Plain : Json → Prop
  | null : Plain .null
  | bool (b : Bool) : Plain (.bool b)
  | int (n : Int) : Plain (.int n)
  | str (s : String) : Plain (.str s)
  | arr {items : List Json} (h : ∀ v ∈ items, Plain v) : Plain (.arr items)
  | obj {entries : List (String × Json)} (hkeys : (entries.map Prod.fst).Nodup)
      (h : ∀ e ∈ entries, Plain e.2) : Plain (.obj entries)

/-- `json.loads` raises `ValueError`, or `RecursionError` on a text that is nested too deep. -/
inductive LoadsError
  | notJson
  | recursion

/-- The texts of files, and what `json` and `str` make of them. -/
structure Texts where
  Text : Type
  loads : Text → Except LoadsError Json
  dumps : Json → Text
  pyStr : Json → String
  loads_dumps : ∀ v, Plain v → loads (dumps v) = .ok v
  pyStr_str : ∀ s, pyStr (.str s) = s

/-- A distribution's name, as `dist_name` and the reader of a wheel give it: stripped, not empty. -/
structure DistName where
  name : String
  stripped : strip name = name
  nonempty : name ≠ ""

/-! ## Rows -/

structure LockSource where
  origin : String
  indexUrl : String := ""
  publisherKeyId : String := ""
  installedAt : String := ""

def UNSCANNED : String := "unscanned"

structure LockRow where
  name : String
  version : String := ""
  manifestSha256 : String := ""
  verdict : String := UNSCANNED
  enabled : Bool := true
  kinds : List String := []
  recordedAt : String := ""
  distSha256 : String := ""
  membersAccounted : Int := 0
  scanReasons : List String := []
  source : Option LockSource := none

/-- An entry that is written only if it is set. -/
def optional (isSet : Bool) (key : String) (value : Json) : List (String × Json) :=
  if isSet then [(key, value)] else []

def LockSource.asJson (s : LockSource) : Json :=
  .obj ([("origin", .str s.origin), ("installed_at", .str s.installedAt)] ++
    optional (s.indexUrl ≠ "") "index_url" (.str s.indexUrl) ++
    optional (s.publisherKeyId ≠ "") "publisher_key_id" (.str s.publisherKeyId))

def LockRow.asJson (r : LockRow) : Json :=
  .obj ([("name", .str r.name), ("version", .str r.version),
      ("manifest_sha256", .str r.manifestSha256), ("verdict", .str r.verdict),
      ("enabled", .bool r.enabled), ("kinds", .arr (r.kinds.map .str)),
      ("recorded_at", .str r.recordedAt)] ++
    optional (r.distSha256 ≠ "") "dist_sha256" (.str r.distSha256) ++
    optional (r.membersAccounted ≠ 0) "members_accounted" (.int r.membersAccounted) ++
    optional (r.scanReasons ≠ []) "scan_reasons" (.arr (r.scanReasons.map .str)) ++
    optional r.source.isSome "source" ((r.source.map LockSource.asJson).getD .null))

/-- `str(value or default)`. -/
def strOr (pyStr : Json → String) (value : Json) (default : String) : String :=
  if value.truthy then pyStr value else default

def sourceFromJson (pyStr : Json → String) : Json → Option LockSource
  | .obj data =>
    let origin := strip (strOr pyStr (Dict.get data "origin" .null) "")
    if origin = "" then none
    else some
      { origin
        indexUrl := strOr pyStr (Dict.get data "index_url" .null) ""
        publisherKeyId := strOr pyStr (Dict.get data "publisher_key_id" .null) ""
        installedAt := strOr pyStr (Dict.get data "installed_at" .null) "" }
  | _ => none

/-- `isinstance(value, str)`, with the text. -/
def text? : Json → Option String
  | .str s => some s
  | _ => none

/-- `_reasons`: the list if it is one of strings. -/
def reasons : Json → List String
  | .arr items => (items.mapM text?).getD []
  | _ => []

/-- `kinds`: every item as a string. -/
def kindsOf (pyStr : Json → String) : Json → List String
  | .arr items => items.map pyStr
  | _ => []

/-- `int(value)` of an `int`, which a `bool` is too. -/
def countOf : Json → Int
  | .int n => n
  | .bool b => if b then 1 else 0
  | _ => 0

/-- Anything that is not exactly `false` is enabled. -/
def enabledOf : Json → Bool
  | .bool b => b
  | _ => true

def rowFromJson (pyStr : Json → String) : Json → Option LockRow
  | .obj data =>
    let name := strip (strOr pyStr (Dict.get data "name" .null) "")
    if name = "" then none
    else some
      { name
        version := strOr pyStr (Dict.get data "version" .null) ""
        manifestSha256 := strOr pyStr (Dict.get data "manifest_sha256" .null) ""
        verdict := strOr pyStr (Dict.get data "verdict" .null) UNSCANNED
        enabled := enabledOf (Dict.get data "enabled" .null)
        kinds := kindsOf pyStr (Dict.get data "kinds" .null)
        recordedAt := strOr pyStr (Dict.get data "recorded_at" .null) ""
        distSha256 := strOr pyStr (Dict.get data "dist_sha256" .null) ""
        membersAccounted := countOf (Dict.get data "members_accounted" .null)
        scanReasons := reasons (Dict.get data "scan_reasons" .null)
        source := sourceFromJson pyStr (Dict.get data "source" .null) }
  | _ => none

/-- `rows[row.name] = row` on a dict that keeps its order. -/
def setRow (rows : List LockRow) (row : LockRow) : List LockRow :=
  if rows.any (·.name = row.name) then rows.map fun r => if r.name = row.name then row else r
  else rows ++ [row]

/-! ## Reading -/

/-- What is at the path. -/
inductive File (T : Texts)
  | absent
  /-- An `OSError`, by its name. -/
  | unreadable (error : String)
  /-- A `ValueError` of the codec. -/
  | undecodable (error : String)
  | text (t : T.Text)

/-- `Lockfile`. The rows are a dict: `row` reads the one of a name. -/
structure Lockfile where
  present : Bool
  malformed : Bool := false
  rows : List LockRow := []
  badRows : List Nat := []
  problem : String := ""
  ioError : Option String := none

def Lockfile.row (l : Lockfile) (name : String) : Option LockRow := l.rows.find? (·.name = name)

def Lockfile.usable (l : Lockfile) : Bool := l.present && !l.malformed

def Lockfile.trustworthy (l : Lockfile) : Bool := l.usable && l.badRows.isEmpty

/-- The rows read so far and the positions of those that are not. -/
def readRow (pyStr : Json → String) (read : List LockRow × List Nat) (entry : Nat × Json) :
    List LockRow × List Nat :=
  match rowFromJson pyStr entry.2 with
  | some row => (setRow read.1 row, read.2)
  | none => (read.1, read.2 ++ [entry.1])

def readRows (pyStr : Json → String) (entries : List Json) : List LockRow × List Nat :=
  (entries.zipIdx.map Prod.swap).foldl (readRow pyStr) ([], [])

def badRowsProblem (bad : List Nat) : String :=
  if bad = [] then ""
  else s!"holds {bad.length} row(s) that cannot be read (position(s) " ++
    ", ".intercalate (bad.map toString) ++ ")"

/-- `data["plugins"]`, if `data` is an object and this is a list. -/
def pluginsOf : Json → Option (List Json)
  | .obj data =>
    match Dict.get data "plugins" .null with
    | .arr entries => some entries
    | _ => none
  | _ => none

/-- `read_lockfile`. Only a `RecursionError` is let through. -/
def readLockfile (T : Texts) : File T → Except String Lockfile
  | .absent => .ok { present := false }
  | .unreadable error =>
    .ok
      { present := true
        malformed := true
        ioError := some error
        problem := s!"cannot be read ({error})" }
  | .undecodable error =>
    .ok
      { present := true
        malformed := true
        problem := s!"is not readable text ({error})" }
  | .text t =>
    match T.loads t with
    | .error .recursion => .error "RecursionError"
    | .error .notJson =>
      .ok
        { present := true
          malformed := true
          problem := "is not valid JSON (JSONDecodeError)" }
    | .ok data =>
      match pluginsOf data with
      | none =>
        .ok
          { present := true
            malformed := true
            problem := "does not hold a 'plugins' list" }
      | some entries =>
        let (rows, badRows) := readRows T.pyStr entries
        .ok
          { present := true
            rows
            badRows
            problem := badRowsProblem badRows }

/-! ## Writing -/

def LOCKFILE_VERSION : Int := 1

def payload (rows : List LockRow) : Json :=
  .obj [("lockfile_version", .int LOCKFILE_VERSION),
    ("plugins", .arr ((rows.insertionSort fun a b => a.name ≤ b.name).map LockRow.asJson))]

/-- How the writing of a file ends: an exception leaves the old file, unless it is the one of the
last `chmod`. -/
inductive WriteFate
  | written
  | raised
  | raisedAfter
  deriving DecidableEq

/-- An operation raises, or returns a value. -/
abbrev Result (α : Type) := Except String α

/-- The first lines of the writers: the file is read, and an I/O fault is raised. -/
def withLock {T : Texts} {α : Type} (file : File T) (go : Lockfile → Result α × File T) :
    Result α × File T :=
  match readLockfile T file with
  | .error error => (.error error, file)
  | .ok lock =>
    match lock.ioError with
    | some error => (.error error, file)
    | none => go lock

/-- `write_lockfile`, and then `value`. -/
def writeLockfile {T : Texts} {α : Type} (fate : WriteFate) (rows : List LockRow) (file : File T)
    (value : α) : Result α × File T :=
  match fate with
  | .written => (.ok value, .text (T.dumps (payload rows)))
  | .raised => (.error "OSError", file)
  | .raisedAfter => (.error "OSError", .text (T.dumps (payload rows)))

/-! ## `sync` -/

/-- An installed distribution, with its manifest's digest and the groups it publishes into. -/
structure Dist where
  dist : DistName
  version : String
  manifestSha256 : String
  groups : List String

/-- What `installed_distributions` finds: a dict, so every name once. -/
structure Installed where
  dists : List Dist
  nodup : (dists.map fun d => d.dist.name).Nodup

structure SyncResult where
  recorded : List LockRow := []
  added : List String := []
  updated : List String := []
  removed : List String := []
  refused : String := ""

def carriedSource (previous : Option LockRow) (same : Bool) : Option LockSource :=
  match previous.bind LockRow.source with
  | none => none
  | some source => some (if same then source else { source with publisherKeyId := "" })

/-- The row `sync` writes for a distribution. -/
def syncRow (lock : Lockfile) (now : String) (d : Dist) : LockRow :=
  let previous := lock.row d.dist.name
  let same := previous.any fun p => p.version = d.version ∧ p.manifestSha256 = d.manifestSha256
  let kept := if same then previous else none
  { name := d.dist.name
    version := d.version
    manifestSha256 := d.manifestSha256
    verdict := (kept.map (·.verdict)).getD UNSCANNED
    enabled := (previous.map (·.enabled)).getD true
    kinds := d.groups.insertionSort (· ≤ ·)
    recordedAt := now
    distSha256 := (kept.map (·.distSha256)).getD ""
    membersAccounted := (kept.map (·.membersAccounted)).getD 0
    scanReasons := (kept.map (·.scanReasons)).getD []
    source := carriedSource previous same }

def LockRow.changed (previous row : LockRow) : Bool :=
  previous.manifestSha256 ≠ row.manifestSha256 || previous.version ≠ row.version ||
    previous.kinds ≠ row.kinds

def refusal (problem : String) : String :=
  s!"the lockfile {problem}, so which plugins you disabled cannot be " ++
    "read. Rewriting it now would silently re-enable every one of " ++
    "them. Repair the file, or re-run with --force to rebuild it " ++
    "from what is installed and accept losing those decisions."

/-- `sync` once the lockfile is read. `installed` is none where the walk of the entry points raises.
-/
def syncRead {T : Texts} (installed : Option Installed) (now : String) (fate : WriteFate)
    (file : File T) (lock : Lockfile) : Result SyncResult × File T :=
  if lock.present ∧ lock.trustworthy = false then (.ok { refused := refusal lock.problem }, file)
  else
    match installed with
    | none => (.error "Exception", file)
    | some found =>
      let dists := found.dists.insertionSort fun a b => a.dist.name ≤ b.dist.name
      let rows := dists.map (syncRow lock now)
      let gone := (lock.rows.map (·.name)).filter fun n => !rows.any (·.name = n)
      writeLockfile fate rows file
        { recorded := rows
          added := (rows.filter fun r => (lock.row r.name).isNone).map (·.name)
          updated := (rows.filter fun r => (lock.row r.name).any (·.changed r)).map (·.name)
          removed := gone.insertionSort (· ≤ ·) }

/-- `sync(path)`. -/
def sync {T : Texts} (installed : Option Installed) (now : String) (fate : WriteFate)
    (file : File T) : Result SyncResult × File T :=
  withLock file (syncRead installed now fate file)

/-! ## The writers of one row -/

/-- What an install knows of the distribution it records. -/
structure Install where
  dist : DistName
  version : String
  manifestSha256 : String
  kinds : List String
  verdict : String
  distSha256 : String
  source : LockSource
  membersAccounted : Int := 0
  scanReasons : List String := []

def installRow (lock : Lockfile) (now : String) (i : Install) : LockRow :=
  { name := i.dist.name
    version := i.version
    manifestSha256 := i.manifestSha256
    verdict := i.verdict
    enabled := ((lock.row i.dist.name).map (·.enabled)).getD true
    kinds := i.kinds
    recordedAt := now
    distSha256 := i.distSha256
    membersAccounted := i.membersAccounted
    scanReasons := i.scanReasons
    source := some i.source }

def recordInstall {T : Texts} (i : Install) (now : String) (fate : WriteFate) (file : File T) :
    Result LockRow × File T :=
  withLock file fun lock =>
    writeLockfile fate (setRow lock.rows (installRow lock now i)) file (installRow lock now i)

def dropRow {T : Texts} (name : String) (fate : WriteFate) (file : File T) :
    Result Bool × File T :=
  withLock file fun lock =>
    if (lock.row name).isNone then (.ok false, file)
    else writeLockfile fate (lock.rows.filter (·.name ≠ name)) file true

/-- `set_enabled` once the lockfile is read. -/
def setEnabledRead {T : Texts} (name : String) (enabled : Bool) (fate : WriteFate) (file : File T)
    (lock : Lockfile) : Result (Option LockRow) × File T :=
  match lock.row name with
  | none => (.ok none, file)
  | some row =>
    let updated := { row with enabled := enabled }
    writeLockfile fate (setRow lock.rows updated) file (some updated)

def setEnabled {T : Texts} (name : String) (enabled : Bool) (fate : WriteFate) (file : File T) :
    Result (Option LockRow) × File T :=
  withLock file (setEnabledRead name enabled fate file)

/-! ## Operations in sequence -/

/-- An operation, with the clock and how its writing ends. -/
inductive Operation
  | sync (installed : Option Installed) (now : String) (fate : WriteFate)
  | recordInstall (install : Install) (now : String) (fate : WriteFate)
  | dropRow (name : String) (fate : WriteFate)
  | setEnabled (name : String) (enabled : Bool) (fate : WriteFate)

/-- What the caller is told. -/
inductive Answer
  | raised
  | refused
  | returned
  deriving DecidableEq

def Answer.of {α : Type} (refuses : α → Bool) : Result α → Answer
  | .error _ => .raised
  | .ok value => if refuses value then .refused else .returned

/-- A refusal is one of `sync`, a row that was not there to drop, or an unknown plugin. -/
def Operation.run {T : Texts} (op : Operation) (file : File T) : Answer × File T :=
  match op with
  | .sync installed now fate =>
    let (result, file) := Plugins.sync installed now fate file
    (.of (·.refused ≠ "") result, file)
  | .recordInstall install now fate =>
    let (result, file) := Plugins.recordInstall install now fate file
    (.of (fun _ => false) result, file)
  | .dropRow name fate =>
    let (result, file) := Plugins.dropRow name fate file
    (.of (fun dropped => !dropped) result, file)
  | .setEnabled name enabled fate =>
    let (result, file) := Plugins.setEnabled name enabled fate file
    (.of Option.isNone result, file)

/-- The file after a sequence of operations. -/
def runAll {T : Texts} (file : File T) : List Operation → File T
  | [] => file
  | op :: ops => runAll (op.run file).2 ops

/-! ## The law -/

/-- The recorded `enabled` of a plugin, as the reader reads it. -/
def recorded {T : Texts} (file : File T) (name : String) : Option Bool :=
  match readLockfile T file with
  | .ok lock => (lock.row name).map (·.enabled)
  | .error _ => none

/-- The reader understands everything, or there is no file. -/
def fullyRead {T : Texts} (file : File T) : Prop :=
  ∃ lock, readLockfile T file = .ok lock ∧ (lock.present = true → lock.trustworthy = true)

/-- The plugin that an operation names; for `sync` those that are no longer installed. -/
def Operation.names : Operation → String → Prop
  | .sync installed _ _, q => ∃ found ∈ installed, ∀ d ∈ found.dists, d.dist.name ≠ q
  | .recordInstall install _ _, q => install.dist.name = q
  | .dropRow name _, q => name = q
  | .setEnabled name _ _, q => name = q

/-- The operations that may take a disable back. -/
def Operation.releases : Operation → String → Prop
  | .recordInstall .., _ => False
  | op, q => op.names q

def Operation.late : Operation → Prop
  | .sync _ _ fate | .recordInstall _ _ fate | .dropRow _ fate | .setEnabled _ _ fate =>
    fate = .raisedAfter

/-- What an operation may do to a file. -/
structure Lawful {T : Texts} (op : Operation) (file : File T) : Prop where
  /-- Without an answer the file is left, but for the exception after the file is there. -/
  refused : (op.run file).1 ≠ .returned → (op.run file).2 = file ∨ op.late
  /-- The other plugins are still there, as they were. -/
  kept : ∀ q b, recorded file q = some b → ¬ op.names q → recorded (op.run file).2 q = some b
  /-- A disable is not lost. -/
  disabled : ∀ q, recorded file q = some false → ¬ op.releases q →
    recorded (op.run file).2 q = some false
  /-- What is not fully read is not rewritten. -/
  unread : (op.run file).2 = file ∨ fullyRead file

/-- The reader or the path raises. -/
def Raises {T : Texts} (file : File T) : Prop :=
  ∀ lock, readLockfile T file = .ok lock → lock.ioError ≠ none

/-- The file is fully read, or the operation does not come to write it: `sync` refuses, and the
others find no row of the name, or fail to write. -/
def Operation.Careful {T : Texts} (op : Operation) (file : File T) : Prop :=
  fullyRead file ∨
    match op with
    | .sync .. => True
    | .recordInstall _ _ fate => fate = .raised ∨ Raises file
    | .dropRow name fate => fate = .raised ∨ recorded file name = none
    | .setEnabled name _ fate => fate = .raised ∨ recorded file name = none

/-- Every operation of a sequence finds a file for which `P` holds. -/
def AllSteps {T : Texts} (P : Operation → File T → Prop) : File T → List Operation → Prop
  | _, [] => True
  | file, op :: ops => P op file ∧ AllSteps P (op.run file).2 ops

end GenusOs.Plugins
