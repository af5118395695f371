import GenusOs.Library.Fallible
import GenusOs.Python.Text
import Mathlib

/-!
# The migrations of a release

The files that the manifest names, in the order in which they are applied. A release is what
`_discover` returns: `discovered`.
-/

namespace GenusOs.Db

open Python

/-- `MigrationDiscoveryError`, with what its messages are made of. -/
inductive DiscoveryError
  | manifestMissing
  | invalidEntry (lineNumber : Nat) (entry : String)
  | notFilename (entry : String)
  | fileMissing (entry : String)
  | invalidFilename (filename : String)
  | duplicateId (migrationId : String)
  | duplicateFilename (filename : String)
  | noFiles
  deriving DecidableEq, Repr

/-- `MigrationSelectionError` -/
inductive SelectionError
  | unknownAdoptThrough (adoptThrough : String)
  | ambiguous (selector : String) (choices : List String)
  | unknown (selector : String)
  deriving DecidableEq, Repr

/-- A discovered migration, with the text of its file. -/
structure Migration where
  migrationId : String
  version : String
  filename : String
  source : String
  sql : String
  checksum : String
  order : Nat ×ₗ Nat ×ₗ Nat ×ₗ String
  deriving DecidableEq

/-! ## File names -/

/-- The number and the suffix that a text begins with, and what follows them. -/
def splitVersion (cs : Text) : Text × Text × Text :=
  let number := cs.takeWhile Char.isDigit
  match cs.dropWhile Char.isDigit with
  | c :: rest => if c.isLower then (number, [c], rest) else (number, [], c :: rest)
  | [] => (number, [], [])

/-- `NNN[_suffix]_name.sql`: the number and the suffix. -/
def matchFilename (filename : String) : Option (Text × Text) :=
  match splitVersion filename.toList with
  | (number, suffix, '_' :: tail) =>
    let name := tail.take (tail.length - 4)
    if number ≠ [] ∧ tail.drop (tail.length - 4) = ".sql".toList ∧ name ≠ [] ∧ '\n' ∉ name then
      some (number, suffix)
    else none
  | _ => none

/-- No suffix comes before a letter: `002` is applied in front of `002b`. -/
def suffixOrder : Text → Nat
  | c :: _ => c.toNat - 'a'.toNat + 1
  | [] => 0

/-- `PurePath(filename).stem`, of a name that ends in `.sql`. -/
def stem (filename : String) : String := String.ofList
    (filename.toList.take (filename.toList.length - 4))

variable (sha256 : String → String)

/-- `_migration_from_path`: the version is read off the file name, and the checksum is taken of the
text. -/
def migrationFromPath (source filename sql : String) : Except DiscoveryError Migration :=
  match matchFilename filename with
  | none => .error (.invalidFilename filename)
  | some (number, suffix) =>
    .ok
      { migrationId := stem filename
        version := String.ofList (number ++ suffix)
        filename, source, sql
        checksum := sha256 sql
        order := toLex (Nat.ofDigitChars 10 number 0, toLex (suffixOrder suffix,
          toLex (if filename = "001_init.sql" then 0 else 1, filename))) }

/-! ## Discovery -/

/-- The files of a package, by their source and their name. -/
abbrev Files := String → String → Option String

/-- An entry of the manifest; the bundled file is preferred to that of the repository. -/
def manifestEntry (bundled development : Files) (lineNumber : Nat) (entry : String) :
    Except DiscoveryError (String × String × String) :=
  match splitChars '/' entry.toList 1 with
  | [source, filename] =>
    if String.ofList source = "infra" ∨ String.ofList source = "crm" then
      if pathName filename ≠ filename then .error (.notFilename entry)
      else
        match (bundled (String.ofList source) (String.ofList filename)).or
            (development (String.ofList source) (String.ofList filename)) with
        | none => .error (.fileMissing entry)
        | some sql => .ok (String.ofList source, String.ofList filename, sql)
    else .error (.invalidEntry lineNumber entry)
  | _ => .error (.invalidEntry lineNumber entry)

/-- `_manifest_paths` -/
def manifestPaths (manifest : Option String) (bundled development : Files) :
    Except DiscoveryError (List (String × String × String)) :=
  match manifest with
  | none => .error .manifestMissing
  | some text =>
    let entries := (splitLines text.toList).zipIdx.map fun line =>
      (line.2 + 1, strip (String.ofList line.1))
    (entries.filter fun e => e.2 ≠ "" ∧ ¬ startsWith e.2 "#").mapM fun e =>
      manifestEntry bundled development e.1 e.2

/-- The loop of `_discover` over the sorted migrations, `seen` being those before. Two files of one
id, or of one name, are a mistake of the release. -/
def rejectDuplicates (seen : List Migration) : List Migration → Except DiscoveryError Unit
  | [] => .ok ()
  | m :: migrations =>
    if seen.any (·.migrationId = m.migrationId) then .error (.duplicateId m.migrationId)
    else if seen.any (·.filename = m.filename) then .error (.duplicateFilename m.filename)
    else rejectDuplicates (seen ++ [m]) migrations

/-- `_discover`: the files of the manifest as migrations, sorted by their numbers and suffixes. -/
def discover (candidates : List (String × String × String)) :
    Except DiscoveryError (List Migration) :=
  match candidates.mapM fun c => migrationFromPath sha256 c.1 c.2.1 c.2.2 with
  | .error error => .error error
  | .ok found =>
    let migrations := found.insertionSort fun m m' => m.order ≤ m'.order
    match rejectDuplicates [] migrations with
    | .error error => .error error
    | .ok () => if migrations = [] then .error .noFiles else .ok migrations

/-- **A release**: the migrations in the order in which they are applied. No two have one id, and
each has the checksum of its text; the statements about runs need nothing else of how a release is
found. -/
structure Release where
  migrations : List Migration
  ids : (migrations.map Migration.migrationId).Nodup
  sorted : migrations.Pairwise fun m m' => m.order ≤ m'.order
  checksums : ∀ m ∈ migrations, m.checksum = sha256 m.sql
  nonempty : migrations ≠ []

variable {sha256} {migrations seen : List Migration} {m : Migration}

/-- The checksum is that of the text. -/
theorem migrationFromPath_checksum {source filename sql : String}
    (h : migrationFromPath sha256 source filename sql = .ok m) : m.checksum = sha256 m.sql := by
  unfold migrationFromPath at h
  split at h
  · cases h
  · cases h
    rfl

/-- What passes has no id twice, by induction on what is still to be looked at. -/
theorem rejectDuplicates_nodup (h : rejectDuplicates seen migrations = .ok ())
    (hseen : (seen.map Migration.migrationId).Nodup) :
    ((seen ++ migrations).map Migration.migrationId).Nodup := by
  induction migrations generalizing seen with
  | nil =>
    rw [List.append_nil]
    exact hseen
  | cons m migrations ih =>
    rw [rejectDuplicates] at h
    split at h
    · cases h
    next hnew =>
    split at h
    · cases h
    have hnodup := ih h ?_
    · rwa [List.append_assoc, List.singleton_append] at hnodup
    · rw [List.map_append]
      refine hseen.append (List.nodup_singleton _) (List.disjoint_singleton.mpr fun hmem => hnew ?_)
      obtain ⟨m', hm', heq⟩ := List.mem_map.mp hmem
      exact List.any_eq_true.mpr ⟨m', hm', decide_eq_true heq⟩

/-- What is discovered is sorted, without duplicates, and not empty. -/
theorem discover_spec {candidates : List (String × String × String)}
    (h : discover sha256 candidates = .ok migrations) :
    (migrations.map Migration.migrationId).Nodup ∧
      migrations.Pairwise (fun m m' => m.order ≤ m'.order) ∧
      (∀ m ∈ migrations, m.checksum = sha256 m.sql) ∧ migrations ≠ [] := by
  unfold discover at h
  split at h
  · cases h
  next found hfound =>
  dsimp only at h
  split at h
  · cases h
  next hunique =>
  split at h
  · cases h
  next hne =>
  cases h
  have hnodup := rejectDuplicates_nodup hunique List.nodup_nil
  rw [List.nil_append] at hnodup
  refine ⟨hnodup, List.pairwise_insertionSort (fun m m' : Migration => m.order ≤ m'.order) found,
    fun m hm => ?_, hne⟩
  obtain ⟨c, -, hc⟩ := Fallible.mem_of_mapM hfound ((List.mem_insertionSort _).mp hm)
  exact migrationFromPath_checksum hc

/-- **What is discovered is a release.** -/
def discovered {candidates : List (String × String × String)}
    (h : discover sha256 candidates = .ok migrations) :
    Release sha256 where
  migrations := migrations
  ids := (discover_spec h).1
  sorted := (discover_spec h).2.1
  checksums := (discover_spec h).2.2.1
  nonempty := (discover_spec h).2.2.2

/-! ## Versions and selectors -/

/-- `_version_key` -/
def versionKey (version : String) : Option (Nat ×ₗ Nat) :=
  match splitVersion version.toList with
  | (number, suffix, []) => if number ≠ [] then
      some (toLex (Nat.ofDigitChars 10 number 0, suffixOrder suffix)) else none
  | _ => none

/-- A version above each one of the release that can be read. -/
def newerThanManifest (migrations : List Migration) (version : String) : Bool :=
  match versionKey version with
  | none => false
  | some key =>
    let known := migrations.filterMap fun m => versionKey m.version
    known ≠ [] && known.all (· < key)

/-- `_select_migrations` -/
def selectMigrations (migrations : List Migration) :
    Option String → Except SelectionError (List Migration)
  | none => .ok migrations
  | some selector =>
    let exact := migrations.filter fun m => selector = m.migrationId ∨ selector = m.filename
    if exact ≠ [] then .ok exact
    else
      match migrations.filter (·.version = selector) with
      | [] => .error (.unknown selector)
      | [m] => .ok [m]
      | choices => .error (.ambiguous selector (choices.map (·.migrationId)))

/-- `_resolve_adopt_through`: the ids up to the given one. -/
def resolveAdoptThrough (migrations : List Migration) :
    Option String → Except SelectionError (List String)
  | none => .ok []
  | some adoptThrough =>
    match migrations.findIdx? (·.migrationId = adoptThrough) with
    | none => .error (.unknownAdoptThrough adoptThrough)
    | some i => .ok ((migrations.take (i + 1)).map (·.migrationId))

/-- A selector leaves the order. -/
theorem selectMigrations_sublist {selector : Option String} {selected : List Migration}
    (h : selectMigrations migrations selector = .ok selected) : selected.Sublist migrations := by
  cases selector with
  | none =>
    cases h
    exact .refl _
  | some selector =>
    rw [selectMigrations] at h
    split at h
    · cases h
      exact List.filter_sublist
    · split at h
      · cases h
      · next m hm =>
        cases h
        exact hm ▸ List.filter_sublist
      · cases h

end GenusOs.Db
