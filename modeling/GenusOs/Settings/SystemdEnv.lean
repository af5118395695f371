import GenusOs.Python.Text
import Mathlib

/-!
# Which unit file sets an environment variable, and a drop-in that changes it

`find_origin` reads the `[Service]` sections of a unit's files the way systemd does: later
assignments win, an empty one forgets all, and an environment file beats every assignment.
`plan_dropin` writes the drop-in that sets a variable, in a file that sorts after the one that wins.
-/

namespace GenusOs.Settings

open Python

/-- A path and the text of its file. -/
abbrev UnitFile := Text × Text

/-! ## Parsing -/

/-- `parse_environment_value` -/
def parseEnvironmentValue (value : Text) : List (Text × Text) :=
  ((shlexSplit value).getD (words isSpace value)).filterMap fun word =>
    match cutAt ['='] word with
    | some (name, val) => if name = [] then none else some (name, val)
    | none => none

/-- `value[1:-1]` where a value is quoted. -/
def unquote (value : Text) : Text :=
  if 2 ≤ value.length ∧ value.head? = value.getLast? ∧
      (value.head? = some '"' ∨ value.head? = some '\'') then value.tail.dropLast
  else value

/-- `parse_env_file`; the last line of a name wins. -/
def parseEnvFile (text : Text) : List (Text × Text) :=
  (splitLines text).foldl (fun out raw =>
    let line := stripChars raw
    if line = [] ∨ line.head? = some '#' ∨ line.head? = some ';' then out
    else
      match cutAt ['='] line with
      | none => out
      | some (before, behind) =>
        let name := stripChars before
        if name = [] ∨ ' ' ∈ name then out
        else out.filter (·.1 ≠ name) ++ [(name, unquote (stripChars behind))]) []

/-- `_service_directives`, from the line `number` on in a section. -/
def directivesFrom : (inside : Text) → (number : Nat) → List Text → List (Nat × Text × Text)
  | _, _, [] => []
  | inside, number, raw :: rest =>
    let line := stripChars raw
    if line = [] ∨ line.head? = some '#' ∨ line.head? = some ';' then
      directivesFrom inside (number + 1) rest
    else if line.head? = some '[' ∧ line.getLast? = some ']' then
      directivesFrom line.tail.dropLast (number + 1) rest
    else if inside ≠ "Service".toList then directivesFrom inside (number + 1) rest
    else
      match cutAt ['='] line with
      | some (key, value) =>
        (number, stripChars key, stripChars value) :: directivesFrom inside (number + 1) rest
      | none => directivesFrom inside (number + 1) rest

/-- `_service_directives`: the line, key and value of each directive in `[Service]`. -/
def serviceDirectives (text : Text) : List (Nat × Text × Text) := directivesFrom
    [] 1 (splitLines text)

/-! ## The origin of a variable -/

inductive Kind
  | environment
  | environmentFile
  deriving Repr, DecidableEq

/-- Where a value is set: a line of a unit file, or an environment file that one names. -/
structure Source where
  unit : Text
  name : Text
  kind : Kind
  path : Text
  line : Option Nat
  value : Option Text
  declaredIn : Option Text
  deriving Repr, DecidableEq

/-- `Origin`: the source that wins and the assignments that it beats. -/
structure Origin extends Source where
  shadowed : List Source
  deriving Repr, DecidableEq

/-- What `find_origin` collects: the assignments of the variable, and the environment files with the
unit files that name them. -/
structure Walk where
  assignments : List Source
  envFiles : List (Text × Text)

/-- The assignments of a variable on a line. -/
def assignmentsOf (unit name path : Text) (number : Nat) (value : Text) : List Source :=
  (parseEnvironmentValue value).filterMap fun e =>
    if e.1 = name then
      some { unit, name, kind := .environment, path, line := some number, value := some e.2,
             declaredIn := none }
    else none

def Walk.directive (unit name path : Text) (st : Walk) (d : Nat × Text × Text) : Walk :=
  if d.2.1 = "Environment".toList then
    if d.2.2 = [] then { st with assignments := [] }
    else { st with assignments := st.assignments ++ assignmentsOf unit name path d.1 d.2.2 }
  else if d.2.1 = "EnvironmentFile".toList then
    if d.2.2 = [] then { st with envFiles := [] }
    else { st with envFiles := st.envFiles ++ [(d.2.2.dropWhile (· = '-'), path)] }
  else st

def walk (unit name : Text) (files : List UnitFile) : Walk :=
  files.foldl (fun st file => (serviceDirectives file.2).foldl (Walk.directive unit name file.1) st)
    ⟨[], []⟩

section read

variable (readEnvFile : Text → Option Text)

/-- A variable is in an environment file that can be read. -/
def setsIn (name : Text) (envFile : Text × Text) : Bool :=
  match readEnvFile envFile.1 with
  | none => false
  | some text => (parseEnvFile text).any (·.1 = name)

/-- Later environment files win; their values are not kept. -/
def fileHit (unit name : Text) (envFiles : List (Text × Text)) : Option Source :=
  envFiles.foldl (fun hit e =>
    if setsIn readEnvFile name e then
      some { unit, name, kind := .environmentFile, path := e.1, line := none, value := none,
             declaredIn := some e.2 }
    else hit) none

/-- `find_origin` -/
def findOrigin (unit name : Text) (files : List UnitFile) : Option Origin :=
  let st := walk unit name files
  match fileHit readEnvFile unit name st.envFiles with
  | some hit => some { toSource := hit, shadowed := st.assignments }
  | none =>
    match st.assignments.getLast? with
    | some last => some { toSource := last, shadowed := st.assignments.dropLast }
    | none => none

/-- The environment files that `find_origin` could not read. -/
def unreadable (unit name : Text) (files : List UnitFile) : List Text :=
  ((walk unit name files).envFiles.filter fun e => (readEnvFile e.1).isNone).map Prod.fst

end read

/-- A line of `systemctl show`, for the fragment and the drop-ins. -/
def showLine (shown : List Text × List Text) (line : Text) : List Text × List Text :=
  match cutAt ['='] line with
  | none => if line = "DropInPaths".toList then (shown.1, []) else shown
  | some (key, value) =>
    if key = "FragmentPath".toList ∧ stripChars value ≠ [] then ([stripChars value], shown.2)
    else if key = "DropInPaths".toList then (shown.1, words isSpace value)
    else shown

/-- `parse_show` -/
def parseShow (output : Text) : List Text × List Text := (splitLines output).foldl showLine ([], [])

/-! ## Writing a drop-in -/

/-- `_CONTROL` -/
def isControl (c : Char) : Bool := c.toNat ≤ 0x1f || c.toNat = 0x7f

/-- `control_characters`, the characters themselves. -/
def controlCharacters (value : Text) : List Char :=
  (value.filter isControl).dedup.insertionSort (· ≤ ·)

/-- `_CONTROL.sub(" ", s)` -/
def blankControl (s : Text) : Text := s.map fun c => if isControl c then ' ' else c

def isNameStart (c : Char) : Bool := c.isAlpha || c = '_'

def isNameChar (c : Char) : Bool := c.isAlphanum || c = '_'

/-- A text without the line feed that `$` lets stand at its end. -/
def chomp (s : Text) : Text := if s.getLast? = some '\n' then s.dropLast else s

/-- `_ENV_NAME`, of a whole text. -/
def isEnvName : Text → Bool
  | [] => false
  | c :: cs => isNameStart c && cs.all isNameChar

/-- `_ENV_NAME.match(name)` -/
def matchesEnvName (name : Text) : Bool := isEnvName name || isEnvName (chomp name)

def isUnitChar (c : Char) : Bool :=
  c.isAlphanum || c = '@' || c = '.' || c = '_' || c = ':' || c = '-'

/-- `_UNIT_NAME.match(unit)` -/
def matchesUnitName (unit : Text) : Bool :=
  (unit ≠ [] && unit.all isUnitChar) || (chomp unit ≠ [] && (chomp unit).all isUnitChar)

/-- `unit_name` -/
def unitName (unit : Text) : Text := if '.' ∈ unit then unit else unit ++ ".service".toList

def isSlugChar (c : Char) : Bool := ('a' ≤ c && c ≤ 'z') || c.isDigit

/-- `re.sub("[^a-z0-9]+", "-", s)` and `strip("-")`: the words of the characters that stay, joined.
-/
def slug (name : Text) : Text :=
  List.intercalate ['-'] (words (!isSlugChar ·) (name.map Char.toLower))

/-- `dropin_basename` -/
def dropinBasename (name : Text) (zs : Nat) : Text :=
  List.replicate zs 'z' ++ "-genus-config-".toList ++ slug name ++ ".conf".toList

/-- `_OWN.match(filename)`, its slug. -/
def ownSlug (filename : Text) : Option Text :=
  let rest := (chomp filename).dropWhile (· = 'z')
  let own := "-genus-config-".toList
  let ending := ".conf".toList
  if filename.head? = some 'z' ∧ own.isPrefixOf rest ∧ ending.isSuffixOf (rest.drop own.length) then
    let slug := (rest.drop own.length).take (rest.length - own.length - ending.length)
    if slug ≠ [] ∧ slug.all (fun c => isSlugChar c || c = '-') then some slug else none
  else none

/-- `_escape` -/
def escape (value : Text) : Text := replaceChar '%' ['%', '%'] (escapeQuoted value)

structure DropinPlan where
  unit : Text
  name : Text
  path : Text
  content : Text
  deriving Repr, DecidableEq

/-- `UnsafeValueError` and `DropinConflictError`. -/
inductive PlanError
  | envName
  | controlCharacters (found : List Char)
  | unitName
  | environmentFile (path : Text) (declaredIn : Option Text)
  | laterDropin (path : Text) (line : Option Nat) (basename : Text)
  deriving Repr, DecidableEq

/-- `while basename <= winner.name`; `none` where the fuel does not reach. -/
def basenameAfter (name winner : Text) : (fuel : Nat) → (zs : Nat) → Option Text
  | 0, _ => none
  | fuel + 1, zs =>
    if dropinBasename name zs ≤ winner then basenameAfter name winner fuel (zs + 1)
    else some (dropinBasename name zs)

/-- The directory and the file name of the drop-in. -/
def target (fuel : Nat) (name unit : Text) (origin : Option Origin) (override : Bool) :
    Except PlanError (Option (Text × Text)) :=
  let directory := "/etc/systemd/system/".toList ++ unit ++ ".d".toList
  let basename := dropinBasename name 2
  match origin with
  | none => .ok (some (directory, basename))
  | some o =>
    if o.kind = .environmentFile then .error (.environmentFile o.path o.declaredIn)
    else if ".d".toList.isSuffixOf (parentName o.path) then
      let winner := pathName o.path
      if ownSlug winner = some (slug name) then .ok (some (parentPath o.path, winner))
      else if basename < winner then
        if override then
          let zs := (winner.takeWhile (· = 'z')).length + 1
          .ok ((basenameAfter name winner fuel zs).map (directory, ·))
        else .error (.laterDropin o.path o.line basename)
      else .ok (some (directory, basename))
    else .ok (some (directory, basename))

/-- The lines above the section. -/
def header (name note : Text) (origin : Option Origin) : List Text :=
  ["# Written by `genus config set --apply`; re-run it to change this value.".toList,
    "# Setting: ".toList ++ name] ++
  (if note = [] then [] else ["# ".toList ++ note]) ++
  match origin with
  | none => []
  | some o => ["# Previously from: ".toList ++ blankControl o.path ++ [':'] ++
      match o.line with
      | some line => Nat.toDigits 10 line
      | none => "None".toList]

def content (name value note : Text) (origin : Option Origin) : Text :=
  List.intercalate ['\n'] (header name note origin ++
    ["[Service]".toList, "Environment=\"".toList ++ name ++ ['='] ++ escape value ++ ['"'], []])

/-- `plan_dropin`; no plan where the search for a name does not end within the fuel. -/
def planDropin (fuel : Nat) (name value unit : Text) (origin : Option Origin) (override : Bool)
    (note : Text) : Except PlanError (Option DropinPlan) :=
  if !matchesEnvName name then .error .envName
  else if controlCharacters value ≠ [] then .error (.controlCharacters (controlCharacters value))
  else if !matchesUnitName (unitName unit) then .error .unitName
  else
    match target fuel name (unitName unit) origin override with
    | .error error => .error error
    | .ok none => .ok none
    | .ok (some (directory, basename)) => .ok (some {
        unit := unitName unit
        name
        path := directory ++ '/' :: basename
        content := content name value (blankControl note) origin })

end GenusOs.Settings
