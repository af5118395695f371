import GenusOs.Python.Str
import Mathlib

/-!
# Provider credentials from the vault

The vault snapshot of the key pool and `reload_provider_keys`, which publishes the credentials of
the snapshot in the process environment and puts a displaced variable back when its vault row is
gone. An environment is what `os.environ` maps; its values hold no NUL, and setting one that does
raises.
-/

namespace GenusOs.Engine.KeyPool

open GenusOs.Python

/-! ## Names -/

/-- `^[a-z0-9][a-z0-9_.-]*$`, of the stripped and lower-cased text. -/
def validateComponent (value : String) : Option String :=
  let candidate := (strip value).toLower
  let letter := fun c : Char => c.isLower || c.isDigit
  match candidate.toList with
  | [] => none
  | c :: cs =>
    if letter c && cs.all (fun d => letter d || d ∈ ['_', '.', '-']) then some candidate else none

/-- The vault key of a credential of a provider; `provider` is a valid component. -/
def providerKey (provider : String) (position : Nat) : String :=
  "providers/" ++ provider ++ "/" ++
    if position = 1 then "api_key" else "api_key_" ++ toString position

/-- `vault_key.upper().replace("/", "_")`. -/
def envName (vaultKey : String) : String :=
  String.ofList (vaultKey.toList.map fun c => if c = '/' then '_' else c.toUpper)

structure ProviderSpec where
  id : String
  envVar : String
  deriving DecidableEq

def PROVIDERS : List ProviderSpec :=
  [{ id := "openrouter", envVar := "OPENROUTER_API_KEY" },
    { id := "anthropic", envVar := "ANTHROPIC_API_KEY" },
    { id := "openai", envVar := "OPENAI_API_KEY" },
    { id := "gemini", envVar := "GEMINI_API_KEY" },
    { id := "deepseek", envVar := "DEEPSEEK_API_KEY" }]

theorem providers_valid : ∀ spec ∈ PROVIDERS, validateComponent spec.id = some spec.id := by
  decide +kernel

def MAX_POOL_KEYS : Nat := 16

/-- A credential slot of a provider: the variable it is published under and the name under which
the vault exports it. -/
structure Slot where
  var : String
  exportName : String
  deriving DecidableEq

/-- The slots of a provider, in the order of the loop over `range(1, _MAX_POOL_KEYS + 1)`. -/
def ProviderSpec.slots (spec : ProviderSpec) : List Slot :=
  (List.range' 1 MAX_POOL_KEYS).map fun index =>
    { var := if index = 1 then spec.envVar else spec.envVar ++ "_" ++ toString index
      exportName := envName (providerKey spec.id index) }

@[irreducible] def slots : List Slot := PROVIDERS.flatMap ProviderSpec.slots

/-- `_provider_env_names`. -/
def providerEnvNames : List String := slots.map (·.exportName)

/-! ## The vault snapshot -/

/-- A `dict[str, str]`. -/
abbrev Secrets := String → Option String

def VAULT_RETRY_SECONDS : Rat := 60

structure Snapshot where
  secrets : Option Secrets := none
  retryAfter : Option Rat := none

/-- `vault_snapshot`. `vault` is what `_vault_export` returns, or `none` where it raises; what the
snapshot degrades to then is an empty one, which is not kept. -/
def vaultSnapshot (refresh : Bool) (now : Rat) (vault : Option Secrets) (s : Snapshot) :
    Snapshot × Secrets :=
  let s := if refresh then {} else s
  match s.secrets with
  | some secrets => (s, secrets)
  | none =>
    if s.retryAfter.any (now < ·) then (s, fun _ => none)
    else match vault with
      | none => ({ s with retryAfter := some (now + VAULT_RETRY_SECONDS) }, fun _ => none)
      | some exported =>
        let secrets := fun name => if name ∈ providerEnvNames then exported name else none
        ({ secrets := some secrets, retryAfter := none }, secrets)

/-! ## The environment -/

/-- A value an environment can hold. -/
abbrev EnvValue := { s : String // '\x00' ∉ s.toList }

/-- `os.environ` and `_env_displaced`. -/
structure Process where
  env : String → Option EnvValue
  displaced : String → Option (Option EnvValue) := fun _ => none

namespace Process

/-- Remember the value of a variable the vault is about to displace, once. -/
def displace (p : Process) (var : String) : Process :=
  if (p.displaced var).isSome then p
  else { p with displaced := Function.update p.displaced var (some (p.env var)) }

/-- `process_env_set`; a value with a NUL raises a `ValueError`. -/
def setVar (p : Process) (var value : String) : Process × Bool :=
  if h : '\x00' ∉ value.toList then
    ({ p with env := Function.update p.env var (some ⟨value, h⟩) }, false)
  else (p, true)

/-- Put back what a vanished credential displaced. -/
def restore (p : Process) (var : String) (previous : Option EnvValue) : Process :=
  { env := Function.update p.env var previous
    displaced := Function.update p.displaced var none }

/-- One turn of the loop, and whether it raised. -/
def loadSlot (p : Process) (var value : String) : Process × Bool :=
  if value ≠ "" then (p.displace var).setVar var value
  else match p.displaced var with
    | some previous => (p.restore var previous, false)
    | none => (p, false)

end Process

/-- `(exported.get(…) or "").strip()`. -/
def Slot.value (slot : Slot) (exported : Secrets) : String :=
  strip ((exported slot.exportName).getD "")

/-- The loop over the slots; an exception leaves it. -/
def loadSlots (exported : Secrets) : List Slot → Process → Process × Bool
  | [], p => (p, false)
  | slot :: rest, p =>
    match p.loadSlot slot.var (slot.value exported) with
    | (p, true) => (p, true)
    | (p, false) => loadSlots exported rest p

structure Pool where
  snapshot : Snapshot := {}
  process : Process

structure ReloadResult where
  reloaded : List String
  slots : Nat
  deriving DecidableEq

/-- What a reload reports: the providers with a credential in the vault, and their slots. -/
def reloadResult (exported : Secrets) : ReloadResult :=
  let touched := fun slot : Slot => slot.value exported ≠ ""
  { reloaded := (PROVIDERS.filter fun spec => spec.slots.any touched).map (·.id)
    slots := slots.countP touched }

/-- `reload_provider_keys`; the result is `none` where it raises. -/
def reloadProviderKeys (now : Rat) (vault : Option Secrets) (pool : Pool) :
    Pool × Option ReloadResult :=
  let (snapshot, exported) := vaultSnapshot true now vault pool.snapshot
  let (process, raised) := loadSlots exported slots pool.process
  ({ snapshot, process }, if raised then none else some (reloadResult exported))

end GenusOs.Engine.KeyPool
