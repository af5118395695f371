import GenusOs.Engine.SecretsReload
import Mathlib

/-!
# The keys a provider dials

`resolve_keys` walks the slots of a provider over the vault and the environment, `keys_from_env`
over the environment alone. After a reload the environment holds the credentials of the vault, so
that both find the same value in each slot, stop at the same gap and drop the same duplicates.

* `walk_eq_takeWhile`: the run without a gap is what stands in front of the first empty slot.
* `resolution_agrees`: after any successful reloads both walks give the same keys, and one more
  reload of the same credentials changes nothing.
-/

namespace GenusOs.Engine.KeyPool

open GenusOs.Python

/-! ## The two walks -/

inductive KeySource | vault | env
  deriving DecidableEq, Repr

structure ResolvedKey where
  /-- The storage slot, not a display index. -/
  position : Nat
  key : String
  source : KeySource
  deriving DecidableEq, Repr

/-- `provider_by_id` -/
def providerById (providerId : String) : Option ProviderSpec :=
  PROVIDERS.find? (·.id = (strip providerId).toLower)

/-- `(process_env_get(name) or "").strip()`. -/
def envValue (vars : String → Option String) (name : String) : String :=
  strip ((vars name).getD "")

/-- The slots from a position on that hold a key. -/
def scanFrom (exported : Secrets) (vars : String → Option String) :
    Nat → List Slot → List ResolvedKey
  | _, [] => []
  | index, slot :: rest =>
    if slot.value exported ≠ "" then
      ⟨index, slot.value exported, .vault⟩ :: scanFrom exported vars (index + 1) rest
    else if envValue vars slot.var ≠ "" then
      ⟨index, envValue vars slot.var, .env⟩ :: scanFrom exported vars (index + 1) rest
    else scanFrom exported vars (index + 1) rest

/-- `scan_slots`; `exported` is the snapshot that `_vault_lookup` reads. -/
def scanSlots (exported : Secrets) (vars : String → Option String) (spec : ProviderSpec) :
    List ResolvedKey := scanFrom exported vars 1 spec.slots

/-- `_contiguous_slots`, from an expected position on. -/
def contiguousSlots : Nat → List ResolvedKey → List ResolvedKey
  | _, [] => []
  | expected, item :: rest =>
    if item.position ≠ expected then [] else item :: contiguousSlots (expected + 1) rest

/-- The loop of `resolve_keys`, which dials a key once. -/
def dialled (seen : List String) : List ResolvedKey → List ResolvedKey
  | [] => []
  | item :: rest =>
    if item.key ∈ seen then dialled seen rest else item :: dialled (item.key :: seen) rest

/-- `resolve_keys`. -/
def resolveKeys (now : Rat) (vault : Option Secrets) (pool : Pool) (providerId : String) :
    List ResolvedKey :=
  match providerById providerId with
  | none => []
  | some spec =>
    let exported := (vaultSnapshot false now vault pool.snapshot).2
    dialled [] (contiguousSlots 1 (scanSlots exported pool.process.vars spec))

/-- The loop of `keys_from_env`. -/
def keysLoop (vars : String → Option String) (seen : List String) : List String → List String
  | [] => []
  | name :: names =>
    let value := envValue vars name
    if value = "" then []
    else if value ∈ seen then keysLoop vars seen names
    else value :: keysLoop vars (value :: seen) names

/-- `keys_from_env`. -/
def keysFromEnv (vars : String → Option String) (var : String) : List String :=
  keysLoop vars [] ((List.range' 1 MAX_POOL_KEYS).map fun index =>
    if index = 1 then var else var ++ "_" ++ toString index)

variable {exported : Secrets} {vars : String → Option String} {slot : Slot} {l : List Slot}
  {p q : Process} {pool s t : Pool} {spec : ProviderSpec}

/-! ## The same keys -/

theorem scanFrom_position {n : Nat} {item : ResolvedKey} (h : item ∈ scanFrom exported vars n l) :
    n ≤ item.position := by
  induction l generalizing n with
  | nil => cases h
  | cons slot rest ih =>
    have hrest : item ∈ scanFrom exported vars (n + 1) rest → n ≤ item.position :=
      fun hmem => (Nat.le_succ n).trans (ih hmem)
    unfold scanFrom at h
    split at h
    · rcases List.mem_cons.mp h with rfl | h
      · exact le_rfl
      · exact hrest h
    · split at h
      · rcases List.mem_cons.mp h with rfl | h
        · exact le_rfl
        · exact hrest h
      · exact hrest h

/-- The vault's credential of a slot is in the environment. -/
def Published (exported : Secrets) (vars : String → Option String) (l : List Slot) : Prop :=
  ∀ slot ∈ l, slot.value exported ≠ "" → envValue vars slot.var = slot.value exported

/-- **The run without a gap is what stands in front of the first empty slot.** -/
theorem walk_eq_takeWhile (h : Published exported vars l) (n : Nat) :
    (contiguousSlots n (scanFrom exported vars n l)).map (·.key) =
      (l.map fun slot => envValue vars slot.var).takeWhile (· ≠ "") := by
  induction l generalizing n with
  | nil => rfl
  | cons slot rest ih =>
    have hrest := ih (fun slot hslot => h slot (List.mem_cons_of_mem _ hslot)) (n + 1)
    rw [List.map_cons]
    by_cases hempty : envValue vars slot.var = ""
    · have hvault : slot.value exported = "" := by
        by_contra hvalue
        exact hvalue ((h slot List.mem_cons_self hvalue).symm.trans hempty)
      rw [scanFrom, if_neg (not_not_intro hvault), if_neg (not_not_intro hempty),
        List.takeWhile_cons_of_neg (by simpa using hempty)]
      -- the next key, if there is one, stands behind the gap
      cases hscan : scanFrom exported vars (n + 1) rest with
      | nil => rfl
      | cons item items =>
        have hlt : n + 1 ≤ item.position := scanFrom_position (hscan ▸ List.mem_cons_self)
        rw [contiguousSlots, if_pos (by omega)]
        rfl
    · rw [List.takeWhile_cons_of_pos (by simpa using hempty), ← hrest, scanFrom]
      split
      · next hvalue =>
        rw [contiguousSlots, if_neg (not_not_intro rfl), List.map_cons,
          h slot List.mem_cons_self hvalue]
      · rw [contiguousSlots, if_neg (not_not_intro rfl), List.map_cons]

theorem keysLoop_eq (seen names : List String) (items : List ResolvedKey)
    (h : items.map (·.key) = (names.map (envValue vars)).takeWhile (· ≠ "")) :
    (dialled seen items).map (·.key) = keysLoop vars seen names := by
  induction names generalizing seen items with
  | nil =>
    rw [List.map_eq_nil_iff.mp h]
    rfl
  | cons name names ih =>
    rw [List.map_cons] at h
    rw [keysLoop]
    by_cases hempty : envValue vars name = ""
    · rw [List.takeWhile_cons_of_neg (by simpa using hempty)] at h
      rw [List.map_eq_nil_iff.mp h, if_pos hempty]
      rfl
    · rw [List.takeWhile_cons_of_pos (by simpa using hempty)] at h
      rw [if_neg hempty]
      cases items with
      | nil => cases h
      | cons item items =>
        rw [List.map_cons] at h
        obtain ⟨hkey, hitems⟩ := List.cons.inj h
        rw [dialled, hkey]
        split
        · exact ih seen items hitems
        · rw [List.map_cons, hkey, ih _ items hitems]

/-- The variables of a provider's slots. -/
theorem keysFromEnv_eq : keysFromEnv vars spec.envVar = keysLoop vars
    [] (spec.slots.map (·.var)) := by
  unfold keysFromEnv ProviderSpec.slots
  rw [List.map_map]
  rfl

theorem mem_slots (hspec : spec ∈ PROVIDERS) (hslot : slot ∈ spec.slots) : slot ∈ slots := by
  unfold slots
  exact List.mem_flatMap.mpr ⟨spec, hspec, hslot⟩

theorem providerById_id (hspec : spec ∈ PROVIDERS) : providerById spec.id = some spec := by
  have hall : ∀ spec ∈ PROVIDERS, providerById spec.id = some spec := by decide +kernel
  exact hall spec hspec

/-- After the loop the credentials are in the environment. -/
theorem loadSlots_published (h : loadSlots exported slots p = (q, false)) :
    Published exported q.vars slots := by
  intro slot hslot hvalue
  have hafter := loadSlots_slot slots_nodup h hslot
  rw [if_pos hvalue] at hafter
  unfold envValue
  rw [hafter.1]
  exact strip_strip _

/-- The loop over what is published already does nothing. -/
theorem loadSlots_again (h : ∀ slot ∈ l, if slot.value exported ≠ "" then
      p.vars slot.var = some (slot.value exported) ∧ (p.displaced slot.var).isSome = true
    else p.displaced slot.var = none) : loadSlots exported l p = (p, false) := by
  induction l with
  | nil => rfl
  | cons slot rest ih =>
    have hslot := h slot List.mem_cons_self
    have hload : p.loadSlot slot.var (slot.value exported) = (p, false) := by
      unfold Process.loadSlot
      split
      · next hvalue =>
        rw [if_pos hvalue] at hslot
        obtain ⟨⟨value, hnul⟩, henv, hval⟩ := Option.map_eq_some_iff.mp hslot.1
        have hdisplace : p.displace slot.var = p := by
          unfold Process.displace
          rw [if_pos hslot.2]
        have hval : value = slot.value exported := hval
        subst hval
        rw [hdisplace, Process.setVar, dif_pos hnul, ← henv, Function.update_eq_self]
      · next hvalue =>
        rw [if_neg hvalue] at hslot
        rw [hslot]
    unfold loadSlots
    rw [hload]
    exact ih fun slot hslot => h slot (List.mem_cons_of_mem _ hslot)

/-! ## After a reload -/

theorem reload_snapshot (now : Rat) (vault : Secrets) (pool : Pool) :
    (reloadProviderKeys now (some vault) pool).1.snapshot =
      (vaultSnapshot true now (some vault) pool.snapshot).1 := rfl

/-- The same credentials make the same snapshot, whatever was there. -/
theorem snapshot_congr {now later : Rat} {vault vault' : Secrets} {snapshot snapshot' : Snapshot}
    (h : ∀ name ∈ providerEnvNames, vault' name = vault name) :
    vaultSnapshot true later (some vault') snapshot' =
      vaultSnapshot true now (some vault) snapshot := by
  have hsame : (fun name => if name ∈ providerEnvNames then vault' name else none) =
      fun name => if name ∈ providerEnvNames then vault name else none := by
    funext name
    split
    · next hname => exact h name hname
    · rfl
  simp only [vaultSnapshot, ↓reduceIte, Option.any_none, Bool.false_eq_true, hsame]

/-- **The environment and the vault agree after a reload.** After any successful reloads each
provider dials the keys that its variable gives in the environment, and one more reload of the same
credentials changes nothing. -/
theorem resolution_agrees {now : Rat} {vault : Secrets} {as : List (Rat × Secrets)}
    (hrun : reloads.Run s (as ++ [(now, vault)]) t) :
    (∀ spec ∈ PROVIDERS, ∀ (clock : Rat) (export' : Option Secrets),
      (resolveKeys clock export' t spec.id).map (·.key) =
        keysFromEnv t.process.vars spec.envVar) ∧
    ∀ (later : Rat) (vault' : Secrets), (∀ name ∈ providerEnvNames, vault' name = vault name) →
      (reloadProviderKeys later (some vault') t).1 = t ∧
        (reloadProviderKeys later (some vault') t).2.isSome = true := by
  obtain ⟨u, -, hlast⟩ := hrun.snoc_inv
  have hloop : loadSlots (vaultSnapshot true now (some vault) u.snapshot).2 slots u.process =
      (t.process, false) := reloads_step hlast
  obtain ⟨r, hreload⟩ := hlast
  have hsnapshot : t.snapshot = (vaultSnapshot true now (some vault) u.snapshot).1 := by
    rw [← reload_snapshot, hreload]
  constructor
  · intro spec hspec clock export'
    have hexported : (vaultSnapshot false clock export' t.snapshot).2 =
        (vaultSnapshot true now (some vault) u.snapshot).2 := by
      rw [hsnapshot]
      rfl
    have hpublished : Published (vaultSnapshot true now (some vault) u.snapshot).2 t.process.vars
        spec.slots := fun slot hslot => loadSlots_published hloop slot (mem_slots hspec hslot)
    unfold resolveKeys
    rw [providerById_id hspec]
    dsimp only
    rw [hexported, keysFromEnv_eq]
    refine keysLoop_eq [] _ _ ?_
    rw [List.map_map]
    exact walk_eq_takeWhile hpublished 1
  · intro later vault' hsame
    have hsnap := @snapshot_congr now later vault vault' u.snapshot t.snapshot hsame
    have hagain : loadSlots (vaultSnapshot true later (some vault') t.snapshot).2 slots t.process =
        (t.process, false) := by
      rw [hsnap]
      exact loadSlots_again fun slot hslot => loadSlots_slot slots_nodup hloop hslot
    have hresult := reload_result later (some vault') t
    have hprocess := reload_process later (some vault') t
    have hpool := reload_snapshot later vault' t
    rw [hagain] at hresult hprocess
    rw [hsnap, ← hsnapshot] at hpool
    generalize reloadProviderKeys later (some vault') t = reloaded at hresult hprocess hpool ⊢
    obtain ⟨⟨snapshot, process⟩, result⟩ := reloaded
    cases hpool
    cases hprocess
    exact ⟨rfl, hresult ▸ rfl⟩

theorem vars_oneKeyVault : (reloadProviderKeys 0 (some oneKeyVault) freshPool).1.process.vars =
    overlay (fun _ => none) oneKeyVault := by
  rw [(loadSlots_overlays (fun _ _ => rfl) (reloads_step (reload_step oneKeyVault_ok))).1,
    overlay_snapshot]
  rfl

/-- A credential that was read from the vault is dialled, and is in the environment. -/
theorem published_key_dialled :
    keysFromEnv (reloadProviderKeys 0 (some oneKeyVault) freshPool).1.process.vars
      "OPENROUTER_API_KEY" = ["sk-1"] ∧
    (resolveKeys 1 none (reloadProviderKeys 0 (some oneKeyVault) freshPool).1 "openrouter").map
      (·.key) = ["sk-1"] := by
  have hkeys : keysFromEnv (reloadProviderKeys 0 (some oneKeyVault) freshPool).1.process.vars
      "OPENROUTER_API_KEY" = ["sk-1"] := by
    rw [vars_oneKeyVault]
    decide +kernel
  have hagrees :=
    (@resolution_agrees freshPool _ 0 oneKeyVault [] (.single (reload_step oneKeyVault_ok))).1
      { id := "openrouter", envVar := "OPENROUTER_API_KEY" } (by decide) 1 none
  exact ⟨hkeys, hagrees.trans hkeys⟩

end GenusOs.Engine.KeyPool
