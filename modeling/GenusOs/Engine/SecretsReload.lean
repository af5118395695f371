import GenusOs.Engine.KeyPool
import GenusOs.Library.Run
import Mathlib

/-!
# Reloading the provider credentials

Three maps are kept in step: the environment, the values it had before the vault displaced them,
and the snapshot. What ties them together is the `original` of a variable, its displaced value or
else its present one: no reload, failed or not, changes it.

A vault that cannot be read looks like an empty one, so a failed reload puts every displaced
variable back.

* `reload_failed_iff`: a failed reload changes nothing exactly when nothing is displaced.
* `reload_overlays`: successful reloads leave the original environment under the last snapshot.
-/

namespace GenusOs.Engine.KeyPool

open GenusOs.Python

/-- What a variable was before any credential displaced it. -/
def Process.original (p : Process) (var : String) : Option EnvValue :=
  (p.displaced var).getD (p.env var)

/-- `dict(os.environ)`. -/
def Process.vars (p : Process) (var : String) : Option String := (p.env var).map (·.val)

/-- An environment under the credentials of a snapshot. -/
def overlay (vars : String → Option String) (exported : Secrets) (var : String) : Option String :=
  match slots.find? (·.var = var) with
  | some slot => if slot.value exported ≠ "" then some (slot.value exported) else vars var
  | none => vars var

theorem slots_nodup : (slots.map (·.var)).Nodup := by decide +kernel

variable {p q : Process} {var var' value : String} {exported : Secrets} {slot : Slot}
  {rest : List Slot} {pool s t : Pool} {raised : Bool}

/-! ## One slot -/

theorem displace_env : (p.displace var).env = p.env := by
  unfold Process.displace
  split
  · rfl
  · rfl

theorem displace_other (h : var' ≠ var) : (p.displace var).displaced var' = p.displaced var' := by
  unfold Process.displace
  split
  · rfl
  · exact Function.update_of_ne h _ _

theorem displaced_displace : ((p.displace var).displaced var).isSome = true := by
  unfold Process.displace
  split
  · next h => exact h
  · simp

theorem original_displace : (p.displace var).original = p.original := by
  funext var'
  unfold Process.displace
  split
  · rfl
  · next h =>
    by_cases hv : var' = var
    · subst hv
      have hnone : p.displaced var' = none := by simpa using h
      simp [Process.original, hnone]
    · simp [Process.original, hv]

theorem setVar_displaced : (p.setVar var value).1.displaced = p.displaced := by
  unfold Process.setVar
  split
  · rfl
  · rfl

theorem setVar_other (h : var' ≠ var) : (p.setVar var value).1.env var' = p.env var' := by
  unfold Process.setVar
  split
  · exact Function.update_of_ne h _ _
  · rfl

/-- A displaced variable can be set without touching what it was. -/
theorem original_setVar (h : (p.displaced var).isSome = true) :
    (p.setVar var value).1.original = p.original := by
  funext var'
  unfold Process.original
  rw [setVar_displaced]
  by_cases hv : var' = var
  · subst hv
    obtain ⟨previous, hp⟩ := Option.isSome_iff_exists.mp h
    rw [hp]
    rfl
  · rw [setVar_other hv]

theorem vars_setVar (h : (p.setVar var value).2 = false) :
    (p.setVar var value).1.vars var = some value := by
  unfold Process.setVar at h ⊢
  split
  · simp [Process.vars]
  · next hnul =>
    rw [dif_neg hnul] at h
    cases h

theorem original_restore {previous : Option EnvValue} (h : p.displaced var = some previous) :
    (p.restore var previous).original = p.original := by
  funext var'
  by_cases hv : var' = var
  · subst hv
    simp [Process.original, Process.restore, h]
  · simp [Process.original, Process.restore, hv]

/-- **A slot keeps the originals.** -/
theorem original_loadSlot : (p.loadSlot var value).1.original = p.original := by
  unfold Process.loadSlot
  split
  · exact (original_setVar displaced_displace).trans original_displace
  · split
    · next h => exact original_restore h
    · rfl

/-- A slot touches its own variable only. -/
theorem loadSlot_other (value : String) (h : var' ≠ var) :
    (p.loadSlot var value).1.env var' = p.env var' ∧
      (p.loadSlot var value).1.displaced var' = p.displaced var' := by
  unfold Process.loadSlot
  split
  · constructor
    · rw [setVar_other h, displace_env]
    · rw [setVar_displaced, displace_other h]
  · split
    · exact ⟨Function.update_of_ne h _ _, Function.update_of_ne h _ _⟩
    · exact ⟨rfl, rfl⟩

theorem loadSlot_value (hvalue : value ≠ "") (h : (p.loadSlot var value).2 = false) :
    (p.loadSlot var value).1.vars var = some value := by
  unfold Process.loadSlot at h ⊢
  rw [if_pos hvalue] at h ⊢
  exact vars_setVar h

theorem displaced_loadSlot (hvalue : value ≠ "") :
    ((p.loadSlot var value).1.displaced var).isSome = true := by
  unfold Process.loadSlot
  rw [if_pos hvalue, setVar_displaced]
  exact displaced_displace

theorem loadSlot_empty (p : Process) (var : String) :
    (p.loadSlot var "").1.displaced var = none ∧ (p.loadSlot var "").2 = false := by
  unfold Process.loadSlot
  rw [if_neg (not_not_intro rfl)]
  split
  · exact ⟨Function.update_self _ _ _, rfl⟩
  · next h => exact ⟨h, rfl⟩

/-! ## The loop -/

theorem loadSlots_cons (h : loadSlots exported (slot :: rest) p = (q, false)) :
    (p.loadSlot slot.var (slot.value exported)).2 = false ∧
      loadSlots exported rest (p.loadSlot slot.var (slot.value exported)).1 = (q, false) := by
  unfold loadSlots at h
  split at h
  · cases h
  · next p' hload =>
    rw [hload]
    exact ⟨rfl, h⟩

/-- Without a NUL in a credential the loop does not raise. -/
theorem loadSlots_ok {l : List Slot} (h : ∀ slot ∈ l, '\x00' ∉ (slot.value exported).toList) :
    (loadSlots exported l p).2 = false := by
  induction l generalizing p with
  | nil => rfl
  | cons slot rest ih =>
    have hok : (p.loadSlot slot.var (slot.value exported)).2 = false := by
      unfold Process.loadSlot Process.setVar
      split
      · rw [dif_pos (h slot List.mem_cons_self)]
      · split
        · rfl
        · rfl
    unfold loadSlots
    split
    · next hload =>
      rw [hload] at hok
      cases hok
    · exact ih fun slot hslot => h slot (List.mem_cons_of_mem _ hslot)

theorem original_loadSlots {l : List Slot} (h : loadSlots exported l p = (q, raised)) :
    q.original = p.original := by
  induction l generalizing p with
  | nil =>
    cases h
    rfl
  | cons slot rest ih =>
    have hslot : (p.loadSlot slot.var (slot.value exported)).1.original = p.original :=
      original_loadSlot
    unfold loadSlots at h
    split at h
    · next p' hload =>
      cases h
      rw [hload] at hslot
      exact hslot
    · next p' hload =>
      rw [hload] at hslot
      exact (ih h).trans hslot

theorem loadSlots_other {l : List Slot} (h : loadSlots exported l p = (q, false))
    (hvar : var ∉ l.map (·.var)) : q.env var = p.env var ∧ q.displaced var = p.displaced var := by
  induction l generalizing p with
  | nil =>
    cases h
    exact ⟨rfl, rfl⟩
  | cons slot rest ih =>
    rw [List.map_cons, List.mem_cons, not_or] at hvar
    obtain ⟨-, hrest⟩ := loadSlots_cons h
    have hother := loadSlot_other (p := p) (slot.value exported) hvar.1
    obtain ⟨henv, hdisplaced⟩ := ih hrest hvar.2
    exact ⟨henv.trans hother.1, hdisplaced.trans hother.2⟩

/-- **A slot after the loop**: it holds its credential, or its variable is not displaced. -/
theorem loadSlots_slot {l : List Slot} (hnodup : (l.map (·.var)).Nodup)
    (h : loadSlots exported l p = (q, false)) (hslot : slot ∈ l) :
    if slot.value exported ≠ "" then
      q.vars slot.var = some (slot.value exported) ∧ (q.displaced slot.var).isSome = true
    else q.displaced slot.var = none := by
  induction l generalizing p with
  | nil => cases hslot
  | cons first rest ih =>
    rw [List.map_cons, List.nodup_cons] at hnodup
    obtain ⟨hok, hrest⟩ := loadSlots_cons h
    rcases List.mem_cons.mp hslot with rfl | hslot
    · -- no later slot has this variable
      obtain ⟨henv, hdisplaced⟩ := loadSlots_other hrest hnodup.1
      split
      · next hvalue =>
        rw [Process.vars, henv, hdisplaced]
        exact ⟨loadSlot_value hvalue hok, displaced_loadSlot hvalue⟩
      · next hvalue =>
        rw [hdisplaced, not_not.mp hvalue]
        exact (loadSlot_empty _ _).1
    · exact ih hnodup.2 hrest hslot

/-! ## A reload -/

/-- A variable is displaced only where the pool has a slot for it. -/
def Process.Clean (p : Process) : Prop := ∀ var, var ∉ slots.map (·.var) → p.displaced var = none

theorem vars_of_undisplaced (h : p.displaced var = none) :
    p.vars var = (p.original var).map (·.val) := by
  rw [Process.vars, Process.original, h]
  rfl

/-- The loop over all slots leaves the originals under the credentials. -/
theorem loadSlots_overlays (hclean : p.Clean) (h : loadSlots exported slots p = (q, false)) :
    q.vars = overlay (fun var => (p.original var).map (·.val)) exported ∧ q.Clean := by
  have hother : q.Clean := by
    intro var hvar
    rw [(loadSlots_other h hvar).2]
    exact hclean var hvar
  refine ⟨?_, hother⟩
  funext var
  rw [← original_loadSlots h]
  unfold overlay
  split
  · next slot hfind =>
    have hmem := List.mem_of_find?_eq_some hfind
    have hvar : slot.var = var := by simpa using List.find?_some hfind
    have hslot := loadSlots_slot slots_nodup h hmem
    rw [hvar] at hslot
    split
    · next hvalue =>
      rw [if_pos hvalue] at hslot
      exact hslot.1
    · next hvalue =>
      rw [if_neg hvalue] at hslot
      exact vars_of_undisplaced hslot
  · next hfind =>
    apply vars_of_undisplaced
    apply hother
    intro hvar
    obtain ⟨slot, hslot, hv⟩ := List.mem_map.mp hvar
    have := List.find?_eq_none.mp hfind slot hslot
    simp [hv] at this

/-- The snapshot loses no credential a slot asks for. -/
theorem value_snapshot {now : Rat} {vault : Secrets} {snapshot : Snapshot} (h : slot ∈ slots) :
    slot.value (vaultSnapshot true now (some vault) snapshot).2 = slot.value vault := by
  have hname : slot.exportName ∈ providerEnvNames := List.mem_map_of_mem h
  simp [vaultSnapshot, Slot.value, hname]

theorem overlay_snapshot {now : Rat} {vault : Secrets} {snapshot : Snapshot}
    {vars : String → Option String} :
    overlay vars (vaultSnapshot true now (some vault) snapshot).2 = overlay vars vault := by
  funext var
  unfold overlay
  split
  · next slot hfind => rw [value_snapshot (List.mem_of_find?_eq_some hfind)]
  · rfl

/-! ## A failed read -/

/-- What an unreadable vault degrades to. -/
def noSecrets : Secrets := fun _ => none

theorem value_noSecrets : slot.value noSecrets = "" := rfl

theorem loadSlots_noSecrets {l : List Slot} : (loadSlots noSecrets l p).2 = false := by
  apply loadSlots_ok
  intro slot _
  rw [value_noSecrets]
  decide

/-- With nothing to put back the loop over nothing changes nothing. -/
theorem loadSlots_undisplaced {l : List Slot} (h : ∀ slot ∈ l, p.displaced slot.var = none) :
    loadSlots noSecrets l p = (p, false) := by
  induction l with
  | nil => rfl
  | cons slot rest ih =>
    have hfirst : p.loadSlot slot.var "" = (p, false) := by
      unfold Process.loadSlot
      rw [if_neg (not_not_intro rfl), h slot List.mem_cons_self]
    unfold loadSlots
    rw [value_noSecrets, hfirst]
    exact ih fun slot hslot => h slot (List.mem_cons_of_mem _ hslot)

theorem reload_process (now : Rat) (vault : Option Secrets) (pool : Pool) :
    (reloadProviderKeys now vault pool).1.process =
      (loadSlots (vaultSnapshot true now vault pool.snapshot).2 slots pool.process).1 := rfl

theorem reload_result (now : Rat) (vault : Option Secrets) (pool : Pool) :
    (reloadProviderKeys now vault pool).2 =
      if (loadSlots (vaultSnapshot true now vault pool.snapshot).2 slots pool.process).2 then none
      else some (reloadResult (vaultSnapshot true now vault pool.snapshot).2) := rfl

/-- A failed reload changes nothing exactly when nothing is displaced. -/
theorem reload_failed_iff {now : Rat} :
    (reloadProviderKeys now none pool).1.process = pool.process ↔
      ∀ slot ∈ slots, pool.process.displaced slot.var = none := by
  have hempty : (vaultSnapshot true now none pool.snapshot).2 = noSecrets := rfl
  rw [reload_process, hempty]
  constructor
  · intro hsame slot hslot
    have hload : loadSlots noSecrets slots pool.process = (pool.process, false) :=
      Prod.ext hsame loadSlots_noSecrets
    simpa [value_noSecrets] using loadSlots_slot slots_nodup hload hslot
  · intro h
    rw [loadSlots_undisplaced h]

/-! ## Successful reloads -/

/-- Reloads that read the vault and do not raise. -/
def reloads : System Pool (Rat × Secrets) where
  init pool := ∀ var, pool.process.displaced var = none
  step s a t := ∃ r, reloadProviderKeys a.1 (some a.2) s = (t, some r)

theorem reloads_step {a : Rat × Secrets} (h : reloads.step s a t) :
    loadSlots (vaultSnapshot true a.1 (some a.2) s.snapshot).2 slots s.process =
      (t.process, false) := by
  obtain ⟨r, hr⟩ := h
  have hprocess := reload_process a.1 (some a.2) s
  have hresult := reload_result a.1 (some a.2) s
  rw [hr] at hprocess hresult
  split at hresult
  · cases hresult
  · next hraised => exact Prod.ext hprocess.symm (by simpa using hraised)

/-- A vault without a NUL is reloaded. -/
theorem reload_step {now : Rat} {vault : Secrets}
    (h : ∀ slot ∈ slots, '\x00' ∉ (slot.value vault).toList) :
    reloads.step pool (now, vault) (reloadProviderKeys now (some vault) pool).1 := by
  have hok : (loadSlots (vaultSnapshot true now (some vault) pool.snapshot).2 slots
      pool.process).2 = false := by
    apply loadSlots_ok
    intro slot hslot
    rw [value_snapshot hslot]
    exact h slot hslot
  refine ⟨reloadResult (vaultSnapshot true now (some vault) pool.snapshot).2, Prod.ext rfl ?_⟩
  rw [reload_result, hok]
  rfl

/-- A credential that was published is gone after a failed reload. -/
theorem failed_reload_drops {now later : Rat} {vault : Secrets}
    (hfresh : reloads.init pool) (hload : reloads.step pool (now, vault) t)
    (hfind : slots.find? (·.var = var) = some slot) (hvalue : slot.value vault ≠ "")
    (hnew : pool.process.vars var ≠ some (slot.value vault)) :
    (reloadProviderKeys later none t).1.process ≠ t.process := by
  intro hsame
  have hloop := reloads_step hload
  have hvar : slot.var = var := by simpa using List.find?_some hfind
  have hundisplaced := reload_failed_iff.mp hsame slot (List.mem_of_find?_eq_some hfind)
  rw [hvar] at hundisplaced
  -- nothing is displaced, so the variable has its original value
  have horiginal := vars_of_undisplaced hundisplaced
  rw [original_loadSlots hloop, ← vars_of_undisplaced (hfresh var)] at horiginal
  have hpublished := congrFun (loadSlots_overlays (fun var _ => hfresh var) hloop).1 var
  rw [overlay_snapshot, overlay, hfind] at hpublished
  simp only [ne_eq, hvalue, not_false_eq_true, ↓reduceIte] at hpublished
  exact hnew (horiginal.symm.trans hpublished)

/-- What a run of reloads keeps. -/
structure Kept (original : String → Option EnvValue) (p : Process) : Prop where
  original : p.original = original
  clean : p.Clean

theorem reloads_kept {a : Rat × Secrets} {original : String → Option EnvValue}
    (hi : Kept original s.process) (h : reloads.step s a t) : Kept original t.process where
  original := (original_loadSlots (reloads_step h)).trans hi.original
  clean := (loadSlots_overlays hi.clean (reloads_step h)).2

/-- **Secrets reload.** Where nothing is displaced, and only there, a failed read leaves the
environment and the displaced values as they were; and after any successful reloads the environment
is the original one under the credentials of the last vault. -/
theorem reload_atomic_iff (now : Rat) (pool : Pool) :
    ((reloadProviderKeys now none pool).1.process = pool.process ↔
      ∀ slot ∈ slots, pool.process.displaced slot.var = none) ∧
    ∀ s t as now vault, reloads.init s → reloads.Run s (as ++ [(now, vault)]) t →
      t.process.vars = overlay s.process.vars vault := by
  refine ⟨reload_failed_iff, ?_⟩
  intro s t as now vault hinit hrun
  obtain ⟨u, hbefore, hlast⟩ := hrun.snoc_inv
  have hstart : Kept s.process.original s.process := ⟨rfl, fun var _ => hinit var⟩
  have hkept : Kept s.process.original u.process :=
    hbefore.preserves (I := fun pool => Kept s.process.original pool.process)
      (fun _ _ _ => reloads_kept) hstart
  have hvars : s.process.vars = fun var => (s.process.original var).map (·.val) := by
    funext var
    exact vars_of_undisplaced (hinit var)
  rw [(loadSlots_overlays hkept.clean (reloads_step hlast)).1, hkept.original, ← hvars]
  exact overlay_snapshot

/-! A credential is written, published, and the vault becomes unreadable. -/

def freshPool : Pool := { process := { env := fun _ => none } }

def oneKeyVault : Secrets :=
  fun name => if name = envName (providerKey "openrouter" 1) then some "sk-1" else none

def openrouterSlot : Slot where
  var := "OPENROUTER_API_KEY"
  exportName := envName (providerKey "openrouter" 1)

theorem openrouter_slot : slots.find? (·.var = "OPENROUTER_API_KEY") = some openrouterSlot := by
  unfold slots
  rfl

theorem openrouter_value : openrouterSlot.value oneKeyVault = "sk-1" := by
  unfold Slot.value oneKeyVault openrouterSlot
  rw [if_pos rfl]
  decide +kernel

theorem oneKeyVault_ok : ∀ slot ∈ slots, '\x00' ∉ (slot.value oneKeyVault).toList := by
  intro slot _
  unfold Slot.value oneKeyVault
  split
  · decide +kernel
  · decide +kernel

theorem published_key :
    (reloadProviderKeys 0 (some oneKeyVault) freshPool).1.process.vars "OPENROUTER_API_KEY" =
      some "sk-1" := by
  rw [(reload_atomic_iff 0 freshPool).2 freshPool _ [] 0 oneKeyVault (fun _ => rfl)
    (.single (reload_step oneKeyVault_ok)), overlay, openrouter_slot]
  simp [openrouter_value]

theorem failed_reload_drops_key :
    (reloadProviderKeys 1 none (reloadProviderKeys 0 (some oneKeyVault) freshPool).1).1.process ≠
      (reloadProviderKeys 0 (some oneKeyVault) freshPool).1.process := by
  apply failed_reload_drops (fun _ => rfl) (reload_step oneKeyVault_ok) openrouter_slot
  · rw [openrouter_value]
    decide
  · exact (Option.some_ne_none _).symm

end GenusOs.Engine.KeyPool
