import GenusOs.Auth.LocalLogin
import Mathlib

/-!
# The second factor

The interleavings of the requests on one account.

* `loginStep_inv`: what every statement keeps that finds the factor as its request has read it.
* `enabled_factor_proved_and_kept`: no code is accepted twice, and a confirmed factor stays until it
  is cleared, where all statements do.
-/

namespace GenusOs.Auth.LocalLogin

variable {env : Env} {db db' : LoginDb} {account : Account} {proof : Proof} {c : Client}

/-! ## Codes that were verified -/

/-- The code is for the step of the secret. -/
def Proof.Verified (env : Env) (proof : Proof) : Prop :=
  matchingStep env proof.secret.text proof.code proof.moment = .ok (some proof.step)

/-- What a request writes was verified. -/
def Pending.Verified (env : Env) : Pending → Prop
  | .recordSuccess _ _ (some proof) => proof.Verified env
  | .confirmEnrollment proof => proof.Verified env
  | .recordMfaStep proof => proof.Verified env
  | _ => True

theorem verified_of_freshStep {secret : Option StoredSecret} {code : Option String} {moment : Nat}
    (h : account.freshStep env secret code moment = .ok (some proof)) : proof.Verified env := by
  cases secret with
  | none => cases h
  | some secret =>
    cases hmatch : matchingStep env secret.text code moment with
    | error e => simp [Account.freshStep, hmatch, bind, Except.bind] at h
    | ok found =>
      cases found with
      | none => simp [Account.freshStep, hmatch, bind, Except.bind, pure, Except.pure] at h
      | some step =>
        simp only [Account.freshStep, hmatch, bind, Except.bind, pure, Except.pure] at h
        split at h
        · cases h
          exact hmatch
        · cases h

section Requests

variable {password newHash secret current newPassword : String} {code : Option String}
  {refused readable : Bool} {moment : Nat} {pending : Pending}

theorem verified_authenticate
    (h : authenticate env account password code refused moment readable newHash = some pending) :
    pending.Verified env := by
  unfold authenticate at h
  split at h
  · cases h
  · split at h
    · cases h
      trivial
    · split at h
      · cases h
        trivial
      · split at h
        · cases h
          trivial
        · split at h
          · cases h
          · split at h
            · cases h
            · cases h
              trivial
            · next hfresh =>
              cases h
              exact verified_of_freshStep hfresh

theorem verified_changePassword
    (h : changePassword env account current newPassword newHash = some pending) :
    pending.Verified env := by
  obtain ⟨_, h⟩ := Option.ite_none_right_eq_some.mp h
  cases h
  trivial

theorem verified_beginEnrollment (h : beginEnrollment env account password secret = some pending) :
    pending.Verified env := by
  obtain ⟨_, h⟩ := Option.ite_none_right_eq_some.mp h
  cases h
  trivial

theorem verified_confirmEnrollment
    (h : confirmEnrollment env account code moment readable = some pending) :
    pending.Verified env := by
  unfold confirmEnrollment at h
  split at h
  · cases h
  · split at h
    · next hfresh =>
      cases h
      exact verified_of_freshStep hfresh
    · cases h

theorem verified_disableMfa
    (h : disableMfa env account password code moment readable = some pending) :
    pending.Verified env := by
  unfold disableMfa at h
  split at h
  · cases h
  · split at h
    · next hfresh =>
      cases h
      exact verified_of_freshStep hfresh
    · cases h

end Requests

/-! ## The invariant -/

structure LoginDb.Inv (env : Env) (db : LoginDb) : Prop where
  once : (db.accepted.map fun a => (a.secret.serial, a.step)).Nodup
  /-- Serials are drawn in order. -/
  stored : ∀ s, db.account.mfaSecretEnc = some s → s.serial < db.stores
  past : ∀ a ∈ db.accepted, a.secret.serial < db.stores
  /-- The watermark is at the last step of the stored secret that was accepted, or beyond. -/
  watermark : ∀ s, db.account.mfaSecretEnc = some s → ∀ a ∈ db.accepted,
    a.secret.serial = s.serial → ∃ last, db.account.mfaLastUsedStep = some last ∧ a.step ≤ last
  /-- An enabled factor has been proved. -/
  proved : db.account.mfaEnabled = true →
    ∃ a ∈ db.accepted, db.account.mfaSecretEnc = some a.secret ∧ a.Verified env
  pending : ∀ c p, db.calls c = some p → p.Verified env

/-- An enabled factor stays as it is. -/
def Account.FactorKept (account account' : Account) : Prop :=
  account.mfaEnabled = true →
    account'.mfaEnabled = true ∧ account'.mfaSecretEnc = account.mfaSecretEnc

/-- A statement finds what its request has read: one that claims a step the secret that the code is
for, and one that stores a secret no enabled factor. -/
def Pending.isFresh (account : Account) : Pending → Bool
  | .recordSuccess _ _ (some proof) | .confirmEnrollment proof | .recordMfaStep proof =>
    account.unspent proof.step → account.mfaSecretEnc = some proof.secret
  | .storeMfaSecret _ => !account.mfaEnabled
  | _ => true

def calm (db : LoginDb) : Act → Bool
  | .write c _ => (db.calls c).all (·.isFresh db.account)
  | _ => true

/-- `_clear_mfa`, which `disable_mfa` and `reset_mfa` come to. -/
def clears (db : LoginDb) : Act → Bool
  | .resetMfa => true
  | .write c _ => db.calls c = some .clearMfa
  | _ => false

theorem Account.FactorKept.of_eq {account account' : Account}
    (henabled : account'.mfaEnabled = account.mfaEnabled)
    (hsecret : account'.mfaSecretEnc = account.mfaSecretEnc) : account.FactorKept account' :=
  fun h => ⟨henabled.trans h, hsecret⟩

namespace LoginDb.Inv

/-- A request goes on to a statement whose code is verified. -/
theorem goOn (h : db.Inv env) {pending : Option Pending}
    (hpending : ∀ p, pending = some p → p.Verified env) : (db.goOn c pending).Inv env where
  once := h.once
  stored := h.stored
  past := h.past
  watermark := h.watermark
  proved := h.proved
  pending := by
    intro d p hd
    by_cases hdc : d = c
    · subst hdc
      replace hd : Function.update db.calls d pending d = some p := hd
      rw [Function.update_self] at hd
      exact hpending p hd
    · replace hd : Function.update db.calls c pending d = some p := hd
      rw [Function.update_of_ne hdc] at hd
      exact h.pending d p hd

theorem done (h : db.Inv env) : (db.goOn c none).Inv env := h.goOn nofun

/-- Another part of the row is changed. -/
theorem row (h : db.Inv env) {account : Account}
    (henabled : account.mfaEnabled = db.account.mfaEnabled)
    (hsecret : account.mfaSecretEnc = db.account.mfaSecretEnc)
    (hlast : account.mfaLastUsedStep = db.account.mfaLastUsedStep) :
    { db with account := account }.Inv env where
  once := h.once
  stored := fun s hs => h.stored s (hsecret ▸ hs)
  past := h.past
  watermark := by
    intro s hs a ha heq
    rw [show account.mfaSecretEnc = db.account.mfaSecretEnc from hsecret] at hs
    obtain ⟨last, hl, hle⟩ := h.watermark s hs a ha heq
    exact ⟨last, hlast.trans hl, hle⟩
  proved := by
    intro hon
    obtain ⟨a, ha, hs, hver⟩ := h.proved (henabled ▸ hon)
    exact ⟨a, ha, hsecret.trans hs, hver⟩
  pending := h.pending

/-- A new account row whose secret is gone or was not there before, with the factor off. -/
theorem off (h : db.Inv env) {account : Account} {stores : Nat}
    (henabled : account.mfaEnabled = false) (hstores : db.stores ≤ stores)
    (hsecret : ∀ s, account.mfaSecretEnc = some s → s.serial < stores ∧ db.stores ≤ s.serial) :
    { db with account := account, stores := stores }.Inv env where
  once := h.once
  stored := fun s hs => (hsecret s hs).1
  past := fun a ha => (h.past a ha).trans_le hstores
  watermark := by
    intro s hs a ha heq
    have hlt := h.past a ha
    have hle := (hsecret s hs).2
    omega
  proved := by
    intro hon
    rw [show account.mfaEnabled = false from henabled] at hon
    cases hon
  pending := h.pending

/-- A step of the stored secret that is unspent was not accepted before. -/
theorem unspent_fresh (h : db.Inv env) (hsecret : db.account.mfaSecretEnc = some proof.secret)
    (hfree : db.account.unspent proof.step = true) :
    (proof.secret.serial, proof.step) ∉ db.accepted.map fun a => (a.secret.serial, a.step) := by
  intro hmem
  obtain ⟨a, ha, heq⟩ := List.mem_map.mp hmem
  obtain ⟨hserial, hstep⟩ := Prod.mk.injEq .. ▸ heq
  obtain ⟨last, hlast, hle⟩ := h.watermark _ hsecret a ha hserial
  have hlt : last < proof.step := by simpa [Account.unspent, hlast] using hfree
  omega

/-- A step of the stored secret is claimed. -/
theorem claimed (h : db.Inv env) (hsecret : db.account.mfaSecretEnc = some proof.secret)
    (hfree : db.account.unspent proof.step = true) (hver : proof.Verified env)
    (hkept : account.mfaSecretEnc = db.account.mfaSecretEnc)
    (hlast : account.mfaLastUsedStep = some proof.step) :
    { db with account := account, accepted := db.accepted ++ [proof] }.Inv env where
  once := by
    rw [List.map_append, List.nodup_append]
    refine ⟨h.once, List.nodup_singleton _, fun k hk k' hk' heq => ?_⟩
    rw [List.map_singleton, List.mem_singleton] at hk'
    exact h.unspent_fresh hsecret hfree (hk' ▸ heq ▸ hk)
  stored := fun s hs => h.stored s (hkept ▸ hs)
  past := by
    intro a ha
    rcases List.mem_append.mp ha with ha | ha
    · exact h.past a ha
    · rw [List.mem_singleton.mp ha]
      exact h.stored _ hsecret
  watermark := by
    intro s hs a ha heq
    refine ⟨proof.step, hlast, ?_⟩
    rcases List.mem_append.mp ha with ha | ha
    · rw [show account.mfaSecretEnc = db.account.mfaSecretEnc from hkept] at hs
      obtain ⟨last, hl, hle⟩ := h.watermark s hs a ha heq
      have hlt : last < proof.step := by simpa [Account.unspent, hl] using hfree
      omega
    · rw [List.mem_singleton.mp ha]
  proved := fun _ => ⟨proof, List.mem_append_right _ (List.mem_singleton_self _),
    hkept.trans hsecret, hver⟩
  pending := h.pending

theorem claim (h : db.Inv env) (hver : proof.Verified env) {won lost : Option Pending}
    (hfresh : db.account.unspent proof.step = true → db.account.mfaSecretEnc = some proof.secret)
    (hkept : account.mfaSecretEnc = db.account.mfaSecretEnc)
    (hlast : account.mfaLastUsedStep = some proof.step)
    (hwon : ∀ p, won = some p → p.Verified env) (hlost : ∀ p, lost = some p → p.Verified env) :
    (db.claim c proof account won lost).Inv env := by
  unfold LoginDb.claim
  split
  · next hfree =>
    exact (h.goOn hwon : (db.goOn c won).Inv env).claimed (hfresh hfree) hfree hver
      hkept hlast
  · exact h.goOn hlost

end LoginDb.Inv

/-! ## The statements -/

theorem factorKept_claim {won lost : Option Pending}
    (hkept : db.account.FactorKept account) :
    db.account.FactorKept (db.claim c proof account won lost).account := by
  unfold LoginDb.claim
  split
  · exact hkept
  · exact fun h => ⟨h, rfl⟩

theorem write_inv (h : db.Inv env) {pending : Pending} {now : Nat}
    (hpending : pending.Verified env) (hfresh : pending.isFresh db.account = true) :
    (db.write env c now pending).Inv env ∧
      (pending ≠ .clearMfa → db.account.FactorKept (db.write env c now pending).account) := by
  cases pending with
  | recordSuccess storedHash newHash found =>
    have hrehash : ∀ p, (if env.needsRehash storedHash then
        some (Pending.storePasswordHash newHash) else none) = some p → p.Verified env := by
      intro p hp
      obtain ⟨_, hp⟩ := Option.ite_none_right_eq_some.mp hp
      cases hp
      trivial
    cases found with
    | none => exact ⟨(h.goOn hrehash).row rfl rfl rfl, fun _ => .of_eq rfl rfl⟩
    | some proof =>
      refine ⟨h.claim hpending (of_decide_eq_true hfresh) rfl rfl hrehash ?_,
        fun _ => factorKept_claim (.of_eq rfl rfl)⟩
      intro p hp
      cases hp
      trivial
  | recordFailure => exact ⟨(h.done (c := c)).row rfl rfl rfl, fun _ => .of_eq rfl rfl⟩
  | storePasswordHash hash => exact ⟨(h.done (c := c)).row rfl rfl rfl, fun _ => .of_eq rfl rfl⟩
  | storeMfaSecret text =>
    refine ⟨(h.done (c := c)).off rfl (Nat.le_succ _) ?_,
      fun _ hon => ?_⟩
    · intro s hs
      cases hs
      exact ⟨Nat.lt_succ_self _, Nat.le_refl _⟩
    · rw [Pending.isFresh, hon] at hfresh
      cases hfresh
  | confirmEnrollment proof =>
    exact ⟨h.claim hpending (of_decide_eq_true hfresh) rfl rfl nofun nofun,
      fun _ => factorKept_claim fun _ => ⟨rfl, rfl⟩⟩
  | recordMfaStep proof =>
    refine ⟨h.claim hpending (of_decide_eq_true hfresh) rfl rfl ?_ nofun,
      fun _ => factorKept_claim (.of_eq rfl rfl)⟩
    intro p hp
    cases hp
    trivial
  | clearMfa =>
    exact ⟨(h.done (c := c)).off rfl (Nat.le_refl _) nofun,
      fun hne => absurd rfl hne⟩

/-- **A statement that finds the factor as its request has read it keeps the invariant, and the
factor too, unless it clears it.** -/
theorem loginStep_inv {a : Act} (h : db.Inv env) (hcalm : calm db a = true)
    (hstep : loginStep env db a = some db') :
    db'.Inv env ∧ (clears db a = false → db.account.FactorKept db'.account) := by
  have hbegins {c : Client} {pending : Option Pending}
      (hpending : ∀ p, pending = some p → p.Verified env)
      (hstep : (if db.calls c = none then some (db.goOn c pending) else none) = some db') :
      db'.Inv env ∧ (clears db a = false → db.account.FactorKept db'.account) := by
    obtain ⟨_, hstep⟩ := Option.ite_none_right_eq_some.mp hstep
    cases hstep
    exact ⟨h.goOn hpending, fun _ => .of_eq rfl rfl⟩
  -- a request that was in flight before stays as it is
  have hrow {account : Account} (hon : account.mfaEnabled = db.account.mfaEnabled)
      (hsecret : account.mfaSecretEnc = db.account.mfaSecretEnc)
      (hlast : account.mfaLastUsedStep = db.account.mfaLastUsedStep) :
      { db with account := account }.Inv env ∧
        (clears db a = false → db.account.FactorKept account) :=
    ⟨h.row hon hsecret hlast, fun _ => .of_eq hon hsecret⟩
  cases a with
  | authenticate => exact hbegins (fun _ => verified_authenticate) hstep
  | changePassword => exact hbegins (fun _ => verified_changePassword) hstep
  | beginEnrollment => exact hbegins (fun _ => verified_beginEnrollment) hstep
  | confirmEnrollment => exact hbegins (fun _ => verified_confirmEnrollment) hstep
  | disableMfa => exact hbegins (fun _ => verified_disableMfa) hstep
  | setPassword newPassword newHash =>
    obtain ⟨_, hstep⟩ := Option.ite_none_right_eq_some.mp hstep
    cases hstep
    exact hrow rfl rfl rfl
  | resetMfa =>
    cases hstep
    exact ⟨h.off rfl (Nat.le_refl _) nofun, nofun⟩
  | setStatus active =>
    cases hstep
    exact hrow rfl rfl rfl
  | write c now =>
    obtain ⟨pending, hp, rfl⟩ := Option.map_eq_some_iff.mp hstep
    rw [calm, hp] at hcalm
    obtain ⟨hinv, hkept⟩ := write_inv h (h.pending c pending hp) hcalm
    refine ⟨hinv, fun hclears => hkept fun heq => ?_⟩
    rw [clears, hp, heq] at hclears
    exact absurd hclears (by decide)
  | abort c =>
    cases hstep
    exact ⟨h.done, fun _ => .of_eq rfl rfl⟩

/-! ## The law -/

/-- The law of the second factor, in one state. -/
structure LoginDb.Lawful (env : Env) (db : LoginDb) : Prop where
  /-- A step of a secret is accepted once at most. -/
  once : (db.accepted.map fun a => (a.secret.serial, a.step)).Nodup
  /-- Where the factor is on, a code was accepted that is for the stored secret. -/
  proved : db.account.mfaEnabled = true →
    ∃ a ∈ db.accepted, db.account.mfaSecretEnc = some a.secret ∧ a.Verified env

/-- The runs in which every statement finds the factor as its request has read it. -/
def calmSystem (env : Env) : System LoginDb Act :=
  .ofStep (loginSystem env).init fun db a => if calm db a then loginStep env db a else none

/-- **No code is accepted twice, an enabled factor was proved, and it stays until it is cleared,
wherever the statements find what their requests have read.** -/
theorem enabled_factor_proved_and_kept (h : (calmSystem env).Reachable db) :
    db.Lawful env ∧ ∀ a db', (calmSystem env).step db a db' → clears db a = false →
      db.account.FactorKept db'.account := by
  have hinv : db.Inv env := by
    refine h.invariant ?_ ?_
    · rintro _ ⟨active, passwordHash, rfl⟩
      exact ⟨List.nodup_nil, nofun, nofun, nofun, nofun, nofun⟩
    · intro s a t hinv hstep
      obtain ⟨hcalm, hstep⟩ := Option.ite_none_right_eq_some.mp hstep
      exact (loginStep_inv hinv hcalm hstep).1
  refine ⟨⟨hinv.once, hinv.proved⟩, fun a db' hstep => ?_⟩
  obtain ⟨hcalm, hstep⟩ := Option.ite_none_right_eq_some.mp hstep
  exact (loginStep_inv hinv hcalm hstep).2

/-! ## Statements that come between -/

/-- A step has the same code under every secret. -/
def sampleEnv : Env where
  verifyPassword password hash := password = hash
  needsRehash _ := false
  decodeSecret _ := some []
  hotp _ step := String.ofList ((List.replicate 5 '0') ++ [Char.ofNat (48 + step)])
  isDigit := Char.isDigit

def sampleDb : LoginDb := { account := { passwordHash := some "secret" } }

/-- The factor is confirmed with the code of the first step. -/
def enrolled : List Act := [.beginEnrollment 0 "secret" "A", .write 0 0,
  .confirmEnrollment 0 (some "000001") 30 true, .write 0 0]

/-- The factor is confirmed, used, and disabled. -/
def calmRun : List Act := enrolled ++ [.authenticate 0 "secret" (some "000002") false 60 true "",
  .write 0 0, .disableMfa 0 "secret" (some "000003") 90 true, .write 0 0]

theorem used_factor_stays : ∃ db : LoginDb, db.Lawful sampleEnv ∧
    db.account.mfaEnabled = true ∧ db.accepted.map (·.step) = [1, 2, 3] ∧
    ∀ a db', (calmSystem sampleEnv).step db a db' → clears db a = false →
      db.account.FactorKept db'.account := by
  have hrun : ∃ db : LoginDb, calmRun.foldlM
      (fun db a => if calm db a then loginStep sampleEnv db a else none) sampleDb = some db ∧
      db.account.mfaEnabled = true ∧ db.accepted.map (·.step) = [1, 2, 3] := ⟨_, rfl, rfl, rfl⟩
  obtain ⟨db, hdb, hon, hsteps⟩ := hrun
  obtain ⟨hlawful, hkept⟩ := enabled_factor_proved_and_kept
    ⟨sampleDb, calmRun, ⟨true, some "secret", rfl⟩, System.run_of_foldlM hdb⟩
  exact ⟨db, hlawful, hon, hsteps, hkept⟩

/-- Two sign-ins present one code, and the factor is disabled before the second claims it. -/
def replayRun : List Act := enrolled ++ [
  .authenticate 1 "secret" (some "000002") false 60 true "",
  .authenticate 2 "secret" (some "000002") false 60 true "", .write 2 0,
  .disableMfa 0 "secret" (some "000003") 90 true, .write 0 0, .write 0 0, .write 1 0]

/-- The secret is replaced after the confirmation has read it. -/
def unprovedRun : List Act := [.beginEnrollment 0 "secret" "A", .write 0 0,
  .confirmEnrollment 1 (some "000001") 30 true, .beginEnrollment 0 "secret" "B", .write 0 0,
  .write 1 0]

/-- The factor is confirmed after the second enrolment has found none. -/
def overwrittenRun : List Act := [.beginEnrollment 0 "secret" "A", .write 0 0,
  .beginEnrollment 1 "secret" "B", .confirmEnrollment 0 (some "000001") 30 true, .write 0 0]

theorem stale_requests_break_the_factor :
    (∃ db : LoginDb, (loginSystem sampleEnv).Reachable db ∧
      ¬ (db.accepted.map fun a => (a.secret.serial, a.step)).Nodup) ∧
    (∃ db : LoginDb, (loginSystem sampleEnv).Reachable db ∧ db.account.mfaEnabled = true ∧
      ∀ a ∈ db.accepted, db.account.mfaSecretEnc ≠ some a.secret) ∧
    ∃ (db : LoginDb) (a : Act) (db' : LoginDb), (loginSystem sampleEnv).Reachable db ∧
      (loginSystem sampleEnv).step db a db' ∧ clears db a = false ∧
      ¬ db.account.FactorKept db'.account := by
  have hreachable {as : List Act} {db : LoginDb}
      (h : as.foldlM (loginStep sampleEnv) sampleDb = some db) :
      (loginSystem sampleEnv).Reachable db :=
    ⟨sampleDb, as, ⟨true, some "secret", rfl⟩, System.run_of_foldlM h⟩
  have hreplay : ∃ db : LoginDb, replayRun.foldlM (loginStep sampleEnv) sampleDb = some db ∧
      ¬ (db.accepted.map fun a => (a.secret.serial, a.step)).Nodup := ⟨_, rfl, by decide⟩
  have hunproved : ∃ db : LoginDb, unprovedRun.foldlM (loginStep sampleEnv) sampleDb = some db ∧
      db.account.mfaEnabled = true ∧
      ∀ a ∈ db.accepted, db.account.mfaSecretEnc ≠ some a.secret := ⟨_, rfl, by decide⟩
  have hoverwritten : ∃ db db' : LoginDb,
      overwrittenRun.foldlM (loginStep sampleEnv) sampleDb = some db ∧
      loginStep sampleEnv db (.write 1 0) = some db' ∧ clears db (.write 1 0) = false ∧
      db.account.mfaEnabled = true ∧ db'.account.mfaEnabled = false := ⟨_, _, rfl, rfl, by decide⟩
  refine ⟨?_, ?_, ?_⟩
  · obtain ⟨db, hrun, hnot⟩ := hreplay
    exact ⟨db, hreachable hrun, hnot⟩
  · obtain ⟨db, hrun, hrest⟩ := hunproved
    exact ⟨db, hreachable hrun, hrest⟩
  · obtain ⟨db, db', hrun, hstep, hclears, hon, hoff⟩ := hoverwritten
    refine ⟨db, .write 1 0, db', hreachable hrun, hstep, hclears, fun hkept => ?_⟩
    rw [(hkept hon).1] at hoff
    cases hoff

end GenusOs.Auth.LocalLogin
