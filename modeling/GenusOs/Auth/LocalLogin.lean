import GenusOs.Library.Run
import GenusOs.Python.Str
import Mathlib

/-!
# Local login

One account of `user_accounts` under the requests of any number of clients. A request reads the
row, decides, and then writes with statements of its own, each a transaction, so that anything may
come between two of them.
-/

namespace GenusOs.Auth.LocalLogin

/-! ## One-time codes -/

/-- What is called of `argon2`, `base64` and `hmac`. -/
structure Env where
  /-- The password and a hash that is not empty. -/
  verifyPassword : String → String → Bool
  needsRehash : String → Bool
  /-- `_decode_secret`, or `none` where it raises. -/
  decodeSecret : String → Option (List UInt8)
  /-- `_hotp` with `DIGITS` digits. -/
  hotp : List UInt8 → Nat → String
  /-- `str.isdigit` of one character, which digits beyond ASCII meet too. -/
  isDigit : Char → Bool

inductive TotpError
  /-- `hmac.compare_digest` takes no text beyond ASCII. -/
  | typeError
  deriving DecidableEq, Repr

def digits : Nat := 6

def period : Nat := 30

def window : List Int := [-1, 0, 1]

variable (env : Env)

/-- The loop of `matching_step` over the window. -/
def lastMatch (key : List UInt8) (candidate : String) (counter : Nat) : Option Nat :=
  window.foldl (fun found drift =>
    let step := (counter : Int) + drift
    if step < 0 then found
    else if env.hotp key step.toNat = candidate then some step.toNat
    else found) none

/-- The step that the code is for. -/
def matchingStep (secret : String) (code : Option String) (moment : Nat) :
    Except TotpError (Option Nat) :=
  let candidate := Python.strip (code.getD "")
  if candidate.toList.length ≠ digits ∨ ¬ candidate.toList.all env.isDigit then .ok none
  else match env.decodeSecret secret with
    | none => .ok none
    | some key =>
      if candidate.toList.any (127 < ·.toNat) then .error .typeError
      else .ok (lastMatch env key candidate (moment / period))

/-! ## The account -/

/-- A secret that `begin_enrollment` has stored. Secrets are random, so each store has its own. -/
structure StoredSecret where
  serial : Nat
  text : String
  deriving DecidableEq, Repr

/-- A row of `user_accounts`. -/
structure Account where
  active : Bool := true
  passwordHash : Option String := none
  failedLoginCount : Nat := 0
  lockedUntil : Option Nat := none
  mfaEnabled : Bool := false
  mfaSecretEnc : Option StoredSecret := none
  mfaLastUsedStep : Option Nat := none
  deriving DecidableEq, Repr

/-- A code that was found to be for a step of a secret. -/
structure Proof where
  secret : StoredSecret
  code : Option String
  moment : Nat
  step : Nat
  deriving DecidableEq, Repr

def lockoutThreshold : Nat := 10

def lockoutSeconds : Nat := 15 * 60

def minPasswordLength : Nat := 12

def maxPasswordLength : Nat := 1024

/-- `validate_password`, which raises on `false`. -/
def validatePassword (password : String) : Bool :=
  minPasswordLength ≤ password.toList.length ∧ password.toList.length ≤ maxPasswordLength

namespace Account

variable (account : Account)

/-- `_is_locked` -/
def isLocked (now : Nat) : Bool := account.lockedUntil.any (now < ·)

/-- `verify_password` with the stored hash, or `_dummy_hash()` where there is none. -/
def passwordIs (password : String) : Bool :=
  account.passwordHash.any fun hash => hash ≠ "" ∧ env.verifyPassword password hash

/-- `decrypt_secret`, where the stored text can be opened. -/
def decryptSecret (readable : Bool) : Option StoredSecret :=
  if readable then account.mfaSecretEnc else none

/-- `_current_secret` -/
def currentSecret (readable : Bool) : Option StoredSecret :=
  if account.mfaEnabled then account.decryptSecret readable else none

/-- The `WHERE` of the statements that claim a step. -/
def unspent (step : Nat) : Bool := account.mfaLastUsedStep.all (· < step)

/-- `_fresh_step` -/
def freshStep (secret : Option StoredSecret) (code : Option String) (moment : Nat) :
    Except TotpError (Option Proof) :=
  match secret with
  | none => .ok none
  | some secret => do
    match ← matchingStep env secret.text code moment with
    | none => return none
    | some step =>
      return if account.unspent step then some { secret, code, moment, step } else none

/-! ## The statements -/

/-- `_record_failure` -/
def recordFailure (now : Nat) : Account :=
  let count :=
    if account.lockedUntil.any (· ≤ now) then 1 else account.failedLoginCount + 1
  { account with
    failedLoginCount := count
    lockedUntil := if lockoutThreshold ≤ count then some (now + lockoutSeconds) else none }

/-- `_record_success` without a step. -/
def recordSuccess : Account := { account with failedLoginCount := 0, lockedUntil := none }

/-- `_record_mfa_step`, where the step is unspent. -/
def recordMfaStep (step : Nat) : Account := { account with mfaLastUsedStep := some step }

/-- `_confirm_enrollment_atomically`, where the step is unspent. -/
def confirmEnrollment (step : Nat) : Account :=
  { account with mfaEnabled := true, mfaLastUsedStep := some step }

def storePasswordHash (hash : String) : Account :=
  { account with passwordHash := some hash, failedLoginCount := 0, lockedUntil := none }

/-- `_store_mfa_secret(…, enabled=False)` -/
def storeMfaSecret (secret : StoredSecret) : Account :=
  { account with mfaSecretEnc := some secret, mfaEnabled := false }

def clearMfa : Account :=
  { account with mfaEnabled := false, mfaSecretEnc := none, mfaLastUsedStep := none }

end Account

/-! ## The requests -/

/-- The statement that a request comes to next. -/
inductive Pending
  /-- `_record_success`, and the hash to store if the one that was read is outdated. -/
  | recordSuccess (storedHash newHash : String) (proof : Option Proof)
  | recordFailure
  | storePasswordHash (hash : String)
  | storeMfaSecret (text : String)
  | confirmEnrollment (proof : Proof)
  /-- `_record_mfa_step` of `disable_mfa`. -/
  | recordMfaStep (proof : Proof)
  /-- `_clear_mfa` of `disable_mfa`. -/
  | clearMfa
  deriving DecidableEq, Repr

/-- `authenticate` up to its first write that changes the row. `refused` is a sign-in that is turned
off or over its rate. -/
def authenticate (account : Account) (password : String) (code : Option String) (refused : Bool)
    (moment : Nat) (readable : Bool) (newHash : String) : Option Pending :=
  if refused ∨ ¬ account.active ∨ account.isLocked moment then none
  else match account.passwordHash with
    | none => some .recordFailure
    | some storedHash =>
      if ¬ account.passwordIs env password then some .recordFailure
      else if ¬ account.mfaEnabled then some (.recordSuccess storedHash newHash none)
      else if Python.strip (code.getD "") = "" then none
      else match account.freshStep env (account.currentSecret readable) code moment with
        | .error _ => none
        | .ok none => some .recordFailure
        | .ok (some proof) => some (.recordSuccess storedHash newHash (some proof))

/-- `change_password` up to its write. -/
def changePassword (account : Account) (current newPassword newHash : String) : Option Pending :=
  if validatePassword newPassword ∧ account.active ∧ account.passwordIs env current then
    some (.storePasswordHash newHash)
  else none

/-- `begin_enrollment` up to its write. -/
def beginEnrollment (account : Account) (password secret : String) : Option Pending :=
  if account.active ∧ ¬ account.mfaEnabled ∧ account.passwordIs env password then
    some (.storeMfaSecret secret)
  else none

/-- `confirm_enrollment` up to its write. -/
def confirmEnrollment (account : Account) (code : Option String) (moment : Nat)
    (readable : Bool) : Option Pending :=
  if ¬ account.active then none
  else match account.freshStep env (account.decryptSecret readable) code moment with
    | .ok (some proof) => some (.confirmEnrollment proof)
    | _ => none

/-- `disable_mfa` up to its first write. -/
def disableMfa (account : Account) (password : String) (code : Option String) (moment : Nat)
    (readable : Bool) : Option Pending :=
  if ¬ account.passwordIs env password then none
  else match account.freshStep env (account.currentSecret readable) code moment with
    | .ok (some proof) => some (.recordMfaStep proof)
    | _ => none

/-! ## Interleavings -/

abbrev Client := Nat

/-- The row and the requests in flight; how many secrets have been stored; and the codes that have
been accepted so far. -/
structure LoginDb where
  account : Account := {}
  calls : Client → Option Pending := fun _ => none
  stores : Nat := 0
  accepted : List Proof := []

namespace LoginDb

variable (db : LoginDb)

def goOn (c : Client) (pending : Option Pending) : LoginDb :=
  { db with calls := Function.update db.calls c pending }

/-- A statement that claims the step, or takes no effect. -/
def claim (c : Client) (proof : Proof) (account : Account) (won lost : Option Pending) : LoginDb :=
  if db.account.unspent proof.step then
    { db.goOn c won with account := account, accepted := db.accepted ++ [proof] }
  else db.goOn c lost

/-- The next statement of a request. -/
def write (c : Client) (now : Nat) : Pending → LoginDb
  | .recordSuccess storedHash newHash proof =>
    let rehash := if env.needsRehash storedHash then some (.storePasswordHash newHash) else none
    match proof with
    | none => { db.goOn c rehash with account := db.account.recordSuccess }
    | some proof =>
      db.claim c proof (db.account.recordSuccess.recordMfaStep proof.step) rehash
        (some .recordFailure)
  | .recordFailure => { db.goOn c none with account := db.account.recordFailure now }
  | .storePasswordHash hash =>
    { db.goOn c none with account := db.account.storePasswordHash hash }
  | .storeMfaSecret text =>
    { db.goOn c none with
      account := db.account.storeMfaSecret { serial := db.stores, text }
      stores := db.stores + 1 }
  | .confirmEnrollment proof =>
    db.claim c proof (db.account.confirmEnrollment proof.step) none none
  | .recordMfaStep proof =>
    db.claim c proof (db.account.recordMfaStep proof.step) (some .clearMfa) none
  | .clearMfa => { db.goOn c none with account := db.account.clearMfa }

end LoginDb

inductive Act
  | authenticate (c : Client) (password : String) (code : Option String) (refused : Bool)
    (moment : Nat) (readable : Bool) (newHash : String)
  | changePassword (c : Client) (current newPassword newHash : String)
  | beginEnrollment (c : Client) (password secret : String)
  | confirmEnrollment (c : Client) (code : Option String) (moment : Nat) (readable : Bool)
  | disableMfa (c : Client) (password : String) (code : Option String) (moment : Nat)
    (readable : Bool)
  | setPassword (newPassword newHash : String)
  | resetMfa
  /-- An administrator activates the account, or the opposite. -/
  | setStatus (active : Bool)
  /-- The next statement of a request. -/
  | write (c : Client) (now : Nat)
  /-- The request ends where it is. -/
  | abort (c : Client)
  deriving DecidableEq, Repr

/-- One statement, or `none` where there is none. -/
def loginStep (db : LoginDb) : Act → Option LoginDb
  | .authenticate c password code refused moment readable newHash =>
    if db.calls c = none then
      some (db.goOn c (authenticate env db.account password code refused moment readable newHash))
    else none
  | .changePassword c current newPassword newHash =>
    if db.calls c = none then
      some (db.goOn c (changePassword env db.account current newPassword newHash))
    else none
  | .beginEnrollment c password secret =>
    if db.calls c = none then
      some (db.goOn c (beginEnrollment env db.account password secret))
    else none
  | .confirmEnrollment c code moment readable =>
    if db.calls c = none then
      some (db.goOn c (confirmEnrollment env db.account code moment readable))
    else none
  | .disableMfa c password code moment readable =>
    if db.calls c = none then
      some (db.goOn c (disableMfa env db.account password code moment readable))
    else none
  | .setPassword newPassword newHash =>
    if validatePassword newPassword then
      some { db with account := db.account.storePasswordHash newHash }
    else none
  | .resetMfa => some { db with account := db.account.clearMfa }
  | .setStatus active => some { db with account := { db.account with active } }
  | .write c now => (db.calls c).map (db.write env c now)
  | .abort c => some (db.goOn c none)

/-- The system that starts with an account that has no second factor. -/
def loginSystem : System LoginDb Act :=
  .ofStep (fun db => ∃ active passwordHash, db = { account := { active, passwordHash } })
    (loginStep env)

end GenusOs.Auth.LocalLogin
