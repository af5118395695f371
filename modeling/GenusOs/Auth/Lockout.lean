import GenusOs.Auth.LocalLogin
import Mathlib

/-!
# The lockout

Any number of sign-ins on one account. A sign-in decides on the row it has read; what it writes is
evaluated against the newest row. A sign-in that succeeds may write a second time, to store a new
hash of the password, and that write clears the failures too.

* `signInStep_counters`: what one statement does to the counter and to the lock.
* `ten_failures_lock`: the lockout law, where a new hash of the password is stored before any
  failure is counted.
* `rehash_forgets_failures`: a hash that is stored amid the failures.
-/

namespace GenusOs.Auth.LocalLogin

variable {env : Env} {db db' : LoginDb} {a : Act} {as : List Act}

/-- The statements of sign-ins. -/
def Act.isSignIn : Act → Bool
  | .authenticate .. | .write .. | .abort _ => true
  | _ => false

def signInStep (env : Env) (db : LoginDb) (a : Act) : Option LoginDb :=
  if a.isSignIn then loginStep env db a else none

/-- Sign-ins alone, on any account. -/
def signIns (env : Env) : System LoginDb Act :=
  .ofStep (fun db => ∃ account, db = { account }) (signInStep env)

/-- What the counter sees of a statement. -/
inductive Mark
  | failed (now : Nat)
  | cleared
  deriving DecidableEq, Repr

/-- The failures that reach `_record_failure`, and the successes that take effect. -/
def marks (db : LoginDb) : Act → List Mark
  | .write c now =>
    match db.calls c with
    | some .recordFailure => [.failed now]
    | some (.recordSuccess _ _ none) => [.cleared]
    | some (.recordSuccess _ _ (some proof)) =>
      if db.account.unspent proof.step then [.cleared] else []
    | _ => []
  | _ => []

/-- The counter and the lock. -/
def Account.counters (account : Account) : Nat × Option Nat :=
  (account.failedLoginCount, account.lockedUntil)

/-- A new hash of the password is stored while no failure is counted. -/
def storesCalmly (db : LoginDb) : Act → Bool
  | .write c _ =>
    match db.calls c with
    | some (.storePasswordHash _) => db.account.counters = (0, none)
    | _ => true
  | _ => true

/-- The lockout law of a system of sign-ins. -/
structure LockoutLaw (S : System LoginDb Act) : Prop where
  /-- A failure that reaches `_record_failure` adds one to the newest row, or begins anew behind a
  lock that has expired. -/
  counted : ∀ db a db' now, S.Reachable db → S.step db a db' → marks db a = [.failed now] →
    db'.account.failedLoginCount =
      if db.account.lockedUntil.any (· ≤ now) then 1 else db.account.failedLoginCount + 1
  /-- None is lost among the others. -/
  adds : ∀ db as db' ms, S.Reachable db → (S.record marks).Run (db, []) as (db', ms) →
    .cleared ∉ ms → db.account.lockedUntil = none →
    db.account.failedLoginCount + ms.length ≤ lockoutThreshold →
      db'.account.failedLoginCount = db.account.failedLoginCount + ms.length
  /-- Of ten failures in a row one locks the account. -/
  locks : ∀ db as db' ms, S.Reachable db → (S.record marks).Run (db, []) as (db', ms) →
    .cleared ∉ ms → ms.length = lockoutThreshold →
      ∃ pre post mid before now, as = pre ++ post ∧
        (S.record marks).Run (db, []) pre (mid, before ++ [.failed now]) ∧
        mid.account.lockedUntil = some (now + lockoutSeconds)
  /-- A sign-in that finds the account locked is over, and leaves the row as it is. -/
  refused : ∀ db c password code turnedOff moment readable newHash db', S.Reachable db →
    S.step db (.authenticate c password code turnedOff moment readable newHash) db' →
    db.account.isLocked moment = true → db'.account = db.account ∧ db'.calls c = none
  /-- After a lock has expired the next failure leaves the counter at one. -/
  restarts : ∀ db as mid ms a db' now fallen, S.Reachable db →
    (S.record marks).Run (db, []) as (mid, ms) → (∀ m ∈ ms, m = .cleared) →
    db.account.lockedUntil = some fallen → S.step mid a db' → marks mid a = [.failed now] →
    fallen ≤ now → db'.account.failedLoginCount = 1

/-! ## One statement -/

theorem counters_claim (db : LoginDb) (c : Client) (proof : Proof) (account : Account)
    (won lost : Option Pending) : (db.claim c proof account won lost).account =
      if db.account.unspent proof.step then account else db.account := by
  unfold LoginDb.claim
  split <;> rfl

/-- What one statement does to the counter and to the lock. -/
theorem signInStep_counters (h : loginStep env db a = some db') (ha : a.isSignIn = true)
    (hcalm : storesCalmly db a = true) :
    (∃ now, marks db a = [.failed now] ∧
      db'.account.counters = (db.account.recordFailure now).counters) ∨
    (marks db a = [.cleared] ∧ db'.account.counters = (0, none)) ∨
    (marks db a = [] ∧ db'.account.counters = db.account.counters) := by
  cases a with
  | authenticate c password code turnedOff moment readable newHash =>
    obtain ⟨-, h⟩ := Option.ite_none_right_eq_some.mp h
    cases h
    exact .inr (.inr ⟨rfl, rfl⟩)
  | abort c =>
    cases h
    exact .inr (.inr ⟨rfl, rfl⟩)
  | write c now =>
    obtain ⟨pending, hpending, rfl⟩ := Option.map_eq_some_iff.mp h
    simp only [storesCalmly, hpending] at hcalm
    simp only [marks, hpending]
    cases pending with
    | recordFailure => exact .inl ⟨now, rfl, rfl⟩
    | recordSuccess storedHash newHash proof =>
      cases proof with
      | none => exact .inr (.inl ⟨rfl, rfl⟩)
      | some proof =>
        simp only [LoginDb.write, counters_claim]
        split
        · exact .inr (.inl ⟨rfl, rfl⟩)
        · exact .inr (.inr ⟨rfl, rfl⟩)
    | storePasswordHash hash =>
      have hzero : db.account.counters = (0, none) := by simpa using hcalm
      exact .inr (.inr ⟨rfl, hzero.symm⟩)
    | storeMfaSecret text => exact .inr (.inr ⟨rfl, rfl⟩)
    | confirmEnrollment proof =>
      refine .inr (.inr ⟨rfl, ?_⟩)
      simp only [LoginDb.write, counters_claim]
      split <;> rfl
    | recordMfaStep proof =>
      refine .inr (.inr ⟨rfl, ?_⟩)
      simp only [LoginDb.write, counters_claim]
      split <;> rfl
    | clearMfa => exact .inr (.inr ⟨rfl, rfl⟩)
  | changePassword | beginEnrollment | confirmEnrollment | disableMfa | setPassword | resetMfa
  | setStatus => cases ha

theorem failedLoginCount_recordFailure (account : Account) (now : Nat) :
    (account.recordFailure now).failedLoginCount =
      if account.lockedUntil.any (· ≤ now) then 1 else account.failedLoginCount + 1 := rfl

theorem lockedUntil_recordFailure (account : Account) (now : Nat) :
    (account.recordFailure now).lockedUntil =
      if lockoutThreshold ≤ (account.recordFailure now).failedLoginCount then
        some (now + lockoutSeconds) else none := rfl

/-! ## Runs -/

/-- The runs in which every new hash of the password is stored while no failure is counted. -/
def calmSignIns (env : Env) : System LoginDb Act :=
  (signIns env).restrict fun db a => storesCalmly db a = true

theorem calm_step (h : (calmSignIns env).step db a db') :
    (∃ now, marks db a = [.failed now] ∧
      db'.account.counters = (db.account.recordFailure now).counters) ∨
    (marks db a = [.cleared] ∧ db'.account.counters = (0, none)) ∨
    (marks db a = [] ∧ db'.account.counters = db.account.counters) := by
  obtain ⟨hcalm, hstep⟩ := h
  obtain ⟨hsign, hstep⟩ := Option.ite_none_right_eq_some.mp hstep
  exact signInStep_counters hstep hsign hcalm

/-- The last statement of a recorded run. -/
theorem record_snoc {S : System LoginDb Act} {ms : List Mark}
    (h : (S.record marks).Run (db, []) (as ++ [a]) (db', ms)) :
    ∃ mid ms', (S.record marks).Run (db, []) as (mid, ms') ∧ S.step mid a db' ∧
      ms = ms' ++ marks mid a := by
  obtain ⟨⟨mid, ms'⟩, hrun, hstep, hms⟩ := h.snoc_inv
  exact ⟨mid, ms', hrun, hstep, hms⟩

/-- The failures before the threshold add up. -/
theorem failures_add (hunlocked : db.account.lockedUntil = none) {ms : List Mark}
    (h : ((calmSignIns env).record marks).Run (db, []) as (db', ms)) (hfailed : .cleared ∉ ms)
    (hle : db.account.failedLoginCount + ms.length ≤ lockoutThreshold) :
    db'.account.failedLoginCount = db.account.failedLoginCount + ms.length ∧
      (db.account.failedLoginCount + ms.length < lockoutThreshold →
        db'.account.lockedUntil = none) := by
  induction as using List.reverseRecOn generalizing db' ms with
  | nil =>
    cases h
    exact ⟨rfl, fun _ => hunlocked⟩
  | append_singleton as a ih =>
    obtain ⟨mid, ms', hrun, hstep, rfl⟩ := record_snoc h
    have hbefore := ih hrun (fun hmem => hfailed (List.mem_append_left _ hmem))
      (le_trans (by simp) hle)
    obtain ⟨now, hmark, hrow⟩ | ⟨hmark, -⟩ | ⟨hmark, hrow⟩ := calm_step hstep
    · rw [hmark, List.length_append, List.length_singleton] at hle ⊢
      obtain ⟨hcount, hlock⟩ := Prod.mk.inj hrow
      have hnone := hbefore.2 (by omega)
      have hnext : (mid.account.recordFailure now).failedLoginCount =
          db.account.failedLoginCount + (ms'.length + 1) := by
        rw [failedLoginCount_recordFailure, hnone, hbefore.1]
        rfl
      refine ⟨hcount.trans hnext, fun hlt => ?_⟩
      rw [hlock, lockedUntil_recordFailure, hnext, if_neg (not_le.mpr hlt)]
    · exact absurd (List.mem_append_right _ (hmark ▸ List.mem_singleton_self _)) hfailed
    · rw [hmark, List.append_nil]
      obtain ⟨hcount, hlock⟩ := Prod.mk.inj hrow
      rw [hcount, hlock]
      exact hbefore

/-- Failures in a row: one has locked the account, or all of them are counted. -/
theorem locked_or_counted {ms : List Mark}
    (h : ((calmSignIns env).record marks).Run (db, []) as (db', ms)) (hfailed : .cleared ∉ ms) :
    (∃ pre post mid before now, as = pre ++ post ∧
      ((calmSignIns env).record marks).Run (db, []) pre (mid, before ++ [.failed now]) ∧
      mid.account.lockedUntil = some (now + lockoutSeconds)) ∨
    ms = [] ∨ (db'.account.lockedUntil = none ∧ ms.length ≤ db'.account.failedLoginCount ∧
      db'.account.failedLoginCount < lockoutThreshold) := by
  induction as using List.reverseRecOn generalizing db' ms with
  | nil =>
    cases h
    exact .inr (.inl rfl)
  | append_singleton as a ih =>
    obtain ⟨mid, ms', hrun, hstep, rfl⟩ := record_snoc h
    obtain ⟨pre, post, there, before, now, rfl, hpre, hlocked⟩ | hcounted :=
      ih hrun (fun hmem => hfailed (List.mem_append_left _ hmem))
    · exact .inl ⟨pre, post ++ [a], there, before,
        now, List.append_assoc pre post [a], hpre, hlocked⟩
    obtain ⟨now, hmark, hrow⟩ | ⟨hmark, -⟩ | ⟨hmark, hrow⟩ := calm_step hstep
    · rw [hmark] at h ⊢
      obtain ⟨hcount, hlock⟩ := Prod.mk.inj hrow
      rw [lockedUntil_recordFailure, ← hcount] at hlock
      split at hlock
      · exact .inl ⟨as ++ [a], [], db', ms', now, (List.append_nil _).symm, h, hlock⟩
      · next hlt =>
        refine .inr (.inr ⟨hlock, ?_, not_le.mp hlt⟩)
        rw [List.length_append, List.length_singleton, hcount, failedLoginCount_recordFailure]
        rcases hcounted with rfl | ⟨hnone, hle, -⟩
        · split <;> simp
        · rw [hnone]
          exact Nat.succ_le_succ hle
    · exact absurd (List.mem_append_right _ (hmark ▸ List.mem_singleton_self _)) hfailed
    · rw [hmark, List.append_nil]
      obtain ⟨hcount, hlock⟩ := Prod.mk.inj hrow
      rw [hcount, hlock]
      exact .inr hcounted

/-- Without a failure the lock stays, unless a success clears it with the counter. -/
theorem kept_or_cleared {ms : List Mark}
    (h : ((calmSignIns env).record marks).Run (db, []) as (db', ms))
    (hcleared : ∀ m ∈ ms, m = .cleared) :
    db'.account.counters = db.account.counters ∨ db'.account.counters = (0, none) := by
  induction as using List.reverseRecOn generalizing db' ms with
  | nil =>
    cases h
    exact .inl rfl
  | append_singleton as a ih =>
    obtain ⟨mid, ms', hrun, hstep, rfl⟩ := record_snoc h
    have hbefore := ih hrun fun m hm => hcleared m (List.mem_append_left _ hm)
    obtain ⟨now, hmark, -⟩ | ⟨-, hrow⟩ | ⟨-, hrow⟩ := calm_step hstep
    · have hmem : Mark.failed now ∈ ms' ++ marks mid a :=
        List.mem_append_right _ (hmark ▸ List.mem_singleton_self _)
      cases hcleared _ hmem
    · exact .inr hrow
    · rw [hrow]
      exact hbefore

/-- A sign-in that finds the account locked writes nothing. -/
theorem authenticate_locked {account : Account} {moment : Nat} (h : account.isLocked moment = true)
    (password : String) (code : Option String) (turnedOff readable : Bool) (newHash : String) :
    authenticate env account password code turnedOff moment readable newHash = none := by
  unfold authenticate
  rw [if_pos (.inr (.inr h))]

/-- **The lockout law** holds where every new hash of the password is stored while no failure is
counted. -/
theorem ten_failures_lock (env : Env) : LockoutLaw (calmSignIns env) where
  counted db a db' now _ hstep hmark := by
    obtain ⟨now', hmark', hrow⟩ | ⟨hmark', -⟩ | ⟨hmark', -⟩ := calm_step hstep
    · obtain rfl : now' = now := by simpa [hmark] using hmark'.symm
      exact (Prod.mk.inj hrow).1
    · cases hmark.symm.trans hmark'
    · cases hmark.symm.trans hmark'
  adds db as db' ms _ hrun hfailed hunlocked hle := (failures_add hunlocked hrun hfailed hle).1
  locks db as db' ms _ hrun hfailed hten := by
    obtain hlocked | rfl | ⟨-, hle, hlt⟩ := locked_or_counted hrun hfailed
    · exact hlocked
    · cases hten
    · omega
  refused db c password code turnedOff moment readable newHash db' _ hstep hlocked := by
    obtain ⟨-, hstep⟩ := hstep
    obtain ⟨-, hstep⟩ := Option.ite_none_right_eq_some.mp hstep
    obtain ⟨-, hstep⟩ := Option.ite_none_right_eq_some.mp hstep
    rw [authenticate_locked hlocked] at hstep
    cases hstep
    refine ⟨rfl, ?_⟩
    show Function.update db.calls c none c = none
    rw [Function.update_self]
  restarts db as mid ms a db' now fallen _ hrun hcleared hfallen hstep hmark hexpired := by
    obtain ⟨now', hmark', hrow⟩ | ⟨hmark', -⟩ | ⟨hmark', -⟩ := calm_step hstep
    · obtain rfl : now' = now := by simpa [hmark] using hmark'.symm
      rw [(Prod.mk.inj hrow).1, failedLoginCount_recordFailure]
      rcases kept_or_cleared hrun hcleared with hkept | hcleared
      · rw [(Prod.mk.inj hkept).2, hfallen]
        simp [hexpired]
      · obtain ⟨hcount, hnone⟩ := Prod.mk.inj hcleared
        simp [hcount, hnone]
    · cases hmark.symm.trans hmark'
    · cases hmark.symm.trans hmark'

/-! ## A new hash amid the failures -/

/-- The password is "secret", and its old hash is outdated. -/
def outdatedEnv : Env where
  verifyPassword password _ := password = "secret"
  needsRehash hash := hash = "old"
  decodeSecret _ := none
  hotp _ _ := ""
  isDigit := Char.isDigit

def oldHash : LoginDb := { account := { passwordHash := some "old" } }

/-- A sign-in has succeeded, and has not stored the new hash yet. -/
def signedIn : List Act := [.authenticate 0 "secret" none false 0 true "new", .write 0 0]

def fiveGuesses : List Act :=
  (List.replicate 5 [.authenticate 1 "guess" none false 1 true "", .write 1 1]).flatten

def guessesAroundRehash : List Act := fiveGuesses ++ .write 0 2 :: fiveGuesses

/-- Ten failures in a row that never lock the account. -/
theorem rehash_forgets_failures : ¬ LockoutLaw (signIns outdatedEnv) := by
  intro hlaw
  obtain ⟨db, hdb, db', hdb', hnever⟩ : ∃ db,
      signedIn.foldlM (signInStep outdatedEnv) oldHash = some db ∧
      ∃ db', guessesAroundRehash.foldlM (fun s a => (signInStep outdatedEnv s.1 a).map
          fun u => (u, s.2 ++ marks s.1 a)) (db, []) =
        some (db', List.replicate 10 (.failed 1)) ∧
      (guessesAroundRehash.inits.all fun pre => (pre.foldlM (signInStep outdatedEnv) db).all
        fun mid : LoginDb => mid.account.lockedUntil.isNone) = true :=
    ⟨_, rfl, _, rfl, by decide +kernel⟩
  have hreachable : (signIns outdatedEnv).Reachable db :=
    ⟨oldHash, signedIn, ⟨_, rfl⟩, System.run_of_foldlM hdb⟩
  obtain ⟨pre, post, mid, before, now, hsplit, hpre, hlocked⟩ :=
    hlaw.locks db guessesAroundRehash db' _ hreachable (System.run_record_of_foldlM hdb')
      (by decide) rfl
  have hmid := hpre.of_record.foldlM_eq
  have hprefix := List.all_eq_true.mp hnever pre
    ((List.mem_inits pre _).mpr ⟨post, hsplit.symm⟩)
  rw [hmid, Option.all_some, hlocked] at hprefix
  cases hprefix

end GenusOs.Auth.LocalLogin
