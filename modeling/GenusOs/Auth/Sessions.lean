import GenusOs.Library.Locks
import GenusOs.Library.Rows
import GenusOs.Library.Run
import Mathlib

/-!
# Refresh sessions

The sessions of `user_sessions` under any number of transactions at READ COMMITTED. A statement
sees what is committed when it starts, an `UPDATE` waits for the lock on a row and looks at the row
again once it has it, and `NOW()` is when the transaction began. The statements of a sign-in and of
`revoke_session` are transactions of their own.
-/

namespace GenusOs.Auth

abbrev Uuid := Nat

/-- A connection, with at most one transaction in flight. -/
abbrev Pid := Nat

/-- A row of `user_sessions`. -/
structure UserSession where
  id : Uuid
  userId : Uuid
  refreshTokenHash : String
  expiresAt : Nat
  revokedAt : Option Nat := none
  rotatedAt : Option Nat := none
  rotatedTo : Option Uuid := none
  /-- No column: its id and the ids of the sessions it was rotated from, the sign-in's last. -/
  lineage : List Uuid
  deriving DecidableEq, Repr

/-- `rotate_session` is called, in a transaction that begins at `now`. -/
structure Rotation where
  refreshTokenHash : String
  successorHash : String
  ttlSeconds : Nat
  graceSeconds : Nat
  now : Nat
  deriving DecidableEq, Repr

/-- `revoke_user_sessions` is called, in a transaction that begins at `now`. -/
structure Revocation where
  userId : Uuid
  exceptRefreshHash : Option String
  now : Nat
  deriving DecidableEq, Repr

/-- What a caller of `rotate_session` is answered. -/
structure RotationAnswer where
  refreshTokenHash : String
  successorHash : String
  userId : Uuid
  rotatedAt : Nat
  replayed : Bool
  deriving DecidableEq, Repr

/-- A transaction in flight. -/
inductive Txn
  /-- The first `UPDATE` has spent the session. -/
  | spent (call : Rotation) (old : UserSession)
  /-- The successor is stored, or the account was not active. Its id is drawn with the commit, as
  nobody sees it before. -/
  | inserted (call : Rotation) (old : UserSession) (active : Bool)
  /-- The first `UPDATE` has found nothing to spend. -/
  | unspent (call : Rotation)
  /-- Of the rows of the snapshot, those still to look at and those updated; and the sessions that
  there were then. -/
  | revoking (call : Revocation) (todo updated known : List Uuid)
  deriving DecidableEq, Repr

/-- `user_sessions` and the status of the accounts, the transactions in flight with their locks, and
what has been answered and revoked so far. -/
structure SessionDb where
  sessions : List UserSession := []
  isActive : Uuid → Bool := fun _ => true
  locks : Locks Uuid Pid := fun _ => none
  /-- Entries of `uq_user_sessions_refresh` that are not committed. -/
  entries : Locks String Pid := fun _ => none
  txns : Pid → Option Txn := fun _ => none
  nextId : Uuid := 0
  answers : List RotationAnswer := []
  revoked : List (Revocation × List Uuid) := []

/-- A truthy `except_refresh_hash` with which the session's hash is not `<>`. -/
def Revocation.spares (call : Revocation) (hash : String) : Bool :=
  call.exceptRefreshHash = some hash ∧ hash ≠ ""

/-- The `WHERE` of `_revoke_sessions`. -/
def Revocation.selects (call : Revocation) (s : UserSession) : Bool :=
  s.userId = call.userId ∧ s.revokedAt = none ∧ ¬ call.spares s.refreshTokenHash

/-- The `WHERE` of the first `UPDATE`, but for the hash. -/
def Rotation.spends (call : Rotation) (s : UserSession) : Bool :=
  s.revokedAt = none ∧ call.now < s.expiresAt

/-- The row that was spent, as it is committed. -/
def Rotation.spent (call : Rotation) (rotatedTo : Option Uuid) (s : UserSession) : UserSession :=
  { s with revokedAt := some call.now, rotatedAt := some call.now, rotatedTo }

/-- The row of the successor. -/
def Rotation.successor (call : Rotation) (old : UserSession) (id : Uuid) : UserSession where
  id := id
  userId := old.userId
  refreshTokenHash := call.successorHash
  expiresAt := call.now + call.ttlSeconds
  lineage := id :: old.lineage

namespace SessionDb

variable (db : SessionDb)

/-- `WHERE refresh_token_hash = hash`. -/
def byHash (hash : String) : Option UserSession :=
  db.sessions.find? (·.refreshTokenHash = hash)

def byId (id : Uuid) : Option UserSession := db.sessions.find? (·.id = id)

def goOn (p : Pid) (txn : Txn) : SessionDb :=
  { db with txns := Function.update db.txns p (some txn) }

/-- The end of a transaction. -/
def finish (p : Pid) : SessionDb :=
  { db with
    txns := Function.update db.txns p none
    locks := db.locks.release p
    entries := db.entries.release p }

/-! ## Transactions of one statement -/

/-- `create_session`, which waits for an entry of the index, or raises where there is one. -/
def createSession (userId : Uuid) (hash : String) (expiresAt : Nat) : Option SessionDb :=
  if db.entries hash ≠ none ∨ (db.byHash hash).isSome then none
  else some
    { db with
      sessions := db.sessions ++
        [{ id := db.nextId, userId, refreshTokenHash := hash, expiresAt, lineage := [db.nextId] }]
      nextId := db.nextId + 1 }

/-- `revoke_session` -/
def revokeSession (hash : String) (now : Nat) : Option SessionDb :=
  match db.byHash hash with
  | none => some db
  | some s =>
    if s.revokedAt ≠ none then some db
    else if db.locks s.id ≠ none then none
    else some
      { db with
        sessions := Rows.updateWhere (·.id = s.id) (fun r => { r with revokedAt := some now })
          db.sessions }

/-! ## The statements of `rotate_session` -/

/-- The `UPDATE` that spends the token. -/
def rotate (p : Pid) (call : Rotation) : Option SessionDb :=
  match db.byHash call.refreshTokenHash with
  | none => some (db.goOn p (.unspent call))
  | some s =>
    if !call.spends s then some (db.goOn p (.unspent call))
    else if db.locks s.id ≠ none then none
    else some { db.goOn p (.spent call s) with locks := db.locks.take s.id p }

/-- The `INSERT` of the successor. A hash that is stored already raises. -/
def insertSuccessor (p : Pid) (call : Rotation) (old : UserSession) : Option SessionDb :=
  if !db.isActive old.userId then some (db.goOn p (.inserted call old false))
  else if (db.byHash call.successorHash).isSome then some (db.finish p)
  else if db.entries call.successorHash ≠ none then none
  else some
    { db.goOn p (.inserted call old true) with entries := db.entries.take call.successorHash p }

/-- The `UPDATE` that links the two, and the commit. -/
def commitRotation (p : Pid) (call : Rotation) (old : UserSession) : SessionDb :=
  { db.finish p with
    sessions := Rows.updateWhere (·.id = old.id) (call.spent (some db.nextId)) db.sessions ++
      [call.successor old db.nextId]
    nextId := db.nextId + 1
    answers := db.answers ++
      [{ refreshTokenHash := call.refreshTokenHash
         successorHash := call.successorHash
         userId := old.userId
         rotatedAt := call.now
         replayed := false }] }

/-- The commit for an account that is not active. -/
def commitRefusal (p : Pid) (call : Rotation) (old : UserSession) : SessionDb :=
  { db.finish p with
    sessions := Rows.updateWhere (·.id = old.id) (call.spent none) db.sessions }

/-- The `SELECT` for a replay. -/
def replay (call : Rotation) : Option RotationAnswer := do
  let old ← db.byHash call.refreshTokenHash
  let rotatedAt ← old.rotatedAt
  let new ← db.byId (← old.rotatedTo)
  guard (call.now < rotatedAt + call.graceSeconds ∧
    new.refreshTokenHash = call.successorHash ∧ new.userId = old.userId ∧
    new.revokedAt = none ∧ call.now < new.expiresAt)
  return {
    refreshTokenHash := call.refreshTokenHash
    successorHash := call.successorHash
    userId := old.userId
    rotatedAt
    replayed := true }

/-- The `SELECT` for a replay, and the commit. -/
def commitReplay (p : Pid) (call : Rotation) : SessionDb :=
  { db.finish p with answers := db.answers ++ (db.replay call).toList }

/-! ## The statements of `revoke_user_sessions` -/

/-- The `UPDATE` takes its snapshot. -/
def revoke (p : Pid) (call : Revocation) : SessionDb :=
  db.goOn p (.revoking call ((db.sessions.filter call.selects).map (·.id)) []
    (db.sessions.map (·.id)))

/-- The `UPDATE` comes to a row of its snapshot. -/
def visit (p : Pid) (call : Revocation) (todo updated known : List Uuid) (id : Uuid) :
    Option SessionDb :=
  if db.locks id ≠ none then none
  else if ((db.byId id).any call.selects) then
    some { db.goOn p (.revoking call (todo.erase id) (id :: updated) known) with
      locks := db.locks.take id p }
  else some (db.goOn p (.revoking call (todo.erase id) updated known))

def commitRevocation (p : Pid) (call : Revocation) (updated known : List Uuid) : SessionDb :=
  { db.finish p with
    sessions := Rows.updateWhere (fun s => s.id ∈ updated)
      (fun s => { s with revokedAt := some call.now }) db.sessions
    revoked := db.revoked ++ [(call, known)] }

end SessionDb

/-! ## Interleavings -/

inductive Act
  /-- An administrator activates an account, or the opposite. -/
  | setStatus (userId : Uuid) (active : Bool)
  | createSession (userId : Uuid) (hash : String) (expiresAt : Nat)
  | revokeSession (hash : String) (now : Nat)
  | rotate (p : Pid) (call : Rotation)
  | revoke (p : Pid) (call : Revocation)
  /-- The next statement of a rotation, its commit, or the commit of a revocation. -/
  | next (p : Pid)
  | visit (p : Pid) (id : Uuid)
  /-- The connection is lost. -/
  | abort (p : Pid)
  deriving DecidableEq, Repr

/-- One statement, or `none` where it waits or there is none. -/
def sessionStep (db : SessionDb) : Act → Option SessionDb
  | .setStatus userId active =>
      some { db with isActive := Function.update db.isActive userId active }
  | .createSession userId hash expiresAt => db.createSession userId hash expiresAt
  | .revokeSession hash now => db.revokeSession hash now
  | .rotate p call => if db.txns p = none then db.rotate p call else none
  | .revoke p call => if db.txns p = none then some (db.revoke p call) else none
  | .next p =>
    match db.txns p with
    | some (.spent call old) => db.insertSuccessor p call old
    | some (.inserted call old true) => some (db.commitRotation p call old)
    | some (.inserted call old false) => some (db.commitRefusal p call old)
    | some (.unspent call) => some (db.commitReplay p call)
    | some (.revoking call [] updated known) => some (db.commitRevocation p call updated known)
    | _ => none
  | .visit p id =>
    match db.txns p with
    | some (.revoking call todo updated known) =>
      if id ∈ todo then db.visit p call todo updated known id else none
    | _ => none
  | .abort p => some (db.finish p)

/-- The system that starts with no sessions, whatever the status of the accounts. -/
def sessionSystem : System SessionDb Act :=
  .ofStep (fun db => ∃ isActive, db = { isActive }) sessionStep

end GenusOs.Auth
