import GenusOs.Library.Locks
import GenusOs.Library.Rows
import GenusOs.Library.Run
import GenusOs.Python.Str
import Mathlib

/-!
# Binding grants

`jit_provision` and the grants of `sso_binding_grants`, under any number of transactions at READ
COMMITTED. A statement sees what is committed when it starts, an `UPDATE` waits for the lock on a
row and looks at the row again once it has it, and `NOW()` is when the transaction began. What a
transaction writes is seen with its commit. Addresses are as `canonical_email` gives them.
-/

namespace GenusOs.Auth.Binding

abbrev Uuid := Nat

/-- A connection, with at most one transaction in flight. -/
abbrev Pid := Nat

/-- `idp_issuer` and `idp_subject`. -/
structure Identity where
  issuer : String
  subject : String
  deriving DecidableEq, Repr

inductive AccountStatus
  | active
  | disabled
  | invited
  deriving DecidableEq, Repr

/-- A row of `user_accounts`. -/
structure UserAccount where
  id : Uuid
  tenantId : String
  email : String
  role : String
  status : AccountStatus
  idp : Option Identity := none
  deriving DecidableEq, Repr

/-- A row of `sso_binding_grants`. -/
structure BindingGrant where
  id : Uuid
  tenantId : String
  email : String
  issuer : Option String
  createdBy : String
  createdAt : Nat
  expiresAt : Nat
  usedAt : Option Nat := none
  usedBy : Option Identity := none
  revokedAt : Option Nat := none
  /-- No column: the sign-in whose transaction has marked it used. -/
  usedIn : Option Nat := none
  deriving DecidableEq, Repr

/-- `jit_provision` is called. -/
structure SignIn where
  issuer : String
  subject : String
  email : String
  tenantId : String
  defaultRole : String
  /-- No argument: how many were called before. -/
  serial : Nat := 0
  deriving DecidableEq, Repr

def SignIn.identity (call : SignIn) : Identity where
  issuer := call.issuer
  subject := call.subject

/-- `create_binding_grant` is called. -/
structure Arming where
  tenantId : String
  email : String
  ttlSeconds : Nat
  createdBy : String
  issuer : Option String
  deriving DecidableEq, Repr

/-- A sign-in or an arming in flight, by the statement that comes next. -/
inductive Txn
  /-- `get_account_by_idp` has found an account, and `_touch_login` comes next. -/
  | touching (call : SignIn) (id : Uuid)
  /-- It has found none, and the transaction begins next. -/
  | unknown (call : SignIn)
  /-- The routed tenant has no account for the address. -/
  | absent (call : SignIn) (now : Nat)
  /-- One other tenant has an account and a grant of the root operator. -/
  | overridden (call : SignIn) (now : Nat) (tenantId : String)
  /-- There is an account, which may consume a grant. -/
  | found (call : SignIn) (now : Nat) (tenantId : String) (row : UserAccount)
  /-- There was no grant to consume. -/
  | unarmed (call : SignIn)
  | consumed (call : SignIn) (now : Nat) (row : UserAccount) (grant : BindingGrant)
  /-- There was nothing to bind any more. -/
  | lost (call : SignIn) (now : Nat) (grant : BindingGrant)
  | bound (call : SignIn) (now : Nat) (row : UserAccount) (grant : BindingGrant)
  /-- There is no account for the address in the tenant. -/
  | missing (call : SignIn) (tenantId : String)
  /-- There is none in any other tenant. -/
  | vacant (call : SignIn) (tenantId : String)
  | inserted (call : SignIn) (tenantId : String)
  /-- The account that a grant is armed for has been found. -/
  | arming (call : Arming) (now : Nat)
  /-- Of the grants of the snapshot, those still to look at and those updated; and the grants that
  there were then. -/
  | revoking (call : Arming) (now : Nat) (todo updated known : List Uuid)
  deriving DecidableEq, Repr

/-- The sign-in that it is for. -/
def Txn.call : Txn → Option SignIn
  | touching call _ | unknown call | absent call _ | overridden call _ _ | found call _ _ _
  | unarmed call | consumed call _ _ _ | lost call _ _ | bound call _ _ _ | missing call _
  | vacant call _ | inserted call _ => some call
  | arming _ _ | revoking _ _ _ _ _ => none

/-- The two tables, the transactions in flight with their locks, and what the sign-ins have come to
so far. -/
structure BindingDb where
  accounts : List UserAccount := []
  grants : List BindingGrant := []
  accountLocks : Locks Uuid Pid := fun _ => none
  grantLocks : Locks Uuid Pid := fun _ => none
  /-- Entries of `uq_user_accounts_idp` that are not committed. -/
  identities : Locks Identity Pid := fun _ => none
  /-- Entries of `UNIQUE (tenant_id, email)` that are not committed. -/
  addresses : Locks (String × String) Pid := fun _ => none
  txns : Pid → Option Txn := fun _ => none
  nextId : Uuid := 0
  nextCall : Nat := 0
  /-- The account that a sign-in was answered with, or `none` where it was refused. -/
  answers : List (Nat × Option Uuid) := []
  /-- The grants and the accounts that were bound with them. -/
  bindings : List (Uuid × Uuid) := []

/-! ## Grants -/

namespace BindingGrant

variable (grant : BindingGrant)

/-- Neither used nor revoked. -/
def pending : Bool := grant.usedAt = none ∧ grant.revokedAt = none

/-- Neither used, revoked nor expired. -/
def live (now : Nat) : Bool := grant.pending ∧ now < grant.expiresAt

def isFor (tenantId email : String) : Bool := grant.tenantId = tenantId ∧ grant.email = email

/-- `issuer IS NULL OR issuer = presenting` -/
def accepts (presenting : String) : Bool := grant.issuer.all (· = presenting)

/-- `created_by = 'cli' OR created_by LIKE 'cli:%' OR created_by LIKE 'root:%'` -/
def rootArmed : Bool :=
  grant.createdBy = "cli" ∨ Python.startsWith grant.createdBy "cli:" ∨
    Python.startsWith grant.createdBy "root:"

/-- The row that a sign-in has consumed, as it is committed. -/
def spent (call : SignIn) (now : Nat) (usedBy : Option Identity) : BindingGrant :=
  { grant with usedAt := some now, usedBy, usedIn := some call.serial }

def revoked (now : Nat) : BindingGrant := { grant with revokedAt := some now }

end BindingGrant

/-- The row of the new grant. -/
def Arming.grant (call : Arming) (now : Nat) (id : Uuid) : BindingGrant where
  id := id
  tenantId := call.tenantId
  email := call.email
  issuer := call.issuer
  createdBy := call.createdBy
  createdAt := now
  expiresAt := now + call.ttlSeconds

/-- `row.get("idp_issuer")` is truthy. -/
def UserAccount.hasIssuer (row : UserAccount) : Bool := row.idp.any (·.issuer ≠ "")

/-- `JIT_PROVISIONABLE_ROLES` -/
def jitProvisionableRoles : List String := ["member", "viewer"]

namespace BindingDb

variable (db : BindingDb)

/-- `WHERE tenant_id = tenantId AND email = email`. -/
def byAddress (tenantId email : String) : Option UserAccount :=
  db.accounts.find? fun a => a.tenantId = tenantId ∧ a.email = email

/-- `get_account_by_idp` -/
def byIdentity (identity : Identity) : Option UserAccount :=
  db.accounts.find? (·.idp = some identity)

def accountById (id : Uuid) : Option UserAccount := db.accounts.find? (·.id = id)

def grantById (id : Uuid) : Option BindingGrant := db.grants.find? (·.id = id)

def goOn (p : Pid) (txn : Txn) : BindingDb :=
  { db with txns := Function.update db.txns p (some txn) }

/-- The end of a transaction. -/
def finish (p : Pid) : BindingDb :=
  { db with
    txns := Function.update db.txns p none
    accountLocks := db.accountLocks.release p
    grantLocks := db.grantLocks.release p
    identities := db.identities.release p
    addresses := db.addresses.release p }

/-- The sign-in ends, with the account or refused. -/
def answer (p : Pid) (call : SignIn) (account : Option Uuid) : BindingDb :=
  { db.finish p with answers := db.answers ++ [(call.serial, account)] }

/-! ## The statements of `jit_provision` -/

/-- `get_account_by_idp` -/
def jitProvision (p : Pid) (request : SignIn) : BindingDb :=
  let call := { request with serial := db.nextCall }
  let db := { db with nextCall := db.nextCall + 1 }
  if call.defaultRole ∉ jitProvisionableRoles then db.answer p call none
  else match db.byIdentity call.identity with
    | none => db.goOn p (.unknown call)
    | some existing =>
      if existing.status ≠ .active then db.answer p call none
      else db.goOn p (.touching call existing.id)

/-- `_touch_login` -/
def touchLogin (p : Pid) (call : SignIn) (id : Uuid) : Option BindingDb :=
  match db.accountById id with
  | none => some (db.answer p call none)
  | some row =>
    if row.status ≠ .active then some (db.answer p call none)
    else if db.accountLocks id ≠ none then none
    else some (db.answer p call (some id))

/-- An account is there for the address. -/
def meet (p : Pid) (call : SignIn) (now : Nat) (tenantId : String)
    (row : UserAccount) : BindingDb :=
  if row.status ≠ .active ∨ row.hasIssuer then db.answer p call none
  else db.goOn p (.found call now tenantId row)

/-- The `SELECT` in the routed tenant, with which the transaction begins. -/
def lookUp (p : Pid) (call : SignIn) (now : Nat) : BindingDb :=
  match db.byAddress call.tenantId call.email with
  | none => db.goOn p (.absent call now)
  | some row => db.meet p call now call.tenantId row

/-- The tenants with an account for the address that a grant of the root operator is armed for. -/
def holders (call : SignIn) (now : Nat) : List String :=
  ((db.accounts.filter fun ua =>
    ua.email = call.email ∧ ua.status = .active ∧ ua.idp = none ∧
      db.grants.any fun g => g.isFor ua.tenantId ua.email ∧ g.live now ∧ g.accepts call.issuer ∧
        g.rootArmed).map (·.tenantId)).dedup

def lookForHolder (p : Pid) (call : SignIn) (now : Nat) : BindingDb :=
  match db.holders call now with
  | [tenantId] => db.goOn p (.overridden call now tenantId)
  | _ => db.goOn p (.missing call call.tenantId)

/-- The `SELECT` in the tenant of the grant. -/
def lookUpHolder (p : Pid) (call : SignIn) (now : Nat) (tenantId : String) : BindingDb :=
  match db.byAddress tenantId call.email with
  | none => db.goOn p (.missing call tenantId)
  | some row => db.meet p call now tenantId row

/-- `_consume_binding_grant`, which skips what is locked. -/
def consume (p : Pid) (call : SignIn) (now : Nat) (tenantId : String) (row : UserAccount) :
    BindingDb :=
  let grants := db.grants.filter fun g =>
    g.isFor tenantId call.email ∧ g.live now ∧ g.accepts call.issuer ∧ db.grantLocks g.id = none
  match Rows.newest (·.createdAt) grants with
  | none => db.goOn p (.unarmed call)
  | some grant =>
    { db.goOn p (.consumed call now row grant) with grantLocks := db.grantLocks.take grant.id p }

/-- The `UPDATE` that binds the account. An identity that is bound already raises. -/
def bind (p : Pid) (call : SignIn) (now : Nat) (row : UserAccount) (grant : BindingGrant) :
    Option BindingDb :=
  match db.accountById row.id with
  | none => some (db.goOn p (.lost call now grant))
  | some account =>
    if account.status ≠ .active ∨ account.idp ≠ none then some (db.goOn p (.lost call now grant))
    else if db.accountLocks row.id ≠ none then none
    else if (db.byIdentity call.identity).isSome then some (db.answer p call none)
    else if db.identities call.identity ≠ none then none
    else some
      { db.goOn p (.bound call now row grant) with
        accountLocks := db.accountLocks.take row.id p
        identities := db.identities.take call.identity p }

/-- The `UPDATE` of the grant with the identity, and the commit. -/
def commitBinding (p : Pid) (call : SignIn) (now : Nat) (row : UserAccount)
    (grant : BindingGrant) : BindingDb :=
  { db.answer p call (some row.id) with
    accounts := Rows.updateWhere (·.id = row.id)
      (fun a => { a with idp := some call.identity }) db.accounts
    grants := Rows.updateWhere (·.id = grant.id)
      (·.spent call now (some call.identity)) db.grants
    bindings := db.bindings ++ [(grant.id, row.id)] }

/-- `_rebound_by_same_identity` -/
def reboundBySameIdentity (identity : Identity) : Option UserAccount :=
  db.accounts.find? fun a => a.idp = some identity ∧ a.status = .active

/-- `_rebound_by_same_identity` where no grant was consumed. -/
def reboundUnarmed (p : Pid) (call : SignIn) : BindingDb :=
  db.answer p call ((db.reboundBySameIdentity call.identity).map (·.id))

/-- `_rebound_by_same_identity` where a grant was, which the commit keeps. -/
def reboundLost (p : Pid) (call : SignIn) (now : Nat) (grant : BindingGrant) : BindingDb :=
  match db.reboundBySameIdentity call.identity with
  | none => db.answer p call none
  | some won =>
    { db.answer p call (some won.id) with
      grants := Rows.updateWhere (·.id = grant.id) (·.spent call now none) db.grants }

/-- The `SELECT` in the other tenants. -/
def lookElsewhere (p : Pid) (call : SignIn) (tenantId : String) : BindingDb :=
  if db.accounts.any fun a => a.email = call.email ∧ a.tenantId ≠ tenantId then
    db.answer p call none
  else db.goOn p (.vacant call tenantId)

/-- The `INSERT` of a new account. An address or an identity that is taken raises. -/
def insertAccount (p : Pid) (call : SignIn) (tenantId : String) : Option BindingDb :=
  if (db.byAddress tenantId call.email).isSome ∨ (db.byIdentity call.identity).isSome then
    some (db.answer p call none)
  else if db.addresses (tenantId, call.email) ≠ none ∨ db.identities call.identity ≠ none then none
  else some
    { db.goOn p (.inserted call tenantId) with
      addresses := db.addresses.take (tenantId, call.email) p
      identities := db.identities.take call.identity p }

/-- Its commit. Its id is drawn with it, as nobody sees it before. -/
def commitAccount (p : Pid) (call : SignIn) (tenantId : String) : BindingDb :=
  { db.answer p call (some db.nextId) with
    accounts := db.accounts ++
      [{ id := db.nextId
         tenantId
         email := call.email
         role := call.defaultRole
         status := .active
         idp := some call.identity }]
    nextId := db.nextId + 1 }

/-! ## The statements of `create_binding_grant` -/

/-- The `SELECT` of the account, which raises where it could not consume the grant. -/
def arm (p : Pid) (call : Arming) (now : Nat) : BindingDb :=
  match db.byAddress call.tenantId call.email with
  | none => db
  | some target =>
    if target.hasIssuer ∨ target.status ≠ .active then db else db.goOn p (.arming call now)

/-- The `UPDATE` that revokes takes its snapshot. -/
def revokePending (p : Pid) (call : Arming) (now : Nat) : BindingDb :=
  let pending := db.grants.filter fun g => g.isFor call.tenantId call.email ∧ g.pending
  db.goOn p (.revoking call now (pending.map (·.id)) [] (db.grants.map (·.id)))

/-- The `UPDATE` comes to a row of its snapshot. -/
def visit (p : Pid) (call : Arming) (now : Nat) (todo updated known : List Uuid) (id : Uuid) :
    Option BindingDb :=
  if db.grantLocks id ≠ none then none
  else if (db.grantById id).any (·.pending) then some
    { db.goOn p (.revoking call now (todo.erase id) (id :: updated) known) with
      grantLocks := db.grantLocks.take id p }
  else some (db.goOn p (.revoking call now (todo.erase id) updated known))

/-- The `INSERT` of the grant, and the commit. -/
def commitGrant (p : Pid) (call : Arming) (now : Nat) (updated : List Uuid) : BindingDb :=
  { db.finish p with
    grants := Rows.updateWhere (fun g => g.id ∈ updated) (·.revoked now) db.grants ++
      [call.grant now db.nextId]
    nextId := db.nextId + 1 }

/-! ## Transactions of one statement -/

/-- `revoke_binding_grant` -/
def revokeBindingGrant (id : Uuid) (tenantId : Option String) (now : Nat) : Option BindingDb :=
  match db.grantById id with
  | none => some db
  | some grant =>
    if !grant.pending ∨ tenantId.any (· ≠ grant.tenantId) then some db
    else if db.grantLocks id ≠ none then none
    else some
      { db with grants := Rows.updateWhere (·.id = id) (·.revoked now) db.grants }

/-- An administrator sets the status of an account. -/
def setStatus (id : Uuid) (status : AccountStatus) : Option BindingDb :=
  if db.accountLocks id ≠ none then none
  else some
    { db with
      accounts := Rows.updateWhere (·.id = id) (fun a => { a with status }) db.accounts }

end BindingDb

/-! ## Interleavings -/

inductive Act
  | jitProvision (p : Pid) (request : SignIn)
  | createBindingGrant (p : Pid) (call : Arming) (now : Nat)
  | revokeBindingGrant (id : Uuid) (tenantId : Option String) (now : Nat)
  | setStatus (id : Uuid) (status : AccountStatus)
  /-- The next statement of a transaction, or its commit. One that begins a transaction reads the
  clock. -/
  | next (p : Pid) (now : Nat)
  | visit (p : Pid) (id : Uuid)
  /-- The connection is lost. -/
  | abort (p : Pid)
  deriving DecidableEq, Repr

/-- The next statement of a transaction. -/
def BindingDb.next (db : BindingDb) (p : Pid) (clock : Nat) : Txn → Option BindingDb
  | .touching call id => db.touchLogin p call id
  | .unknown call => some (db.lookUp p call clock)
  | .absent call now => some (db.lookForHolder p call now)
  | .overridden call now tenantId => some (db.lookUpHolder p call now tenantId)
  | .found call now tenantId row => some (db.consume p call now tenantId row)
  | .unarmed call => some (db.reboundUnarmed p call)
  | .consumed call now row grant => db.bind p call now row grant
  | .lost call now grant => some (db.reboundLost p call now grant)
  | .bound call now row grant => some (db.commitBinding p call now row grant)
  | .missing call tenantId => some (db.lookElsewhere p call tenantId)
  | .vacant call tenantId => db.insertAccount p call tenantId
  | .inserted call tenantId => some (db.commitAccount p call tenantId)
  | .arming call now => some (db.revokePending p call now)
  | .revoking call now [] updated _ => some (db.commitGrant p call now updated)
  | .revoking _ _ _ _ _ => none

/-- One statement, or `none` where it waits or there is none. -/
def bindingStep (db : BindingDb) : Act → Option BindingDb
  | .jitProvision p request => if db.txns p = none then some (db.jitProvision p request) else none
  | .createBindingGrant p call now =>
    if db.txns p = none then some (db.arm p call now) else none
  | .revokeBindingGrant id tenantId now => db.revokeBindingGrant id tenantId now
  | .setStatus id status => db.setStatus id status
  | .next p now => (db.txns p).bind (db.next p now)
  | .visit p id =>
    match db.txns p with
    | some (.revoking call now todo updated known) =>
      if id ∈ todo then db.visit p call now todo updated known id else none
    | _ => none
  | .abort p => some (db.finish p)

/-- The system that starts with any accounts and no grants. -/
def bindingSystem : System BindingDb Act :=
  .ofStep (fun db => ∃ accounts nextId, db = { accounts, nextId } ∧
    Rows.KeyUnique (·.id) accounts ∧ ∀ a ∈ accounts, a.id < nextId) bindingStep

end GenusOs.Auth.Binding
