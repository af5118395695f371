import GenusOs.Library.Run
import GenusOs.Python.Json
import Mathlib

/-!
# The federation responder

A connection, what an operator does to it through the `ConnectionManager`, and the handler that
`make_command_handler` builds for it, with the hello that `verify_handshake` checks. What the code
imports for JSON, base64, PEM, Ed25519 and SHA-256 is a parameter, as is what it finds in the
database and on the clock. `on_activate` saves the connection and does not change it.
-/

namespace GenusOs.Federation.Responder

open Python

/-! ## The connection -/

inductive ConnectionState
  | pending
  | active
  | limited
  | suspended
  deriving DecidableEq

def ConnectionState.value : ConnectionState → String
  | .pending => "pending"
  | .active => "active"
  | .limited => "limited"
  | .suspended => "suspended"

/-- The peer's id and name are what a hello has for them. -/
structure Connection where
  id : String
  peerId : Json := .str ""
  peerName : Json := .str ""
  peerPublicKey : String := ""
  state : ConnectionState := .pending
  exports : List String := []
  metadata : Dict := []
  tenantId : String := "default"
  localPrincipalId : String := ""
  localPrincipalRole : String := ""
  activatedAt : String := ""
  lastSeenAt : String := ""
  lastError : String := ""
  updatedAt : String := ""

/-- `_STATE_TRANSITIONS`. -/
def stateTransitions : ConnectionState → List ConnectionState
  | .pending => [.active, .suspended]
  | .active => [.limited, .suspended]
  | .limited => [.active, .suspended]
  | .suspended => [.active, .pending]

namespace Connection

/-- `none` is the `ValueError`. -/
def transitionState (conn : Connection) (newState : ConnectionState) (now : String) :
    Option Connection :=
  if newState ∈ stateTransitions conn.state then
    some { conn with state := newState, updatedAt := now }
  else none

def activate (conn : Connection) (now : String) : Option Connection :=
  conn.transitionState .active now

def suspend (conn : Connection) (now : String) : Option Connection :=
  conn.transitionState .suspended now

def limit (conn : Connection) (now : String) : Option Connection :=
  conn.transitionState .limited now

def setExports (conn : Connection) (exports : List String) (now : String) : Connection :=
  { conn with exports := exports, updatedAt := now }

def addExport (conn : Connection) (capability : String) (now : String) : Connection :=
  if capability ∉ conn.exports then
    { conn with exports := conn.exports ++ [capability], updatedAt := now }
  else conn

/-- `list.remove` takes out the first one. -/
def removeExport (conn : Connection) (capability : String) (now : String) : Connection :=
  if capability ∈ conn.exports then
    { conn with exports := conn.exports.erase capability, updatedAt := now }
  else conn

end Connection

/-! ## What the code imports -/

structure Crypto where
  /-- The bytes of a message. -/
  Bytes : Type
  Key : Type
  /-- `json.loads`; `none` where it raises. -/
  loads : Bytes → Option Json
  loadsText : String → Option Json
  /-- `load_pem_public_key`; the inner `none` is a key that is not Ed25519. -/
  loadPem : String → Option (Option Key)
  b64decode : Json → Option Bytes
  /-- Whether `public_key.verify` does not raise. -/
  verify : Key → Bytes → String → Bool
  /-- The hex digest of a text. -/
  sha256 : String → String
  hmacSha256 : String → String → String
  /-- `datetime.fromisoformat`, in microseconds; `none` where it raises or has no zone. -/
  fromisoformat : Json → Option Int
  /-- `f"{value}"`. -/
  pyStr : Json → String

/-- What one call of the handler finds. -/
structure Env where
  now : Int
  /-- `now.isoformat()`. -/
  nowText : String
  /-- What `require_enforcing_rls` raises. -/
  rlsInert : Option String := none
  /-- `check_tool_permission`, given the role, the tenant, the tool and the user; `none` where it
  raises. -/
  permission : String → String → String → String → Option (Option String)
  /-- What `build_ack` raises. -/
  ackFails : Option String := none
  /-- An operation runs without an exception. -/
  opRuns : Bool := true

/-! ## The hello -/

inductive HandshakeFailure
  /-- `HandshakeError`. -/
  | refused (message : String)
  /-- Another exception. -/
  | crashed

def HANDSHAKE_OP : String := "handshake"

def HANDSHAKE_VERSION : Int := 1

variable (C : Crypto)

def verifySignature (publicPem : Json) (payloadJson : String) (signature : Json) :
    Except HandshakeFailure Unit :=
  let failed := Except.error (.refused "handshake signature verification failed")
  match publicPem with
  | .str pem =>
    match C.loadPem pem with
    | some (some key) =>
      match C.b64decode signature with
      | some decoded => if C.verify key decoded payloadJson then .ok () else failed
      | none => failed
    | some none => .error (.refused "peer key is not Ed25519")
    | none => failed
  | _ => failed

def unwrap (raw : C.Bytes) : Except HandshakeFailure (Dict × String × Json) :=
  let malformed := Except.error (.refused "malformed handshake envelope")
  match C.loads raw with
  | some (.obj envelope) =>
    match List.lookup "payload_json" envelope, List.lookup "signature" envelope with
    | some (.str payloadJson), some signature =>
      match C.loadsText payloadJson with
      | some (.obj payload) => .ok (payload, payloadJson, signature)
      | some _ => .error (.refused "malformed handshake payload")
      | none => malformed
    | _, _ => malformed
  | _ => malformed

/-- What the consumer presents. -/
def secretProof (secret connectionId : String) : String := C.hmacSha256 secret connectionId

/-- What the issuer stores. -/
def secretProofHash (secret connectionId : String) : String :=
  C.sha256 (secretProof C secret connectionId)

/-- `_proof_matches(payload.get("secret_proof") or "", expected)`; `compare_digest` takes ASCII
texts. -/
def proofMatches (proof expectedHash : Json) : Except HandshakeFailure Bool :=
  if proof.truthy then
    match proof, expectedHash with
    | .str proof, .str expected =>
      if expected.toList.all (·.isAscii) then .ok (C.sha256 proof = expected) else .error .crashed
    | _, _ => .error .crashed
  else .ok false

def checkExpiry (metadata : Dict) (now : Int) : Except HandshakeFailure Unit :=
  let expiresAt := Dict.get metadata "invite_expires_at" .null
  if expiresAt.truthy then
    match C.fromisoformat expiresAt with
    | some expiry => if expiry < now then .error (.refused "invite has expired") else .ok ()
    | none => .error (.refused "invite has an unreadable expiry")
  else .ok ()

def require (holds : Bool) (message : String) : Except HandshakeFailure Unit :=
  if holds then .ok () else .error (.refused message)

/-- The checks of `verify_handshake`, in their order, give the key that was presented. -/
def checkHandshake (env : Env) (conn : Connection) (payload : Dict) (payloadJson : String)
    (signature : Json) : Except HandshakeFailure String := do
  let version := Dict.get payload "v" .null
  require (version.eqInt HANDSHAKE_VERSION) ("unsupported handshake version: " ++ C.pyStr version)
  require ((Dict.get payload "connection_id" .null).eq (.str conn.id))
    "handshake is for a different connection"
  let publicKey := Dict.get payload "public_key" .null
  require publicKey.truthy "handshake presented no public key"
  verifySignature C publicKey payloadJson signature
  require (conn.peerPublicKey = "" || publicKey.eq (.str conn.peerPublicKey))
    "connection is already bound to a different peer key"
  checkExpiry C conn.metadata env.now
  let expected := Dict.get conn.metadata "secret_proof_hash" .null
  require expected.truthy "connection has no secret on file — reissue the invite"
  let proved ← proofMatches C (Dict.get payload "secret_proof" .null) expected
  require proved "handshake presented the wrong connection secret"
  match publicKey with
  | .str key => .ok key
  -- The signature was not verified against anything but a text.
  | _ => .error .crashed

def verifyHandshake (env : Env) (conn : Connection) (raw : C.Bytes) :
    Except HandshakeFailure Connection := do
  let (payload, payloadJson, signature) ← unwrap C raw
  let publicKey ← checkHandshake C env conn payload payloadJson signature
  .ok { conn with
    peerId := Dict.get payload "instance_id" (.str "")
    peerName := Dict.get payload "instance_name" (.str "")
    peerPublicKey := publicKey
    state := .active
    activatedAt := if conn.activatedAt = "" then env.nowText else conn.activatedAt
    lastSeenAt := env.nowText
    lastError := ""
    updatedAt := env.nowText }

/-! ## The handler -/

inductive Reply
  | error (message : String)
  /-- The handler raises. -/
  | raised
  | ack
  /-- `handshake verified but the ack could not be signed`. -/
  | unsigned (message : String)
  /-- The operation was executed, with an exception or without. -/
  | served (op : String) (ran : Bool)
  deriving DecidableEq

/-- What `make_command_handler` captures. -/
structure Handler where
  exports : List String
  principalId : String
  principalRole : String
  tenantId : String
  /-- There is a `FederationConfig`. -/
  hasConfig : Bool

def orElse (value default : String) : String := if value = "" then default else value

def makeCommandHandler (conn : Connection) (hasConfig : Bool) : Handler where
  exports := conn.exports
  principalId := orElse conn.localPrincipalId ("federation:" ++ orElse conn.id "unknown")
  principalRole := orElse conn.localPrincipalRole "federation_child"
  tenantId := orElse conn.tenantId "default"
  hasConfig := hasConfig

/-- `_OP_REQUIRED_CAPABILITY.get(op)`. -/
def opRequiredCapability (op : String) : Option String :=
  List.lookup op [("list_runs", "read_runs"), ("trigger", "trigger_agent"),
    ("health", "read_health")]

/-- `_OP_LOCAL_TOOL.get(op, op)`. -/
def opLocalTool (op : String) : String :=
  (List.lookup op [("list_runs", "list_agent_runs"),
    ("trigger", "exec"), ("health", "get_stats")]).getD
    op

def notActive (state : ConnectionState) : String :=
  "connection is not active (state: " ++ state.value ++ ")"

/-- `_handshake`. -/
def handshake (h : Handler) (env : Env) (conn : Connection) (data : C.Bytes) : Connection × Reply :=
  if !h.hasConfig then
    (conn, .error "handshake unavailable — this instance has no federation identity")
  else
    match env.rlsInert with
    | some message => (conn, .error message)
    | none =>
      match verifyHandshake C env conn data with
      | .error (.refused message) => (conn, .error ("handshake refused: " ++ message))
      | .error .crashed => (conn, .error "handshake failed")
      | .ok activated =>
        match env.ackFails with
        | some message => (activated, .unsigned message)
        | none => (activated, .ack)

/-- Gate 2: the denial, empty if there is none. -/
def denial (h : Handler) (env : Env) (op : String) : String :=
  match env.permission h.principalRole h.tenantId (opLocalTool op) h.principalId with
  | some answer => answer.getD ""
  | none => "permission check unavailable"

/-- The gates of an operation. -/
def serve (h : Handler) (env : Env) (conn : Connection) (op : Json) : Reply :=
  if conn.state ≠ .active then .error (notActive conn.state)
  else if !op.hashable then .raised
  else
    let unknown := Reply.error ("unknown op: " ++ C.pyStr op)
    match op with
    | .str op =>
      match opRequiredCapability op with
      | none => unknown
      | some required =>
        if required ∉ h.exports then
          .error ("op '" ++ op ++ "' not authorized — capability '" ++ required ++ "' not exported")
        else if denial h env op ≠ "" then .error ("op '" ++ op ++ "' denied: " ++ denial h env op)
        else .served op env.opRuns
    | _ => unknown

/-- `handle(data)`. -/
def handle (h : Handler) (env : Env) (conn : Connection) (data : C.Bytes) : Connection × Reply :=
  match C.loads data with
  | none => (conn, .error "malformed request")
  | some (.obj payload) =>
    let op := Dict.get payload "op" .null
    if op.eq (.str HANDSHAKE_OP) then
      if conn.state = .active then
        (conn, .error ("connection is already active — re-pairing an established " ++
          "link goes through the operator, not the invite"))
      else if conn.state ≠ .pending then (conn, .error (notActive conn.state))
      else handshake C h env conn data
    else (conn, serve C h env conn op)
  -- `payload.get` raises.
  | some _ => (conn, .raised)

/-! ## The system -/

inductive Operation
  | activate
  | limit
  | suspend
  | setExports (exports : List String)
  | addExport (capability : String)
  | removeExport (capability : String)

/-- What an operator does; nothing where it raises. -/
def operate (conn : Connection) (now : String) : Operation → Connection
  | .activate => (conn.activate now).getD conn
  | .limit => (conn.limit now).getD conn
  | .suspend => (conn.suspend now).getD conn
  | .setExports exports => conn.setExports exports now
  | .addExport capability => conn.addExport capability now
  | .removeExport capability => conn.removeExport capability now

structure State where
  /-- The connection as it was when the handler was built. -/
  built : Connection
  conn : Connection := built
  handler : Handler
  /-- The answer to the last message. -/
  reply : Option Reply := none

inductive Act
  | operate (op : Operation) (now : String)
  | message (env : Env) (data : C.Bytes)

def step (s : State) : Act C → Option State
  | .operate op now => some { s with conn := operate s.conn now op, reply := none }
  | .message env data =>
    let (conn, reply) := handle C s.handler env s.conn data
    some { s with conn := conn, reply := some reply }

/-- The handler is built for a connection as it is stored. -/
def responder : System State (Act C) :=
  .ofStep (fun s => ∃ built hasConfig, s = { built, handler := makeCommandHandler built hasConfig })
    (step C)

/-! ## The law -/

/-- The message asks for the operation. -/
def Asks (data : C.Bytes) (op : String) : Prop :=
  ∃ payload, C.loads data = some (.obj payload) ∧ Dict.get payload "op" .null = .str op

/-- What unforgeable signatures and hashes give: who signed a text that verifies, and that a text
whose hash is that of a secret's proof is the proof. -/
structure Unforgeable (Signed : C.Key → String → Prop) : Prop where
  signed : ∀ key signature text, C.verify key signature text = true → Signed key text
  proof : ∀ proof secret id, C.sha256 proof = secretProofHash C secret id →
    proof = secretProof C secret id

/-- The invite of the connection has no expiry, or it is not past. -/
def NotExpired (metadata : Dict) (now : Int) : Prop :=
  (Dict.get metadata "invite_expires_at" .null).truthy = true →
    ∃ expiry, C.fromisoformat (Dict.get metadata "invite_expires_at" .null) = some expiry ∧
      now ≤ expiry

/-- A hello that was signed by the key it presents, with the proof of the connection's secret. -/
structure Hello (Signed : C.Key → String → Prop) (env : Env) (conn : Connection) (data : C.Bytes)
    (publicKey : String) : Prop where
  asks : Asks C data HANDSHAKE_OP
  signed : ∃ payload payloadJson signature, unwrap C data = .ok (payload, payloadJson, signature) ∧
    Dict.get payload "public_key" .null = .str publicKey ∧
    (∃ key, C.loadPem publicKey = some (some key) ∧ Signed key payloadJson) ∧
    ∃ proof, Dict.get payload "secret_proof" .null = .str proof ∧
      Dict.get conn.metadata "secret_proof_hash" .null = .str (C.sha256 proof) ∧
      ∀ secret, Dict.get conn.metadata "secret_proof_hash" .null =
        .str (secretProofHash C secret conn.id) → proof = secretProof C secret conn.id
  notExpired : NotExpired C conn.metadata env.now

/-- What a message may do. The connection's secret and expiry are those it had when the handler was
built. -/
structure LawfulMessage (Signed : C.Key → String → Prop) (s : State) (env : Env) (data : C.Bytes)
    (t : State) : Prop where
  activates : t.conn.state ≠ s.conn.state → s.conn.state = .pending ∧ t.conn.state = .active ∧
    Hello C Signed env s.built data t.conn.peerPublicKey
  exports : t.conn.exports = s.conn.exports
  refused : t.reply ≠ some .ack → (∀ message, t.reply ≠ some (.unsigned message)) → t.conn = s.conn
  active : ∀ op ran, t.reply = some (.served op ran) → s.conn.state = .active
  exported : ∀ op ran, t.reply = some (.served op ran) →
    ∃ required ∈ s.conn.exports, opRequiredCapability op = some required

structure Lawful (Signed : C.Key → String → Prop) (s : State) (a : Act C) (t : State) : Prop where
  bound : s.conn.peerPublicKey ≠ "" → t.conn.peerPublicKey = s.conn.peerPublicKey
  message : ∀ env data, a = .message env data → LawfulMessage C Signed s env data t

/-- **The steps at which the handler's exports are up to date**: what an operation on the active
connection needs, and the principal may do, is still exported if it was when the handler was built.
-/
def Calm (s : State) : Act C → Prop
  | .message env data => ∀ op required, Asks C data op → opRequiredCapability op = some required →
      s.conn.state = .active → denial s.handler env op = "" → required ∈ s.built.exports →
        required ∈ s.conn.exports
  | .operate _ _ => True

end GenusOs.Federation.Responder
