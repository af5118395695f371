import GenusOs.Federation.Responder
import Mathlib

/-!
# What a peer can do through the responder

* `verifyHandshake_ok`: what an accepted hello has proved.
* `handle_cases`: a message activates the connection by such a hello, or leaves it as it is.
* `handle_served_iff`: the gates that a served operation has passed.
* `served_as_granted_iff`: the law holds at the steps at which the handler's exports are up to date.
-/

namespace GenusOs.Federation.Responder

open Python

variable {C : Crypto} {env : Env} {conn : Connection} {data : C.Bytes} {h : Handler}

/-! ## Checks -/

theorem eq_str {v : Json} {text : String} : v.eq (.str text) = true ↔ v = .str text := by
  cases v <;> simp [Json.eq, Json.number]

theorem bind_ok {α β : Type} {x : Except HandshakeFailure α} {f : α → Except HandshakeFailure β}
    {b : β} (hx : (x >>= f) = .ok b) : ∃ a, x = .ok a ∧ f a = .ok b := by
  cases x with
  | error e => cases hx
  | ok a => exact ⟨a, rfl, hx⟩

theorem require_ok {holds : Bool} {message : String} {u : Unit}
    (hok : require holds message = .ok u) : holds = true := by
  cases holds with
  | true => rfl
  | false => cases hok

theorem verifySignature_ok {publicPem signature : Json} {payloadJson : String} {u : Unit}
    (hok : verifySignature C publicPem payloadJson signature = .ok u) :
    ∃ pem key decoded, publicPem = .str pem ∧ C.loadPem pem = some (some key) ∧
      C.verify key decoded payloadJson = true := by
  unfold verifySignature at hok
  dsimp only at hok
  split at hok
  · next pem =>
    split at hok
    · next key hkey =>
      split at hok
      · next decoded _ =>
        split at hok
        · next hverify => exact ⟨pem, key, decoded, rfl, hkey, hverify⟩
        · cases hok
      · cases hok
    · cases hok
    · cases hok
  · cases hok

theorem checkExpiry_ok {metadata : Dict} {now : Int} {u : Unit}
    (hok : checkExpiry C metadata now = .ok u) : NotExpired C metadata now := by
  intro hset
  unfold checkExpiry at hok
  dsimp only at hok
  rw [if_pos hset] at hok
  split at hok
  · next expiry hexpiry =>
    split at hok
    · cases hok
    · next hlater => exact ⟨expiry, hexpiry, not_lt.mp hlater⟩
  · cases hok

theorem proofMatches_true {proof expected : Json} (hok : proofMatches C proof expected = .ok true) :
    ∃ text, proof = .str text ∧ expected = .str (C.sha256 text) := by
  unfold proofMatches at hok
  split at hok
  · split at hok
    · next text stored _ =>
      split at hok
      · have heq : C.sha256 text = stored := of_decide_eq_true (Except.ok.inj hok)
        exact ⟨text, rfl, congrArg Json.str heq.symm⟩
      · cases hok
    · cases hok
  · cases hok

/-- What the checks of a hello have established. -/
structure Checked (C : Crypto) (env : Env) (conn : Connection) (payload : Dict)
    (payloadJson publicKey : String) : Prop where
  presented : Dict.get payload "public_key" .null = .str publicKey
  nonempty : publicKey ≠ ""
  signed : ∃ key decoded, C.loadPem publicKey = some (some key) ∧
    C.verify key decoded payloadJson = true
  sameKey : conn.peerPublicKey ≠ "" → publicKey = conn.peerPublicKey
  notExpired : NotExpired C conn.metadata env.now
  proof : ∃ proof, Dict.get payload "secret_proof" .null = .str proof ∧
    Dict.get conn.metadata "secret_proof_hash" .null = .str (C.sha256 proof)

theorem checkHandshake_ok {payload : Dict} {payloadJson publicKey : String} {signature : Json}
    (hok : checkHandshake C env conn payload payloadJson signature = .ok publicKey) :
    Checked C env conn payload payloadJson publicKey := by
  unfold checkHandshake at hok
  obtain ⟨_, -, hok⟩ := bind_ok hok
  obtain ⟨_, -, hok⟩ := bind_ok hok
  obtain ⟨_, hkey, hok⟩ := bind_ok hok
  obtain ⟨_, hsignature, hok⟩ := bind_ok hok
  obtain ⟨_, hsame, hok⟩ := bind_ok hok
  obtain ⟨_, hexpiry, hok⟩ := bind_ok hok
  obtain ⟨_, -, hok⟩ := bind_ok hok
  obtain ⟨proved, hproof, hok⟩ := bind_ok hok
  obtain ⟨_, hproved, hok⟩ := bind_ok hok
  obtain ⟨pem, key, decoded, hpem, hload, hverify⟩ := verifySignature_ok hsignature
  rw [hpem] at hok hkey hsame
  obtain rfl := Except.ok.inj hok
  have htrue := require_ok hproved
  subst htrue
  refine ⟨hpem, ?_, ⟨key, decoded, hload, hverify⟩, fun hbound => ?_, checkExpiry_ok hexpiry,
    proofMatches_true hproof⟩
  · simpa [Json.truthy] using require_ok hkey
  · have hsame := require_ok hsame
    rw [decide_eq_false hbound, Bool.false_or] at hsame
    exact Json.str.inj (eq_str.mp hsame)

theorem verifyHandshake_ok {activated : Connection}
    (hok : verifyHandshake C env conn data = .ok activated) :
    ∃ payload payloadJson signature publicKey,
      unwrap C data = .ok (payload, payloadJson, signature) ∧
        Checked C env conn payload payloadJson publicKey ∧ activated.peerPublicKey = publicKey ∧
          activated.state = .active ∧ activated.exports = conn.exports ∧ activated.id = conn.id ∧
            activated.metadata = conn.metadata := by
  unfold verifyHandshake at hok
  obtain ⟨⟨payload, payloadJson, signature⟩, hunwrap, hok⟩ := bind_ok hok
  obtain ⟨publicKey, hchecked, hok⟩ := bind_ok hok
  obtain rfl := Except.ok.inj hok
  exact ⟨payload, payloadJson, signature, publicKey, hunwrap, checkHandshake_ok hchecked, rfl, rfl,
    rfl, rfl, rfl⟩

/-! ## The handler -/

theorem handshake_cases (h : Handler) (env : Env) (conn : Connection) (data : C.Bytes) :
    (∃ activated, verifyHandshake C env conn data = .ok activated ∧
      (handshake C h env conn data = (activated, .ack) ∨
        ∃ message, handshake C h env conn data = (activated, .unsigned message))) ∨
    ∃ message, handshake C h env conn data = (conn, .error message) := by
  unfold handshake
  split
  · exact .inr ⟨_, rfl⟩
  · split
    · exact .inr ⟨_, rfl⟩
    · split
      · exact .inr ⟨_, rfl⟩
      · exact .inr ⟨_, rfl⟩
      · next activated hok =>
        refine .inl ⟨activated, hok, ?_⟩
        split
        · exact .inr ⟨_, rfl⟩
        · exact .inl rfl

/-- The gates of an operation, one by one. -/
theorem serve_iff {op : Json} {name : String} {ran : Bool} :
    serve C h env conn op = .served name ran ↔ op = .str name ∧ conn.state = .active ∧
      denial h env name = "" ∧ env.opRuns = ran ∧
        ∃ required ∈ h.exports, opRequiredCapability name = some required := by
  unfold serve
  constructor
  · intro hserved
    split at hserved
    · cases hserved
    · next hactive =>
      split at hserved
      · cases hserved
      · dsimp only at hserved
        split at hserved
        · next op _ =>
          split at hserved
          · cases hserved
          · next required hrequired =>
            split at hserved
            · cases hserved
            · next hexported =>
              split at hserved
              · cases hserved
              · next hdenial =>
                cases hserved
                exact ⟨rfl, not_not.mp hactive, not_not.mp hdenial, rfl, required,
                  not_not.mp hexported, hrequired⟩
        · cases hserved
  · rintro ⟨rfl, hactive, hdenial, rfl, required, hexported, hrequired⟩
    rw [if_neg (not_not.mpr hactive), if_neg (by simp [Json.hashable])]
    dsimp only
    rw [hrequired]
    dsimp only
    rw [if_neg (not_not.mpr hexported), if_neg (not_not.mpr hdenial)]

/-- A message activates the connection by a hello, or leaves it as it is. -/
theorem handle_cases (h : Handler) (env : Env) (conn : Connection) (data : C.Bytes) :
    (∃ activated, Asks C data HANDSHAKE_OP ∧ conn.state = .pending ∧
      verifyHandshake C env conn data = .ok activated ∧ (handle C h env conn data).1 = activated ∧
        ((handle C h env conn data).2 = .ack ∨
          ∃ message, (handle C h env conn data).2 = .unsigned message)) ∨
    (handle C h env conn data).1 = conn := by
  unfold handle
  split
  · exact .inr rfl
  · next payload hloads =>
    dsimp only
    split
    · next hop =>
      split
      · exact .inr rfl
      · split
        · exact .inr rfl
        · next hpending =>
          rcases handshake_cases h env conn data with
            ⟨activated, hok, hack | ⟨message, hunsigned⟩⟩ | ⟨message, hrefused⟩
          · refine .inl ⟨activated, ⟨payload, hloads, eq_str.mp hop⟩, not_not.mp hpending, hok, ?_⟩
            rw [hack]
            exact ⟨rfl, .inl rfl⟩
          · refine .inl ⟨activated, ⟨payload, hloads, eq_str.mp hop⟩, not_not.mp hpending, hok, ?_⟩
            rw [hunsigned]
            exact ⟨rfl, .inr ⟨message, rfl⟩⟩
          · exact .inr (congrArg Prod.fst hrefused)
    · exact .inr rfl
  · exact .inr rfl

theorem opRequiredCapability_handshake : opRequiredCapability HANDSHAKE_OP = none := by decide

/-- The gates that a served operation has passed. -/
theorem handle_served_iff {op : String} {ran : Bool} :
    (handle C h env conn data).2 = .served op ran ↔ Asks C data op ∧ conn.state = .active ∧
      denial h env op = "" ∧ env.opRuns = ran ∧
        ∃ required ∈ h.exports, opRequiredCapability op = some required := by
  constructor
  · intro hserved
    rcases handle_cases h env conn data with
      ⟨activated, -, -, -, -, hack | ⟨message, hunsigned⟩⟩ | -
    · rw [hack] at hserved
      cases hserved
    · rw [hunsigned] at hserved
      cases hserved
    unfold handle at hserved
    split at hserved
    · cases hserved
    · next payload hloads =>
      dsimp only at hserved
      split at hserved
      · next hop =>
        split at hserved
        · cases hserved
        · split at hserved
          · cases hserved
          · rcases handshake_cases h env conn data with
              ⟨activated, -, hack | ⟨message, hunsigned⟩⟩ | ⟨message, hrefused⟩
            · rw [hack] at hserved
              cases hserved
            · rw [hunsigned] at hserved
              cases hserved
            · rw [hrefused] at hserved
              cases hserved
      · obtain ⟨hop, hgates⟩ := serve_iff.mp hserved
        exact ⟨⟨payload, hloads, hop⟩, hgates⟩
    · cases hserved
  · rintro ⟨⟨payload, hloads, hop⟩, hgates⟩
    have hother : ¬ (Json.str op).eq (.str HANDSHAKE_OP) = true := by
      intro heq
      obtain ⟨-, -, -, required, -, hrequired⟩ := hgates
      rw [Json.str.inj (eq_str.mp heq), opRequiredCapability_handshake] at hrequired
      cases hrequired
    unfold handle
    rw [hloads]
    dsimp only
    rw [hop, if_neg hother]
    exact serve_iff.mpr ⟨rfl, hgates⟩

/-! ## Runs -/

/-- What stays as it was when the handler was built. -/
structure Inv (s : State) : Prop where
  id : s.conn.id = s.built.id
  metadata : s.conn.metadata = s.built.metadata
  exports : s.handler.exports = s.built.exports

/-- An operator sets the state, or the exports. -/
theorem operate_keeps (conn : Connection) (op : Operation) (now : String) :
    (operate conn now op).id = conn.id ∧
    (operate conn now op).metadata = conn.metadata ∧
      (operate conn now op).peerPublicKey = conn.peerPublicKey := by
  have htransition : ∀ state, ((conn.transitionState state now).getD conn).id = conn.id ∧
      ((conn.transitionState state now).getD conn).metadata = conn.metadata ∧
        ((conn.transitionState state now).getD conn).peerPublicKey = conn.peerPublicKey := by
    intro state
    unfold Connection.transitionState
    split
    · exact ⟨rfl, rfl, rfl⟩
    · exact ⟨rfl, rfl, rfl⟩
  cases op with
  | activate => exact htransition .active
  | limit => exact htransition .limited
  | suspend => exact htransition .suspended
  | setExports exports => exact ⟨rfl, rfl, rfl⟩
  | addExport capability =>
    unfold operate Connection.addExport
    dsimp only
    split
    · exact ⟨rfl, rfl, rfl⟩
    · exact ⟨rfl, rfl, rfl⟩
  | removeExport capability =>
    unfold operate Connection.removeExport
    dsimp only
    split
    · exact ⟨rfl, rfl, rfl⟩
    · exact ⟨rfl, rfl, rfl⟩

/-- Whatever the message, the secret and the expiry stay, and so does a key that is bound. -/
theorem handle_keeps (h : Handler) (env : Env) (conn : Connection) (data : C.Bytes) :
    (handle C h env conn data).1.id = conn.id ∧
    (handle C h env conn data).1.metadata = conn.metadata ∧
      (handle C h env conn data).1.exports = conn.exports ∧
        (conn.peerPublicKey ≠ "" →
          (handle C h env conn data).1.peerPublicKey = conn.peerPublicKey) := by
  rcases handle_cases h env conn data with
    ⟨activated, -, -, hok, hconn, -⟩ | hsame
  · obtain ⟨_, _, _, publicKey, -, hchecked, hkey, -, hexports, hid, hmetadata⟩ :=
      verifyHandshake_ok hok
    rw [hconn]
    exact ⟨hid, hmetadata, hexports, fun hbound => hkey.trans (hchecked.sameKey hbound)⟩
  · rw [hsame]
    exact ⟨rfl, rfl, rfl, fun _ => rfl⟩

variable {s t : State} {a : Act C} {Signed : C.Key → String → Prop}

theorem step_inv (hs : Inv s) (hstep : step C s a = some t) : Inv t := by
  cases a with
  | operate op now =>
    obtain rfl := Option.some.inj hstep
    obtain ⟨hid, hmetadata, -⟩ := operate_keeps s.conn op now
    exact ⟨hid.trans hs.id, hmetadata.trans hs.metadata, hs.exports⟩
  | message env data =>
    obtain rfl := Option.some.inj hstep
    obtain ⟨hid, hmetadata, -⟩ := handle_keeps s.handler env s.conn data
    exact ⟨hid.trans hs.id, hmetadata.trans hs.metadata, hs.exports⟩

theorem inv_reachable (hs : (responder C).Reachable s) : Inv s := by
  refine hs.invariant ?_ ?_
  · rintro _ ⟨built, hasConfig, rfl⟩
    exact ⟨rfl, rfl, rfl⟩
  · intro u b v hu hb
    exact step_inv hu hb

/-- An accepted hello is what the law asks for. -/
theorem hello_of_ok (hu : Unforgeable C Signed) (hs : Inv s) (hasks : Asks C data HANDSHAKE_OP)
    {activated : Connection} (hok : verifyHandshake C env s.conn data = .ok activated) :
    activated.state = .active ∧ Hello C Signed env s.built data activated.peerPublicKey := by
  obtain ⟨payload, payloadJson, signature, publicKey, hunwrap, hchecked, rfl, hactive, -⟩ :=
    verifyHandshake_ok hok
  obtain ⟨proof, hproof, hstored⟩ := hchecked.proof
  obtain ⟨key, decoded, hload, hverify⟩ := hchecked.signed
  have hexpiry := hchecked.notExpired
  rw [hs.metadata] at hstored hexpiry
  refine ⟨hactive, hasks, ⟨payload, payloadJson, signature, hunwrap, hchecked.presented,
    ⟨key, hload, hu.signed key decoded payloadJson hverify⟩, proof, hproof, hstored, ?_⟩, hexpiry⟩
  intro secret hsecret
  exact hu.proof proof secret s.built.id (Json.str.inj (hstored.symm.trans hsecret))

/-- **A peer gets what the operator granted and nothing else, exactly where the handler's exports
are up to date.** -/
theorem served_as_granted_iff (hu : Unforgeable C Signed) (hs : (responder C).Reachable s)
    (hstep : (responder C).step s a t) : Lawful C Signed s a t ↔ Calm C s a := by
  have hinv := inv_reachable hs
  have hstep : step C s a = some t := hstep
  cases a with
  | operate op now =>
    obtain rfl := Option.some.inj hstep
    exact ⟨fun _ => trivial, fun _ => ⟨fun _ => (operate_keeps s.conn op now).2.2, nofun⟩⟩
  | message env data =>
    obtain rfl := Option.some.inj hstep
    obtain ⟨-, -, hexports, hbound⟩ := handle_keeps s.handler env s.conn data
    constructor
    · intro hlawful op required hasks hrequired hactive hdenial hbuilt
      have hmessage := hlawful.message env data rfl
      have hserved : (handle C s.handler env s.conn data).2 = .served op env.opRuns :=
        handle_served_iff.mpr ⟨hasks, hactive, hdenial, rfl, required, hinv.exports ▸ hbuilt,
          hrequired⟩
      obtain ⟨required', hexported, hrequired'⟩ :=
        hmessage.exported op env.opRuns (congrArg some hserved)
      obtain rfl := Option.some.inj (hrequired.symm.trans hrequired')
      exact hexported
    · intro hcalm
      refine ⟨hbound, ?_⟩
      rintro _ _ ⟨⟩
      refine ⟨fun hstate => ?_, hexports, fun hack hunsigned => ?_, fun op ran hserved => ?_,
        fun op ran hserved => ?_⟩
      · rcases handle_cases s.handler env s.conn data with
          ⟨activated, hasks, hpending, hok, hconn, -⟩ | hsame
        · obtain ⟨hactive, hhello⟩ := hello_of_ok hu hinv hasks hok
          show s.conn.state = .pending ∧ (handle C s.handler env s.conn data).1.state = .active ∧
            Hello C Signed env s.built data (handle C s.handler env s.conn data).1.peerPublicKey
          rw [hconn]
          exact ⟨hpending, hactive, hhello⟩
        · exact absurd (congrArg Connection.state hsame) hstate
      · rcases handle_cases s.handler env s.conn data with
          ⟨activated, -, -, -, -, hreply | ⟨message, hreply⟩⟩ | hsame
        · exact absurd (congrArg some hreply) hack
        · exact absurd (congrArg some hreply) (hunsigned message)
        · exact hsame
      · exact (handle_served_iff.mp (Option.some.inj hserved)).2.1
      · obtain ⟨hasks, hactive, hdenial, -, required, hcaptured, hrequired⟩ :=
          handle_served_iff.mp (Option.some.inj hserved)
        exact ⟨required, hcalm op required hasks hrequired hactive hdenial
          (hinv.exports ▸ hcaptured), hrequired⟩

/-! ## An export that is taken back -/

/-- The proof of the secret `s3cret` for `conn-1`. -/
def sampleProof : String := "6a39f2d670413686282497b631b82c9979c39198af13d385450b178f98918037"

def sampleHash : String := "ade8b3ab883d123fd83cae77eab271173c79fb3b386965c42a78a07334ffc607"

/-- A public key, and what its private key has made of `sampleText`. -/
def samplePem : String :=
  "-----BEGIN PUBLIC KEY-----\nMCowBQYDK2VwAyEABSVw0k9h+KqgEtRV1kN3yJLzFUw9Ulc3Ge6aTMEtzbY=\n" ++
    "-----END PUBLIC KEY-----\n"

def sampleSignature : String :=
  "m5kiAnbuMskICN6Va+AqZPwZKKrsgBCqAfLVe/RU47r/" ++
    "JYzGR7K5HpKH/2ZeVp0uhwKEwwcJwsmUBDQXFtAtDA=="

def samplePayload : Dict :=
  [("connection_id", .str "conn-1"), ("instance_id", .str "home-1"), ("instance_name", .str "Home"),
    ("op", .str "handshake"), ("public_key", .str samplePem), ("secret_proof", .str sampleProof),
    ("sent_at", .str "2026-01-01T00:00:00+00:00"), ("v", .int 1)]

/-- `samplePayload` as it is signed. -/
def sampleText : String :=
  "\x7b\"connection_id\":\"conn-1\",\"instance_id\":\"home-1\",\"instance_name\":\"Home\"," ++
    "\"op\":\"handshake\",\"public_key\":\"-----BEGIN PUBLIC KEY-----\\n" ++
    "MCowBQYDK2VwAyEABSVw0k9h+KqgEtRV1kN3yJLzFUw9Ulc3Ge6aTMEtzbY=\\n" ++
    "-----END PUBLIC KEY-----\\n\"," ++
    "\"secret_proof\":\"" ++ sampleProof ++
    "\",\"sent_at\":\"2026-01-01T00:00:00+00:00\",\"v\":1\x7d"

/-- Messages that are parsed already, one text, and one key that has signed it. -/
def sampleCrypto : Crypto where
  Bytes := Json
  Key := String
  loads := some
  loadsText text := if text = sampleText then some (.obj samplePayload) else none
  loadPem pem := if pem = samplePem then some (some pem) else none
  b64decode := some
  verify key signature text :=
    key = samplePem && signature.eq (.str sampleSignature) && text = sampleText
  sha256 text := if text = sampleProof then sampleHash else "sha256:" ++ text
  hmacSha256 secret id :=
    if secret = "s3cret" ∧ id = "conn-1" then sampleProof else "hmac:" ++ secret ++ ":" ++ id
  fromisoformat _ := none
  pyStr _ := ""

def sampleEnv : Env where
  now := 0
  nowText := "2026-01-01T00:00:00+00:00"
  permission _ _ _ _ := some none

/-- The export is taken back from a connection that is served. -/
def takenBack : List (Act sampleCrypto) :=
  [.operate (.removeExport "read_health") "2026-01-01T00:00:00+00:00"]

theorem revoked_export_served : ∃ s t : State, (responder sampleCrypto).Reachable s ∧
    (responder sampleCrypto).step s (.message sampleEnv (.obj [("op", .str "health")])) t ∧
      ¬ Lawful sampleCrypto (fun key text => key = samplePem ∧ text = sampleText) s
        (.message sampleEnv (.obj [("op", .str "health")])) t := by
  obtain ⟨s, t, hrun, hstep, hexports, hreply⟩ : ∃ s t,
      takenBack.foldlM (step sampleCrypto)
        { built := { id := "conn-1", state := .active, exports := ["read_health"] }
          handler := makeCommandHandler
            { id := "conn-1", state := .active, exports := ["read_health"] } true } = some s ∧
      step sampleCrypto s (.message sampleEnv (.obj [("op", .str "health")])) = some t ∧
        s.conn.exports = [] ∧ t.reply = some (.served "health" true) :=
    ⟨_, _, rfl, rfl, rfl, rfl⟩
  refine ⟨s, t, ⟨_, takenBack, ⟨_, true, rfl⟩, System.run_of_foldlM hrun⟩, hstep, fun hlawful => ?_⟩
  obtain ⟨required, hexported, -⟩ := (hlawful.message _ _ rfl).exported "health" true hreply
  rw [hexports] at hexported
  cases hexported

theorem sampleHash_fresh (text : String) : "sha256:" ++ text ≠ sampleHash := by
  intro heq
  have hhead : ("sha256:" ++ text).toList.head? = sampleHash.toList.head? :=
    congrArg (fun text : String => text.toList.head?) heq
  rw [String.toList_append] at hhead
  cases hhead

theorem sampleCrypto_sha256_injective {text other : String}
    (h : sampleCrypto.sha256 text = sampleCrypto.sha256 other) : text = other := by
  unfold sampleCrypto at h
  dsimp only at h
  split at h
  · next htext =>
    split at h
    · next hother => exact htext.trans hother.symm
    · exact absurd h.symm (sampleHash_fresh other)
  · split at h
    · exact absurd h (sampleHash_fresh text)
    · have hlist := congrArg String.toList h
      rw [String.toList_append, String.toList_append] at hlist
      exact String.toList_inj.mp (List.append_cancel_left hlist)

theorem sample_unforgeable :
    Unforgeable sampleCrypto (fun key text => key = samplePem ∧ text = sampleText) where
  signed key signature text hverify := by
    unfold sampleCrypto at hverify
    simp only [Bool.and_eq_true, decide_eq_true_eq] at hverify
    exact ⟨hverify.1.1, hverify.2⟩
  proof _ _ _ hhash := sampleCrypto_sha256_injective hhash

/-- The invite of `s3cret`. -/
def invited : Connection where
  id := "conn-1"
  exports := ["read_health"]
  metadata := [("secret_proof_hash", .str sampleHash)]

def sampleHello : Json :=
  .obj [("op", .str "handshake"), ("payload_json", .str sampleText),
    ("signature", .str sampleSignature)]

def sampleInvited : State := { built := invited, handler := makeCommandHandler invited true }

def sampleActivated : State :=
  (step sampleCrypto sampleInvited (.message sampleEnv sampleHello)).getD sampleInvited

theorem hello_activates : sampleInvited.conn.state = .pending ∧
    sampleActivated.conn.state = .active ∧
    sampleActivated.conn.peerPublicKey = samplePem ∧
      Lawful sampleCrypto (fun key text => key = samplePem ∧ text = sampleText) sampleInvited
        (.message sampleEnv sampleHello) sampleActivated := by
  have hstep : (responder sampleCrypto).step sampleInvited (.message sampleEnv sampleHello)
      sampleActivated := rfl
  have hactive : sampleActivated.conn.state = .active := by decide +kernel
  have hkey : sampleActivated.conn.peerPublicKey = samplePem := by decide +kernel
  refine ⟨rfl, hactive, hkey, (served_as_granted_iff sample_unforgeable
    ⟨_, [], ⟨invited, true, rfl⟩, .nil _⟩ hstep).mpr ?_⟩
  intro op required hasks hrequired hstate
  cases hstate

end GenusOs.Federation.Responder
