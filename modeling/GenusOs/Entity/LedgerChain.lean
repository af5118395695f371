import GenusOs.Entity.Ledger
import Mathlib

/-!
# What a verified ledger says

The ledger is a hash chain whose material is everything an event holds but its id. `verify_chain`
does not look at the id, so two verified ledgers that end in one hash can differ in it, and in
nothing else.

* `verified_eq_iff`: tamper evidence, and what it leaves out.
* `ledger_invariant`: chain and indices after any history of appends, that the events are those of
  the drafts, and what the next append stores and answers.
-/

namespace GenusOs.Entity

open GenusOs.Python

variable {env : LedgerPlatform}

/-- SHA-256 is free of collisions on canonical JSON. -/
def LedgerPlatform.CollisionFree (env : LedgerPlatform) : Prop :=
  ∀ d e : Dict, canonicalHash env d = canonicalHash env e →
    d.dumps env.floatText = e.dumps env.floatText

/-! ## Material -/

theorem TreasuryEventType.value_injective : Function.Injective TreasuryEventType.value := by
  intro a b h
  cases a <;> cases b <;> first | rfl | exact absurd h (by decide)

theorem material_flat (e : LedgerEvent) : ∀ x ∈ e.material, x.2.isFlat = true := by
  simp [LedgerEvent.material, Json.isFlat]

theorem material_keys (e : LedgerEvent) : e.material.map Prod.fst =
    ["sequence", "tenant_id", "organization_id", "event_type", "actor_id", "subject_id",
      "idempotency_key", "occurred_at", "previous_hash", "audit_data"] := by
  simp only [LedgerEvent.material, List.map_cons, List.map_nil]

theorem material_nodup (e : LedgerEvent) : (e.material.map Prod.fst).Nodup := by
  rw [material_keys]
  decide

theorem material_of_hash (hsha : env.CollisionFree) {e f : LedgerEvent}
    (h : e.hashOf env = f.hashOf env) : e.material = f.material :=
  Dict.dumps_injective (material_flat e) (material_flat f)
    ((material_keys e).trans (material_keys f).symm) (material_nodup e) (hsha _ _ h)

/-- Everything but the id and the hash. -/
theorem fields_of_material {e f : LedgerEvent} (h : e.material = f.material) :
    { e with eventId := f.eventId, eventHash := f.eventHash } = f := by
  simp only [LedgerEvent.material, List.cons.injEq, Prod.mk.injEq, Json.int.injEq, Json.str.injEq,
    Int.natCast_inj, true_and, and_true] at h
  obtain ⟨hsequence, htenant, horganization, htype, hactor, hsubject, hkey, hoccurred, hprevious,
    haudit⟩ := h
  obtain ⟨⟩ := e
  obtain ⟨⟩ := f
  simp only at hsequence htenant horganization htype hactor hsubject hkey hoccurred hprevious haudit
  have htype := TreasuryEventType.value_injective htype
  have hoccurred := DateTime.isoformat_injective hoccurred
  subst hsequence htenant horganization htype hactor hsubject hkey hoccurred hprevious haudit
  rfl

/-! ## The chain -/

/-- The ledger as a hash chain. -/
def ledgerView (env : LedgerPlatform) : ChainView LedgerEvent Dict String where
  position := LedgerEvent.sequence
  previous := LedgerEvent.previousHash
  hash := LedgerEvent.eventHash
  material := LedgerEvent.material
  digest := canonicalHash env

theorem verifyFrom_iff {events : List LedgerEvent} {n : Nat} {h : String} :
    Ledger.verifyFrom env h n events = true ↔ (ledgerView env).Verified n h events := by
  induction events generalizing n h with
  | nil => simp [Ledger.verifyFrom, ChainView.Verified]
  | cons e rest ih =>
    unfold Ledger.verifyFrom
    constructor
    · intro hverify
      split at hverify
      · cases hverify
      · next hplace =>
        split at hverify
        · cases hverify
        · next hhash =>
          simp only [Bool.or_eq_true, decide_eq_true_eq, not_or, not_not] at hplace
          exact ⟨⟨hplace.1, hplace.2, not_not.mp hhash⟩, ih.mp hverify⟩
    · rintro ⟨⟨hposition, hprevious, hhash⟩, hrest⟩
      have hposition : e.sequence = n := hposition
      have hprevious : e.previousHash = h := hprevious
      have hhash : e.eventHash = e.hashOf env := hhash
      rw [if_neg (by simp [hposition, hprevious]), if_neg (not_not_intro hhash)]
      exact ih.mpr hrest

/-- **Tamper evidence.** Two verified ledgers of one length that end in one hash are equal exactly
when they carry the same event ids. -/
theorem verified_eq_iff (hsha : env.CollisionFree) {events events' : List LedgerEvent}
    (hlength : events.length = events'.length)
    (hverified : Ledger.verifyChain env { events } = true)
    (hverified' : Ledger.verifyChain env { events := events' } = true)
    (hlast : events.getLast?.map (·.eventHash) = events'.getLast?.map (·.eventHash)) :
    events = events' ↔ events.map (·.eventId) = events'.map (·.eventId) := by
  constructor
  · intro h
    rw [h]
  · intro hids
    have hv := verifyFrom_iff.mp hverified
    have hv' := verifyFrom_iff.mp hverified'
    have hmaterial : events.map LedgerEvent.material = events'.map LedgerEvent.material := by
      apply ChainView.Verified.material_eq (fun e f => material_of_hash hsha) _ hv hv' hlength
      · unfold ChainView.lastHash
        exact congrArg (·.getD GENESIS_HASH) hlast
      · intro e f h
        have hprevious := congrArg LedgerEvent.previousHash (fields_of_material h)
        exact hprevious
    have hhashes : events.map LedgerEvent.eventHash = events'.map LedgerEvent.eventHash := by
      have hh : events.map LedgerEvent.eventHash =
        events.map fun e => canonicalHash env e.material := hv.hashes
      have hh' : events'.map LedgerEvent.eventHash =
        events'.map fun e => canonicalHash env e.material := hv'.hashes
      rw [hh, hh']
      have hdigests := congrArg (List.map (canonicalHash env)) hmaterial
      rw [List.map_map, List.map_map] at hdigests
      exact hdigests
    apply List.ext_getElem hlength
    intro i hi hi'
    have hmaterial := List.getElem_of_eq hmaterial (by simpa using hi)
    have hhash := List.getElem_of_eq hhashes (by simpa using hi)
    have hid := List.getElem_of_eq hids (by simpa using hi)
    simp only [List.getElem_map] at hmaterial hhash hid
    rw [← fields_of_material hmaterial, ← hid, ← hhash]

/-- A platform whose hash is the text itself. -/
def samplePlatform : LedgerPlatform where
  lower := id
  isDecimal := Char.isDigit
  sha256 := id
  uuid5 := fun _ => "id"
  floatText := fun _ => "0.0"

theorem samplePlatform_collisionFree : samplePlatform.CollisionFree := fun _ _ h => h

def sampleDraft : LedgerEventDraft where
  tenantId := "acme"
  organizationId := "ops"
  eventType := .approvalGranted
  actorId := "alice"
  subjectId := "proposal-1"
  idempotencyKey := "key-1"
  auditData := .mapping []
  occurredAt :=
    { date := ⟨2026, 1, 1⟩, micros := 0, offsetMicros := some 0, date_valid := by decide
      micros_lt := by decide, offset_lt := by decide }

def sampleEvent : LedgerEvent :=
  Ledger.newEvent samplePlatform {} sampleDraft (Dict.dumps samplePlatform.floatText [])

/-- The sample event and two after it. -/
def sampleChain : List LedgerEvent :=
  ["key-2", "key-3"].foldl
    (fun events idempotencyKey => events ++ [Ledger.newEvent samplePlatform { events }
      { sampleDraft with idempotencyKey } (Dict.dumps samplePlatform.floatText [])])
    [sampleEvent]

/-- The chain after someone has written other ids into its first two events. -/
def forgedChain : List LedgerEvent :=
  List.zipWith (fun e eventId => { e with eventId }) sampleChain ["forged", "forged too", "id"]

theorem sampleChain_verified : Ledger.verifyChain samplePlatform { events := sampleChain } = true :=
  verifyFrom_iff.mpr ⟨⟨rfl, rfl, rfl⟩, ⟨rfl, rfl, rfl⟩, ⟨rfl, rfl, rfl⟩, trivial⟩

theorem forgedChain_verified : Ledger.verifyChain samplePlatform { events := forgedChain } = true :=
  verifyFrom_iff.mpr ⟨⟨rfl, rfl, rfl⟩, ⟨rfl, rfl, rfl⟩, ⟨rfl, rfl, rfl⟩, trivial⟩

theorem sampleChain_eq_iff : sampleChain = forgedChain ↔
    ["id", "id", "id"] = ["forged", "forged too", "id"] :=
  verified_eq_iff samplePlatform_collisionFree rfl sampleChain_verified forgedChain_verified rfl

/-- An event id can be rewritten unnoticed. -/
theorem forged_id_verifies : samplePlatform.CollisionFree ∧
    sampleChain.length = forgedChain.length ∧
    Ledger.verifyChain samplePlatform { events := sampleChain } = true ∧
    Ledger.verifyChain samplePlatform { events := forgedChain } = true ∧
    sampleChain.getLast?.map (·.eventHash) = forgedChain.getLast?.map (·.eventHash) ∧
    sampleChain ≠ forgedChain := by
  refine ⟨samplePlatform_collisionFree, rfl, sampleChain_verified, forgedChain_verified, rfl, ?_⟩
  intro h
  have hids : ["id", "id", "id"] = ["forged", "forged too", "id"] :=
    congrArg (List.map LedgerEvent.eventId) h
  exact absurd hids (by decide)

/-! ## Appends -/

/-- The semantics of the draft an event came from. -/
def LedgerEvent.semantic (e : LedgerEvent) : Dict :=
  [("tenant_id", .str e.tenantId), ("organization_id", .str e.organizationId),
    ("event_type", .str e.eventType.value), ("actor_id", .str e.actorId),
    ("subject_id", .str e.subjectId), ("idempotency_key", .str e.idempotencyKey),
    ("audit_data", .str e.auditDataJson)]

theorem semantic_of_hash (hsha : env.CollisionFree) {e : LedgerEvent} {draft : LedgerEventDraft}
    {auditJson : String} (h : canonicalHash env e.semantic = semanticHash env draft auditJson) :
    e.semantic = draft.semantic auditJson := by
  apply Dict.dumps_injective _ _ _ _ (hsha _ _ h)
  · simp [LedgerEvent.semantic, Json.isFlat]
  · simp [LedgerEventDraft.semantic, Json.isFlat]
  · simp only [LedgerEvent.semantic, LedgerEventDraft.semantic, List.map_cons, List.map_nil]
  · simp only [LedgerEvent.semantic, List.map_cons, List.map_nil]
    decide

/-- The event stands for the draft: it says all that the draft says, with the audit data as they
were redacted, and it happened when the draft did. The position, the hashes and the id are the
ledger's own. -/
structure LedgerEvent.Records (env : LedgerPlatform) (e : LedgerEvent) (draft : LedgerEventDraft)
    (redacted : Dict) : Prop where
  semantic : e.semantic = draft.semantic (redacted.dumps env.floatText)
  key : e.key = draft.key
  occurredAt : e.occurredAt = draft.occurredAt

/-- The chain, the index by key and the stored semantics agree. -/
structure Ledger.Consistent (env : LedgerPlatform) (l : Ledger) : Prop where
  chain : (ledgerView env).Verified 1 GENESIS_HASH l.events
  index : ∀ key e, l.byIdempotency.lookup key = some e ↔ e ∈ l.events ∧ e.key = key
  keys : (l.events.map LedgerEvent.key).Nodup
  semantics : ∀ e ∈ l.events, l.semanticHashes.lookup e.key = some (canonicalHash env e.semantic)

namespace Ledger

variable {l : Ledger} {draft : LedgerEventDraft} {redacted : Dict} {e : LedgerEvent}

theorem consistent_empty : Consistent env {} where
  chain := trivial
  index key e := by simp
  keys := by simp
  semantics e he := by simp at he

theorem newEvent_linked (l : Ledger) (draft : LedgerEventDraft) (auditJson : String) :
    (ledgerView env).Linked (1 + l.events.length) ((ledgerView env).lastHash GENESIS_HASH l.events)
      (l.newEvent env draft auditJson) where
  position := Nat.add_comm _ _
  previous := rfl
  hash := rfl

theorem newEvent_key (l : Ledger) (draft : LedgerEventDraft) (auditJson : String) :
    (l.newEvent env draft auditJson).key = draft.key := rfl

theorem newEvent_records (l : Ledger) (draft : LedgerEventDraft) (redacted : Dict) :
    (l.newEvent env draft (redacted.dumps env.floatText)).Records env draft redacted where
  semantic := rfl
  key := rfl
  occurredAt := rfl

/-- A fresh key adds an event. -/
theorem appendRedacted_fresh (h : l.byIdempotency.lookup draft.key = none) :
    l.appendRedacted env draft redacted =
      let auditJson := Dict.dumps env.floatText redacted
      ({ events := l.events ++ [l.newEvent env draft auditJson]
         semanticHashes := l.semanticHashes.insert draft.key (semanticHash env draft auditJson)
         byIdempotency := l.byIdempotency.insert draft.key (l.newEvent env draft auditJson) },
        .ok (l.newEvent env draft auditJson)) := by
  unfold appendRedacted
  rw [h]

/-- A used key adds nothing. -/
theorem Consistent.appendRedacted_used (hl : l.Consistent env) (he : e ∈ l.events)
    (hkey : e.key = draft.key) : l.appendRedacted env draft redacted =
      (l, if canonicalHash env e.semantic ≠
          semanticHash env draft (Dict.dumps env.floatText redacted) then
            .error .idempotencyConflict
        else .ok e) := by
  unfold appendRedacted
  have hindex := (hl.index draft.key e).mpr ⟨he, hkey⟩
  have hsemantic := hl.semantics e he
  rw [hkey] at hsemantic
  rw [hindex, hsemantic]
  simp only
  split <;> rfl

theorem Consistent.appendRedacted (hl : l.Consistent env) :
    (l.appendRedacted env draft redacted).1.Consistent env := by
  cases h : l.byIdempotency.lookup draft.key with
  | some e =>
    obtain ⟨he, hkey⟩ := (hl.index _ _).mp h
    rw [hl.appendRedacted_used he hkey]
    exact hl
  | none =>
    rw [appendRedacted_fresh h]
    have hfresh : ∀ e ∈ l.events, e.key ≠ draft.key := by
      intro e he hkey
      rw [(hl.index _ _).mpr ⟨he, hkey⟩] at h
      cases h
    set event := l.newEvent env draft (Dict.dumps env.floatText redacted) with hevent
    have hkey : event.key = draft.key := newEvent_key ..
    constructor
    · exact ChainView.Verified.concat_iff.mpr ⟨hl.chain, newEvent_linked ..⟩
    · intro key e
      rw [List.mem_append, List.mem_singleton]
      by_cases hk : key = draft.key
      · subst hk
        rw [AList.lookup_insert]
        constructor
        · intro h
          cases h
          exact ⟨.inr rfl, hkey⟩
        · rintro ⟨he | rfl, hek⟩
          · exact absurd hek (hfresh e he)
          · rfl
      · rw [AList.lookup_insert_ne hk, hl.index]
        constructor
        · rintro ⟨he, hek⟩
          exact ⟨.inl he, hek⟩
        · rintro ⟨he | rfl, hek⟩
          · exact ⟨he, hek⟩
          · exact absurd (hek.symm.trans hkey) hk
    · rw [List.map_append, List.map_singleton, List.nodup_append]
      refine ⟨hl.keys, List.nodup_singleton _, ?_⟩
      intro a ha b hb
      obtain ⟨e, he, rfl⟩ := List.mem_map.mp ha
      rw [List.mem_singleton.mp hb, hkey]
      exact hfresh e he
    · intro e he
      rcases List.mem_append.mp he with he | he
      · rw [AList.lookup_insert_ne (hfresh e he)]
        exact hl.semantics e he
      · rw [List.mem_singleton.mp he, hkey, AList.lookup_insert]
        rfl

/-- What an append does is what its section under the lock does, on audit data that redact to an
object; on other audit data it raises. -/
theorem append_cases (l : Ledger) (draft : LedgerEventDraft) :
    (∃ redacted, redactForAudit env.toTextPlatform none draft.auditData = .obj redacted ∧
      l.append env draft = l.appendRedacted env draft redacted) ∨
    l.append env draft = (l, .error .auditDataNotAnObject) := by
  unfold append
  split
  · next redacted h => exact .inl ⟨redacted, h, rfl⟩
  · exact .inr rfl

theorem append_of_redacted
    (hredacted : redactForAudit env.toTextPlatform none draft.auditData = .obj redacted) :
    l.append env draft = l.appendRedacted env draft redacted := by
  unfold append
  rw [hredacted]

/-- A draft under a fresh key is stored as an event of its own, which is the answer. -/
theorem Consistent.append_fresh (hl : l.Consistent env)
    (hredacted : redactForAudit env.toTextPlatform none draft.auditData = .obj redacted)
    (hfresh : ∀ e ∈ l.events, e.key ≠ draft.key) :
    ∃ e : LedgerEvent, e.Records env draft redacted ∧
      (l.append env draft).1.events = l.events ++ [e] ∧ (l.append env draft).2 = .ok e := by
  have hlookup : l.byIdempotency.lookup draft.key = none := by
    rw [Option.eq_none_iff_forall_not_mem]
    intro e he
    obtain ⟨hmem, hkey⟩ := (hl.index _ _).mp he
    exact hfresh e hmem hkey
  refine ⟨l.newEvent env draft (redacted.dumps env.floatText), newEvent_records .., ?_⟩
  rw [append_of_redacted hredacted, appendRedacted_fresh hlookup]
  exact ⟨rfl, rfl⟩

/-- What an append leaves is the events there were and at most one more, which stands for its
draft. -/
theorem mem_append (he : e ∈ (l.append env draft).1.events) : e ∈ l.events ∨
    ∃ redacted, redactForAudit env.toTextPlatform none draft.auditData = .obj redacted ∧
      e.Records env draft redacted := by
  have hcases := @append_cases env l draft
  obtain ⟨redacted, hredacted, happend⟩ | happend := hcases
  · rw [happend] at he
    cases hlookup : l.byIdempotency.lookup draft.key with
    | none =>
      rw [appendRedacted_fresh hlookup] at he
      rcases List.mem_append.mp he with he | he
      · exact .inl he
      · rw [List.mem_singleton.mp he]
        exact .inr ⟨redacted, hredacted, newEvent_records ..⟩
    | some stored =>
      -- under a used key the ledger stays, whatever the answer is
      have hsame : (l.appendRedacted env draft redacted).1 = l := by
        unfold appendRedacted
        rw [hlookup]
        simp only
        split
        · rfl
        · split <;> rfl
      rw [hsame] at he
      exact .inl he
  · rw [happend] at he
    exact .inl he

/-- A repeated draft is answered with its event. -/
theorem Consistent.append_repeated (hl : l.Consistent env)
    (hredacted : redactForAudit env.toTextPlatform none draft.auditData = .obj redacted)
    (he : e ∈ l.events) (hkey : e.key = draft.key)
    (h : e.semantic = draft.semantic (Dict.dumps env.floatText redacted)) :
    l.append env draft = (l, .ok e) := by
  have hhash : canonicalHash env e.semantic =
      semanticHash env draft (Dict.dumps env.floatText redacted) := congrArg (canonicalHash env) h
  rw [append_of_redacted hredacted, hl.appendRedacted_used he hkey, if_neg (not_not_intro hhash)]

/-- Another draft under a used key raises. -/
theorem Consistent.append_conflict (hl : l.Consistent env)
    (hredacted : redactForAudit env.toTextPlatform none draft.auditData = .obj redacted)
    (he : e ∈ l.events) (hkey : e.key = draft.key)
    (h : canonicalHash env e.semantic ≠
      semanticHash env draft (Dict.dumps env.floatText redacted)) :
    l.append env draft = (l, .error .idempotencyConflict) := by
  rw [append_of_redacted hredacted, hl.appendRedacted_used he hkey, if_pos h]

theorem Consistent.append (hl : l.Consistent env) : (l.append env draft).1.Consistent env := by
  obtain ⟨redacted, -, h⟩ | h := append_cases l draft
  · rw [h]
    exact hl.appendRedacted
  · rw [h]
    exact hl

theorem consistent_appendAll (drafts : List LedgerEventDraft) :
    (appendAll env drafts).Consistent env :=
  List.foldlRecOn drafts _ consistent_empty fun _ hl _ _ => hl.append

/-- Every event of a history of appends stands for one of the drafts. -/
theorem records_appendAll (drafts : List LedgerEventDraft) :
    ∀ e ∈ (appendAll env drafts).events, ∃ draft ∈ drafts, ∃ redacted,
      redactForAudit env.toTextPlatform none draft.auditData = .obj redacted ∧
        e.Records env draft redacted := by
  refine List.foldlRecOn drafts _ (motive := fun l : Ledger => ∀ e ∈ l.events, ∃ draft ∈ drafts,
    ∃ redacted, redactForAudit env.toTextPlatform none draft.auditData = .obj redacted ∧
      e.Records env draft redacted) ?_ ?_
  · intro e he
    exact absurd he List.not_mem_nil
  · intro l ih draft hdraft e he
    rcases mem_append he with he | he
    · exact ih e he
    · exact ⟨draft, hdraft, he⟩

/-- An append that raises changes nothing. -/
theorem Consistent.append_error (hl : l.Consistent env) {err : LedgerError}
    (h : (l.append env draft).2 = .error err) :
    (l.append env draft).1 = l ∧ err ≠ .keyError := by
  obtain ⟨redacted, -, happend⟩ | happend := append_cases l draft
  · rw [happend] at h ⊢
    cases hlookup : l.byIdempotency.lookup draft.key with
    | none =>
      rw [appendRedacted_fresh hlookup] at h
      cases h
    | some e =>
      obtain ⟨he, hkey⟩ := (hl.index _ _).mp hlookup
      rw [hl.appendRedacted_used he hkey] at h ⊢
      refine ⟨rfl, ?_⟩
      simp only at h
      split at h <;> cases h
      decide
  · rw [happend] at h ⊢
    cases h
    exact ⟨rfl, by decide⟩

end Ledger

/-- **The ledger invariant.** After any history of appends the chain verifies, the positions run
from one without a gap, the index finds by its key exactly the event that carries it, and every
event stands for a draft of the history. A draft under a fresh key is stored at the end and answered
with its event, a repeated draft is answered with the event it has, a different draft under its key
raises, and whatever raises leaves the ledger as it was. -/
theorem ledger_invariant (drafts : List LedgerEventDraft) :
    (Ledger.appendAll env drafts).verifyChain env = true ∧
    (Ledger.appendAll env drafts).events.map (·.sequence) =
      List.range' 1 (Ledger.appendAll env drafts).events.length ∧
    (∀ key e, (Ledger.appendAll env drafts).byIdempotency.lookup key = some e ↔
      e ∈ (Ledger.appendAll env drafts).events ∧ e.key = key) ∧
    ((Ledger.appendAll env drafts).events.map LedgerEvent.key).Nodup ∧
    (∀ e ∈ (Ledger.appendAll env drafts).events, ∃ draft ∈ drafts, ∃ redacted,
      redactForAudit env.toTextPlatform none draft.auditData = .obj redacted ∧
        e.Records env draft redacted) ∧
    (∀ (draft : LedgerEventDraft) (redacted : Dict),
      redactForAudit env.toTextPlatform none draft.auditData = .obj redacted →
      (∀ e ∈ (Ledger.appendAll env drafts).events, e.key ≠ draft.key) →
      ∃ e : LedgerEvent, e.Records env draft redacted ∧
        (Ledger.appendAll env (drafts ++ [draft])).events =
          (Ledger.appendAll env drafts).events ++ [e] ∧
        ((Ledger.appendAll env drafts).append env draft).2 = .ok e) ∧
    (∀ (draft : LedgerEventDraft) (redacted : Dict) (e : LedgerEvent),
      redactForAudit env.toTextPlatform none draft.auditData = .obj redacted →
      e ∈ (Ledger.appendAll env drafts).events → e.key = draft.key →
      (e.semantic = draft.semantic (Dict.dumps env.floatText redacted) →
        (Ledger.appendAll env drafts).append env draft =
          (Ledger.appendAll env drafts, .ok e)) ∧
      (canonicalHash env e.semantic ≠
          semanticHash env draft (Dict.dumps env.floatText redacted) →
        (Ledger.appendAll env drafts).append env draft =
          (Ledger.appendAll env drafts, .error .idempotencyConflict)) ∧
      (env.CollisionFree → e.semantic ≠ draft.semantic (Dict.dumps env.floatText redacted) →
        (Ledger.appendAll env drafts).append env draft =
          (Ledger.appendAll env drafts, .error .idempotencyConflict))) ∧
    ∀ draft err, ((Ledger.appendAll env drafts).append env draft).2 = .error err →
      ((Ledger.appendAll env drafts).append env draft).1 = Ledger.appendAll env drafts ∧
        err ≠ .keyError := by
  have hl := @Ledger.consistent_appendAll env drafts
  have hrecords := @Ledger.records_appendAll env drafts
  have hnext : ∀ draft, Ledger.appendAll env (drafts ++ [draft]) =
      ((Ledger.appendAll env drafts).append env draft).1 := fun draft => List.foldl_concat ..
  simp only [hnext]
  generalize Ledger.appendAll env drafts = l at hl hrecords
  refine ⟨verifyFrom_iff.mpr hl.chain, hl.chain.positions, hl.index, hl.keys, hrecords, ?_, ?_, ?_⟩
  · intro draft redacted
    exact hl.append_fresh
  · intro draft redacted e hredacted he hkey
    refine ⟨hl.append_repeated hredacted he hkey, hl.append_conflict hredacted he hkey, ?_⟩
    intro hsha h
    exact hl.append_conflict hredacted he hkey fun hhash => h (semantic_of_hash hsha hhash)
  · intro draft err
    exact hl.append_error

theorem sampleDraft_redacted :
    redactForAudit samplePlatform.toTextPlatform none sampleDraft.auditData = .obj [] := by
  show redactForAudit samplePlatform.toTextPlatform none (.mapping []) = .obj []
  simp [redactForAudit, isSensitive, redactEntries]

theorem sampleEvent_mem : sampleEvent ∈ (Ledger.appendAll samplePlatform [sampleDraft]).events := by
  have h : Ledger.appendAll samplePlatform [sampleDraft] =
    (Ledger.append samplePlatform {} sampleDraft).1 := rfl
  rw [h, Ledger.append_of_redacted sampleDraft_redacted, Ledger.appendRedacted_fresh rfl]
  unfold sampleEvent
  simp only [List.nil_append, List.mem_singleton]

/-- The same key from someone else. -/
def secondDraft : LedgerEventDraft := { sampleDraft with actorId := "mallory" }

theorem secondDraft_differs : sampleEvent.semantic ≠
    secondDraft.semantic (Dict.dumps samplePlatform.floatText []) := by
  intro h
  have hactor : "alice" = "mallory" := by
    simp only [LedgerEvent.semantic, LedgerEventDraft.semantic, List.cons.injEq, Prod.mk.injEq,
      Json.str.injEq, true_and] at h
    exact h.2.2.2.1
  exact absurd hactor (by decide)

/-- The first author's draft is stored and answered, and the second author's raises. -/
theorem second_author_refused :
    (∃ e : LedgerEvent, e.Records samplePlatform sampleDraft [] ∧
      (Ledger.appendAll samplePlatform [sampleDraft]).events = [e] ∧
      ((Ledger.appendAll samplePlatform []).append samplePlatform sampleDraft).2 = .ok e) ∧
    (Ledger.appendAll samplePlatform [sampleDraft]).append samplePlatform sampleDraft =
      (Ledger.appendAll samplePlatform [sampleDraft], .ok sampleEvent) ∧
    (Ledger.appendAll samplePlatform [sampleDraft]).append samplePlatform secondDraft =
      (Ledger.appendAll samplePlatform [sampleDraft], .error .idempotencyConflict) := by
  have hredacted : redactForAudit samplePlatform.toTextPlatform none secondDraft.auditData =
    .obj [] := sampleDraft_redacted
  have hkey : sampleEvent.key = sampleDraft.key := rfl
  have hstored := (@ledger_invariant samplePlatform []).2.2.2.2.2.1
  have hrepeats := (@ledger_invariant samplePlatform [sampleDraft]).2.2.2.2.2.2.1
  refine ⟨?_, ?_, ?_⟩
  · exact hstored sampleDraft [] sampleDraft_redacted fun e he => absurd he List.not_mem_nil
  · exact (hrepeats sampleDraft [] sampleEvent sampleDraft_redacted sampleEvent_mem hkey).1 rfl
  · exact (hrepeats secondDraft [] sampleEvent hredacted sampleEvent_mem hkey).2.2
      samplePlatform_collisionFree secondDraft_differs

end GenusOs.Entity
