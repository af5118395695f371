import GenusOs.Auth.SessionLineage
import Mathlib

/-!
# Sessions and their revocation

The interleavings of sign-ins, rotations, sign-outs and revocations of an account's sessions.

* `sessionStep_inv`: what every statement keeps, and a revocation no rotation has overtaken.
* `revoked_sessions_stay_out`: the lineages, where no revocation is overtaken.
-/

namespace GenusOs.Auth

open Rows

variable {db db' : SessionDb} {p q : Pid}

/-! ## What a transaction holds -/

/-- The spent session is as it was, under the lock of the transaction. -/
structure Holding (db : SessionDb) (p : Pid) (call : Rotation) (old : UserSession) : Prop where
  mem : old ∈ db.sessions
  live : old.revokedAt = none
  token : old.refreshTokenHash = call.refreshTokenHash
  lock : db.locks old.id = some p

def Txn.Holds (db : SessionDb) (p : Pid) : Txn → Prop
  | .spent call old => Holding db p call old
  | .inserted call old active => Holding db p call old ∧
    (active = true → db.entries call.successorHash = some p ∧
      ∀ s ∈ db.sessions, s.refreshTokenHash ≠ call.successorHash)
  | .unspent _ => True
  | .revoking _ _ updated known =>
    (∀ id ∈ updated, db.locks id = some p) ∧ ∀ id ∈ known, id < db.nextId

/-- What a transaction relies on is left alone. -/
structure Frame (db db' : SessionDb) (p : Pid) : Prop where
  rows : ∀ s ∈ db.sessions, db.locks s.id = some p → s ∈ db'.sessions
  locks : ∀ k, db.locks k = some p → db'.locks k = some p
  entries : ∀ k, db.entries k = some p → db'.entries k = some p
  hashes : ∀ s ∈ db'.sessions, (∃ t ∈ db.sessions, t.refreshTokenHash = s.refreshTokenHash) ∨
    db.entries s.refreshTokenHash ≠ some p
  nextId : db.nextId ≤ db'.nextId

theorem Holding.frame {call : Rotation} {old : UserSession} (h : Holding db p call old)
    (hframe : Frame db db' p) : Holding db' p call old :=
  ⟨hframe.rows old h.mem h.lock, h.live, h.token, hframe.locks _ h.lock⟩

theorem Txn.Holds.frame {txn : Txn} (h : txn.Holds db p) (hframe : Frame db db' p) :
    txn.Holds db' p := by
  cases txn with
  | spent call old => exact Holding.frame h hframe
  | inserted call old active =>
    refine ⟨h.1.frame hframe, fun hactive => ?_⟩
    obtain ⟨hentry, hfree⟩ := h.2 hactive
    refine ⟨hframe.entries _ hentry, fun s hs heq => ?_⟩
    rcases hframe.hashes s hs with ⟨t, ht, hts⟩ | hne
    · exact hfree t ht (hts.trans heq)
    · exact hne (heq ▸ hentry)
  | unspent call => trivial
  | revoking call todo updated known =>
    exact ⟨fun id hid => hframe.locks id (h.1 id hid),
      fun id hid => (h.2 id hid).trans_le hframe.nextId⟩

/-! ## The sessions a revocation has not come to yet -/

/-- The session goes back to the one that the revocation spares, or to none that was there. -/
def Survives (sessions : List UserSession) (call : Revocation) (known : List Uuid)
    (s : UserSession) : Prop :=
  (∃ t ∈ sessions, t.id ∈ s.lineage ∧ call.spares t.refreshTokenHash = true) ∨
    ∀ a ∈ s.lineage, a ∉ known

/-- Every other live session of the account is updated, or goes back to one still to look at. -/
def Covered (sessions : List UserSession) (call : Revocation) (todo updated known : List Uuid) :
    Prop :=
  ∀ s ∈ sessions, s.userId = call.userId → s.revokedAt = none →
    Survives sessions call known s ∨ s.id ∈ updated ∨ ∃ a ∈ todo, a ∈ s.lineage

section Covered

variable {sessions sessions' : List UserSession} {call : Revocation}
  {todo updated known : List Uuid} {nextId : Uuid} {answers : List RotationAnswer}

theorem Survives.update {s t : UserSession} (hrows : Rowwise Revoked sessions sessions')
    (hst : Revoked s t) (h : Survives sessions call known s) :
    Survives sessions' call known t := by
  unfold Survives
  rw [hst.lineage]
  rcases h with ⟨u, hu, hmem, hspares⟩ | h
  · obtain ⟨v, hv, huv⟩ := hrows.kept hu
    exact .inl ⟨v, hv, huv.id ▸ hmem, huv.hash ▸ hspares⟩
  · exact .inr h

theorem Covered.update (h : Covered sessions call todo updated known)
    (hrows : Rowwise Revoked sessions sessions') : Covered sessions' call todo updated known := by
  intro t ht huser hlive
  obtain ⟨s, hs, hst⟩ := hrows.origin ht
  rw [hst.id, hst.lineage]
  exact (h s hs (hst.userId ▸ huser) (hst.revoked hlive)).imp_left (Survives.update hrows hst)

theorem Survives.append {s : UserSession} (h : Survives sessions call known s)
    (more : List UserSession) : Survives (sessions ++ more) call known s := by
  rcases h with ⟨u, hu, hrest⟩ | h
  · exact .inl ⟨u, List.mem_append_left _ hu, hrest⟩
  · exact .inr h

/-- A sign-in is later than the revocation. -/
theorem Covered.signIn (h : Covered sessions call todo updated known) {t : UserSession}
    (hknown : ∀ id ∈ known, id < nextId) (hlineage : t.lineage = [nextId]) :
    Covered (sessions ++ [t]) call todo updated known := by
  intro s hs huser hlive
  rcases List.mem_append.mp hs with hs | hs
  · exact (h s hs huser hlive).imp_left (·.append [t])
  · refine .inl (.inr fun a ha hmem => ?_)
    rw [List.mem_singleton.mp hs, hlineage, List.mem_singleton] at ha
    exact (hknown a hmem).ne ha

/-- Sessions that go back to the same ones, but for the new one, survive alike a rotation. -/
theorem Survives.rotation {rotation : Rotation} {old s t : UserSession}
    (h : Survives sessions call known s) (hknown : ∀ id ∈ known, id < nextId)
    (hlineage : t.lineage = s.lineage ∨ t.lineage = nextId :: s.lineage) :
    Survives (updateWhere (fun s => decide (s.id = old.id)) (rotation.spent (some nextId)) sessions
      ++ [rotation.successor old nextId]) call known t := by
  rcases h with ⟨u, hu, hmem, hspares⟩ | h
  · refine .inl ⟨rotatedRow rotation old nextId u, mem_rotated.mpr (.inl ⟨u, hu, rfl⟩), ?_, ?_⟩
    · rw [id_rotatedRow]
      rcases hlineage with heq | heq
      · exact heq ▸ hmem
      · exact heq ▸ List.mem_cons_of_mem _ hmem
    · rw [hash_rotatedRow]
      exact hspares
  · refine .inr fun a ha hmem => ?_
    rcases hlineage with heq | heq
    · exact h a (heq ▸ ha) hmem
    · rw [heq] at ha
      rcases List.mem_cons.mp ha with rfl | ha
      · exact Nat.lt_irrefl _ (hknown _ hmem)
      · exact h a ha hmem

/-- A rotation of a session that is not updated leaves its successor covered. -/
theorem Covered.rotation (h : Covered sessions call todo updated known) {rotation : Rotation}
    {old : UserSession} (hold : old ∈ sessions) (hlive : old.revokedAt = none)
    (hnot : old.id ∉ updated) (hknown : ∀ id ∈ known, id < nextId) :
    Covered
      (updateWhere (fun s => decide (s.id = old.id)) (rotation.spent (some nextId)) sessions ++
        [rotation.successor old nextId]) call todo updated known := by
  intro t ht huser hlivet
  rcases mem_rotated.mp ht with ⟨s, hs, rfl⟩ | rfl
  · rw [userId_rotatedRow] at huser
    rw [id_rotatedRow, lineage_rotatedRow]
    exact (h s hs huser (revokedAt_rotatedRow.mp hlivet).2).imp_left
      (·.rotation hknown (.inl lineage_rotatedRow))
  · rcases h old hold huser hlive with hsurvives | hmem | ⟨a, ha, hmem⟩
    · exact .inl (hsurvives.rotation hknown (.inr rfl))
    · exact absurd hmem hnot
    · exact .inr (.inr ⟨a, ha, List.mem_cons_of_mem _ hmem⟩)

/-- The snapshot covers the live sessions of the account. -/
theorem covered_snapshot (htable : Table sessions nextId answers) :
    Covered sessions call ((sessions.filter call.selects).map (·.id)) [] known := by
  intro s hs huser hlive
  by_cases hspares : call.spares s.refreshTokenHash = true
  · exact .inl (.inl ⟨s, hs, htable.id_mem hs, hspares⟩)
  · have hselects : call.selects s = true := by
      unfold Revocation.selects
      simp [huser, hlive, hspares]
    exact .inr (.inr ⟨s.id, List.mem_map_of_mem (List.mem_filter.mpr ⟨hs, hselects⟩),
      htable.id_mem hs⟩)

/-- A row with no successor, once it is looked at, is updated or counts no longer. -/
theorem Covered.visit (h : Covered sessions call todo updated known)
    (htable : Table sessions nextId answers) {id : Uuid}
    (hcalm : ∀ s ∈ sessions, s.id = id → s.rotatedTo = none) {updated' : List Uuid}
    (hsub : updated ⊆ updated')
    (hselected : ∀ s ∈ sessions, s.id = id → call.selects s = true → id ∈ updated') :
    Covered sessions call (todo.erase id) updated' known := by
  intro s hs huser hlive
  rcases h s hs huser hlive with hsurvives | hmem | ⟨a, ha, hmem⟩
  · exact .inl hsurvives
  · exact .inr (.inl (hsub hmem))
  · by_cases hid : a = id
    · subst hid
      by_cases hself : a = s.id
      · subst hself
        by_cases hspares : call.spares s.refreshTokenHash = true
        · exact .inl (.inl ⟨s, hs, hmem, hspares⟩)
        · refine .inr (.inl (hselected s hs rfl ?_))
          unfold Revocation.selects
          simp [huser, hlive, hspares]
      · -- the row has a successor that the session goes back to
        obtain ⟨t, ht, rfl⟩ := htable.ancestors s hs a hmem
        exact absurd (hcalm t ht rfl) (htable.followed s hs t ht hmem hself)
    · exact .inr (.inr ⟨a, (List.mem_erase_of_ne hid).mpr ha, hmem⟩)

end Covered

/-! ## The invariant -/

structure SessionDb.Inv (db : SessionDb) : Prop where
  table : Table db.sessions db.nextId db.answers
  held : ∀ p txn, db.txns p = some txn → txn.Holds db p
  past : ∀ r ∈ db.revoked, ∀ id ∈ r.2, id < db.nextId

/-- What the revocations have not come to yet is covered, and after them nothing is left. -/
structure SessionDb.Caught (db : SessionDb) : Prop where
  running : ∀ p call todo updated known, db.txns p = some (.revoking call todo updated known) →
    Covered db.sessions call todo updated known
  done : ∀ r ∈ db.revoked, Covered db.sessions r.1 [] [] r.2

/-- A revocation finds no row of its snapshot with a successor. -/
def calm (db : SessionDb) : Act → Bool
  | .visit _ id => ∀ s ∈ db.sessions, s.id = id → s.rotatedTo = none
  | _ => true

namespace SessionDb.Inv

/-- A transaction goes on, with more locks than before. -/
theorem goOn (h : db.Inv) {txn : Txn} {locks : Locks Uuid Pid} {entries : Locks String Pid}
    (hlocks : ∀ k q, db.locks k = some q → locks k = some q)
    (hentries : ∀ k q, db.entries k = some q → entries k = some q)
    (hown : txn.Holds { db.goOn p txn with locks := locks, entries := entries } p) :
    { db.goOn p txn with locks := locks, entries := entries }.Inv where
  table := h.table
  past := h.past
  held := by
    intro q txn' hq
    by_cases hqp : q = p
    · subst hqp
      replace hq : Function.update db.txns q (some txn) q = some txn' := hq
      rw [Function.update_self] at hq
      cases hq
      exact hown
    · replace hq : Function.update db.txns p (some txn) q = some txn' := hq
      rw [Function.update_of_ne hqp] at hq
      exact (h.held q txn' hq).frame
        { rows := fun s hs _ => hs
          locks := fun k hk => hlocks k q hk
          entries := fun k hk => hentries k q hk
          hashes := fun s hs => .inl ⟨s, hs, rfl⟩
          nextId := Nat.le_refl _ }

/-- A transaction ends, having changed rows that no other one holds. -/
theorem finish (h : db.Inv) {sessions : List UserSession} {nextId : Uuid}
    {answers : List RotationAnswer} {revoked : List (Revocation × List Uuid)}
    (htable : Table sessions nextId answers) (hnext : db.nextId ≤ nextId)
    (hrows : ∀ q, q ≠ p → ∀ s ∈ db.sessions, db.locks s.id = some q → s ∈ sessions)
    (hhashes : ∀ q, q ≠ p → ∀ s ∈ sessions,
      (∃ t ∈ db.sessions, t.refreshTokenHash = s.refreshTokenHash) ∨
        db.entries s.refreshTokenHash ≠ some q)
    (hpast : ∀ r ∈ revoked, ∀ id ∈ r.2, id < nextId) :
    { db.finish p with
      sessions := sessions, nextId := nextId, answers := answers, revoked := revoked }.Inv where
  table := htable
  past := hpast
  held := by
    intro q txn hq
    have hqp : q ≠ p := by
      rintro rfl
      replace hq : Function.update db.txns q none q = some txn := hq
      rw [Function.update_self] at hq
      cases hq
    replace hq : Function.update db.txns p none q = some txn := hq
    rw [Function.update_of_ne hqp] at hq
    exact (h.held q txn hq).frame
      { rows := fun s hs hlock => hrows q hqp s hs hlock
        locks := fun k hk => Locks.release_eq_some.mpr ⟨hk, hqp⟩
        entries := fun k hk => Locks.release_eq_some.mpr ⟨hk, hqp⟩
        hashes := fun s hs => hhashes q hqp s hs
        nextId := hnext }

/-- A statement that is a transaction changes rows that nobody holds. -/
theorem direct (h : db.Inv) {sessions : List UserSession} {nextId : Uuid}
    {isActive : Uuid → Bool} (htable : Table sessions nextId db.answers)
    (hnext : db.nextId ≤ nextId)
    (hrows : ∀ q, ∀ s ∈ db.sessions, db.locks s.id = some q → s ∈ sessions)
    (hhashes : ∀ q, ∀ s ∈ sessions,
      (∃ t ∈ db.sessions, t.refreshTokenHash = s.refreshTokenHash) ∨
        db.entries s.refreshTokenHash ≠ some q) :
    { db with sessions := sessions, nextId := nextId, isActive := isActive }.Inv where
  table := htable
  past := fun r hr id hid => (h.past r hr id hid).trans_le hnext
  held := fun q txn hq => (h.held q txn hq).frame
    { rows := hrows q
      locks := fun _ hk => hk
      entries := fun _ hk => hk
      hashes := hhashes q
      nextId := hnext }

end SessionDb.Inv

namespace SessionDb.Caught

theorem goOn (h : db.Caught) {txn : Txn} {locks : Locks Uuid Pid} {entries : Locks String Pid}
    (hown : ∀ call todo updated known, txn = .revoking call todo updated known →
      Covered db.sessions call todo updated known) :
    { db.goOn p txn with locks := locks, entries := entries }.Caught where
  done := h.done
  running := by
    intro q call todo updated known hq
    by_cases hqp : q = p
    · subst hqp
      replace hq : Function.update db.txns q (some txn) q =
        some (.revoking call todo updated known) := hq
      rw [Function.update_self] at hq
      exact hown call todo updated known (Option.some.inj hq)
    · replace hq : Function.update db.txns p (some txn) q =
        some (.revoking call todo updated known) := hq
      rw [Function.update_of_ne hqp] at hq
      exact h.running q call todo updated known hq

/-- What covers the sessions before covers those after, for every other transaction. -/
theorem finish (h : db.Caught) {sessions : List UserSession} {nextId : Uuid}
    {answers : List RotationAnswer} {revoked : List (Revocation × List Uuid)}
    (hrunning : ∀ q, q ≠ p → ∀ call todo updated known,
      db.txns q = some (.revoking call todo updated known) →
      Covered db.sessions call todo updated known → Covered sessions call todo updated known)
    (hdone : ∀ r ∈ revoked, Covered sessions r.1 [] [] r.2) :
    { db.finish p with
      sessions := sessions, nextId := nextId, answers := answers, revoked := revoked }.Caught where
  done := hdone
  running := by
    intro q call todo updated known hq
    have hqp : q ≠ p := by
      rintro rfl
      replace hq : Function.update db.txns q none q =
        some (.revoking call todo updated known) := hq
      rw [Function.update_self] at hq
      cases hq
    replace hq : Function.update db.txns p none q =
      some (.revoking call todo updated known) := hq
    rw [Function.update_of_ne hqp] at hq
    exact hrunning q hqp call todo updated known hq (h.running q call todo updated known hq)

end SessionDb.Caught

/-! ## The statements, one by one -/

section Statements

variable {call : Rotation} {old : UserSession} {hash : String} {userId : Uuid} {now : Nat}

/-- An update of rows that others do not hold leaves them theirs. -/
theorem held_updateWhere {f : UserSession → UserSession} {s : UserSession}
    {select : UserSession → Bool} (hs : s ∈ db.sessions) (hlock : db.locks s.id = some q)
    (hothers : ∀ r ∈ db.sessions, select r = true → db.locks r.id ≠ some q) :
    s ∈ updateWhere select f db.sessions := by
  refine mem_updateWhere_of_not hs (Bool.eq_false_iff.mpr fun hsel => ?_)
  exact hothers s hs hsel hlock

theorem hash_updateWhere {f : UserSession → UserSession} {select : UserSession → Bool}
    {s : UserSession} (hs : s ∈ updateWhere select f db.sessions)
    (hf : ∀ r, (f r).refreshTokenHash = r.refreshTokenHash) :
    ∃ t ∈ db.sessions, t.refreshTokenHash = s.refreshTokenHash := by
  obtain ⟨r, hr, rfl⟩ := mem_updateWhere.mp hs
  refine ⟨r, hr, ?_⟩
  split
  · exact (hf r).symm
  · rfl

theorem rowwise_revoked (select : UserSession → Bool) (sessions : List UserSession) :
    Rowwise Revoked sessions
      (updateWhere select (fun r => { r with revokedAt := some now }) sessions) :=
  Rowwise.updateWhere Revoked.refl fun _ _ _ => ⟨rfl, rfl, rfl, rfl, nofun, rfl, fun _ => rfl⟩

theorem createSession_inv (h : db.Inv) {expiresAt : Nat}
    (hstep : db.createSession userId hash expiresAt = some db') :
    db'.Inv ∧ (db.Caught → db'.Caught) := by
  unfold SessionDb.createSession at hstep
  split at hstep
  · cases hstep
  · next hfree =>
    cases hstep
    simp only [not_or, not_not, Option.not_isSome_iff_eq_none] at hfree
    obtain ⟨hentry, hnone⟩ := hfree
    have hnew : ∀ t ∈ db.sessions, t.refreshTokenHash ≠ hash := by
      intro t ht heq
      simpa [heq] using List.find?_eq_none.mp hnone t ht
    refine ⟨h.direct (h.table.signIn rfl hnew rfl rfl) (Nat.le_succ _)
      (fun q s hs _ => List.mem_append_left _ hs) fun q s hs => ?_, fun hc => ⟨?_, ?_⟩⟩
    · rcases List.mem_append.mp hs with hs | hs
      · exact .inl ⟨s, hs, rfl⟩
      · rw [List.mem_singleton.mp hs]
        exact .inr (by simp [hentry])
    · intro p call todo updated known hp
      exact (hc.running p call todo updated known hp).signIn (h.held p _ hp).2 rfl
    · intro r hr
      exact (hc.done r hr).signIn (h.past r hr) rfl

theorem revokeSession_inv (h : db.Inv) (hstep : db.revokeSession hash now = some db') :
    db'.Inv ∧ (db.Caught → db'.Caught) := by
  unfold SessionDb.revokeSession at hstep
  split at hstep
  · cases hstep
    exact ⟨h, id⟩
  · next s hs =>
    split at hstep
    · cases hstep
      exact ⟨h, id⟩
    · split at hstep
      · cases hstep
      · next hlock =>
        cases hstep
        have hrows := @rowwise_revoked now (fun r => decide (r.id = s.id)) db.sessions
        refine ⟨h.direct (h.table.update hrows) (Nat.le_refl _) (fun q t ht htq => ?_)
          fun q t ht => .inl (hash_updateWhere ht fun _ => rfl), fun hc => ⟨?_, ?_⟩⟩
        · refine held_updateWhere ht htq fun r _ hr hrq => hlock ?_
          rw [← of_decide_eq_true hr, hrq]
          exact nofun
        · exact fun p call todo updated known hp =>
            (hc.running p call todo updated known hp).update hrows
        · exact fun r hr => (hc.done r hr).update hrows

theorem rotate_inv (h : db.Inv) (hstep : db.rotate p call = some db') :
    db'.Inv ∧ (db.Caught → db'.Caught) := by
  unfold SessionDb.rotate at hstep
  have hunspent : (db.goOn p (.unspent call)).Inv ∧
      (db.Caught → (db.goOn p (.unspent call)).Caught) :=
    ⟨h.goOn (fun _ _ hk => hk) (fun _ _ hk => hk) trivial, fun hc => hc.goOn nofun⟩
  split at hstep
  · cases hstep
    exact hunspent
  · next s hs =>
    obtain ⟨hmem, htoken⟩ := byHash_eq_some hs
    split at hstep
    · cases hstep
      exact hunspent
    · next hspends =>
      split at hstep
      · cases hstep
      · next hlock =>
        cases hstep
        have hlive : s.revokedAt = none := by
          simp [Rotation.spends] at hspends
          exact hspends.1
        refine ⟨h.goOn (fun k q hk => Locks.take_of_held hk (not_not.mp hlock))
          (fun _ _ hk => hk) ⟨hmem, hlive, htoken, Locks.take_self⟩, fun hc => hc.goOn nofun⟩

/-- A transaction ends without a change. -/
theorem finish_inv (h : db.Inv) : (db.finish p).Inv ∧ (db.Caught → (db.finish p).Caught) :=
  ⟨h.finish h.table (Nat.le_refl _) (fun _ _ _ hs _ => hs)
    (fun _ _ s hs => .inl ⟨s, hs, rfl⟩) h.past,
    fun hc => hc.finish (fun _ _ _ _ _ _ _ hcov => hcov) hc.done⟩

theorem insertSuccessor_inv (h : db.Inv) (hp : db.txns p = some (.spent call old))
    (hstep : db.insertSuccessor p call old = some db') :
    db'.Inv ∧ (db.Caught → db'.Caught) := by
  have hheld : Holding db p call old := h.held p _ hp
  unfold SessionDb.insertSuccessor at hstep
  split at hstep
  · cases hstep
    exact ⟨h.goOn (fun _ _ hk => hk) (fun _ _ hk => hk)
      ⟨⟨hheld.mem, hheld.live, hheld.token, hheld.lock⟩, nofun⟩, fun hc => hc.goOn nofun⟩
  · split at hstep
    · cases hstep
      exact finish_inv h
    · next hnone =>
      split at hstep
      · cases hstep
      · next hentry =>
        cases hstep
        refine ⟨h.goOn (fun _ _ hk => hk) (fun k q hk => Locks.take_of_held hk (not_not.mp hentry))
          ⟨⟨hheld.mem, hheld.live, hheld.token, hheld.lock⟩,
            fun _ => ⟨Locks.take_self, fun s hs heq => ?_⟩⟩, fun hc => hc.goOn nofun⟩
        rw [Option.not_isSome_iff_eq_none] at hnone
        simpa [heq] using List.find?_eq_none.mp hnone s hs

theorem commitRotation_inv (h : db.Inv) (hp : db.txns p = some (.inserted call old true)) :
    (db.commitRotation p call old).Inv ∧ (db.Caught → (db.commitRotation p call old).Caught) := by
  obtain ⟨hheld, hentry⟩ := h.held p _ hp
  obtain ⟨hentry, hfree⟩ := hentry rfl
  refine ⟨h.finish (h.table.rotation hheld.mem hheld.live hheld.token hfree) (Nat.le_succ _)
    (fun q hq s hs hlock => ?_) (fun q hq s hs => ?_)
    (fun r hr id hid => (h.past r hr id hid).trans (Nat.lt_succ_self _)), fun hc => ?_⟩
  · refine List.mem_append_left _ (held_updateWhere hs hlock fun r _ hr hrq => hq ?_)
    rw [of_decide_eq_true hr, hheld.lock] at hrq
    exact (Option.some.inj hrq).symm
  · rcases List.mem_append.mp hs with hs | hs
    · exact .inl (hash_updateWhere hs fun _ => rfl)
    · rw [List.mem_singleton.mp hs]
      refine .inr fun hentry' => hq ?_
      exact (Option.some.inj (hentry.symm.trans hentry')).symm
  · refine hc.finish (fun q hq call' todo updated known hq' hcov => ?_) fun r hr => ?_
    · obtain ⟨hlocks, hknown⟩ := h.held q _ hq'
      refine hcov.rotation hheld.mem hheld.live (fun hmem => hq ?_) hknown
      exact (Option.some.inj (hheld.lock.symm.trans (hlocks _ hmem))).symm
    · exact (hc.done r hr).rotation hheld.mem hheld.live List.not_mem_nil (h.past r hr)

theorem commitRefusal_inv (h : db.Inv) (hp : db.txns p = some (.inserted call old false)) :
    (db.commitRefusal p call old).Inv ∧ (db.Caught → (db.commitRefusal p call old).Caught) := by
  have hheld : Holding db p call old := (h.held p _ hp).1
  have hunlinked := h.table.rotatedTo_of_live hheld.mem hheld.live
  have hrows : Rowwise Revoked db.sessions
      (updateWhere (fun s => decide (s.id = old.id)) (call.spent none) db.sessions) := by
    refine Rowwise.updateWhere Revoked.refl fun r hr hid => ?_
    obtain rfl := h.table.ids.eq hr hheld.mem (of_decide_eq_true hid)
    exact ⟨rfl, rfl, rfl, rfl, nofun, hunlinked.symm, fun hlink => absurd hunlinked hlink⟩
  refine ⟨h.finish (h.table.update hrows) (Nat.le_refl _) (fun q hq s hs hlock => ?_)
    (fun q hq s hs => .inl (hash_updateWhere hs fun _ => rfl)) h.past, fun hc => ?_⟩
  · refine held_updateWhere hs hlock fun r _ hr hrq => hq ?_
    rw [of_decide_eq_true hr, hheld.lock] at hrq
    exact (Option.some.inj hrq).symm
  · exact hc.finish (fun _ _ _ _ _ _ _ hcov => hcov.update hrows) fun r hr =>
      (hc.done r hr).update hrows

theorem commitReplay_inv (h : db.Inv) :
    (db.commitReplay p call).Inv ∧ (db.Caught → (db.commitReplay p call).Caught) := by
  have htable : Table db.sessions db.nextId (db.answers ++ (db.replay call).toList) := by
    cases ha : db.replay call with
    | none => simpa using h.table
    | some a => exact h.table.replay rfl ha
  exact ⟨h.finish htable (Nat.le_refl _) (fun _ _ s hs _ => hs)
    (fun _ _ s hs => .inl ⟨s, hs, rfl⟩) h.past,
    fun hc => hc.finish (fun _ _ _ _ _ _ _ hcov => hcov) hc.done⟩

theorem revoke_inv (h : db.Inv) {call : Revocation} :
    (db.revoke p call).Inv ∧ (db.Caught → (db.revoke p call).Caught) := by
  refine ⟨h.goOn (fun _ _ hk => hk) (fun _ _ hk => hk) ⟨nofun, fun id hid => ?_⟩,
    fun hc => hc.goOn fun call' todo updated known heq => ?_⟩
  · obtain ⟨s, hs, rfl⟩ := List.mem_map.mp hid
    exact h.table.fresh s hs
  · cases heq
    exact covered_snapshot h.table

theorem byId_of_mem {sessions : List UserSession} {nextId : Uuid} {answers : List RotationAnswer}
    (h : Table sessions nextId answers) {s : UserSession} (hs : s ∈ sessions) :
    sessions.find? (·.id = s.id) = some s := by
  cases hfind : sessions.find? (·.id = s.id) with
  | none => simpa using List.find?_eq_none.mp hfind s hs
  | some t =>
    have hid : t.id = s.id := by simpa using List.find?_some hfind
    rw [h.ids.eq (List.mem_of_find?_eq_some hfind) hs hid]

theorem visit_inv (h : db.Inv) {call : Revocation} {todo updated known : List Uuid} {id : Uuid}
    (hp : db.txns p = some (.revoking call todo updated known))
    (hstep : db.visit p call todo updated known id = some db') :
    db'.Inv ∧ ((∀ s ∈ db.sessions, s.id = id → s.rotatedTo = none) →
      db.Caught → db'.Caught) := by
  obtain ⟨hlocks, hknown⟩ := h.held p _ hp
  unfold SessionDb.visit at hstep
  split at hstep
  · cases hstep
  · next hlock =>
    rw [not_not] at hlock
    split at hstep
    · cases hstep
      refine ⟨h.goOn (fun k q hk => Locks.take_of_held hk hlock) (fun _ _ hk => hk)
        ⟨fun k hk => ?_, hknown⟩, fun hcalm hc => hc.goOn fun call' todo' updated' known' heq => ?_⟩
      · rcases List.mem_cons.mp hk with rfl | hk
        · exact Locks.take_self
        · exact Locks.take_of_held (hlocks k hk) hlock
      · cases heq
        exact (hc.running p _ _ _ _ hp).visit h.table hcalm (List.subset_cons_self _ _)
          fun s _ _ _ => List.mem_cons_self
    · next hnone =>
      cases hstep
      refine ⟨h.goOn (fun _ _ hk => hk) (fun _ _ hk => hk) ⟨hlocks, hknown⟩,
        fun hcalm hc => hc.goOn fun call' todo' updated' known' heq => ?_⟩
      cases heq
      refine (hc.running p _ _ _ _ hp).visit h.table hcalm (List.Subset.refl _)
        fun s hs hid hselects => absurd ?_ hnone
      rw [SessionDb.byId, ← hid, byId_of_mem h.table hs]
      exact hselects

theorem commitRevocation_inv (h : db.Inv) {call : Revocation} {updated known : List Uuid}
    (hp : db.txns p = some (.revoking call [] updated known)) :
    (db.commitRevocation p call updated known).Inv ∧
      (db.Caught → (db.commitRevocation p call updated known).Caught) := by
  obtain ⟨hlocks, hknown⟩ := h.held p _ hp
  have hrows := @rowwise_revoked call.now (fun s => decide (s.id ∈ updated)) db.sessions
  refine ⟨h.finish (h.table.update hrows) (Nat.le_refl _) (fun q hq s hs hlock => ?_)
    (fun q hq s hs => .inl (hash_updateWhere hs fun _ => rfl)) (fun r hr => ?_), fun hc => ?_⟩
  · refine held_updateWhere hs hlock fun r _ hr hrq => hq ?_
    rw [hlocks _ (of_decide_eq_true hr)] at hrq
    exact (Option.some.inj hrq).symm
  · rcases List.mem_append.mp hr with hr | hr
    · exact h.past r hr
    · rw [List.mem_singleton.mp hr]
      exact hknown
  · refine hc.finish (fun _ _ _ _ _ _ _ hcov => hcov.update hrows) fun r hr => ?_
    rcases List.mem_append.mp hr with hr | hr
    · exact (hc.done r hr).update hrows
    · rw [List.mem_singleton.mp hr]
      have hcov := (hc.running p _ _ _ _ hp).update hrows
      intro s hs huser hlive
      rcases hcov s hs huser hlive with hsurvives | hmem | hnil
      · exact .inl hsurvives
      · -- what was updated is revoked now
        obtain ⟨r, hr, rfl⟩ := mem_updateWhere.mp hs
        split at hlive
        · cases hlive
        · next hnot =>
          rw [if_neg hnot] at hmem
          exact absurd (decide_eq_true hmem) hnot
      · obtain ⟨a, ha, _⟩ := hnil
        cases ha

end Statements

/-- **Every statement keeps the invariant, and leaves no session behind for a revocation that no
rotation has overtaken.** -/
theorem sessionStep_inv {a : Act} (h : db.Inv) (hstep : sessionStep db a = some db') :
    db'.Inv ∧ (calm db a = true → db.Caught → db'.Caught) := by
  have hany (hkeeps : db'.Inv ∧ (db.Caught → db'.Caught)) :
      db'.Inv ∧ (calm db a = true → db.Caught → db'.Caught) := ⟨hkeeps.1, fun _ => hkeeps.2⟩
  cases a with
  | setStatus userId active =>
    cases hstep
    exact hany ⟨h.direct h.table (Nat.le_refl _) (fun _ _ hs _ => hs)
      fun _ s hs => .inl ⟨s, hs, rfl⟩, fun hc => ⟨hc.running, hc.done⟩⟩
  | createSession userId hash expiresAt => exact hany (createSession_inv h hstep)
  | revokeSession hash now => exact hany (revokeSession_inv h hstep)
  | rotate p call =>
    rw [sessionStep] at hstep
    split at hstep
    · exact hany (rotate_inv h hstep)
    · cases hstep
  | revoke p call =>
    rw [sessionStep] at hstep
    split at hstep
    · cases hstep
      exact hany (revoke_inv h)
    · cases hstep
  | next p =>
    rw [sessionStep] at hstep
    split at hstep
    · next hp => exact hany (insertSuccessor_inv h hp hstep)
    · next hp =>
      cases hstep
      exact hany (commitRotation_inv h hp)
    · next hp =>
      cases hstep
      exact hany (commitRefusal_inv h hp)
    · cases hstep
      exact hany (commitReplay_inv h)
    · next hp =>
      cases hstep
      exact hany (commitRevocation_inv h hp)
    · cases hstep
  | visit p id =>
    rw [sessionStep] at hstep
    split at hstep
    · next hp =>
      split at hstep
      · obtain ⟨hinv, hcaught⟩ := visit_inv h hp hstep
        exact ⟨hinv, fun hcalm => hcaught (of_decide_eq_true hcalm)⟩
      · cases hstep
    · cases hstep
  | abort p =>
    cases hstep
    exact hany (finish_inv h)

/-! ## The law -/

/-- The law of the lineages, in one state. -/
structure SessionDb.Lawful (db : SessionDb) : Prop where
  /-- A token is succeeded by one stored session at most. -/
  successor : ∀ s ∈ db.sessions, ∀ t ∈ db.sessions, ∀ o, s.lineage[1]? = some o →
    t.lineage[1]? = some o → s = t
  /-- A lineage has one live session at most. -/
  live : ∀ s ∈ db.sessions, ∀ t ∈ db.sessions, s.revokedAt = none → t.revokedAt = none →
    ∀ a ∈ s.lineage, a ∈ t.lineage → s = t
  /-- A replay is answered as the one first use of its token was. -/
  replayed : ∀ a ∈ db.answers, ∃ b ∈ db.answers, b.replayed = false ∧
    b.refreshTokenHash = a.refreshTokenHash ∧ b.successorHash = a.successorHash ∧
    b.userId = a.userId ∧ b.rotatedAt = a.rotatedAt
  first : ((db.answers.filter (!·.replayed)).map (·.refreshTokenHash)).Nodup
  /-- After a revocation the live sessions of the account go back to the spared one, or to a
  sign-in that came later. -/
  revoked : ∀ r ∈ db.revoked, ∀ s ∈ db.sessions, s.userId = r.1.userId → s.revokedAt = none →
    Survives db.sessions r.1 r.2 s

theorem lawful_of_inv (h : db.Inv) (hc : db.Caught) : db.Lawful where
  successor := by
    intro s hs t ht o hso hto
    obtain ⟨u, hu, rfl, hlink⟩ := h.table.succeeds s hs o hso
    obtain ⟨v, hv, hid, hlink'⟩ := h.table.succeeds t ht _ hto
    obtain rfl := h.table.ids.eq hv hu hid
    exact h.table.ids.eq hs ht (Option.some.inj (hlink.symm.trans hlink'))
  live := by
    intro s hs t ht hlive hlive' a ha ha'
    by_contra hne
    have hid : t.id ≠ s.id := fun hid => hne (h.table.ids.eq hs ht hid.symm)
    exact h.table.apart_of_live hs ht hlive hlive' hid ha ha'
  replayed := by
    intro a ha
    obtain ⟨s, hs, t, ht, hlink, hhash, hsucc, hat, huser⟩ := h.table.answered a ha
    obtain ⟨b, hb, hfirst, hbhash⟩ := h.table.first s hs (by simp [hlink])
    obtain ⟨s', hs', t', ht', hlink', hhash', hsucc', hat', huser'⟩ := h.table.answered b hb
    obtain rfl := h.table.hashes.eq hs' hs (hhash'.trans hbhash)
    obtain rfl := h.table.ids.eq ht' ht (Option.some.inj (hlink'.symm.trans hlink))
    refine ⟨b, hb, hfirst, hbhash.trans hhash, hsucc'.symm.trans hsucc, huser'.symm.trans huser, ?_⟩
    exact Option.some.inj (hat'.symm.trans hat)
  first := h.table.once
  revoked := by
    intro r hr s hs huser hlive
    rcases hc.done r hr s hs huser hlive with hsurvives | hmem | ⟨a, ha, _⟩
    · exact hsurvives
    · cases hmem
    · cases ha

/-- The runs in which no rotation overtakes a revocation. -/
def calmSystem : System SessionDb Act :=
  .ofStep sessionSystem.init fun db a => if calm db a then sessionStep db a else none

/-- **A token is succeeded once, a lineage has one live session, replays are answered alike, and a
revocation leaves no session that goes back behind it, wherever it finds no row of its snapshot
rotated.** -/
theorem revoked_sessions_stay_out (h : calmSystem.Reachable db) : db.Lawful := by
  have hinv : db.Inv ∧ db.Caught := by
    refine h.invariant (I := fun db => db.Inv ∧ db.Caught) ?_ ?_
    · rintro _ ⟨isActive, rfl⟩
      exact ⟨⟨table_nil, nofun, nofun⟩, ⟨nofun, nofun⟩⟩
    · rintro s a t ⟨hinv, hc⟩ hstep
      obtain ⟨hcalm, hstep⟩ := Option.ite_none_right_eq_some.mp hstep
      obtain ⟨hinv', hcaught⟩ := sessionStep_inv hinv hstep
      exact ⟨hinv', hcaught hcalm hc⟩
  exact lawful_of_inv hinv.1 hinv.2

/-! ## A rotation under way when the password is changed -/

def sampleRotation : Rotation where
  refreshTokenHash := "stolen"
  successorHash := "next"
  ttlSeconds := 2592000
  graceSeconds := 60
  now := 100

def sampleRevocation : Revocation where
  userId := 7
  exceptRefreshHash := none
  now := 101

/-- The rotation is complete when the sessions are revoked, and the account signs in once more. -/
def calmRun : List Act := [.createSession 7 "stolen" 3000, .rotate 0 sampleRotation, .next 0,
  .next 0, .revoke 1 sampleRevocation, .visit 1 1, .next 1, .createSession 7 "fresh" 4000]

theorem later_sign_in_survives : ∃ db : SessionDb, db.Lawful ∧
    db.revoked = [(sampleRevocation, [0, 1])] ∧
    (db.sessions.filter (·.revokedAt = none)).map (·.lineage) = [[2]] := by
  have hrun : ∃ db : SessionDb, calmRun.foldlM
      (fun db a => if calm db a then sessionStep db a else none) {} = some db ∧
      db.revoked = [(sampleRevocation, [0, 1])] ∧
      (db.sessions.filter (·.revokedAt = none)).map (·.lineage) = [[2]] := ⟨_, rfl, rfl, rfl⟩
  obtain ⟨db, hdb, hrest⟩ := hrun
  exact ⟨db, revoked_sessions_stay_out ⟨{}, calmRun, ⟨_, rfl⟩, System.run_of_foldlM hdb⟩, hrest⟩

/-- The sessions are revoked while the rotation is under way. -/
def overtakenRun : List Act := [.createSession 7 "stolen" 3000, .rotate 0 sampleRotation, .next 0,
  .revoke 1 sampleRevocation, .next 0, .visit 1 0, .next 1]

theorem stolen_session_survives : ∃ db : SessionDb, sessionSystem.Reachable db ∧ ¬ db.Lawful := by
  have hrun : ∃ db : SessionDb, overtakenRun.foldlM sessionStep {} = some db ∧
      (∃ r ∈ db.revoked, ∃ s ∈ db.sessions, s.userId = r.1.userId ∧ s.revokedAt = none ∧
        ¬ ((∃ t ∈ db.sessions, t.id ∈ s.lineage ∧ r.1.spares t.refreshTokenHash = true) ∨
          ∀ a ∈ s.lineage, a ∉ r.2)) :=
    ⟨_, rfl, by decide⟩
  obtain ⟨db, hdb, r, hr, s, hs, huser, hlive, hnot⟩ := hrun
  exact ⟨db, ⟨{}, _, ⟨_, rfl⟩, System.run_of_foldlM hdb⟩,
    fun h => hnot (h.revoked r hr s hs huser hlive)⟩

end GenusOs.Auth
