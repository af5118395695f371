import GenusOs.Auth.Sessions
import Mathlib

/-!
# The lineage of a session

What the table of sessions keeps under every statement: a token is spent once, and its session is
then revoked and followed by one successor of the same account.

* `Table`: the invariant of the sessions and of the answers given.
-/

namespace GenusOs.Auth

open Rows

variable {sessions sessions' : List UserSession} {nextId : Uuid} {answers : List RotationAnswer}
  {s t : UserSession}

/-- An update that revokes and does not rotate. -/
structure Revoked (s t : UserSession) : Prop where
  id : t.id = s.id
  userId : t.userId = s.userId
  hash : t.refreshTokenHash = s.refreshTokenHash
  lineage : t.lineage = s.lineage
  revoked : t.revokedAt = none → s.revokedAt = none
  rotatedTo : t.rotatedTo = s.rotatedTo
  rotatedAt : s.rotatedTo ≠ none → t.rotatedAt = s.rotatedAt

theorem Revoked.refl (s : UserSession) : Revoked s s :=
  ⟨rfl, rfl, rfl, rfl, fun h => h, rfl, fun _ => rfl⟩

/-- The session `s` was rotated to `t`. -/
structure RotatedTo (s t : UserSession) : Prop where
  link : s.rotatedTo = some t.id
  spent : s.revokedAt ≠ none
  userId : t.userId = s.userId
  lineage : t.lineage = t.id :: s.lineage

/-- What the sessions, the next id and the answers given so far keep. -/
structure Table (sessions : List UserSession) (nextId : Uuid) (answers : List RotationAnswer) :
    Prop where
  ids : KeyUnique (·.id) sessions
  hashes : KeyUnique (·.refreshTokenHash) sessions
  fresh : ∀ s ∈ sessions, s.id < nextId
  self : ∀ s ∈ sessions, s.lineage.head? = some s.id
  ancestors : ∀ s ∈ sessions, ∀ a ∈ s.lineage, ∃ t ∈ sessions, t.id = a
  /-- The live session of a lineage goes back to every other session of it. -/
  last : ∀ s ∈ sessions, s.revokedAt = none → ∀ t ∈ sessions, ∀ a ∈ s.lineage, a ∈ t.lineage →
    t.id ∈ s.lineage
  /-- A session that another one goes back to was rotated. -/
  followed : ∀ s ∈ sessions, ∀ t ∈ sessions, t.id ∈ s.lineage → t.id ≠ s.id → t.rotatedTo ≠ none
  rotated : ∀ s ∈ sessions, ∀ id, s.rotatedTo = some id → ∃ t ∈ sessions, t.id = id ∧ RotatedTo s t
  /-- A session that goes back to another one is what that one was rotated to. -/
  succeeds : ∀ t ∈ sessions, ∀ o, t.lineage[1]? = some o →
    ∃ s ∈ sessions, s.id = o ∧ s.rotatedTo = some t.id
  answered : ∀ a ∈ answers, ∃ s ∈ sessions, ∃ t ∈ sessions, s.rotatedTo = some t.id ∧
    s.refreshTokenHash = a.refreshTokenHash ∧ t.refreshTokenHash = a.successorHash ∧
    s.rotatedAt = some a.rotatedAt ∧ s.userId = a.userId
  first : ∀ s ∈ sessions, s.rotatedTo ≠ none →
    ∃ a ∈ answers, a.replayed = false ∧ a.refreshTokenHash = s.refreshTokenHash
  once : ((answers.filter (!·.replayed)).map (·.refreshTokenHash)).Nodup

theorem table_nil : Table [] 0 [] where
  ids := List.nodup_nil
  hashes := List.nodup_nil
  fresh := nofun
  self := nofun
  ancestors := nofun
  last := nofun
  followed := nofun
  rotated := nofun
  succeeds := nofun
  answered := nofun
  first := nofun
  once := List.nodup_nil

/-! ## The rows of a rotation and of a replay -/

variable {call : Rotation} {old : UserSession}

/-- A row of the table once `old` was rotated. -/
def rotatedRow (call : Rotation) (old : UserSession) (nextId : Uuid) (s : UserSession) :
    UserSession :=
  if s.id = old.id then call.spent (some nextId) s else s

/-- The table once `old` was rotated. -/
theorem mem_rotated : t ∈ updateWhere (fun s => decide (s.id = old.id))
      (call.spent (some nextId)) sessions ++ [call.successor old nextId] ↔
    (∃ s ∈ sessions, t = rotatedRow call old nextId s) ∨ t = call.successor old nextId := by
  rw [List.mem_append, List.mem_singleton, mem_updateWhere]
  simp only [rotatedRow, decide_eq_true_eq]

theorem rotatedRow_of_ne (h : s.id ≠ old.id) : rotatedRow call old nextId s = s := if_neg h

@[simp] theorem id_rotatedRow : (rotatedRow call old nextId s).id = s.id := by
  unfold rotatedRow
  split <;> rfl

@[simp] theorem userId_rotatedRow : (rotatedRow call old nextId s).userId = s.userId := by
  unfold rotatedRow
  split <;> rfl

@[simp] theorem hash_rotatedRow :
    (rotatedRow call old nextId s).refreshTokenHash = s.refreshTokenHash := by
  unfold rotatedRow
  split <;> rfl

@[simp] theorem lineage_rotatedRow : (rotatedRow call old nextId s).lineage = s.lineage := by
  unfold rotatedRow
  split <;> rfl

theorem revokedAt_rotatedRow : (rotatedRow call old nextId s).revokedAt = none ↔
    s.id ≠ old.id ∧ s.revokedAt = none := by
  unfold rotatedRow
  split
  · next h => simp [Rotation.spent, h]
  · next h => simp [h]

theorem rotatedRow_self :
    rotatedRow call old nextId old = call.spent (some nextId) old := if_pos rfl

theorem byHash_eq_some {db : SessionDb} {hash : String} (h : db.byHash hash = some s) :
    s ∈ db.sessions ∧ s.refreshTokenHash = hash :=
  ⟨List.mem_of_find?_eq_some h, by simpa using List.find?_some h⟩

theorem byId_eq_some {db : SessionDb} {id : Uuid} (h : db.byId id = some s) :
    s ∈ db.sessions ∧ s.id = id :=
  ⟨List.mem_of_find?_eq_some h, by simpa using List.find?_some h⟩

/-- A replay is answered with the rotation that its row tells of. -/
theorem replay_eq_some {db : SessionDb} {call : Rotation} {a : RotationAnswer}
    (h : db.replay call = some a) : a.replayed = true ∧
      ∃ s ∈ db.sessions, ∃ t ∈ db.sessions, s.rotatedTo = some t.id ∧
        s.refreshTokenHash = a.refreshTokenHash ∧ t.refreshTokenHash = a.successorHash ∧
        s.rotatedAt = some a.rotatedAt ∧ s.userId = a.userId := by
  unfold SessionDb.replay at h
  obtain ⟨old, hold, h⟩ := Option.bind_eq_some_iff.mp h
  obtain ⟨rotatedAt, hat, h⟩ := Option.bind_eq_some_iff.mp h
  obtain ⟨id, hid, h⟩ := Option.bind_eq_some_iff.mp h
  obtain ⟨new, hnew, h⟩ := Option.bind_eq_some_iff.mp h
  obtain ⟨_, hguard, h⟩ := Option.bind_eq_some_iff.mp h
  obtain ⟨-, hsucc, -⟩ := (Option.guard_eq_some' ..).mp hguard
  obtain ⟨hmem, hhash⟩ := byHash_eq_some hold
  obtain ⟨hmem', hnewId⟩ := byId_eq_some hnew
  obtain rfl := Option.some.inj h
  exact ⟨rfl, old, hmem, new, hmem', hnewId ▸ hid, hhash, hsucc, hat, rfl⟩

/-! ## What keeps the table -/

namespace Table

/-- A revocation keeps the table. -/
theorem update (h : Table sessions nextId answers) (hrows : Rowwise Revoked sessions sessions') :
    Table sessions' nextId answers where
  ids := by
    unfold KeyUnique
    rw [hrows.keys fun r _ s hrs => hrs.id]
    exact h.ids
  hashes := by
    unfold KeyUnique
    rw [hrows.keys fun r _ s hrs => hrs.hash]
    exact h.hashes
  fresh := by
    intro t ht
    obtain ⟨s, hs, hst⟩ := hrows.origin ht
    exact hst.id ▸ h.fresh s hs
  self := by
    intro t ht
    obtain ⟨s, hs, hst⟩ := hrows.origin ht
    rw [hst.id, hst.lineage, h.self s hs]
  ancestors := by
    intro t ht a ha
    obtain ⟨s, hs, hst⟩ := hrows.origin ht
    obtain ⟨u, hu, rfl⟩ := h.ancestors s hs a (hst.lineage ▸ ha)
    obtain ⟨u', hu', huu'⟩ := hrows.kept hu
    exact ⟨u', hu', huu'.id⟩
  last := by
    intro t ht hlive u hu a hat hau
    obtain ⟨s, hs, hst⟩ := hrows.origin ht
    obtain ⟨v, hv, hvu⟩ := hrows.origin hu
    rw [hvu.id, hst.lineage]
    exact h.last s hs (hst.revoked hlive) v hv a (hst.lineage ▸ hat) (hvu.lineage ▸ hau)
  followed := by
    intro t ht u hu hmem hne
    obtain ⟨s, hs, hst⟩ := hrows.origin ht
    obtain ⟨v, hv, hvu⟩ := hrows.origin hu
    rw [hvu.id, hst.lineage] at hmem
    rw [hvu.id, hst.id] at hne
    exact hvu.rotatedTo ▸ h.followed s hs v hv hmem hne
  rotated := by
    intro t ht id hid
    obtain ⟨s, hs, hst⟩ := hrows.origin ht
    obtain ⟨u, hu, rfl, hsu⟩ := h.rotated s hs id (hst.rotatedTo ▸ hid)
    obtain ⟨v, hv, huv⟩ := hrows.kept hu
    refine ⟨v, hv, huv.id, ?_, fun hlive => hsu.spent (hst.revoked hlive), ?_, ?_⟩
    · rw [hst.rotatedTo, hsu.link, huv.id]
    · rw [huv.userId, hsu.userId, hst.userId]
    · rw [huv.lineage, hsu.lineage, hst.lineage, huv.id]
  succeeds := by
    intro t ht o ho
    obtain ⟨s, hs, hst⟩ := hrows.origin ht
    obtain ⟨u, hu, rfl, hlink⟩ := h.succeeds s hs o (hst.lineage ▸ ho)
    obtain ⟨v, hv, huv⟩ := hrows.kept hu
    exact ⟨v, hv, huv.id, by rw [huv.rotatedTo, hlink, hst.id]⟩
  answered := by
    intro a ha
    obtain ⟨s, hs, t, ht, hlink, hhash, hsucc, hat, huser⟩ := h.answered a ha
    obtain ⟨s', hs', hss'⟩ := hrows.kept hs
    obtain ⟨t', ht', htt'⟩ := hrows.kept ht
    refine ⟨s', hs', t', ht', ?_, ?_, ?_, ?_, ?_⟩
    · rw [hss'.rotatedTo, hlink, htt'.id]
    · rw [hss'.hash, hhash]
    · rw [htt'.hash, hsucc]
    · rw [hss'.rotatedAt (by simp [hlink]), hat]
    · rw [hss'.userId, huser]
  first := by
    intro t ht hlink
    obtain ⟨s, hs, hst⟩ := hrows.origin ht
    rw [hst.hash]
    exact h.first s hs (hst.rotatedTo ▸ hlink)
  once := h.once

theorem id_mem (h : Table sessions nextId answers) (hs : s ∈ sessions) : s.id ∈ s.lineage :=
  List.mem_of_mem_head? (h.self s hs)

theorem nextId_notMem (h : Table sessions nextId answers) (hs : s ∈ sessions) :
    nextId ∉ s.lineage := by
  intro hmem
  obtain ⟨t, ht, hid⟩ := h.ancestors s hs _ hmem
  exact (h.fresh t ht).ne hid

/-- A live session was not rotated. -/
theorem rotatedTo_of_live (h : Table sessions nextId answers) (hs : s ∈ sessions)
    (hlive : s.revokedAt = none) : s.rotatedTo = none := by
  by_contra hlink
  obtain ⟨id, hid⟩ := Option.ne_none_iff_exists'.mp hlink
  obtain ⟨t, _, _, hrot⟩ := h.rotated s hs id hid
  exact hrot.spent hlive

/-- A session that another one goes back to is spent. -/
theorem spent (h : Table sessions nextId answers) (hs : s ∈ sessions) (ht : t ∈ sessions)
    (hmem : t.id ∈ s.lineage) (hne : t.id ≠ s.id) : t.revokedAt ≠ none :=
  fun hlive => h.followed s hs t ht hmem hne (h.rotatedTo_of_live ht hlive)

/-- A live session goes back to no other live one, and none goes back to it. -/
theorem apart_of_live (h : Table sessions nextId answers) (hs : s ∈ sessions) (ht : t ∈ sessions)
    (hlive : s.revokedAt = none) (hlive' : t.revokedAt = none) (hne : t.id ≠ s.id) {a : Uuid}
    (ha : a ∈ s.lineage) : a ∉ t.lineage :=
  fun ha' => h.spent hs ht (h.last s hs hlive t ht a ha ha') hne hlive'

/-- A sign-in keeps the table. -/
theorem signIn (h : Table sessions nextId answers) (hid : s.id = nextId)
    (hhash : ∀ t ∈ sessions, t.refreshTokenHash ≠ s.refreshTokenHash) (hlink : s.rotatedTo = none)
    (hlineage : s.lineage = [nextId]) :
    Table (sessions ++ [s]) (nextId + 1) answers where
  ids := h.ids.insert fun t ht => by
    rw [hid]
    exact (h.fresh t ht).ne
  hashes := h.hashes.insert hhash
  fresh := by
    intro t ht
    rcases List.mem_append.mp ht with ht | ht
    · exact (h.fresh t ht).trans (Nat.lt_succ_self _)
    · rw [List.mem_singleton.mp ht, hid]
      exact Nat.lt_succ_self _
  self := by
    intro t ht
    rcases List.mem_append.mp ht with ht | ht
    · exact h.self t ht
    · rw [List.mem_singleton.mp ht, hlineage, hid]
      rfl
  ancestors := by
    intro t ht a ha
    rcases List.mem_append.mp ht with ht | ht
    · obtain ⟨u, hu, hua⟩ := h.ancestors t ht a ha
      exact ⟨u, List.mem_append_left _ hu, hua⟩
    · rw [List.mem_singleton.mp ht, hlineage, List.mem_singleton] at ha
      exact ⟨s, by simp, hid.trans ha.symm⟩
  last := by
    intro t ht hlive u hu a hat hau
    rcases List.mem_append.mp ht with ht | ht <;> rcases List.mem_append.mp hu with hu | hu
    · exact h.last t ht hlive u hu a hat hau
    · rw [List.mem_singleton.mp hu, hlineage, List.mem_singleton] at hau
      exact absurd (hau ▸ hat) (h.nextId_notMem ht)
    · rw [List.mem_singleton.mp ht, hlineage, List.mem_singleton] at hat
      exact absurd (hat ▸ hau) (h.nextId_notMem hu)
    · rw [List.mem_singleton.mp ht, List.mem_singleton.mp hu, hlineage, hid]
      exact List.mem_singleton_self _
  followed := by
    intro t ht u hu hmem hne
    rcases List.mem_append.mp ht with ht | ht <;> rcases List.mem_append.mp hu with hu | hu
    · exact h.followed t ht u hu hmem hne
    · rw [List.mem_singleton.mp hu, hid] at hmem
      exact absurd hmem (h.nextId_notMem ht)
    · rw [List.mem_singleton.mp ht, hlineage, List.mem_singleton] at hmem
      exact absurd hmem (h.fresh u hu).ne
    · exact absurd (by rw [List.mem_singleton.mp hu, List.mem_singleton.mp ht]) hne
  rotated := by
    intro t ht id ht'
    rcases List.mem_append.mp ht with ht | ht
    · obtain ⟨u, hu, hrot⟩ := h.rotated t ht id ht'
      exact ⟨u, List.mem_append_left _ hu, hrot⟩
    · rw [List.mem_singleton.mp ht, hlink] at ht'
      cases ht'
  succeeds := by
    intro t ht o ho
    rcases List.mem_append.mp ht with ht | ht
    · obtain ⟨u, hu, hrot⟩ := h.succeeds t ht o ho
      exact ⟨u, List.mem_append_left _ hu, hrot⟩
    · rw [List.mem_singleton.mp ht, hlineage] at ho
      cases ho
  answered := by
    intro a ha
    obtain ⟨u, hu, t, ht, hrest⟩ := h.answered a ha
    exact ⟨u, List.mem_append_left _ hu, t, List.mem_append_left _ ht, hrest⟩
  first := by
    intro t ht ht'
    rcases List.mem_append.mp ht with ht | ht
    · exact h.first t ht ht'
    · rw [List.mem_singleton.mp ht] at ht'
      exact absurd hlink ht'
  once := h.once

/-- **A rotation keeps the table**: what was live and is spent has a successor from here on. -/
theorem rotation (h : Table sessions nextId answers) (hold : old ∈ sessions)
    (hlive : old.revokedAt = none) (htoken : old.refreshTokenHash = call.refreshTokenHash)
    (hhash : ∀ t ∈ sessions, t.refreshTokenHash ≠ call.successorHash) :
    Table
      (updateWhere (fun s => decide (s.id = old.id)) (call.spent (some nextId)) sessions ++
        [call.successor old nextId])
      (nextId + 1)
      (answers ++
        [{ refreshTokenHash := call.refreshTokenHash
           successorHash := call.successorHash
           userId := old.userId
           rotatedAt := call.now
           replayed := false }]) := by
  have heq {s : UserSession} (hs : s ∈ sessions) (hid : s.id = old.id) : s = old :=
    h.ids.eq hs hold hid
  have hunlinked := h.rotatedTo_of_live hold hlive
  have hrow {s : UserSession} (hs : s ∈ sessions) : rotatedRow call old nextId s ∈
      updateWhere (fun s => decide (s.id = old.id)) (call.spent (some nextId)) sessions ++
        [call.successor old nextId] := mem_rotated.mpr (.inl ⟨s, hs, rfl⟩)
  have hsucc : call.successor old nextId ∈
      updateWhere (fun s => decide (s.id = old.id)) (call.spent (some nextId)) sessions ++
        [call.successor old nextId] := mem_rotated.mpr (.inr rfl)
  have hkept {s : UserSession} (hs : s ∈ sessions) (hlink : s.rotatedTo ≠ none) :
      rotatedRow call old nextId s = s := by
    refine rotatedRow_of_ne fun hid => hlink ?_
    rw [heq hs hid, hunlinked]
  have hfollowed {s : UserSession} (h : s.id ≠ old.id → s.rotatedTo ≠ none) :
      (rotatedRow call old nextId s).rotatedTo ≠ none := by
    by_cases hid : s.id = old.id
    · rw [rotatedRow, if_pos hid]
      exact nofun
    · rw [rotatedRow_of_ne hid]
      exact h hid
  refine ⟨?_, ?_, ?_, ?_, ?_, ?_, ?_, ?_, ?_, ?_, ?_, ?_⟩
  · refine KeyUnique.insert (h.ids.updateWhere ?_) fun s hs => ?_
    · exact fun _ _ => rfl
    obtain ⟨r, hr, rfl⟩ := mem_updateWhere.mp hs
    have hlt := h.fresh r hr
    split <;> exact hlt.ne
  · refine KeyUnique.insert (h.hashes.updateWhere ?_) fun s hs => ?_
    · exact fun _ _ => rfl
    obtain ⟨r, hr, rfl⟩ := mem_updateWhere.mp hs
    have hne := hhash r hr
    split <;> exact hne
  · intro t ht
    rcases mem_rotated.mp ht with ⟨s, hs, rfl⟩ | rfl
    · simpa using (h.fresh s hs).trans (Nat.lt_succ_self _)
    · exact Nat.lt_succ_self _
  · intro t ht
    rcases mem_rotated.mp ht with ⟨s, hs, rfl⟩ | rfl
    · simpa using h.self s hs
    · rfl
  · intro t ht a ha
    rcases mem_rotated.mp ht with ⟨s, hs, rfl⟩ | rfl
    · obtain ⟨u, hu, rfl⟩ := h.ancestors s hs a (by simpa using ha)
      exact ⟨_, hrow hu, by simp⟩
    · rcases List.mem_cons.mp ha with rfl | ha
      · exact ⟨_, hsucc, rfl⟩
      · obtain ⟨u, hu, rfl⟩ := h.ancestors old hold a ha
        exact ⟨_, hrow hu, by simp⟩
  · intro t ht hlivet u hu a hat hau
    rcases mem_rotated.mp ht with ⟨s, hs, rfl⟩ | rfl <;>
      rcases mem_rotated.mp hu with ⟨v, hv, rfl⟩ | rfl
    · rw [lineage_rotatedRow] at hat hau ⊢
      rw [id_rotatedRow]
      exact h.last s hs (revokedAt_rotatedRow.mp hlivet).2 v hv a hat hau
    · obtain ⟨hne, hlives⟩ := revokedAt_rotatedRow.mp hlivet
      rw [lineage_rotatedRow] at hat
      rcases List.mem_cons.mp hau with rfl | hau
      · exact absurd hat (h.nextId_notMem hs)
      · exact absurd hau (h.apart_of_live hs hold hlives hlive hne.symm hat)
    · rw [lineage_rotatedRow] at hau
      rw [id_rotatedRow]
      rcases List.mem_cons.mp hat with rfl | hat
      · exact absurd hau (h.nextId_notMem hv)
      · exact List.mem_cons_of_mem _ (h.last old hold hlive v hv a hat hau)
    · exact List.mem_cons_self
  · intro t ht u hu hmem hne
    rcases mem_rotated.mp ht with ⟨s, hs, rfl⟩ | rfl <;>
      rcases mem_rotated.mp hu with ⟨v, hv, rfl⟩ | rfl
    · rw [lineage_rotatedRow, id_rotatedRow] at hmem
      rw [id_rotatedRow, id_rotatedRow] at hne
      exact hfollowed fun _ => h.followed s hs v hv hmem hne
    · rw [lineage_rotatedRow] at hmem
      exact absurd hmem (h.nextId_notMem hs)
    · rw [id_rotatedRow] at hmem
      rcases List.mem_cons.mp hmem with hid | hmem
      · exact absurd hid (h.fresh v hv).ne
      · exact hfollowed (h.followed old hold v hv hmem)
    · exact absurd rfl hne
  · intro t ht id hid
    rcases mem_rotated.mp ht with ⟨s, hs, rfl⟩ | rfl
    · by_cases hne : s.id = old.id
      · obtain rfl := heq hs hne
        rw [rotatedRow_self] at hid ⊢
        cases hid
        exact ⟨_, hsucc, rfl, rfl, nofun, rfl, rfl⟩
      · rw [rotatedRow_of_ne hne] at hid ⊢
        obtain ⟨u, hu, rfl, hrot⟩ := h.rotated s hs id hid
        exact ⟨_, hrow hu, by simp, by simpa using hrot.link,
          hrot.spent, by simpa using hrot.userId,
          by simpa using hrot.lineage⟩
    · cases hid
  · intro t ht o ho
    rcases mem_rotated.mp ht with ⟨s, hs, rfl⟩ | rfl
    · rw [lineage_rotatedRow] at ho
      obtain ⟨u, hu, rfl, hlink⟩ := h.succeeds s hs o ho
      refine ⟨_, hrow hu, by simp, ?_⟩
      rw [hkept hu (by simp [hlink]), hlink, id_rotatedRow]
    · refine ⟨_, hrow hold, ?_, by rw [rotatedRow_self]; rfl⟩
      have hhead := h.self old hold
      rw [List.head?_eq_getElem?] at hhead
      rw [id_rotatedRow]
      exact Option.some.inj (hhead.symm.trans ho)
  · intro a ha
    rcases List.mem_append.mp ha with ha | ha
    · obtain ⟨s, hs, t, ht, hlink, hrest⟩ := h.answered a ha
      refine ⟨_, hrow hs, _, hrow ht, ?_⟩
      rw [hkept hs (by simp [hlink]), id_rotatedRow, hash_rotatedRow]
      exact ⟨hlink, hrest⟩
    · rw [List.mem_singleton.mp ha]
      refine ⟨_, hrow hold, _, hsucc, ?_⟩
      rw [rotatedRow_self]
      exact ⟨rfl, htoken, rfl, rfl, rfl⟩
  · intro t ht hlink
    rcases mem_rotated.mp ht with ⟨s, hs, rfl⟩ | rfl
    · by_cases hid : s.id = old.id
      · obtain rfl := heq hs hid
        exact ⟨_, List.mem_append_right _ (List.mem_singleton_self _), rfl, by simp [htoken]⟩
      · rw [rotatedRow_of_ne hid] at hlink ⊢
        obtain ⟨a, ha, hrest⟩ := h.first s hs hlink
        exact ⟨a, List.mem_append_left _ ha, hrest⟩
    · exact absurd rfl hlink
  · rw [List.filter_append, List.map_append, List.nodup_append]
    refine ⟨h.once, by simp, ?_⟩
    intro k hk k' hk' hkk
    obtain ⟨a, ha, rfl⟩ := List.mem_map.mp hk
    obtain ⟨s, hs, t, _, hlink, hash, _⟩ := h.answered a (List.mem_filter.mp ha).1
    have hk'' : k' = call.refreshTokenHash := by simpa using hk'
    obtain rfl := h.hashes.eq hs hold (hash.trans (hkk.trans (hk''.trans htoken.symm)))
    rw [hunlinked] at hlink
    cases hlink

/-- A replay keeps the table. -/
theorem replay (h : Table sessions nextId answers) {db : SessionDb} {call : Rotation}
    {a : RotationAnswer} (hdb : db.sessions = sessions) (ha : db.replay call = some a) :
    Table sessions nextId (answers ++ [a]) := by
  obtain ⟨hreplayed, hrow⟩ := replay_eq_some ha
  refine { h with answered := ?_, first := ?_, once := ?_ }
  · intro b hb
    rcases List.mem_append.mp hb with hb | hb
    · exact h.answered b hb
    · rw [List.mem_singleton.mp hb, ← hdb]
      exact hrow
  · intro s hs hlink
    obtain ⟨b, hb, hrest⟩ := h.first s hs hlink
    exact ⟨b, List.mem_append_left _ hb, hrest⟩
  · rw [List.filter_append, List.filter_singleton, hreplayed]
    simpa using h.once

end Table

end GenusOs.Auth
