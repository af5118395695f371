import GenusOs.Autonomy.HandoffMoves
import Mathlib

/-!
# Expired handoffs and the operations they leave

An operation in `reconciling` waits for its handoff. `release_expired_handoff` returns it to its
owner with its last handoff, and `create` only expires a handoff to arm another; `finish` expires
the handoff whose deadline has passed during the check, and does nothing for the operation.

* `handoff_strands_iff`: a step strands an operation where a check of its only armed handoff is
  finished past the deadline, and only there.
-/

namespace GenusOs.Autonomy

open GenusOs.Python Transaction
open GenusOs.Rows (Rowwise)

variable {env : Platform} {amb : Ambient} {scope : Scope} {s t u : DB} {id : Uuid}

/-! ## What stranding is -/

def Reconciling (s : DB) (id : Uuid) : Prop :=
  ∃ o ∈ s.operations, o.id = id ∧ o.state = .reconciling

/-- The operation has a handoff in `awaiting_external_action` or `checking`. -/
def Armed (s : DB) (id : Uuid) : Prop :=
  ∃ h ∈ s.handoffs, h.operationId = id ∧ h.state.pending = true

/-- The step moves an armed handoff of the operation to `expired`. -/
def Expires (s t : DB) (id : Uuid) : Prop :=
  ∃ h ∈ s.handoffs, h.operationId = id ∧ h.state.pending = true ∧
    ∃ h' ∈ t.handoffs, h'.id = h.id ∧ h'.state = .expired

/-- The step expires the last armed handoff of a reconciling operation, which stays reconciling
and gets no other. -/
def Strands (s t : DB) (id : Uuid) : Prop :=
  Reconciling s id ∧ Expires s t id ∧ Reconciling t id ∧ ¬ Armed t id

instance : Decidable (Reconciling s id) :=
  inferInstanceAs (Decidable (∃ o ∈ s.operations, o.id = id ∧ o.state = .reconciling))

instance : Decidable (Armed s id) :=
  inferInstanceAs (Decidable (∃ h ∈ s.handoffs, h.operationId = id ∧ h.state.pending = true))

instance : Decidable (Expires s t id) :=
  inferInstanceAs (Decidable (∃ h ∈ s.handoffs, h.operationId = id ∧ h.state.pending = true ∧
    ∃ h' ∈ t.handoffs, h'.id = h.id ∧ h'.state = .expired))

instance : Decidable (Strands s t id) :=
  inferInstanceAs (Decidable (Reconciling s id ∧ Expires s t id ∧ Reconciling t id ∧ ¬ Armed t id))

/-- The step finishes a check past the deadline of its handoff, the only armed one of an operation
that is reconciling. -/
def LapsedUnderCheck (s : DB) (a : Step) : Prop :=
  ∃ handoffId token retry, a.call = .finishCheck handoffId token retry ∧
    ∃ h ∈ s.handoffs, h.held a.scope handoffId token = true ∧
      h.expiresAt ≤ a.amb.now.seconds ∧ Reconciling s h.operationId ∧
      ∀ h' ∈ s.handoffs, h'.operationId = h.operationId → h'.state.pending = true → h'.id = h.id

/-! ## The steps that strand nothing -/

/-- Operations that are reconciling were so before, and stay armed. -/
structure Holds (s t : DB) : Prop where
  back : ∀ id, Reconciling t id → Reconciling s id
  armed : ∀ id, Armed s id → Reconciling t id → Armed t id

theorem Holds.refl (s : DB) : Holds s s := ⟨fun _ h => h, fun _ h _ => h⟩

theorem Holds.trans (h : Holds s u) (h' : Holds u t) : Holds s t where
  back id ht := h.back id (h'.back id ht)
  armed id hs ht := h'.armed id (h.armed id hs (h'.back id ht)) ht

theorem not_strands (h : ∀ id, Armed s id → Reconciling t id → Armed t id) : ¬ Strands s t id := by
  rintro ⟨-, ⟨row, hmem, hid, hp, -⟩, ht, hnot⟩
  exact hnot (h id ⟨row, hmem, hid, hp⟩ ht)

theorem reconciling_congr (h : t.operations = s.operations) :
    Reconciling t id ↔ Reconciling s id := by
  unfold Reconciling
  rw [h]

/-- Rows that stay pending keep their operations armed. -/
theorem armed_of_pending {P : Handoff → Handoff → Prop}
    (hP : ∀ h h', P h h' → h.state.pending = true → h'.operationId = h.operationId ∧
      h'.state.pending = true)
    (h : Rowwise P s.handoffs t.handoffs) (hs : Armed s id) : Armed t id := by
  obtain ⟨row, hmem, hid, hp⟩ := hs
  obtain ⟨row', hmem', hrow⟩ := h.kept hmem
  obtain ⟨hid', hp'⟩ := hP row row' hrow hp
  exact ⟨row', hmem', hid'.trans hid, hp'⟩

/-- A release frees only the handoff it is about. -/
theorem armed_of_released {handoffId operationId : Uuid}
    (hop : ∀ h ∈ s.handoffs, h.id = handoffId → h.operationId = operationId)
    (ht : t.handoffs =
      Rows.updateWhere (Handoff.isPending scope handoffId) Handoff.released s.handoffs)
    (hid : id ≠ operationId) (hs : Armed s id) : Armed t id := by
  obtain ⟨row, hmem, rfl, hp⟩ := hs
  refine ⟨row, ?_, rfl, hp⟩
  rw [ht]
  apply Rows.mem_updateWhere_of_not hmem
  rw [← Bool.not_eq_true]
  intro hpending
  unfold Handoff.isPending at hpending
  simp only [Bool.and_eq_true, decide_eq_true_eq] at hpending
  exact hid (hop row hmem hpending.1.2)

theorem Release.holds {handoffId operationId : Uuid} (hu : s.KeysUnique)
    (hop : ∀ h ∈ s.handoffs, h.id = handoffId → h.operationId = operationId)
    (h : Release amb scope handoffId operationId s t) : Holds s t := by
  cases h with
  | gone => exact .refl s
  | freed hhandoffs hoperations hleft =>
    refine ⟨fun id => (reconciling_congr hoperations).mp, fun id hs ht => ?_⟩
    by_cases hid : id = operationId
    · rcases hleft with ⟨left, hmem, hleftop, hp⟩ | ⟨o, hmem, ho, hstate⟩
      · exact ⟨left, hmem, hleftop.trans hid.symm, hp⟩
      · obtain ⟨o', hmem', ho', hstate'⟩ := (reconciling_congr hoperations).mp ht
        obtain rfl := hu.eq hmem hmem' (ho.trans (hid.symm.trans ho'.symm))
        exact absurd hstate' hstate
    · exact armed_of_released hop hhandoffs hid hs
  | returned hhandoffs hoperations =>
    have hback : ∀ id, Reconciling t id → Reconciling s id ∧ id ≠ operationId := by
      rintro id ⟨o, hmem, rfl, hstate⟩
      rw [hoperations] at hmem
      obtain ⟨o', hmem', rfl⟩ := Rows.mem_updateWhere.mp hmem
      split at hstate
      · cases hstate
      · next hne =>
        rw [if_neg hne]
        exact ⟨⟨o', hmem', rfl, hstate⟩, by simpa using hne⟩
    refine ⟨fun id ht => (hback id ht).1, fun id hs ht => ?_⟩
    exact armed_of_released hop hhandoffs (hback id ht).2 hs

theorem Release.keysUnique {handoffId operationId : Uuid} (hu : s.KeysUnique)
    (h : Release amb scope handoffId operationId s t) : t.KeysUnique := by
  unfold DB.KeysUnique
  cases h with
  | gone => exact hu
  | freed _ hoperations => exact hoperations ▸ hu
  | returned _ hoperations => exact hoperations ▸ Rows.KeyUnique.updateWhere hu fun _ _ => rfl

/-- A release leaves every row its operation. -/
theorem Release.operations {handoffId operationId : Uuid}
    (h : Release amb scope handoffId operationId s t) {row : Handoff}
    (hop : ∀ h ∈ s.handoffs, h.id = row.id → h.operationId = row.operationId) :
    ∀ h ∈ t.handoffs, h.id = row.id → h.operationId = row.operationId := by
  intro h' hmem' hid
  obtain ⟨h₀, hmem, hr⟩ := h.rowwise.origin hmem'
  rcases hr with rfl | ⟨-, rfl⟩
  · exact hop _ hmem hid
  · exact hop h₀ hmem hid

/-- The releases one after the other; the induction is on the handoffs still to be released. -/
theorem mapM_holds {rows : List Handoff} {found : List Bool} (hu : s.KeysUnique)
    (hop : ∀ row ∈ rows, ∀ h ∈ s.handoffs, h.id = row.id → h.operationId = row.operationId)
    (h : rows.mapM (fun row => releaseExpiredHandoff env amb scope row.id row.operationId) s =
      .ok (found, t)) : Holds s t := by
  induction rows generalizing s found with
  | nil =>
    obtain ⟨-, rfl⟩ := pure_ok.mp h
    exact .refl _
  | cons row rows ih =>
    rw [List.mapM_cons] at h
    simp only [bind_ok] at h
    obtain ⟨_, u, hrelease, _, v, hrest, hdone⟩ := h
    obtain ⟨-, rfl⟩ := pure_ok.mp hdone
    have hr := releaseExpiredHandoff_ok hrelease
    refine (hr.holds hu (hop row List.mem_cons_self)).trans (ih (hr.keysUnique hu) ?_ hrest)
    exact fun row' hrow' => hr.operations (hop row' (List.mem_cons_of_mem _ hrow'))

theorem moves_keysUnique {a : Step} (hu : s.HandoffsUnique) (h : MovesTo a s t) :
    t.HandoffsUnique := by
  obtain ⟨rows, new, hrows, ht, hnew⟩ := h
  have hkeys : rows.map Handoff.id = s.handoffs.map Handoff.id :=
    hrows.keys fun _ _ _ hm => hm.id
  unfold DB.HandoffsUnique
  rw [ht]
  have hold : Rows.KeyUnique Handoff.id rows := by
    unfold Rows.KeyUnique
    rw [hkeys]
    exact hu
  cases new with
  | none => simpa using hold
  | some row =>
    refine hold.insert fun r hr heq => (hnew row rfl).fresh ?_
    rw [← hkeys, ← heq]
    exact List.mem_map_of_mem hr

theorem reachable_handoffsUnique (h : (storeSystem env).Reachable s) : s.HandoffsUnique :=
  h.invariant (I := DB.HandoffsUnique)
    (fun s h₀ => by
      rw [show s = {} from h₀]
      exact List.nodup_nil)
    fun _ _ _ hu hs => moves_keysUnique hu (handoffs_move hu hs)

theorem createHandoff_armed {operationId : Uuid} {agentId : String} {spec : HandoffRequest}
    {answer : Uuid × PublicState}
    (h : createHandoff env amb scope operationId agentId spec s = .ok (answer, t))
    (hs : Armed s id) : Armed t id := by
  rcases createHandoff_ok h with rfl | ⟨row, hnew, hop, hhandoffs⟩
  · exact hs
  · by_cases hid : id = operationId
    · refine ⟨row, ?_, hop.trans hid.symm, by rw [hnew.state]; rfl⟩
      rw [hhandoffs]
      exact List.mem_append_right _ (List.mem_singleton_self row)
    · -- only handoffs of its own operation are past their deadline for `create`
      obtain ⟨old, hmem, hold, hp⟩ := hs
      refine ⟨old, ?_, hold, hp⟩
      rw [hhandoffs]
      refine List.mem_append_left _ (Rows.mem_updateWhere_of_not hmem ?_)
      rw [← Bool.not_eq_true]
      intro hlapses
      unfold Handoff.lapses at hlapses
      simp only [Bool.and_eq_true, decide_eq_true_eq] at hlapses
      exact hid (hold.symm.trans hlapses.1.1.2)

theorem acknowledge_armed {handoffId : Uuid} {answer : Uuid × String × Confirmation}
    (h : acknowledge amb scope handoffId s = .ok (answer, t)) (hs : Armed s id) : Armed t id := by
  obtain ⟨-, -, -, -, -, hhandoffs⟩ := acknowledge_ok h
  refine armed_of_pending (P := fun h h' => h' = h ∨ h' = h.armed) ?_
    (hhandoffs ▸ .updateWhere (fun _ => .inl rfl) fun _ _ _ => .inr rfl) hs
  rintro h _ (rfl | rfl) hp
  · exact ⟨rfl, hp⟩
  · exact ⟨rfl, rfl⟩

/-- A handoff that goes back to its owner, or whose check starts, stays armed. -/
theorem claim_armed (hu : s.KeysUnique) (hh : s.HandoffsUnique) {handoffId : Uuid}
    {answer : Option (Uuid × String × Uuid)}
    (h : claim env amb scope handoffId s = .ok (answer, t)) (hs : Armed s id)
    (ht : Reconciling t id) : Armed t id := by
  obtain ⟨u, hu', hcases⟩ := claim_ok h
  have hidled : Rowwise (fun h h' => h' = h ∨ h' = h.idle) s.handoffs u.handoffs := by
    rcases hu' with rfl | rfl
    · exact .refl (fun _ => .inl rfl) _
    · exact .updateWhere (fun _ => .inl rfl) fun _ _ _ => .inr rfl
  have hoperations : u.operations = s.operations := by
    rcases hu' with rfl | rfl <;> rfl
  have harmed : Armed u id := by
    refine armed_of_pending ?_ hidled hs
    rintro h _ (rfl | rfl) hp
    · exact ⟨rfl, hp⟩
    · exact ⟨rfl, rfl⟩
  rcases hcases with (⟨-, rfl⟩ | ⟨-, -, -, hleased⟩) | ⟨-, row, hmem, hid, hrelease⟩
  · exact harmed
  · refine armed_of_pending (P := fun h h' => h' = h ∨ h' = h.leased amb) ?_
      (hleased ▸ .updateWhere (fun _ => .inl rfl) fun _ _ _ => .inr rfl) harmed
    rintro h _ (rfl | rfl) hp
    · exact ⟨rfl, hp⟩
    · exact ⟨rfl, hp⟩
  · refine (hrelease.holds ?_ ?_).armed id harmed ht
    · unfold DB.KeysUnique
      rw [hoperations]
      exact hu
    · intro h' hmem' hid'
      obtain ⟨h₀, hmem₀, hrow⟩ := hidled.origin hmem'
      rcases hrow with rfl | rfl
      · rw [hh.eq hmem₀ hmem (hid'.trans hid.symm)]
      · show h₀.operationId = row.operationId
        rw [hh.eq hmem₀ hmem (Eq.trans hid' hid.symm)]

/-- **Only `finish` leaves a reconciling operation without its handoff.** -/
theorem armed_step {a : Step} (hu : s.KeysUnique) (hh : s.HandoffsUnique)
    (hc : a.call.ofHandoffs = true)
    (hfinish : ∀ handoffId token retry, a.call ≠ .finishCheck handoffId token retry)
    (h : (storeSystem env).step s a t) (hs : Armed s id) (ht : Reconciling t id) : Armed t id := by
  have hcommit : t = (a.tx env).commit s := h
  rw [hcommit] at ht ⊢
  revert ht
  refine commit_induction (P := fun t => Reconciling t id → Armed t id) (fun _ => hs) ?_
  intro _ t hm ht
  obtain ⟨scope, amb, call⟩ := a
  cases call with
  | createHandoff operationId agentId spec =>
    obtain ⟨_, u, hcreate, hdone⟩ := bind_ok.mp hm
    obtain rfl := (pure_ok.mp hdone).2
    exact createHandoff_armed hcreate hs
  | releaseExpired handoffId =>
    rcases releaseExpired_ok hm with rfl | ⟨row, hmem, hid, hrelease⟩
    · exact hs
    · refine (hrelease.holds hu fun h' hmem' hid' => ?_).armed id hs ht
      rw [hh.eq hmem' hmem (hid'.trans hid.symm)]
  | acknowledge handoffId =>
    obtain ⟨_, u, hack, hdone⟩ := bind_ok.mp hm
    obtain rfl := (pure_ok.mp hdone).2
    exact acknowledge_armed hack hs
  | releaseAllExpired =>
    obtain ⟨_, u, hrelease, hdone⟩ := bind_ok.mp hm
    obtain rfl := (pure_ok.mp hdone).2
    obtain ⟨_, _, hget, hrows⟩ := bind_ok.mp hrelease
    obtain ⟨rfl, rfl⟩ := get_ok.mp hget
    refine (mapM_holds hu (fun row hrow h' hmem' hid' => ?_) hrows).armed id hs ht
    rw [hh.eq hmem' (List.mem_of_mem_filter hrow) hid']
  | claim handoffId =>
    obtain ⟨answer, v, hclaim, hdone⟩ := bind_ok.mp hm
    obtain rfl := (pure_ok.mp hdone).2
    exact claim_armed hu hh hclaim hs ht
  | confirmation handoffId token =>
    obtain ⟨_, u, hread, hdone⟩ := bind_ok.mp hm
    obtain rfl := (pure_ok.mp hdone).2
    rw [confirmation_reads handoffId token _ _ _ hread]
    exact hs
  | finishCheck handoffId token retry => exact absurd rfl (hfinish handoffId token retry)
  | _ => cases hc

/-! ## The step that strands -/

/-- A check that does not hold its token reports of nothing. -/
theorem finishCheck_none {handoffId token : Uuid} {retry : Bool}
    (h : s.handoffs.find? (Handoff.held scope handoffId token) = none) :
    finishCheck amb scope handoffId token retry s = .ok ((), s) := by
  apply bind_ok.mpr
  refine ⟨s, s, rfl, ?_⟩
  generalize hfind : List.find? _ _ = found
  obtain rfl : found = none := hfind.symm.trans h
  rfl

theorem finishCheck_some {handoffId token : Uuid} {retry : Bool} {row : Handoff}
    (h : s.handoffs.find? (Handoff.held scope handoffId token) = some row) :
    finishCheck amb scope handoffId token retry s = .ok ((), { s with
      handoffs := Rows.updateWhere (Handoff.held scope handoffId token)
        (Handoff.checked amb retry) s.handoffs }.record scope (.operation row.operationId)
      (if retry then "external_status_check_retry" else "external_status_check_finished")) := by
  apply bind_ok.mpr
  refine ⟨s, s, rfl, ?_⟩
  generalize hfind : List.find? _ _ = found
  obtain rfl : found = some row := hfind.symm.trans h
  rfl

/-- `finish` never raises. -/
theorem finishCheck_total (handoffId token : Uuid) (retry : Bool) :
    ∃ t, finishCheck amb scope handoffId token retry s = .ok ((), t) := by
  cases hfind : s.handoffs.find? (Handoff.held scope handoffId token) with
  | none => exact ⟨_, finishCheck_none hfind⟩
  | some row => exact ⟨_, finishCheck_some hfind⟩

theorem held_id {handoffId token : Uuid} {h : Handoff}
    (hheld : h.held scope handoffId token = true) : h.id = handoffId := by
  unfold Handoff.held at hheld
  simp only [Bool.and_eq_true, decide_eq_true_eq] at hheld
  exact hheld.1.1.2

/-- A check that ends past the deadline strands the operation. -/
theorem strands_of_lapsed {handoffId token : Uuid} {retry : Bool} (hh : s.HandoffsUnique)
    {h : Handoff} (hmem : h ∈ s.handoffs) (hheld : h.held scope handoffId token = true)
    (hdeadline : h.expiresAt ≤ amb.now.seconds) (hrec : Reconciling s h.operationId)
    (honly : ∀ h' ∈ s.handoffs, h'.operationId = h.operationId → h'.state.pending = true →
      h'.id = h.id)
    (hoperations : t.operations = s.operations)
    (hhandoffs : t.handoffs = Rows.updateWhere (Handoff.held scope handoffId token)
      (Handoff.checked amb retry) s.handoffs) : Strands s t h.operationId := by
  have hpending : h.state.pending = true := by
    unfold Handoff.held at hheld
    simp only [Bool.and_eq_true, decide_eq_true_eq] at hheld
    rw [hheld.1.2]
    rfl
  have hexpired : (h.checked amb retry).state = .expired := by
    unfold Handoff.checked
    rw [if_pos hdeadline]
  refine ⟨hrec, ⟨h, hmem, rfl, hpending, h.checked amb retry, ?_, rfl, hexpired⟩,
    (reconciling_congr hoperations).mpr hrec, ?_⟩
  · rw [hhandoffs]
    exact Rows.mem_updateWhere.mpr ⟨h, hmem, by rw [if_pos hheld]⟩
  · rintro ⟨h', hmem', hop', hp'⟩
    rw [hhandoffs] at hmem'
    obtain ⟨r, hr, rfl⟩ := Rows.mem_updateWhere.mp hmem'
    by_cases hheld' : r.held scope handoffId token = true
    · rw [if_pos hheld'] at hp'
      rw [hh.eq hr hmem ((held_id hheld').trans (held_id hheld).symm), hexpired] at hp'
      cases hp'
    · rw [if_neg hheld'] at hop' hp'
      rw [hh.eq hr hmem (honly r hr hop' hp')] at hheld'
      exact hheld' hheld

/-- An expiry by `finish` is that of a check past its deadline. -/
theorem lapsed_of_strands {a : Step} {handoffId token : Uuid} {retry : Bool}
    (hh : s.HandoffsUnique) (hcall : a.call = .finishCheck handoffId token retry)
    (hhandoffs : t.handoffs = Rows.updateWhere (Handoff.held a.scope handoffId token)
      (Handoff.checked a.amb retry) s.handoffs) (h : Strands s t id) : LapsedUnderCheck s a := by
  obtain ⟨hrec, ⟨h, hmem, rfl, hp, h', hmem', hid', hexpired⟩, -, hnot⟩ := h
  have hstays : ∀ r ∈ s.handoffs, r.held a.scope handoffId token = false → r ∈ t.handoffs := by
    intro r hr hheld
    rw [hhandoffs]
    exact Rows.mem_updateWhere_of_not hr hheld
  by_cases hheld : h.held a.scope handoffId token = true
  · rw [hhandoffs] at hmem'
    obtain ⟨r, hr, rfl⟩ := Rows.mem_updateWhere.mp hmem'
    obtain rfl : r = h := by
      apply hh.eq hr hmem
      rw [← hid']
      split <;> rfl
    rw [if_pos hheld] at hexpired
    refine ⟨handoffId, token, retry, hcall, r, hr, hheld, ?_, hrec, ?_⟩
    · by_contra hlt
      simp only [Handoff.checked, if_neg hlt] at hexpired
      split at hexpired <;> cases hexpired
    · intro r' hr' hop' hp'
      by_contra hne
      refine hnot ⟨r', hstays r' hr' ?_, hop', hp'⟩
      rw [← Bool.not_eq_true]
      exact fun hheld' => hne ((held_id hheld').trans (held_id hheld).symm)
  · exact absurd ⟨h, hstays h hmem (by simpa using hheld), rfl, hp⟩ hnot

/-- **A step of the handoff stores strands an operation where it finishes a check of its only
armed handoff past the deadline, and nowhere else.** -/
theorem handoff_strands_iff {a : Step} (hs : (storeSystem env).Reachable s)
    (hc : a.call.ofHandoffs = true) (h : (storeSystem env).step s a t) :
    (∀ id, ¬ Strands s t id) ↔ ¬ LapsedUnderCheck s a := by
  have hu := reachable_keysUnique hs
  have hh := reachable_handoffsUnique hs
  by_cases hfinish : ∃ handoffId token retry, a.call = .finishCheck handoffId token retry
  · obtain ⟨handoffId, token, retry, hcall⟩ := hfinish
    have ht : t = (a.tx env).commit s := h
    obtain ⟨u, hok⟩ := @finishCheck_total a.amb a.scope s
      handoffId token retry
    have hrun : (a.tx env) s = .ok ((), u) := by
      unfold Step.tx
      rw [hcall]
      exact hok
    rw [commit_of_ok hrun] at ht
    subst ht
    rcases finishCheck_ok hok with ⟨rfl, hnone⟩ | ⟨hoperations, hhandoffs⟩
    · refine iff_of_true (fun id => not_strands fun _ hs _ => hs) ?_
      rintro ⟨handoffId', token', retry', hcall', h, hmem, hheld, -⟩
      cases hcall.symm.trans hcall'
      rw [hnone h hmem] at hheld
      cases hheld
    · refine ⟨?_, fun hnot id hstrands => hnot (lapsed_of_strands hh hcall hhandoffs hstrands)⟩
      rintro hnone ⟨handoffId', token', retry', hcall', h, hmem, hheld, hdeadline, hrec, honly⟩
      cases hcall.symm.trans hcall'
      exact hnone _ (strands_of_lapsed hh hmem hheld hdeadline hrec honly hoperations hhandoffs)
  · refine iff_of_true (fun id => not_strands fun id hs ht => ?_) ?_
    · exact armed_step hu hh hc
        (fun handoffId token retry hcall => hfinish ⟨handoffId, token, retry, hcall⟩) h hs ht
    · rintro ⟨handoffId, token, retry, hcall, -⟩
      exact hfinish ⟨handoffId, token, retry, hcall⟩

/-! ## A check that outlives its handoff -/

def samplePage : String := "https://shop.example"

def sampleHandoff : HandoffRequest where
  requestId := 40
  kind := .push
  confirmation := { url := samplePage, selector := some "#paid", text := some "Paid" }

/-- Handoff 7 of operation 3, which expires after 900 seconds, is acknowledged, and its check
claimed under token 9. -/
def handoffSteps : List Step :=
  purchaseSteps ++
    [sampleStep 5 (.recordLandedPages 3 [samplePage]),
     sampleStep 6 (.createHandoff 3 "agent" sampleHandoff),
     sampleStep 8 (.acknowledge 7),
     sampleStep 9 (.claim 7)]

/-- The check reports, at a moment of the first day. -/
def sampleFinish (seconds : Nat) (h : seconds < 86400) : Step where
  scope := ⟨"tenant", "owner"⟩
  amb := {
    utc := fun _ => epoch
    now := ⟨seconds, ⟨1970, 1, 1⟩, by rw [Nat.div_eq_of_lt h]; decide⟩
    uuid := fun k => 20 + k }
  call := .finishCheck 7 9 false

theorem finish_strands :
    ∃ s t, (storeSystem samplePlatform).Reachable s ∧
      (storeSystem samplePlatform).step s (sampleFinish 900 (by decide)) t ∧ Strands s t 3 := by
  refine ⟨runSteps samplePlatform {} handoffSteps,
    ((sampleFinish 900 (by decide)).tx samplePlatform).commit
      (runSteps samplePlatform {} handoffSteps),
    ⟨{}, handoffSteps, rfl, run_runSteps _ _ _⟩, rfl, ?_⟩
  decide +kernel

theorem finish_in_time :
    (∀ id, ¬ Strands (runSteps samplePlatform {} handoffSteps)
        (((sampleFinish 899 (by decide)).tx samplePlatform).commit
          (runSteps samplePlatform {} handoffSteps)) id) ↔
      ¬ LapsedUnderCheck (runSteps samplePlatform {} handoffSteps)
        (sampleFinish 899 (by decide)) :=
  handoff_strands_iff ⟨{}, handoffSteps, rfl, run_runSteps _ _ _⟩ rfl rfl

end GenusOs.Autonomy
