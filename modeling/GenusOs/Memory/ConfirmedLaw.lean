import GenusOs.Memory.Paths
import Mathlib

/-!
# Facts that an operator has confirmed

* `statement_kept`: what each statement of the paths leaves of a confirmed fact.
* `confirmed_kept_iff_spared`: no path retires one, exactly where `dechurn` finds none of its losers
  confirmed.
-/

namespace GenusOs.Memory

open Python

variable {T : Texts} {s t : State} {a : Act} {table table' : Table}
    {tenant : String} {ans : Answers}
  {phase phase' : Phase} {f g : Fact}

/-! ## What an update leaves -/

theorem Keeps.refl (hf : f.operatorConfirmed = true) : Keeps f f := ⟨rfl, hf, rfl, rfl, rfl⟩

theorem Keeps.trans {k : Fact} (hfg : Keeps f g) (hgk : Keeps g k) : Keeps f k where
  id := hgk.id.trans hfg.id
  confirmed := hgk.confirmed
  isActive := hgk.isActive.trans hfg.isActive
  supersededBy := hgk.supersededBy.trans hfg.supersededBy
  validTo := hgk.validTo.trans hfg.validTo

theorem Kept.refl (table : Table) : Kept table table := fun f hf hc => ⟨f, hf, .refl hc⟩

theorem Kept.trans {table'' : Table} (h : Kept table table') (h' : Kept table' table'') :
    Kept table table'' := by
  intro f hf hc
  obtain ⟨g, hg, hfg⟩ := h f hf hc
  obtain ⟨k, hk, hgk⟩ := h' g hg hfg.confirmed
  exact ⟨k, hk, hfg.trans hgk⟩

theorem Kept.updateWhere {p : Fact → Bool} {u : Fact → Fact}
    (h : ∀ f ∈ table, p f = true → f.operatorConfirmed = true → Keeps f (u f)) :
    Kept table (Rows.updateWhere p u table) := by
  intro f hf hc
  refine ⟨_, Rows.mem_updateWhere.mpr ⟨f, hf, rfl⟩, ?_⟩
  split
  · next hp => exact h f hf hp hc
  · exact .refl hc

/-- An update whose condition has the guard leaves a confirmed fact alone. -/
theorem Kept.guarded {p : Fact → Bool} {u : Fact → Fact}
    (h : ∀ f, p f = true → f.operatorConfirmed = false) : Kept table (Rows.updateWhere p u table) :=
  .updateWhere fun f _ hp hc => by
    rw [h f hp] at hc
    cases hc

theorem supersedes_not_confirmed {oldId : Nat} (h : Table.supersedes tenant oldId f = true) :
    f.operatorConfirmed = false := by
  unfold Table.supersedes at h
  simpa using (Bool.and_eq_true_iff.mp h).2

theorem overrules_not_confirmed {newId keptId : Nat}
    (h : Table.overrules tenant newId keptId f = true) : f.operatorConfirmed = false := by
  unfold Table.overrules at h
  simpa using (Bool.and_eq_true_iff.mp h).2

theorem deactivate_kept {losers : List Nat} {now : Nat}
    (h : ∀ f ∈ table, Table.isLoser tenant losers f = true → f.isActive = true →
      f.operatorConfirmed = false) : Kept table (table.deactivate tenant losers now) := by
  refine .updateWhere fun f hf hloser hc => ⟨rfl, hc, ?_, rfl, rfl⟩
  by_cases hactive : f.isActive = true
  · rw [h f hf hloser hactive] at hc
    cases hc
  · exact (Bool.eq_false_iff.mpr hactive).symm

/-! ## What a statement does to the table -/

/-- The statements that write. -/
inductive Effect (T : Texts) (table : Table) (tenant : String) (now : Nat) : Phase → Table → Prop
  | read {phase : Phase} : Effect T table tenant now phase table
  | reinforced {best : Fact} :
    Effect T table tenant now (.reinforcing best) (table.reinforce tenant best.id now)
  | inserted {x : Extraction} {purpose : Purpose} :
    Effect T table tenant now (.inserting x purpose) (table ++ [x.fact T table tenant now])
  | superseded {oldId newId : Nat} {best : Option Fact} :
    Effect T table tenant now (.superseding oldId newId best)
      (table.supersede tenant oldId newId now)
  | begun {newId : Nat} :
    Effect T table tenant now (.beginning newId) (table.beginValidity tenant newId now)
  | overruled {newId keptId : Nat} :
    Effect T table tenant now (.overruling newId keptId)
      (table.keepOverruled tenant newId keptId now)
  | deactivated {losers : List Nat} :
    Effect T table tenant now (.deactivating losers) (table.deactivate tenant losers now)

theorem statement_effect (h : statement T table tenant ans phase = some (table', phase')) :
    Effect T table tenant ans.now phase table' := by
  cases phase with
  | searching x threshold =>
    unfold statement at h
    dsimp only at h
    split at h
    · cases h
      exact .read
    · split at h
      · split at h
        · cases h
          exact .read
        · cases h
      · cases h
  | reinforcing best =>
    cases h
    exact .reinforced
  | findingOverruled x best =>
    unfold statement at h
    dsimp only at h
    split at h
    · cases h
      exact .read
    · cases h
      exact .read
  | classifying x best =>
    cases h
    exact .read
  | inserting x purpose =>
    unfold statement at h
    dsimp only at h
    split at h
    · cases h
      exact .read
    · split at h
      · cases h
        exact .read
      · cases h
        exact .inserted
  | rereading x purpose =>
    cases h
    exact .read
  | superseding oldId newId best =>
    unfold statement at h
    dsimp only at h
    split at h
    · split at h
      · cases h
        exact .superseded
      · cases h
        exact .read
    · split at h
      · cases h
        exact .read
      · cases h
        exact .read
  | beginning newId =>
    cases h
    exact .begun
  | confirming best newId =>
    unfold statement at h
    dsimp only at h
    split at h
    · split at h
      · cases h
        exact .read
      · cases h
        exact .read
    · cases h
      exact .read
  | overruling newId keptId =>
    unfold statement at h
    dsimp only at h
    split at h
    · cases h
      exact .read
    · cases h
      exact .overruled
  | loading jaccard maxDeactivations =>
    unfold statement at h
    dsimp only at h
    split at h
    · cases h
      exact .read
    · cases h
      exact .read
  | deactivating losers =>
    cases h
    exact .deactivated
  | _ => cases h

/-- What each statement of the paths leaves of a confirmed fact. -/
theorem Effect.kept {now : Nat} (h : Effect T table tenant now phase table')
    (hcalm : ∀ losers, phase = .deactivating losers → ∀ f ∈ table,
      Table.isLoser tenant losers f = true → f.isActive = true → f.operatorConfirmed = false) :
    Kept table table' := by
  cases h with
  | read => exact .refl table
  | reinforced => exact .updateWhere fun f _ _ hc => ⟨rfl, hc, rfl, rfl, rfl⟩
  | inserted => exact fun f hf hc => ⟨f, List.mem_append_left _ hf, .refl hc⟩
  | superseded => exact .guarded fun f => supersedes_not_confirmed
  | begun => exact .updateWhere fun f _ _ hc => ⟨rfl, hc, rfl, rfl, rfl⟩
  | overruled => exact .guarded fun f => overrules_not_confirmed
  | deactivated => exact deactivate_kept (hcalm _ rfl)

theorem lt_nextId (hf : f ∈ table) : f.id < table.nextId := by
  have hle : f.id ≤ (table.map Fact.id).foldr max 0 :=
    List.le_max_of_le' 0 (List.mem_map_of_mem hf) (le_refl _)
  exact Nat.lt_succ_of_le hle

/-- No statement changes the id of a fact. -/
theorem Effect.keys {now : Nat} (h : Effect T table tenant now phase table')
    (hkeys : Rows.KeyUnique Fact.id table) : Rows.KeyUnique Fact.id table' := by
  cases h with
  | read => exact hkeys
  | inserted => exact hkeys.insert fun f hf => (lt_nextId hf).ne
  | reinforced => exact hkeys.updateWhere fun _ _ => rfl
  | superseded => exact hkeys.updateWhere fun _ _ => rfl
  | begun => exact hkeys.updateWhere fun _ _ => rfl
  | overruled => exact hkeys.updateWhere fun _ _ => rfl
  | deactivated => exact hkeys.updateWhere fun _ _ => rfl

/-! ## An operator's edit -/

/-- An edit confirms the fact, and leaves it as active as it was. -/
theorem edit_cases {id : Nat} {factText contentHash : String} {entities : List String}
    {confirmed : Dict} {now : Nat}
    (h : table.edit tenant id factText entities contentHash confirmed now = some table') :
    Kept table table' ∧ (Rows.KeyUnique Fact.id table → Rows.KeyUnique Fact.id table') := by
  unfold Table.edit at h
  split at h
  · split at h
    · cases h
      refine ⟨.updateWhere fun f _ _ _ => ⟨rfl, ?_, rfl, rfl, rfl⟩,
        fun hkeys => hkeys.updateWhere fun _ _ => rfl⟩
      unfold Fact.operatorConfirmed
      dsimp only
      rw [Option.getD_some, Dict.lookup_set]
    · cases h
  · cases h

/-! ## Runs -/

/-- What a step does to the table. -/
theorem step_table (hstep : step T s a = some t) : t.table = s.table ∨
    (∃ c ans phase, a = .next c ans ∧
      statement T s.table (s.calls c).tenant ans (s.calls c).phase = some (t.table, phase)) ∨
    ∃ tenant id factText entities confirmed now hash, a =
      .edit tenant id factText entities confirmed now ∧
      s.table.edit tenant id factText entities hash confirmed now = some t.table := by
  cases a with
  | call c tenant request =>
    simp only [step] at hstep
    split at hstep
    · cases hstep
      exact .inl rfl
    · cases hstep
  | next c ans =>
    simp only [step] at hstep
    split at hstep
    · next table phase hstatement =>
      cases hstep
      exact .inr (.inl ⟨c, ans, phase, rfl, hstatement⟩)
    · cases hstep
  | edit tenant id factText entities confirmed now =>
    simp only [step] at hstep
    split at hstep
    · split at hstep
      · next table hedit =>
        cases hstep
        exact .inr (.inr ⟨_, _, _, _, _, _, _, rfl, hedit⟩)
      · cases hstep
    · cases hstep

theorem step_keys (hs : Rows.KeyUnique Fact.id s.table) (hstep : step T s a = some t) :
    Rows.KeyUnique Fact.id t.table := by
  rcases step_table hstep with hsame | ⟨c, ans, phase, -, hstatement⟩
    | ⟨_, _, _, _, _, _, _, -, hedit⟩
  · rw [hsame]
    exact hs
  · exact (statement_effect hstatement).keys hs
  · exact (edit_cases hedit).2 hs

theorem keys_reachable (hs : (memory T).Reachable s) : Rows.KeyUnique Fact.id s.table := by
  refine hs.invariant (I := fun s => Rows.KeyUnique Fact.id s.table) ?_ ?_
  · rintro _ ⟨table, hkeys, rfl⟩
    exact hkeys
  · intro u b v hu hb
    exact step_keys hu hb

theorem step_kept (hcalm : Calm s a) (hstep : step T s a = some t) : KeepsConfirmed s t := by
  rcases step_table hstep with hsame | ⟨c, ans, phase, rfl, hstatement⟩
    | ⟨_, _, _, _, _, _, _, -, hedit⟩
  · unfold KeepsConfirmed
    rw [hsame]
    exact .refl s.table
  · refine (statement_effect hstatement).kept fun losers hphase => ?_
    simp only [Calm, hphase] at hcalm
    exact hcalm
  · exact (edit_cases hedit).1

/-- A loser that is confirmed and active when the update comes is retired. -/
theorem step_retires (hkeys : Rows.KeyUnique Fact.id s.table) (hcalm : ¬ Calm s a)
    (hstep : step T s a = some t) : ¬ KeepsConfirmed s t := by
  intro hkept
  apply hcalm
  cases a with
  | call c tenant request => trivial
  | edit tenant id factText entities confirmed now => trivial
  | next c ans =>
    cases hphase : (s.calls c).phase with
    | deactivating losers =>
      simp only [Calm, hphase]
      intro f hf hloser hactive
      by_contra hconfirmed
      obtain ⟨g, hg, hkeeps⟩ := hkept f hf (Bool.eq_true_of_not_eq_false hconfirmed)
      simp only [step, hphase, statement] at hstep
      cases hstep
      obtain ⟨r, hr, rfl⟩ := Rows.mem_updateWhere.mp hg
      have hid : r.id = f.id := by
        have hid := hkeeps.id
        split at hid
        · exact hid
        · exact hid
      obtain rfl := hkeys.eq hr hf hid
      have hinactive := hkeeps.isActive
      rw [if_pos hloser, hactive] at hinactive
      cases hinactive
    | _ => simp only [Calm, hphase]

/-- **No automatic path retires a confirmed fact in the runs in which `dechurn` finds none of its
losers confirmed, and a step at which it finds one retires it.** -/
theorem confirmed_kept_iff_spared (hs : (memory T).Reachable s) :
    (∀ as t, ((memory T).restrict Calm).Run s as t → KeepsConfirmed s t) ∧
      ∀ a t, (memory T).step s a t → ¬ Calm s a → ¬ KeepsConfirmed s t := by
  refine ⟨fun as t hrun => ?_, fun a t hstep hcalm => step_retires (keys_reachable hs) hcalm hstep⟩
  refine hrun.follows (I := fun _ => True) (R := KeepsConfirmed) ?_ ?_ ?_ ?_ trivial
  · exact fun s => .refl s.table
  · exact fun _ _ _ => Kept.trans
  · exact fun _ _ _ _ _ => trivial
  · exact fun _ _ _ _ hstep => step_kept hstep.1 hstep.2

/-! ## A confirmation between the two statements of `dechurn` -/

/-- Every text has the same tokens. -/
def sampleTexts : Texts where
  normTokens _ := {"office", "lisbon"}
  numbersDiffer _ _ := false
  computeFactHash text _ _ := text

/-- Two facts that say the same. -/
def sampleTable : Table :=
  [{ id := 1, tenantId := "acme", factText := "Office: Lisbon", category := "org",
     entities := ["Lisbon"], contentHash := some "Office: Lisbon" },
    { id := 2, tenantId := "acme", factText := "office Lisbon", category := "org",
      entities := ["Lisbon"], contentHash := some "office Lisbon" }]

theorem sampleTable_keys : Rows.KeyUnique Fact.id sampleTable := by
  unfold Rows.KeyUnique
  decide

/-- The older one is to go. -/
theorem sample_losers : clusterNearDupLosers sampleTexts (9 / 10)
    (loadActiveFacts sampleTable "acme") = [1] := by
  decide +kernel

/-- `dechurn` is at this phase. -/
def sampleAt (phase : Phase) : State where
  table := sampleTable
  calls := Function.update (fun _ => {}) 0 { tenant := "acme", phase }

theorem sample_called : step sampleTexts { table := sampleTable } (.call 0 "acme" .dechurn) =
    some (sampleAt (.loading (9 / 10) DEFAULT_MAX_DEACTIVATIONS)) := rfl

theorem sample_loaded : step sampleTexts (sampleAt (.loading (9 / 10) DEFAULT_MAX_DEACTIVATIONS))
    (.next 0 { now := 10 }) = some (sampleAt (.deactivating [1])) := by
  simp only [step, sampleAt, Function.update_self, statement, sample_losers]
  rw [if_neg (by decide)]
  dsimp only [State.setCall]
  rw [Function.update_idem]

theorem sample_reachable : (memory sampleTexts).Reachable (sampleAt (.deactivating [1])) :=
  ⟨_, _, ⟨sampleTable, sampleTable_keys, rfl⟩, .cons sample_called (.cons sample_loaded (.nil _))⟩

/-- An operator's edit that leaves the text as it is. -/
def confirm (id : Nat) (factText : String) : Act :=
  .edit "acme" id factText ["Lisbon"] [("by", .str "ann")] 20

/-- The older fact is confirmed after `dechurn` has picked it. -/
theorem late_confirmation_ignored : ∃ s t : State, (memory sampleTexts).Reachable s ∧
    (memory sampleTexts).step s (.next 0 { now := 30 }) t ∧ ¬ KeepsConfirmed s t := by
  obtain ⟨s, t, hedit, hstep, ⟨f, hf, hid, hconfirmed, hactive⟩, hafter⟩ : ∃ s t,
      step sampleTexts (sampleAt (.deactivating [1])) (confirm 1 "Office: Lisbon") = some s ∧
        step sampleTexts s (.next 0 { now := 30 }) = some t ∧
        (∃ f ∈ s.table, f.id = 1 ∧ f.operatorConfirmed = true ∧ f.isActive = true) ∧
          ∀ g ∈ t.table, g.id = 1 → g.isActive = false := by
    refine ⟨_, _, rfl, rfl, ⟨_, List.mem_cons_self, rfl, rfl, rfl⟩, fun g hg hid => ?_⟩
    obtain rfl | hg := List.mem_cons.mp hg
    · rfl
    · obtain rfl := List.mem_singleton.mp hg
      cases hid
  refine ⟨s, t, sample_reachable.run (.single hedit), hstep, fun hkept => ?_⟩
  obtain ⟨g, hg, hkeeps⟩ := hkept f hf hconfirmed
  have hinactive := hafter g hg (hkeeps.id.trans hid)
  rw [hkeeps.isActive, hactive] at hinactive
  cases hinactive

/-- The newer fact is confirmed meanwhile; the older one is retired. -/
theorem confirmed_winner_kept : ∃ s t : State, KeepsConfirmed s t ∧
    s.table.map Fact.operatorConfirmed = [false, true] ∧ s.table.map Fact.isActive = [true, true] ∧
      t.table.map Fact.isActive = [false, true] := by
  obtain ⟨s, t, hedit, hstep, hcalm, hconfirmed, hbefore, hafter⟩ : ∃ s t,
      step sampleTexts (sampleAt (.deactivating [1])) (confirm 2 "office Lisbon") = some s ∧
        step sampleTexts s (.next 0 { now := 30 }) = some t ∧ Calm s (.next 0 { now := 30 }) ∧
        s.table.map Fact.operatorConfirmed = [false, true] ∧
          s.table.map Fact.isActive = [true, true] ∧ t.table.map Fact.isActive = [false, true] := by
    refine ⟨_, _, rfl, rfl, fun f hf hloser _ => ?_, rfl, rfl, rfl⟩
    obtain rfl | hf := List.mem_cons.mp hf
    · rfl
    · obtain rfl := List.mem_singleton.mp hf
      cases hloser
  exact ⟨s, t, (confirmed_kept_iff_spared (sample_reachable.run (.single hedit))).1 _ t
    (.cons ⟨hcalm, hstep⟩ (.nil t)), hconfirmed, hbefore, hafter⟩

end GenusOs.Memory
