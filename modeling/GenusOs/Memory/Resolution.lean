import GenusOs.Memory.ConfirmedLaw
import Mathlib

/-!
# Conflict resolution

`resolve_and_store` from one end to the other, with nothing in between: it stores the fact, retires
the match that the fact contradicts or updates, and reports what it did.

* `resolveAndStore_alone`: it is the process of `resolve_and_store` that no other call interrupts.
* `statement_kept_iff`: the match it compared with is still active, or superseded by another active
  fact, exactly where `store_fact` does not answer the match itself.
-/

namespace GenusOs.Memory

/-! ## From one end to the other -/

inductive Action | stored | skipped | superseded | supersedeSkipped | reinforced | keptConfirmed
  deriving DecidableEq, Repr

/-- What `resolve_and_store` returns; `matchId` is its `existing_id` or `old_id`. The similarity of
a reinforced match is left out. -/
structure Report where
  action : Action
  newId : Option Nat := none
  matchId : Option Nat := none
  classification : Option Kind := none
  reasoning : Option String := none

variable (T : Texts)

/-- `store_fact`: the table and the id it answers. -/
def storeFact (t : Table) (tenant : String) (ans : Answers) (x : Extraction) : Table × Nat :=
  if ans.refused then (t, 0)
  else if t.any (Table.duplicates tenant (x.hash T tenant)) then
    (t, (t.newestId (Table.duplicates tenant (x.hash T tenant))).getD 0)
  else (t ++ [x.fact T t tenant ans.now], t.nextId)

/-- `supersede_with_validity` without `force`, or `none` where `superseded_by` would name no fact.
-/
def supersedeWithValidity (t : Table) (tenant : String) (oldId newId now : Nat) :
    Option (Table × Bool) :=
  if t.any (Table.supersedes tenant oldId) then
    if t.any (·.id = newId) then
      some ((t.supersede tenant oldId newId now).beginValidity tenant newId now, true)
    else none
  else some (t, false)

/-- `_confirmed_now` -/
def confirmedNow (t : Table) (tenant : String) (id : Nat) : Bool :=
  (t.get tenant id).any (·.operatorConfirmed)

/-- `_find_overruled` -/
def findOverruled (t : Table) (tenant : String) (x : Extraction) (keptId : Nat) : Option Nat :=
  t.newestId fun f => f.tenantId = tenant && f.contentHash = some (x.hash T tenant) &&
    f.supersededBy = some keptId && !f.isActive

/-- `keep_overruled`, or `none` where `superseded_by` would name no fact. -/
def keepOverruled (t : Table) (tenant : String) (newId keptId now : Nat) : Option Table :=
  if t.any (Table.overrules tenant newId keptId) && !t.any (·.id = keptId) then none
  else some (t.keepOverruled tenant newId keptId now)

/-- The new fact is kept on record, overruled by the match. -/
def recordOverruled (t : Table) (tenant : String) (newId keptId now : Nat) :
    Option (Table × Action) :=
  if newId = 0 then some (t, .keptConfirmed)
  else (keepOverruled t tenant newId keptId now).map fun t => (t, .keptConfirmed)

/-- What becomes of the match once the new fact is stored. A confirmed match is never superseded. -/
def settleConflict (t : Table) (tenant : String) (best : Fact) (newId now : Nat) :
    Option (Table × Action) :=
  if best.operatorConfirmed then recordOverruled t tenant newId best.id now
  else
    match supersedeWithValidity t tenant best.id newId now with
    | none => none
    | some (t, true) => some (t, .superseded)
    | some (t, false) =>
      if confirmedNow t tenant best.id then recordOverruled t tenant newId best.id now
      else some (t, .supersedeSkipped)

/-- The branch of `resolve_and_store` for a contradiction or an update. -/
def resolveConflict (tenant : String) (x : Extraction) (best : Fact) (ans : Answers)
    (reasoning : String) (t : Table) : Option (Table × Report) :=
  let (t, newId) := storeFact T t tenant ans x
  (settleConflict t tenant best newId ans.now).map fun (t, action) =>
    (t, { action, newId := some newId, matchId := some best.id, classification := some ans.kind
          reasoning := some reasoning })

/-- `resolve_and_store`, or `none` where it raises or the search cannot answer so. -/
def resolveAndStore (tenant : String) (x : Extraction) (threshold : Rat) (ans : Answers)
    (reasoning : String) (t : Table) : Option (Table × Report) :=
  let tenant := orDefault tenant
  let stored := storeFact T t tenant ans x
  match ans.best with
  | none => some (stored.1, { action := .stored, newId := some stored.2 })
  | some (id, similarity) =>
    match t.get tenant id with
    | none => none
    | some best =>
      if ¬ (best.isActive ∧ threshold ≤ similarity) then none
      else if REINFORCE_THRESHOLD ≤ similarity ∧ best.category = x.category ∧
          ¬ T.numbersDiffer x.factText best.factText then
        some (t.reinforce tenant best.id ans.now,
          { action := .reinforced, matchId := some best.id })
      else
        match if best.operatorConfirmed then findOverruled T t tenant x best.id else none with
        | some overruledId =>
          some (t, { action := .keptConfirmed, newId := some overruledId, matchId := some best.id
                     classification := some .duplicate, reasoning := some "already overruled" })
        | none =>
          match ans.kind with
          | .duplicate =>
            some (t, { action := .skipped, matchId := some best.id, reasoning := some reasoning })
          | .update | .contradiction => resolveConflict T tenant x best ans reasoning t
          | .new => some (stored.1, { action := .stored, newId := some stored.2 })

variable {T} {t t' : Table} {tenant : String} {x : Extraction} {threshold : Rat} {ans : Answers}
  {reasoning : String} {report : Report} {best f : Fact}

/-! ## The process alone -/

/-- The statements of one call, with nothing in between. -/
def Alone (T : Texts) (tenant : String) (ans : Answers) : Table × Phase → Table × Phase → Prop :=
  Relation.ReflTransGen fun a b => statement T a.1 tenant ans a.2 = some b

theorem Alone.head {a b c : Table × Phase} (h : statement T a.1 tenant ans a.2 = some b)
    (hb : Alone T tenant ans b c) : Alone T tenant ans a c := Relation.ReflTransGen.head h hb

theorem Alone.last {a b : Table × Phase} (h : statement T a.1 tenant ans a.2 = some b) :
    Alone T tenant ans a b := .single h

theorem storeFact_alone (purpose : Purpose) :
    Alone T tenant ans (t, .inserting x purpose)
      ((storeFact T t tenant ans x).1, purpose.next (storeFact T t tenant ans x).2) := by
  unfold storeFact
  split
  · next hrefused => exact .last (if_pos hrefused)
  next hrefused =>
  split
  · next hdup => exact .head ((if_neg hrefused).trans (if_pos hdup)) (.last rfl)
  · next hdup => exact .last ((if_neg hrefused).trans (if_neg hdup))

theorem keepOverruled_alone {newId keptId : Nat}
    (h : keepOverruled t tenant newId keptId ans.now = some t') :
    Alone T tenant ans (t, .overruling newId keptId) (t', .returned) := by
  unfold keepOverruled at h
  split at h
  · cases h
  · next hkept =>
    cases h
    exact .last (if_neg hkept)

variable (T) in
/-- `newId = 0` is a refusal, which has no row to overrule. -/
theorem recordOverruled_alone {newId keptId : Nat} {action : Action}
    (h : recordOverruled t tenant newId keptId ans.now = some (t', action)) :
    Alone T tenant ans (t, if newId = 0 then .returned else .overruling newId keptId)
      (t', .returned) := by
  unfold recordOverruled at h
  split at h
  · next hzero =>
    cases h
    rw [if_pos hzero]
    exact .refl
  · next hzero =>
    obtain ⟨u, hkeep, heq⟩ := Option.map_eq_some_iff.mp h
    cases heq
    rw [if_neg hzero]
    exact keepOverruled_alone hkeep

theorem settleConflict_alone {newId : Nat} {action : Action}
    (h : settleConflict t tenant best newId ans.now = some (t', action)) :
    Alone T tenant ans (t, Purpose.next newId (.conflict best)) (t', .returned) := by
  unfold settleConflict at h
  unfold Purpose.next
  dsimp only
  split at h
  · next hconfirmed =>
    rw [if_pos hconfirmed]
    exact recordOverruled_alone T h
  next hconfirmed =>
  rw [if_neg hconfirmed]
  unfold supersedeWithValidity at h
  by_cases hany : t.any (Table.supersedes tenant best.id) = true
  · rw [if_pos hany] at h
    by_cases hexists : t.any (·.id = newId) = true
    · rw [if_pos hexists] at h
      cases h
      exact .head ((if_pos hany).trans (if_pos hexists)) (.last rfl)
    · rw [if_neg hexists] at h
      cases h
  · rw [if_neg hany] at h
    refine .head (if_neg hany) ?_
    dsimp only at h
    split at h
    · next hnow =>
      obtain ⟨row, hrow, hconfirmed⟩ := (Option.any_eq_true _ _).mp hnow
      by_cases hzero : newId = 0
      · have hkept := recordOverruled_alone T h
        rw [if_pos hzero] at hkept
        refine .head ?_ hkept
        simp [statement, hrow, hzero]
      · have hkept := recordOverruled_alone T h
        rw [if_neg hzero] at hkept
        refine .head ?_ hkept
        simp [statement, hrow, hconfirmed, hzero]
    · next hnow =>
      cases h
      refine .last ?_
      cases hrow : t.get tenant best.id with
      | none => simp [statement, hrow]
      | some row =>
        have hfree : row.operatorConfirmed = false := by
          simpa [confirmedNow, hrow] using hnow
        simp [statement, hrow, hfree]

theorem resolveConflict_alone
    (h : resolveConflict T tenant x best ans reasoning t = some (t', report)) :
    Alone T tenant ans (t, .inserting x (.conflict best)) (t', .returned) := by
  obtain ⟨⟨u, action⟩, hsettle, heq⟩ := Option.map_eq_some_iff.mp h
  cases heq
  exact (storeFact_alone (.conflict best)).trans (settleConflict_alone hsettle)

/-- `resolveAndStore` is the process of `resolve_and_store` that no other call interrupts. -/
theorem resolveAndStore_alone
    (h : resolveAndStore T tenant x threshold ans reasoning t = some (t', report)) :
    Alone T (orDefault tenant) ans (t, .searching x threshold) (t', .returned) := by
  unfold resolveAndStore at h
  dsimp only at h
  split at h
  case h_1 hbest =>
    cases h
    refine .head ?_ (storeFact_alone .store)
    simp [statement, hbest]
  case h_2 id similarity hbest =>
  split at h
  · cases h
  next best hget =>
  split at h
  · cases h
  next hfound =>
  have hsearch : statement T t (orDefault tenant) ans (.searching x threshold) =
      some (t, matched T x best similarity) := by
    simp only [not_not] at hfound
    simp [statement, hbest, hget, hfound]
  refine .head hsearch ?_
  unfold matched
  split at h
  · next hreinforce =>
    cases h
    rw [if_pos hreinforce]
    exact .last rfl
  next hreinforce =>
  rw [if_neg hreinforce]
  have hclassify : ∀ found, (if best.operatorConfirmed then findOverruled T t (orDefault tenant) x
      best.id else none) = found → found = none →
      Alone T (orDefault tenant) ans (t, if best.operatorConfirmed then .findingOverruled x best
        else .classifying x best) (t, .classifying x best) := by
    rintro found hfound rfl
    split at hfound
    · next hconfirmed =>
      rw [if_pos hconfirmed]
      refine .last ?_
      unfold findOverruled at hfound
      simp [statement, hfound]
    · next hconfirmed =>
      rw [if_neg hconfirmed]
      exact .refl
  split at h
  · next overruledId hoverruled =>
    cases h
    obtain ⟨hconfirmed, hoverruled⟩ := Option.ite_none_right_eq_some.mp hoverruled
    rw [if_pos hconfirmed]
    refine .last ?_
    unfold findOverruled at hoverruled
    simp [statement, hoverruled]
  next hnone =>
  refine (hclassify _ hnone rfl).trans (.head rfl ?_)
  show Alone T (orDefault tenant) ans (t, classified x best ans.kind) (t', .returned)
  cases hkind : ans.kind with
  | duplicate =>
    rw [hkind] at h
    cases h
    exact .refl
  | update =>
    rw [hkind] at h
    exact resolveConflict_alone h
  | contradiction =>
    rw [hkind] at h
    exact resolveConflict_alone h
  | new =>
    rw [hkind] at h
    cases h
    exact storeFact_alone .store

/-! ## Look-ups -/

theorem get_spec {id : Nat} (h : t.get tenant id = some f) :
    f ∈ t ∧ f.id = id ∧ f.tenantId = tenant := by
  have hspec := List.find?_some h
  simp only [Bool.and_eq_true, decide_eq_true_eq] at hspec
  exact ⟨List.mem_of_find?_eq_some h, hspec.1, hspec.2⟩

theorem get_of_mem (hkeys : Rows.KeyUnique Fact.id t) (hf : f ∈ t) (htenant : f.tenantId = tenant) :
    t.get tenant f.id = some f := by
  cases hget : t.get tenant f.id with
  | none =>
    have hnone := List.find?_eq_none.mp hget f hf
    simp [htenant] at hnone
  | some g =>
    obtain ⟨hg, hid, -⟩ := get_spec hget
    rw [hkeys.eq hg hf hid]

theorem get_updateWhere (p : Fact → Bool) {u : Fact → Fact} (hid : ∀ f, (u f).id = f.id)
    (htenant : ∀ f, (u f).tenantId = f.tenantId) (id : Nat) :
    Table.get (Rows.updateWhere p u t) tenant id =
      (t.get tenant id).map fun f => if p f then u f else f :=
  Rows.find?_updateWhere fun f _ => by rw [hid, htenant]

theorem newestId_spec {p : Fact → Bool} {id : Nat} (h : t.newestId p = some id) :
    ∃ f ∈ t, p f = true ∧ f.id = id := by
  obtain ⟨f, hf, hid⟩ := List.mem_map.mp (List.max?_mem h)
  obtain ⟨hmem, hp⟩ := List.mem_filter.mp hf
  exact ⟨f, hmem, hp, hid⟩

theorem newestId_isSome {p : Fact → Bool} (h : t.any p = true) : ∃ id, t.newestId p = some id := by
  obtain ⟨f, hf, hp⟩ := List.any_eq_true.mp h
  cases hnewest : t.newestId p with
  | some id => exact ⟨id, rfl⟩
  | none =>
    have hnil := List.max?_eq_none_iff.mp hnewest
    have hmem : f.id ∈ (t.filter p).map Fact.id :=
      List.mem_map_of_mem (List.mem_filter.mpr ⟨hf, hp⟩)
    rw [hnil] at hmem
    cases hmem

/-! ## What is stored -/

/-- The active fact that the index takes the new one for. -/
def duplicateOf (T : Texts) (t : Table) (tenant : String) (x : Extraction) : Option Nat :=
  t.newestId (Table.duplicates tenant (x.hash T tenant))

theorem storeFact_get {id : Nat} (h : t.get tenant id = some f) :
    (storeFact T t tenant ans x).1.get tenant id = some f := by
  unfold storeFact
  split
  · exact h
  · split
    · exact h
    · unfold Table.get at h ⊢
      rw [List.find?_append, h]
      rfl

/-- The id that `store_fact` answers is that of an active fact. -/
theorem storeFact_active (hkeys : Rows.KeyUnique Fact.id t)
    (h : (storeFact T t tenant ans x).2 ≠ 0) :
    ∃ g, (storeFact T t tenant ans x).1.get tenant (storeFact T t tenant ans x).2 = some g ∧
      g.isActive = true := by
  unfold storeFact at h ⊢
  split
  · next hrefused => exact absurd (by rw [if_pos hrefused]) h
  split
  · next hdup =>
    obtain ⟨id, hid⟩ := newestId_isSome hdup
    obtain ⟨g, hg, hduplicates, rfl⟩ := newestId_spec hid
    simp only [Table.duplicates, Bool.and_eq_true, decide_eq_true_eq] at hduplicates
    rw [hid]
    exact ⟨g, get_of_mem hkeys hg hduplicates.1.1, hduplicates.2⟩
  · have hfresh : t.get tenant t.nextId = none := by
      refine List.find?_eq_none.mpr fun f hf hfound => ?_
      simp only [Bool.and_eq_true, decide_eq_true_eq] at hfound
      exact (lt_nextId hf).ne hfound.1
    refine ⟨x.fact T t tenant ans.now, ?_, rfl⟩
    unfold Table.get at hfresh ⊢
    rw [List.find?_append, hfresh]
    simp [Extraction.fact]

theorem storeFact_pos (hpos : ∀ f ∈ t, f.id ≠ 0) :
    ∀ f ∈ (storeFact T t tenant ans x).1, f.id ≠ 0 := by
  unfold storeFact
  split
  · exact hpos
  split
  · exact hpos
  · intro f hf
    rcases List.mem_append.mp hf with hf | hf
    · exact hpos f hf
    · rw [List.mem_singleton.mp hf]
      exact Nat.succ_ne_zero _

/-- When it answers a fact that was there before. -/
theorem storeFact_eq_iff (hf : f ∈ t) (hpos : f.id ≠ 0) : (storeFact T t tenant ans x).2 = f.id ↔
    ans.refused = false ∧ duplicateOf T t tenant x = some f.id := by
  unfold storeFact duplicateOf
  split
  · next hrefused => simp [hrefused, hpos.symm]
  next hrefused =>
  split
  · next hdup =>
    obtain ⟨id, hid⟩ := newestId_isSome hdup
    simp [hid, hrefused]
  · next hdup =>
    have hnone : t.newestId (Table.duplicates tenant (x.hash T tenant)) ≠ some f.id := by
      intro hnewest
      obtain ⟨g, hg, hduplicates, -⟩ := newestId_spec hnewest
      exact hdup (List.any_eq_true.mpr ⟨g, hg, hduplicates⟩)
    simp [hnone, (lt_nextId hf).ne']

/-! ## What becomes of the match -/

/-- The match is active, or another active fact of the tenant stands in its place. -/
def MatchKept (t : Table) (tenant : String) (best : Fact) : Prop :=
  ∃ f, t.get tenant best.id = some f ∧ (f.isActive = true ∨
    ∃ newId g, f.supersededBy = some newId ∧ newId ≠ 0 ∧ newId ≠ best.id ∧
      t.get tenant newId = some g ∧ g.isActive = true)

theorem MatchKept.of_active (h : t.get tenant best.id = some f) (hactive : f.isActive = true) :
    MatchKept t tenant best := ⟨f, h, .inl hactive⟩

theorem get_supersede (oldId newId now id : Nat) :
    (t.supersede tenant oldId newId now).get tenant id =
      (t.get tenant id).map fun f => if Table.supersedes tenant oldId f then
        f.retired (some newId) (f.validTo.or (some now)) now else f := by
  refine get_updateWhere _ ?_ ?_ id
  · exact fun _ => rfl
  · exact fun _ => rfl

theorem get_beginValidity (newId now id : Nat) :
    (t.beginValidity tenant newId now).get tenant id =
      (t.get tenant id).map fun f => if f.id = newId && f.tenantId = tenant then
        { f with validFrom := f.validFrom.or (some now) } else f := by
  refine get_updateWhere _ ?_ ?_ id
  · exact fun _ => rfl
  · exact fun _ => rfl

theorem get_keepOverruled (newId keptId now id : Nat) :
    (t.keepOverruled tenant newId keptId now).get tenant id =
      (t.get tenant id).map fun f => if Table.overrules tenant newId keptId f then
        { f.retired (some keptId) (f.validTo.or (some now)) now with
          validFrom := f.validFrom.or (some now) } else f := by
  refine get_updateWhere _ ?_ ?_ id
  · exact fun _ => rfl
  · exact fun _ => rfl

/-- A match that is superseded names its successor. -/
theorem get_superseded_match (hbest : t.get tenant best.id = some best)
    (hfree : best.operatorConfirmed = false) (newId now : Nat) :
    ∃ f,
      ((t.supersede tenant best.id newId now).beginValidity tenant newId now).get tenant best.id =
      some f ∧ f.isActive = false ∧ f.supersededBy = some newId := by
  have hsupersedes : Table.supersedes tenant best.id best = true := by
    simp [Table.supersedes, (get_spec hbest).2.2, hfree]
  rw [get_beginValidity, get_supersede, hbest, Option.map_some, if_pos hsupersedes, Option.map_some]
  refine ⟨_, rfl, ?_⟩
  split <;> exact ⟨rfl, rfl⟩

/-- The successor stays active. -/
theorem get_superseded_other {id : Nat} (hget : t.get tenant id = some f)
    (hactive : f.isActive = true)
    {oldId : Nat} (hne : id ≠ oldId) (newId now : Nat) :
    ∃ g, ((t.supersede tenant oldId newId now).beginValidity tenant newId now).get tenant id =
      some g ∧ g.isActive = true := by
  have hkept : ¬ Table.supersedes tenant oldId f = true := by
    simp [Table.supersedes, (get_spec hget).2.1, hne]
  rw [get_beginValidity, get_supersede, hget, Option.map_some, if_neg hkept, Option.map_some]
  refine ⟨_, rfl, ?_⟩
  split <;> exact hactive

theorem get_reinforce {id : Nat} (hget : t.get tenant id = some f) (hactive : f.isActive = true)
    (now : Nat) : ∃ g, (t.reinforce tenant id now).get tenant id = some g ∧ g.isActive = true := by
  have hkept : ∃ u : Fact → Fact, (∀ f, (u f).isActive = f.isActive) ∧
      (t.reinforce tenant id now).get tenant id = (t.get tenant id).map u := by
    refine ⟨_, fun f => ?_, get_updateWhere _ ?_ ?_ id⟩
    rotate_left
    · exact fun _ => rfl
    · exact fun _ => rfl
    · split <;> rfl
  obtain ⟨u, hu, hreinforced⟩ := hkept
  rw [hreinforced, hget]
  exact ⟨u f, rfl, (hu f).trans hactive⟩

/-- `keep_overruled` leaves the kept fact alone. -/
theorem get_recordOverruled {newId now : Nat} {action : Action}
    (hbest : t.get tenant best.id = some best)
    (h : recordOverruled t tenant newId best.id now = some (t', action)) :
    t'.get tenant best.id = some best ∧ action = .keptConfirmed := by
  unfold recordOverruled at h
  split at h
  · cases h
    exact ⟨hbest, rfl⟩
  obtain ⟨u, hkeep, heq⟩ := Option.map_eq_some_iff.mp h
  cases heq
  unfold keepOverruled at hkeep
  split at hkeep
  · cases hkeep
  cases hkeep
  have hkept : ¬ Table.overrules tenant newId best.id best = true := by simp [Table.overrules]
  rw [get_keepOverruled, hbest, Option.map_some, if_neg hkept]
  exact ⟨rfl, rfl⟩

/-- What settling a conflict does to the match. -/
theorem settleConflict_spec {newId now : Nat} {action : Action}
    (hbest : t.get tenant best.id = some best)
    (h : settleConflict t tenant best newId now = some (t', action)) :
    (best.operatorConfirmed = true ∧ t'.get tenant best.id = some best ∧ action = .keptConfirmed) ∨
      (best.operatorConfirmed = false ∧ action = .superseded ∧ t.any (·.id = newId) = true ∧
        t' = (t.supersede tenant best.id newId now).beginValidity tenant newId now) := by
  obtain ⟨hmem, -, htenant⟩ := get_spec hbest
  unfold settleConflict at h
  split at h
  · next hconfirmed => exact .inl ⟨hconfirmed, get_recordOverruled hbest h⟩
  next hconfirmed =>
  have hfree : best.operatorConfirmed = false := Bool.eq_false_iff.mpr hconfirmed
  have hany : t.any (Table.supersedes tenant best.id) = true :=
    List.any_eq_true.mpr ⟨best, hmem, by simp [Table.supersedes, htenant, hfree]⟩
  unfold supersedeWithValidity at h
  rw [if_pos hany] at h
  by_cases hexists : t.any (·.id = newId) = true
  · rw [if_pos hexists] at h
    cases h
    exact .inr ⟨hfree, rfl, hexists, rfl⟩
  · rw [if_neg hexists] at h
    cases h

/-! ## The law -/

/-- No statement is lost: the match that was compared is kept, and what is reported as the new fact
is active. -/
structure StatementKept (tenant : String) (ans : Answers)
    (t t' : Table) (report : Report) : Prop where
  kept : ∀ id similarity best, ans.best = some (id, similarity) →
    t.get (orDefault tenant) id = some best → MatchKept t' (orDefault tenant) best
  reported : report.action ∈ [.stored, .superseded, .supersedeSkipped] →
    ∀ newId, report.newId = some newId → newId ≠ 0 →
      ∃ g, t'.get (orDefault tenant) newId = some g ∧ g.isActive = true

/-- The fact contradicts or updates a match that is not confirmed, and `store_fact` takes the fact
for that very match. -/
def AnswersMatch (T : Texts) (tenant : String) (x : Extraction)
    (ans : Answers) (t : Table) : Prop :=
  ∃ id similarity best, ans.best = some (id, similarity) ∧ t.get (orDefault tenant) id = some best ∧
    ¬ (REINFORCE_THRESHOLD ≤ similarity ∧ best.category = x.category ∧
      ¬ T.numbersDiffer x.factText best.factText) ∧ best.operatorConfirmed = false ∧
    (ans.kind = .update ∨ ans.kind = .contradiction) ∧ ans.refused = false ∧
    duplicateOf T t (orDefault tenant) x = some best.id

/-- The paths that store the fact and leave the match alone. -/
theorem stored_kept (hkeys : Rows.KeyUnique Fact.id t)
    (hactive : ∀ id similarity best, ans.best = some (id, similarity) →
      t.get (orDefault tenant) id = some best → best.isActive = true) :
    StatementKept tenant ans t (storeFact T t (orDefault tenant) ans x).1
      { action := .stored, newId := some (storeFact T t (orDefault tenant) ans x).2 } where
  kept id similarity best hbest hget := by
    obtain ⟨-, rfl, -⟩ := get_spec hget
    exact .of_active (storeFact_get hget) (hactive _ similarity best hbest hget)
  reported _ newId hnew hne := by
    obtain rfl := Option.some.inj hnew
    exact storeFact_active hkeys hne

/-- The path of a contradiction or an update. -/
theorem conflict_kept_iff (hkeys : Rows.KeyUnique Fact.id t) (hpos : ∀ f ∈ t, f.id ≠ 0)
    {similarity : Rat} (hbest : ans.best = some (best.id, similarity))
    (hget : t.get (orDefault tenant) best.id = some best) (hactive : best.isActive = true)
    (h : resolveConflict T (orDefault tenant) x best ans reasoning t = some (t', report)) :
    StatementKept tenant ans t t' report ↔ ¬ (best.operatorConfirmed = false ∧ ans.refused = false ∧
      duplicateOf T t (orDefault tenant) x = some best.id) := by
  have hmem := (get_spec hget).1
  have hanswer : (storeFact T t (orDefault tenant) ans x).2 = best.id ↔ _ :=
    storeFact_eq_iff hmem (hpos best hmem)
  have hstored : (storeFact T t (orDefault tenant) ans x).1.get
      (orDefault tenant) best.id = some best :=
    storeFact_get hget
  obtain ⟨⟨u, action⟩, hsettle, heq⟩ := Option.map_eq_some_iff.mp h
  cases heq
  have hone : ∀ id similarity' best', ans.best = some (id, similarity') →
      t.get (orDefault tenant) id = some best' → best' = best := by
    intro id similarity' best' hans hget'
    rw [hbest] at hans
    cases hans
    exact Option.some.inj (hget'.symm.trans hget)
  obtain ⟨hconfirmed, hkept, rfl⟩ | ⟨hfree, rfl, hexists, rfl⟩ :=
    settleConflict_spec hstored hsettle
  · refine iff_of_true ⟨fun id similarity' best' hans hget' => ?_, fun hin => by simp at hin⟩ ?_
    · obtain rfl := hone id similarity' best' hans hget'
      exact .of_active hkept hactive
    · rintro ⟨hfree, -⟩
      rw [hfree] at hconfirmed
      cases hconfirmed
  rw [← hanswer]
  by_cases hsame : (storeFact T t (orDefault tenant) ans x).2 = best.id
  · refine iff_of_false (fun hlaw => ?_) (not_not_intro ⟨hfree, hsame⟩)
    obtain ⟨f, hf, hinactive, hsuccessor⟩ := get_superseded_match hstored hfree
      (storeFact T t (orDefault tenant) ans x).2 ans.now
    obtain ⟨g, hg, hkept⟩ := hlaw.kept _ _ _ hbest hget
    obtain rfl := Option.some.inj (hf.symm.trans hg)
    rcases hkept with hkept | ⟨newId, -, hnew, -, hne, -⟩
    · rw [hinactive] at hkept
      cases hkept
    · exact hne (Option.some.inj (hnew.symm.trans hsuccessor) ▸ hsame)
  · have hnonzero : (storeFact T t (orDefault tenant) ans x).2 ≠ 0 := by
      obtain ⟨g, hg, hid⟩ := List.any_eq_true.mp hexists
      have hg0 := storeFact_pos hpos g hg
      rwa [of_decide_eq_true hid] at hg0
    obtain ⟨g, hg, hgactive⟩ := storeFact_active hkeys hnonzero
    obtain ⟨g', hg', hgactive'⟩ := get_superseded_other hg hgactive hsame
      (storeFact T t (orDefault tenant) ans x).2 ans.now
    refine iff_of_true ⟨fun id similarity' best' hans hget' => ?_, fun _ newId hnew _ => ?_⟩
      fun hself => hsame hself.2
    · obtain rfl := hone id similarity' best' hans hget'
      obtain ⟨f, hf, -, hsuccessor⟩ := get_superseded_match hstored hfree
        (storeFact T t (orDefault tenant) ans x).2 ans.now
      exact ⟨f, hf, .inr ⟨_, g', hsuccessor, hnonzero, hsame, hg', hgactive'⟩⟩
    · obtain rfl := Option.some.inj hnew
      exact ⟨g', hg', hgactive'⟩

/-- **Conflict resolution never loses the statement** exactly where `store_fact` does not take the
fact for the match that it contradicts or updates. The ids are a serial primary key. -/
theorem statement_kept_iff (hkeys : Rows.KeyUnique Fact.id t) (hpos : ∀ f ∈ t, f.id ≠ 0)
    (h : resolveAndStore T tenant x threshold ans reasoning t = some (t', report)) :
    StatementKept tenant ans t t' report ↔ ¬ AnswersMatch T tenant x ans t := by
  unfold resolveAndStore at h
  dsimp only at h
  split at h
  case h_1 hnone =>
    cases h
    refine iff_of_true (stored_kept hkeys fun id similarity best hans => ?_) ?_
    · rw [hnone] at hans
      cases hans
    · rintro ⟨id, similarity, best, hans, -⟩
      rw [hnone] at hans
      cases hans
  case h_2 id similarity hbest =>
  split at h
  · cases h
  next best hget =>
  obtain ⟨hmem, rfl, htenant⟩ := get_spec hget
  have hone : ∀ id similarity' best', ans.best = some (id, similarity') →
      t.get (orDefault tenant) id = some best' → similarity' = similarity ∧ best' = best := by
    intro id similarity' best' hans hget'
    rw [hbest] at hans
    cases hans
    exact ⟨rfl, Option.some.inj (hget'.symm.trans hget)⟩
  split at h
  · cases h
  next hfound =>
  have hactive : best.isActive = true := (not_not.mp hfound).1
  -- the paths that write no new fact leave the match active
  have hquiet : ∀ {u : Table} {g : Fact} {r : Report}, u.get (orDefault tenant) best.id = some g →
      g.isActive = true → r.action ∉ [.stored, .superseded, .supersedeSkipped] →
      StatementKept tenant ans t u r := by
    intro u g r hu hg hr
    refine ⟨fun id similarity' best' hans hget' => ?_, fun hin => absurd hin hr⟩
    obtain ⟨-, rfl⟩ := hone id similarity' best' hans hget'
    exact .of_active hu hg
  split at h
  · next hreinforce =>
    cases h
    obtain ⟨g, hg, hgactive⟩ := get_reinforce hget hactive ans.now
    refine iff_of_true (hquiet hg hgactive (by simp)) ?_
    rintro ⟨id, similarity', best', hans, hget', hno, -⟩
    obtain ⟨rfl, rfl⟩ := hone id similarity' best' hans hget'
    exact hno hreinforce
  next hreinforce =>
  split at h
  · next overruledId hoverruled =>
    cases h
    obtain ⟨hconfirmed, -⟩ := Option.ite_none_right_eq_some.mp hoverruled
    refine iff_of_true (hquiet hget hactive (by simp)) ?_
    rintro ⟨id, similarity', best', hans, hget', -, hfree, -⟩
    obtain ⟨rfl, rfl⟩ := hone id similarity' best' hans hget'
    rw [hfree] at hconfirmed
    cases hconfirmed
  have hconflict (hkind : ans.kind = .update ∨ ans.kind = .contradiction) :
      (best.operatorConfirmed = false ∧ ans.refused = false ∧
        duplicateOf T t (orDefault tenant) x = some best.id) ↔ AnswersMatch T tenant x ans t := by
    constructor
    · rintro ⟨hfree, hrefused, hdup⟩
      exact ⟨best.id, similarity, best, hbest, hget, hreinforce, hfree, hkind, hrefused, hdup⟩
    · rintro ⟨id, similarity', best', hans, hget', -, hfree, -, hrefused, hdup⟩
      obtain ⟨rfl, rfl⟩ := hone id similarity' best' hans hget'
      exact ⟨hfree, hrefused, hdup⟩
  split at h
  · next hkind =>
    cases h
    refine iff_of_true (hquiet hget hactive (by simp)) ?_
    rintro ⟨-, -, -, -, -, -, -, hkind', -⟩
    rw [hkind] at hkind'
    rcases hkind' with hkind' | hkind' <;> cases hkind'
  · next hkind =>
    rw [conflict_kept_iff hkeys hpos hbest hget hactive h]
    exact not_congr (hconflict (.inl hkind))
  · next hkind =>
    rw [conflict_kept_iff hkeys hpos hbest hget hactive h]
    exact not_congr (hconflict (.inr hkind))
  · next hkind =>
    cases h
    refine iff_of_true (stored_kept hkeys fun id similarity' best' hans hget' => ?_) ?_
    · exact (hone id similarity' best' hans hget').2 ▸ hactive
    · rintro ⟨-, -, -, -, -, -, -, hkind', -⟩
      rw [hkind] at hkind'
      rcases hkind' with hkind' | hkind' <;> cases hkind'

/-! A fact and what the classifier calls an update of it. -/

def plainTexts : Texts where
  normTokens _ := ∅
  numbersDiffer a b := decide (a ≠ b)
  computeFactHash factText tenant category := factText ++ "|" ++ tenant ++ "|" ++ category

def portFact : Fact where
  id := 1
  tenantId := "acme"
  factText := "The port is 8080."
  category := "fact"
  contentHash := some "The port is 8080.|acme|fact"

theorem portFact_keys : Rows.KeyUnique Fact.id [portFact] := List.nodup_singleton 1

theorem portFact_pos : ∀ f ∈ [portFact], f.id ≠ 0 := by
  intro f hf
  rw [List.mem_singleton.mp hf]
  exact Nat.one_ne_zero

/-- The search has found it, below the threshold of a repetition. -/
def updates : Answers := { now := 7, best := some (1, 4 / 5), kind := .update }

/-- The classifier calls a text an update of it. -/
def reported (factText : String) : Option (Table × Report) :=
  resolveAndStore plainTexts "acme" { factText, category := "fact" }
    (7 / 10) updates "moved" [portFact]

/-- A new text supersedes it. -/
theorem new_port_supersedes : ∃ t' report, reported "The port is 9090." = some (t', report) ∧
    report.action = .superseded ∧ report.newId = some 2 ∧
    StatementKept "acme" updates [portFact] t' report := by
  have hrun : (reported "The port is 9090.").map (fun r => (r.2.action, r.2.newId)) =
      some (.superseded, some 2) := by decide +kernel
  obtain ⟨⟨t', report⟩, hresult, heq⟩ := Option.map_eq_some_iff.mp hrun
  obtain ⟨haction, hnew⟩ := Prod.mk.inj heq
  refine ⟨t', report, hresult, haction, hnew,
    (statement_kept_iff portFact_keys portFact_pos hresult).mpr ?_⟩
  rintro ⟨id, similarity, best, -, -, -, -, -, -, hdup⟩
  have hnone : duplicateOf plainTexts [portFact] (orDefault "acme")
      { factText := "The port is 9090.", category := "fact" } = none := by decide +kernel
  rw [hnone] at hdup
  cases hdup

/-- The same text again: the fact supersedes itself, and no statement is active. -/
theorem same_text_lost : ∃ t' report, reported "The port is 8080." = some (t', report) ∧
    report.action = .superseded ∧ report.newId = some 1 ∧ (∀ f ∈ t', f.isActive = false) ∧
    ¬ StatementKept "acme" updates [portFact] t' report := by
  have hrun : (reported "The port is 8080.").map (fun r =>
      (r.2.action, r.2.newId, r.1.all (!·.isActive))) = some (.superseded, some 1, true) := by
    decide +kernel
  obtain ⟨⟨t', report⟩, hresult, heq⟩ := Option.map_eq_some_iff.mp hrun
  obtain ⟨haction, heq⟩ := Prod.mk.inj heq
  obtain ⟨hnew, hall⟩ := Prod.mk.inj heq
  have hinactive : ∀ f ∈ t', f.isActive = false := by simpa using hall
  refine ⟨t', report, hresult, haction, hnew, hinactive, fun hlaw => ?_⟩
  have hreported : report.action ∈ [.stored, .superseded, .supersedeSkipped] := by
    rw [show report.action = .superseded from haction]
    decide
  obtain ⟨g, hg, hactive⟩ := hlaw.reported hreported 1 hnew Nat.one_ne_zero
  rw [hinactive g (get_spec hg).1] at hactive
  cases hactive

end GenusOs.Memory
