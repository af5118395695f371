import GenusOs.Operations.BudgetLaw
import GenusOs.Operations.BudgetScripts
import Mathlib

/-!
# Calls on budgets are serial

`budget_serial`: whatever the interleaving of their statements, the calls leave the budgets and are
answered as if they had been made one after the other.
-/

namespace GenusOs.Operations

open Rows TwoPhase

variable {s t u : Accounts} {key scope scope' : String}
    {amount : Int} {activeOnly : Bool} {newId id : Uuid}
  {ids : List Uuid} {held : Set LockedRow} {write : Accounts → Option (List Uuid × Accounts)}

/-! ## What a lock guards -/

/-- What nobody else changes while the lock of a row is held: the budget of a scope and its
reservations; or a reservation, once it is there. The lock of a budget stands for the reservations
of its scope too, since `reserve_many` inserts them under it. -/
def Guards : LockedRow → Accounts → Accounts → Prop
  | .budget scope, s, t => t.budgets.find? (·.scope = scope) = s.budgets.find? (·.scope = scope) ∧
      ∀ key, reservationOf t scope key = reservationOf s scope key
  | .reservation id, s, t => ∀ r, s.reservations.find? (·.id = id) = some r →
      t.reservations.find? (·.id = id) = some r

/-- The locks of the budgets, as the library of two-phase transactions takes them. -/
def budgetRules : Rules Accounts LockedRow where
  valid := Conserved
  guard := Guards
  refl k s := by
    cases k with
    | budget scope => exact ⟨rfl, fun _ => rfl⟩
    | reservation id => exact fun _ h => h
  trans k s t u h h' := by
    cases k with
    | budget scope => exact ⟨h'.1.trans h.1, fun key => (h'.2 key).trans (h.2 key)⟩
    | reservation id => exact fun r hr => h' r (h r hr)

theorem Guards.rfl (k : LockedRow) : Guards k s s := budgetRules.refl k s

theorem Guards.trans {k : LockedRow} (h : Guards k s t) (h' : Guards k t u) : Guards k s u :=
  budgetRules.trans k s t u h h'

/-- What is read under the lock of a budget is guarded by it. -/
theorem admit_congr (h : Guards (.budget scope) s t) :
    admission t key amount activeOnly scope = admission s key amount activeOnly scope := by
  unfold admission
  rw [h.1, h.2 key]

/-- The update of one budget leaves what the other locks guard. -/
theorem guards_updateBudget {f : Budget → Budget} (hf : ∀ b, (f b).scope = b.scope) {k : LockedRow}
    (hk : k ≠ .budget scope) :
    Guards k s { s with budgets := updateWhere (·.scope = scope) f s.budgets } := by
  cases k with
  | reservation id => exact fun _ h => h
  | budget scope' =>
    -- the budget of another scope is not the updated one
    have hne : scope' ≠ scope := fun heq => hk (heq ▸ rfl)
    refine ⟨find?_updateWhere_of_not (fun b _ hb => ?_) fun b _ => ?_, fun _ => rfl⟩
    · exact decide_eq_false fun heq => hne (heq.symm.trans (of_decide_eq_true hb))
    · simp only [hf]

/-! ## `reserve_many` -/

/-- A scope is admitted and then recorded. -/
theorem reserveScope_eq : reserveScope s key amount activeOnly newId scope =
    (admission s key amount activeOnly scope).bind (record s key amount newId scope) := by
  unfold reserveScope admission
  cases s.budgets.find? (·.scope = scope) with
  | none => rfl
  | some budget =>
    cases reservationOf s scope key with
    | none =>
      -- a new key: the budget is checked, and the row inserted
      dsimp only
      split
      · rfl
      · show _ = record s key amount newId scope none
        unfold record insertReservation
        split <;> rfl
    | some existing =>
      -- a key that is there: its amount is checked, and nothing is written
      dsimp only
      split
      · rfl
      · split <;> rfl

/-- The loop, one scope at a time, without its errors. -/
theorem reserveScopes_cons {newId : String → Uuid} {scopes : List String} :
    (reserveScopes key amount activeOnly newId (scope :: scopes) s).toOption =
      (reserveScope s key amount activeOnly (newId scope) scope).toOption.bind fun r =>
        (reserveScopes key amount activeOnly newId scopes r.2).toOption.map fun rest =>
          (r.1 :: rest.1, rest.2) := by
  rw [reserveScopes]
  rcases reserveScope s key amount activeOnly (newId scope) scope with error | ⟨id, t⟩
  · rfl
  · exact toOption_map _

/-- A new reservation is guarded by the lock on its budget. -/
theorem insertReservation_guards (h : insertReservation s key amount newId scope = .ok t)
    {k : LockedRow}
    (hk : k ≠ .budget scope) : Guards k s t := by
  unfold insertReservation at h
  split at h
  · cases h
  rw [updateBudget_spec h]
  -- first the budget is updated, then the row appended
  refine Guards.trans ?_ (guards_updateBudget (Budget.reserve_scope amount) hk)
  cases k with
  | reservation id => exact fun r hr => by rw [List.find?_append, hr, Option.some_or]
  | budget scope' =>
    have hne : scope ≠ scope' := fun heq => hk (heq ▸ rfl)
    refine ⟨rfl, fun key' => ?_⟩
    unfold reservationOf
    rw [List.find?_append, List.find?_singleton]
    simp [hne]

/-- What is written for a scope is guarded by the lock on its budget. -/
theorem record_guards {existing : Option Uuid} {r : Uuid × Accounts}
    (h : record s key amount newId scope existing = .ok r) {k : LockedRow}
    (hk : k ≠ .budget scope) :
    Guards k s r.2 := by
  cases existing with
  | some existing =>
    cases h
    exact .rfl k
  | none =>
    obtain ⟨t, hinsert, rfl⟩ := map_eq_ok h
    exact insertReservation_guards hinsert hk

theorem recordAfter_eq_some {existing : Option Uuid} {w : List Uuid × Accounts}
    (h : recordAfter key amount newId scope existing write s = some w) : ∃ w₀, write s = some w₀ ∧
      ∃ r, record w₀.2 key amount newId scope existing = .ok r ∧ w = (w₀.1 ++ [r.1], r.2) := by
  obtain ⟨w₀, hw₀, hrecord⟩ := Option.bind_eq_some_iff.mp h
  obtain ⟨r, hr, rfl⟩ := Option.map_eq_some_iff.mp hrecord
  exact ⟨w₀, hw₀, r, toOption_eq_some.mp hr, rfl⟩

/-- The loop, where nobody interferes. By induction on the scopes: what is written for the earlier
ones does not change what is read of a later one, as they are distinct. -/
theorem run_reserveScript {newId : String → Uuid} {scopes : List String} (hnodup : scopes.Nodup)
    (hwrite : ∀ w, write s = some w → ∀ scope ∈ scopes, Guards (.budget scope) s w.2) :
    (reserveScript key amount activeOnly newId write scopes).run s =
      (write s).bind fun w =>
        (reserveScopes key amount activeOnly newId scopes w.2).toOption.map fun rest =>
        (w.1 ++ rest.1, rest.2) := by
  induction scopes generalizing write with
  | nil =>
    show write s = _
    simp [reserveScopes, Except.toOption]
  | cons scope scopes ih =>
    obtain ⟨hnotMem, hnodup⟩ := List.nodup_cons.mp hnodup
    -- what the loop has read still holds of what it has written
    have hadmitted : ∀ w, write s = some w →
        admission w.2 key amount activeOnly scope = admission s key amount activeOnly scope :=
      fun w hw => admit_congr (hwrite w hw scope List.mem_cons_self)
    rw [reserveScript, Script.run]
    rcases hadmit : admission s key amount activeOnly scope with error | existing
    · -- refused by what the lock has shown: the loop would refuse it too
      show none = _
      refine (Option.bind_eq_none_iff.mpr fun w hw => ?_).symm
      rw [reserveScopes_cons, reserveScope_eq, hadmitted w hw, hadmit]
      rfl
    · show (reserveScript key amount activeOnly newId _ scopes).run s = _
      rw [ih hnodup]
      · rcases hw : write s with _ | w
        · rw [recordAfter, hw]
          rfl
        · rw [recordAfter, hw, Option.bind_some, Option.bind_some,
            reserveScopes_cons, reserveScope_eq, hadmitted w hw,
            hadmit]
          show _ = ((record w.2 key amount (newId scope) scope existing).toOption.bind _).map _
          rcases record w.2 key amount (newId scope) scope existing with error | r
          · rfl
          · simp [Except.toOption, Function.comp_def]
      · -- the later scopes are other ones, so that this write keeps what they will read
        intro w' hw' scope' hscope'
        obtain ⟨w, hw, r, hrecord, rfl⟩ := recordAfter_eq_some hw'
        refine (hwrite w hw scope' (List.mem_cons_of_mem _ hscope')).trans
          (record_guards hrecord fun heq => ?_)
        cases heq
        exact hnotMem hscope'

theorem covered_raise {s : Accounts} : (Script.raise : BudgetScript).Covered budgetRules held s :=
  .finish fun _ _ _ _ h => nomatch h

/-- The loop reads and writes what its locks guard, by induction on the scopes. -/
theorem covered_reserveScript {newId : String → Uuid} {scopes : List String}
    (hwrite : ∀ t, budgetRules.Seen held s t → ∀ w, write t = some w → ∀ k ∉ held, Guards k t w.2) :
    (reserveScript key amount activeOnly newId write scopes).Covered budgetRules held s := by
  induction scopes generalizing held s write with
  | nil => exact .finish fun t ht a u h => hwrite t ht (a, u) h
  | cons scope scopes ih =>
    refine .lock (fun t _ u hu => .inr ?_) fun t ht => ?_
    · rw [admit_congr (hu.guard _ (Set.mem_insert _ _))]
    · rcases admission t key amount activeOnly scope with error | existing
      · exact covered_raise
      · refine ih fun u hu w' hw' k hk => ?_
        obtain ⟨w, hw, r, hrecord, rfl⟩ := recordAfter_eq_some hw'
        obtain ⟨hne, hk⟩ := not_or.mp (Set.mem_insert_iff.not.mp hk)
        have hseen : budgetRules.Seen held s u := ht.trans (hu.mono (Set.subset_insert _ _))
        exact (hwrite u hseen w hw k hk).trans (record_guards hrecord hne)

/-! ## `settle_many` -/

section Settle

variable {rows : List Reservation} {row : Reservation}
    {actual : Int} {count : Nat} {scopes : List String}
  {script : BudgetScript} {collation : String → String → Prop} [DecidableRel collation]

/-- The rows of these reservations have their scopes. -/
def Placed (rows : List Reservation) (s : Accounts) : Prop :=
  ∀ row ∈ rows, ∀ r ∈ s.reservations, r.id = row.id → r.scope = row.scope

/-- A settled row is left alone; another one is settled with its budget. -/
theorem settleRow_spec (h : settleRow s actual row = .ok t) : t = s ∨ t =
    { budgets := updateWhere (·.scope = row.scope)
        (Budget.settle row.reservedUnits actual) s.budgets
      reservations :=
        updateWhere (·.id = row.id) (Reservation.settled actual) s.reservations } := by
  unfold settleRow at h
  split at h
  · cases h
    exact .inl rfl
  · obtain ⟨t', hupdate, rfl⟩ := map_eq_ok h
    rw [updateBudget_spec hupdate]
    exact .inr rfl

/-- Settling a row moves no other one to another scope. -/
theorem settleRow_placed (h : settleRow s actual row = .ok t) (hplaced : Placed rows s) :
    Placed rows t := by
  rcases settleRow_spec h with rfl | rfl
  · exact hplaced
  · intro row' hrow' r hr hid
    obtain ⟨r', hr', rfl⟩ := mem_updateWhere.mp hr
    have hsame := hplaced row' hrow' r' hr'
    -- whether or not it is the settled row, its scope stays
    split at hid
    · next h => rw [if_pos h]; exact hsame hid
    · next h => rw [if_neg h]; exact hsame hid

/-- The settlement of a row is guarded by the locks on it and on its budget. -/
theorem settleRow_guards (h : settleRow s actual row = .ok t)
    (hplaced : Placed rows s) (hrow : row ∈ rows)
    {k : LockedRow} (hid : k ≠ .reservation row.id) (hscope : k ≠ .budget row.scope) :
    Guards k s t := by
  rcases settleRow_spec h with rfl | rfl
  · exact .rfl k
  refine Guards.trans (guards_updateBudget (Budget.settle_scope row.reservedUnits actual) hscope) ?_
  cases k with
  | reservation id =>
    -- another reservation is not touched
    have hne : row.id ≠ id := fun heq => hid (heq ▸ rfl)
    intro r hr
    refine (find?_updateWhere_of_not (fun r _ hr => ?_) fun r _ => ?_).trans hr
    · exact decide_eq_false fun heq => hne ((of_decide_eq_true hr).symm.trans heq)
    · rfl
  | budget scope =>
    -- the settled row is not in this scope, so no key of it is found differently
    have hne : row.scope ≠ scope := fun heq => hscope (heq ▸ rfl)
    refine ⟨rfl, fun key => find?_updateWhere_of_not (fun r hr hsame => ?_) fun r _ => ?_⟩
    · refine decide_eq_false fun hkey => hne ?_
      exact (hplaced row hrow r hr (of_decide_eq_true hsame)).symm.trans hkey.1
    · rfl

/-- The rows one after the other. -/
theorem settleRows_guards {done : List Reservation} (hdone : done ⊆ rows) (hplaced : Placed rows s)
    (h : done.foldlM (fun s row => settleRow s actual row) s = .ok t) {k : LockedRow}
    (hk : ∀ row ∈ rows, k ≠ .reservation row.id ∧ k ≠ .budget row.scope) : Guards k s t := by
  induction done generalizing s with
  | nil =>
    cases h
    exact .rfl k
  | cons row done ih =>
    rw [List.foldlM_cons] at h
    rcases hrow : settleRow s actual row with error | u
    · rw [hrow] at h
      cases h
    · rw [hrow] at h
      have hmem := hdone List.mem_cons_self
      refine (settleRow_guards hrow hplaced hmem (hk row hmem).1 (hk row hmem).2).trans ?_
      exact ih (fun r hr => hdone (List.mem_cons_of_mem _ hr)) (settleRow_placed hrow hplaced) h

theorem settleWrite_guards {w : List Uuid × Accounts}
    (h : settleWrite actual rows s = some w) (hplaced : Placed rows s)
    {k : LockedRow} (hk : ∀ row ∈ rows, k ≠ .reservation row.id ∧ k ≠ .budget row.scope) :
    Guards k s w.2 := by
  obtain ⟨t, hrows, rfl⟩ := Option.map_eq_some_iff.mp h
  exact settleRows_guards (List.Subset.refl rows) hplaced (toOption_eq_some.mp hrows) hk

/-- Locks alone change nothing. -/
theorem run_lockBudgets : (lockBudgets script scopes).run s = script.run s := by
  induction scopes with
  | nil => rfl
  | cons scope scopes ih => exact ih

/-- Locks that a script takes without a look. -/
theorem covered_lockBudgets
    (h : ∀ held' t, held ⊆ held' → (∀ scope ∈ scopes, .budget scope ∈ held') →
    (∀ u, budgetRules.Seen held' t u → budgetRules.Seen held s u) →
      script.Covered budgetRules held' t) :
    (lockBudgets script scopes).Covered budgetRules held s := by
  induction scopes generalizing held s with
  | nil => exact h held s (Set.Subset.refl _) nofun fun _ hu => hu
  | cons scope scopes ih =>
    refine .lock (fun _ _ _ _ => .inr rfl) fun t ht => ih fun held' t' hsub hscopes hseen => ?_
    -- what was seen with the first lock is still seen with all of them
    refine h held' t' ((Set.subset_insert _ _).trans hsub) ?_ fun u hu =>
      ht.trans ((hseen u hu).mono (Set.subset_insert _ _))
    rintro scope' (_ | hmem)
    · exact hsub (Set.mem_insert _ _)
    · exact hscopes scope' ‹_›

theorem run_settleRest : (settleRest collation count actual rows).run s =
    if rows.length ≠ count then none
    else if rows.any fun r => r.actualUnits.any (· ≠ actual) then none
    else settleWrite actual rows s := by
  unfold settleRest
  split
  · rfl
  · split
    · rfl
    · exact run_lockBudgets

theorem run_settleScript : (settleScript collation count actual rows ids).run s =
    (settleRest collation count actual
      (rows ++ ids.filterMap fun id => s.reservations.find? (·.id = id))).run s := by
  induction ids generalizing rows with
  | nil =>
    rw [List.filterMap_nil, List.append_nil]
    rfl
  | cons id ids ih =>
    rw [settleScript, Script.run, ih, List.filterMap_cons]
    cases s.reservations.find? (·.id = id) with
    | none => simp
    | some r => simp

/-- A reservation that is not there is missing in the end. -/
theorem settleScript_fails (h : rows.length + ids.length < count) :
    (settleScript collation count actual rows ids).Fails := by
  intro s
  rw [run_settleScript, run_settleRest, if_pos]
  have hfound : (ids.filterMap fun id => s.reservations.find? (·.id = id)).length ≤ ids.length :=
    List.length_filterMap_le _ _
  rw [List.length_append]
  omega

/-- `settle_many` reads and writes what its locks guard. -/
theorem covered_settleScript (hcount : rows.length + ids.length ≤ count)
    (hrows : ∀ row ∈ rows, .reservation row.id ∈ held ∧
      s.reservations.find? (·.id = row.id) = some row) :
    (settleScript collation count actual rows ids).Covered budgetRules held s := by
  induction ids generalizing rows held s with
  | nil =>
    -- every row is read: the rest writes under the locks on the rows and on their budgets
    rw [settleScript, settleRest]
    split
    · exact covered_raise
    split
    · exact covered_raise
    refine covered_lockBudgets fun held' t hsub hscopes hseen =>
      .finish fun u hu a v hwrite k hk => ?_
    have hseen := hseen u hu
    refine settleWrite_guards hwrite (fun row hrow r hr hid => ?_) fun row hrow =>
      ⟨fun heq => ?_, fun heq => ?_⟩
    · have hfind := hseen.guard _ (hrows row hrow).1 row (hrows row hrow).2
      have hvalid : Conserved u := hseen.valid
      rw [hvalid.ids.eq hr (List.mem_of_find?_eq_some hfind) hid]
    · exact hk (heq ▸ hsub (hrows row hrow).1)
    · refine hk (heq ▸ hscopes row.scope ?_)
      exact (List.mem_insertionSort _).mpr (List.mem_dedup.mpr (List.mem_map_of_mem hrow))
  | cons id ids ih =>
    rw [List.length_cons] at hcount
    -- the rows read so far are guarded by the locks that are held on them
    have hkept {t : Accounts} (ht : budgetRules.Seen held s t) : ∀ row ∈ rows,
        .reservation row.id ∈ insert (.reservation id) held ∧
          t.reservations.find? (·.id = row.id) = some row :=
      fun row hrow => ⟨Set.mem_insert_of_mem _ (hrows row hrow).1,
        ht.guard _ (hrows row hrow).1 row (hrows row hrow).2⟩
    refine .lock (fun t ht u hu => ?_) fun t ht => ?_
    · rcases hfind : t.reservations.find? (·.id = id) with _ | r
      · -- a row that is missing now lets the call fail in the end, whatever happens
        refine .inl (settleScript_fails ?_)
        rw [hfind, Option.toList_none, List.append_nil]
        omega
      · right
        rw [hu.guard _ (Set.mem_insert _ _) r hfind, hfind]
    · refine ih ?_ fun row hrow => ?_
      · -- one id gives at most one row, so the count stays in reach
        have hone : (t.reservations.find? (·.id = id)).toList.length ≤ 1 := Option.length_toList_le
        rw [List.length_append]
        omega
      · rcases List.mem_append.mp hrow with hrow | hrow
        · exact hkept ht row hrow
        · have hfind := Option.mem_toList.mp hrow
          have hid := List.find?_some hfind
          obtain rfl : row.id = id := of_decide_eq_true hid
          exact ⟨Set.mem_insert _ _, hfind⟩

/-- The rows as the script reads them. -/
theorem settledRows_eq (hs : Conserved s) : settledRows s ids =
    (ids.dedup.insertionSort (· ≤ ·)).filterMap fun id => s.reservations.find? (·.id = id) := by
  have hsorted : (ids.dedup.insertionSort (· ≤ ·)).Pairwise (· ≤ ·) :=
    List.pairwise_insertionSort _ _
  have hnamed {id : Uuid} {r : Reservation} (h : s.reservations.find? (·.id = id) = some r) :
      r ∈ s.reservations ∧ r.id = id :=
    ⟨List.mem_of_find?_eq_some h, by simpa using List.find?_some h⟩
  -- two sorted lists of the same rows are one, as the ids are unique
  refine List.Perm.eq_of_pairwise (fun (r r' : Reservation) hr hr' (h : r.id ≤ r'.id) h' => ?_)
    (List.pairwise_insertionSort _ _) ?_ ?_
  · obtain ⟨id, -, hfind⟩ := List.mem_filterMap.mp hr'
    exact hs.ids.eq (mem_settledRows.mp hr).1 (hnamed hfind).1 (le_antisymm h h')
  · refine List.pairwise_filterMap.mpr (hsorted.imp fun hle r hr r' hr' => ?_)
    rw [(hnamed hr).2, (hnamed hr').2]
    exact hle
  · refine (List.perm_ext_iff_of_nodup (settledRows_ids hs ids).of_map ?_).mpr fun r => ?_
    · refine List.Nodup.filterMap (fun id id' r hr hr' => ?_)
        ((List.perm_insertionSort _ _).nodup_iff.mpr ids.nodup_dedup)
      exact (hnamed hr).2.symm.trans (hnamed hr').2
    · rw [mem_settledRows, List.mem_filterMap]
      constructor
      · -- a row with an id that was asked for is the one that is found by it
        rintro ⟨hr, hid⟩
        refine ⟨r.id, (List.mem_insertionSort _).mpr (List.mem_dedup.mpr hid), ?_⟩
        rcases hfind : s.reservations.find? (·.id = r.id) with _ | r'
        · exact absurd (decide_eq_true rfl) (List.find?_eq_none.mp hfind r hr)
        · rw [hfind, hs.ids.eq (hnamed hfind).1 hr (hnamed hfind).2]
      · rintro ⟨id, hid, hfind⟩
        exact ⟨(hnamed hfind).1,
          (hnamed hfind).2 ▸ List.mem_dedup.mp ((List.mem_insertionSort _).mp hid)⟩

end Settle

/-! ## The calls -/

variable {collation : String → String → Prop} [DecidableRel collation] {call : BudgetCall}
  {X : State Accounts LockedRow (List Uuid) BudgetCall Nat}

theorem setBudget_guards {limit : Int} (h : setBudget s scope limit = .ok t) {k : LockedRow}
    (hk : k ≠ .budget scope) :
    Guards k s t := by
  unfold setBudget at h
  split at h
  · cases h
  split at h
  · rw [updateBudget_spec h]
    exact guards_updateBudget (Budget.relimit_scope limit) hk
  · cases h
    cases k with
    | reservation id => exact fun _ h => h
    | budget scope' =>
      have hne : scope ≠ scope' := fun heq => hk (heq ▸ rfl)
      refine ⟨?_, fun _ => rfl⟩
      rw [List.find?_append, List.find?_singleton]
      simp [hne]

/-- Every call is covered by its locks, one case for each. -/
theorem script_covered (call : BudgetCall) (s : Accounts) :
    (call.script collation).Covered budgetRules ∅ s := by
  cases call with
  | setBudget scope limit =>
    rw [BudgetCall.script]
    split
    · exact covered_raise
    · -- one lock, and the write changes what it guards only
      refine .lock (fun _ _ _ _ => .inr rfl) fun t _ => .finish fun u _ a v hwrite k hk => ?_
      obtain ⟨v', hset, heq⟩ := Option.map_eq_some_iff.mp hwrite
      cases heq
      exact setBudget_guards (toOption_eq_some.mp hset) fun heq => hk (heq ▸ Set.mem_insert _ _)
  | reserveMany scopes key amount activeOnly newId =>
    rw [BudgetCall.script]
    split
    · exact covered_raise
    split
    · exact covered_raise
    · refine covered_reserveScript fun t _ w hw k _ => ?_
      cases hw
      exact .rfl k
  | settleMany ids actual =>
    rw [BudgetCall.script]
    split
    · exact covered_raise
    split
    · exact covered_raise
    · apply covered_settleScript ?_ (by nofun : ∀ row ∈ ([] : List Reservation), _)
      rw [List.length_nil, List.length_insertionSort, Nat.zero_add]

/-- A call that nobody interferes with is answered as in one step. -/
theorem run_script (hs : Conserved s) :
    (call.script collation).run s = (call.answer s).toOption := by
  cases call with
  | setBudget scope limit =>
    rw [BudgetCall.script, BudgetCall.answer]
    split
    · next hlimit =>
      rw [setBudget, if_pos hlimit]
      rfl
    · exact (toOption_map _).symm
  | reserveMany scopes key amount activeOnly newId =>
    rw [BudgetCall.script, BudgetCall.answer, reserveMany]
    split
    · rfl
    split
    · rfl
    · -- the scopes are distinct and nothing is written before the first of them
      rw [run_reserveScript ((List.perm_insertionSort _ _).nodup_iff.mpr scopes.nodup_dedup)]
      · simp
      · intro w hw scope _
        cases hw
        exact .rfl _
  | settleMany ids actual =>
    rw [BudgetCall.script, BudgetCall.answer, settleMany]
    split
    · rfl
    split
    · rfl
    · -- the rows that the script collects are those of the call
      rw [run_settleScript, run_settleRest, List.nil_append,
        ← settledRows_eq hs, List.card_toFinset]
      dsimp only
      split
      · rfl
      split
      · rfl
      · exact (toOption_map _).symm

theorem run_of_answer (h : call.answer s = .ok (ids, t)) : call.run s = .ok t := by
  cases call with
  | setBudget scope limit =>
    obtain ⟨t', hset, heq⟩ := map_eq_ok h
    cases heq
    exact hset
  | reserveMany scopes key amount activeOnly newId =>
    show (reserveMany s scopes key amount activeOnly newId).map (·.2) = _
    rw [show reserveMany s scopes key amount activeOnly newId = .ok (ids, t) from h]
    rfl
  | settleMany ids actual =>
    obtain ⟨t', hsettle, heq⟩ := map_eq_ok h
    cases heq
    exact hsettle

/-- A call that is answered leaves tables that agree. -/
theorem answer_conserved (hs : Conserved s) (h : call.answer s = .ok (ids, t)) : Conserved t :=
  (chain_follows hs (call_moves (Q := False) hs nofun (run_of_answer h))).1

/-- Whole scripts are calls, by induction on the run. -/
theorem atomic_answering {answers : List (BudgetCall × List Uuid)}
    (h : (TwoPhase.atomic (BudgetCall.script collation) (· = {})).Reachable (s, answers)) :
    Conserved s ∧ answering.Reachable (s, answers) := by
  refine h.invariant (I := fun X => Conserved X.1 ∧ answering.Reachable X) ?_ ?_
  · rintro ⟨s, answers⟩ ⟨rfl, rfl⟩
    exact ⟨conserved_init, ({}, []), [], rfl, .nil _⟩
  · rintro ⟨s, answers⟩ call ⟨t, answers'⟩ ⟨hs, hreachable⟩ ⟨ids, hrun, hanswers⟩
    rw [run_script hs] at hrun
    have hanswer := toOption_eq_some.mp hrun
    exact ⟨answer_conserved hs hanswer, hreachable.run (.single ⟨ids, hanswer, hanswers⟩)⟩

/-- **Calls on budgets are serial.** Whatever the interleaving of the statements of any calls, with
connections lost at any point, the budgets and the answers are those of the calls that have
committed, made one after the other; and so the tables agree. -/
theorem budget_serial (h : (budgetStatements collation).Reachable X) :
    answering.Reachable (X.store, X.answers) ∧ Conserved X.store := by
  have hatomic := serial (R := budgetRules) (fun call s _ => script_covered call s)
    (fun s answers hreachable => (atomic_answering hreachable).1) h
  exact ⟨(atomic_answering hatomic).2, (atomic_answering hatomic).1⟩

/-- Two callers of one allowance: the second one waits for the first, and finds it exhausted. -/
def sampleSteps : List (Step BudgetCall Nat) :=
  [.start 0 (.setBudget "a" 5), .lock 0, .finish 0,
    .start 0 (.reserveMany ["a"] "k" 3 false fun _ => 1),
    .start 1 (.reserveMany ["a"] "l" 3 false fun _ => 2), .lock 0, .finish 0, .lock 1, .finish 1]

/-- Where the sample run ends. -/
def sampleState : State Accounts LockedRow (List Uuid) BudgetCall Nat :=
  (sampleSteps.foldlM (State.step (BudgetCall.script (· ≤ ·))) { store := {} }).getD { store := {} }

theorem exhausted_allowance : sampleState.answers.map (·.2) = [[], [1]] ∧
    answering.Reachable (sampleState.store, sampleState.answers) ∧ Conserved sampleState.store :=
  have hreachable : (budgetStatements (· ≤ ·)).Reachable sampleState :=
    ⟨_, sampleSteps, ⟨{}, rfl, rfl⟩, System.run_of_foldlM rfl⟩
  ⟨rfl, budget_serial hreachable⟩

end GenusOs.Operations
