import GenusOs.Operations.BudgetSerial
import Mathlib

/-!
# Calls on budgets that wait for one another

Reservations are locked before budgets, and budgets in the order of their scopes. That is one order
for all calls if the database sorts scopes as Python does; and only then.
-/

namespace GenusOs.Operations

open TwoPhase

variable {s t : Accounts} {key : String} {amount : Int}
    {activeOnly : Bool} {ids : List Uuid} {held : Set LockedRow}
  {write : Accounts → Option (List Uuid × Accounts)} {collation : String → String → Prop}
      [DecidableRel collation]
  {call : BudgetCall}

/-! ## One order -/

/-- The order in which rows are locked: reservations before budgets, the former by their ids and the
latter by their scopes. -/
def Before : LockedRow → LockedRow → Prop
  | .reservation id, .reservation id' => id < id'
  | .reservation _, .budget _ => True
  | .budget _, .reservation _ => False
  | .budget scope, .budget scope' => scope < scope'

instance : IsStrictOrder LockedRow Before where
  irrefl k h := by
    cases k with
    | reservation id => exact lt_irrefl id h
    | budget scope => exact lt_irrefl scope h
  trans k k' k'' h h' := by
    cases k <;> cases k' <;> cases k'' <;>
      first | exact lt_trans h h' | exact trivial | exact h.elim | exact h'.elim

/-- `reserve_many` takes the budgets of its scopes in ascending order. -/
theorem ascends_reserveScript {newId : String → Uuid} {scopes : List String}
    (hsorted : scopes.Pairwise (· < ·))
    (hheld : ∀ k ∈ held, ∀ scope ∈ scopes, Before k (.budget scope)) :
    (reserveScript key amount activeOnly newId write scopes).Ascends Before held := by
  induction scopes generalizing held write with
  | nil => exact .finish held write
  | cons scope scopes ih =>
    obtain ⟨hbelow, hsorted⟩ := List.pairwise_cons.mp hsorted
    refine .lock (fun k hk => hheld k hk scope List.mem_cons_self) fun s => ?_
    rcases admission s key amount activeOnly scope with error | existing
    · exact .finish _ _
    · refine ih hsorted fun k hk scope' hscope' => ?_
      rcases Set.mem_insert_iff.mp hk with rfl | hk
      · exact hbelow scope' hscope'
      · exact hheld k hk scope' (List.mem_cons_of_mem _ hscope')

/-- So does `settle_many`, where its order is the same. -/
theorem ascends_lockBudgets {scopes : List String} (hsorted : scopes.Pairwise (· < ·))
    (hheld : ∀ k ∈ held, ∀ scope ∈ scopes, Before k (.budget scope)) :
    (lockBudgets (.finish write) scopes).Ascends Before held := by
  induction scopes generalizing held with
  | nil => exact .finish held write
  | cons scope scopes ih =>
    obtain ⟨hbelow, hsorted⟩ := List.pairwise_cons.mp hsorted
    refine .lock (fun k hk => hheld k hk scope List.mem_cons_self) fun s =>
      ih hsorted fun k hk scope' hscope' => ?_
    rcases Set.mem_insert_iff.mp hk with rfl | hk
    · exact hbelow scope' hscope'
    · exact hheld k hk scope' (List.mem_cons_of_mem _ hscope')

/-- A sorted list without duplicates ascends. -/
theorem sorted_dedup {α : Type} [LinearOrder α] (l : List α) :
    (l.dedup.insertionSort (· ≤ ·)).Pairwise (· < ·) := by
  have hle : (l.dedup.insertionSort (· ≤ ·)).Pairwise (· ≤ ·) := List.pairwise_insertionSort _ _
  have hne : (l.dedup.insertionSort (· ≤ ·)).Pairwise (· ≠ ·) :=
    (List.perm_insertionSort _ _).nodup_iff.mpr l.nodup_dedup
  exact hle.imp₂ (fun _ _ h h' => lt_of_le_of_ne h h') hne

/-- It takes the reservations first, which stand in front of all budgets. -/
theorem ascends_settleScript {rows : List Reservation} {actual : Int} {count : Nat}
    (hcollation : ∀ a b, collation a b ↔ a ≤ b) (hsorted : ids.Pairwise (· < ·))
    (hheld : ∀ k ∈ held, ∃ id, k = .reservation id ∧ ∀ id' ∈ ids, id < id') :
    (settleScript collation count actual rows ids).Ascends Before held := by
  induction ids generalizing held rows with
  | nil =>
    rw [settleScript, settleRest]
    split
    · exact .finish _ _
    split
    · exact .finish _ _
    obtain rfl : collation = (· ≤ ·) := by
      funext a b
      exact propext (hcollation a b)
    have hsorted' := sorted_dedup (rows.map (·.scope))
    refine ascends_lockBudgets ?_ fun k hk scope _ => ?_
    · convert hsorted'
    · obtain ⟨id, rfl, -⟩ := hheld k hk
      exact trivial
  | cons id ids ih =>
    obtain ⟨hbelow, hsorted⟩ := List.pairwise_cons.mp hsorted
    refine .lock (fun k hk => ?_) fun s => ih hsorted fun k hk => ?_
    · obtain ⟨id', rfl, hid'⟩ := hheld k hk
      exact hid' id List.mem_cons_self
    · rcases Set.mem_insert_iff.mp hk with rfl | hk
      · exact ⟨id, rfl, hbelow⟩
      · obtain ⟨id', rfl, hid'⟩ := hheld k hk
        exact ⟨id', rfl, fun id'' hid'' => hid' id'' (List.mem_cons_of_mem _ hid'')⟩

/-- Every call takes its locks in ascending order, if the database sorts scopes as Python does. -/
theorem script_ascends (hcollation : ∀ a b, collation a b ↔ a ≤ b) (call : BudgetCall) :
    (call.script collation).Ascends Before ∅ := by
  cases call with
  | setBudget scope limit =>
    rw [BudgetCall.script]
    split
    · exact .finish _ _
    · exact .lock (fun k hk => absurd hk (Set.notMem_empty k)) fun _ => .finish _ _
  | reserveMany scopes key amount activeOnly newId =>
    rw [BudgetCall.script]
    split
    · exact .finish _ _
    split
    · exact .finish _ _
    · exact ascends_reserveScript (sorted_dedup scopes) fun k hk => absurd hk (Set.notMem_empty k)
  | settleMany ids actual =>
    rw [BudgetCall.script]
    split
    · exact .finish _ _
    split
    · exact .finish _ _
    · exact ascends_settleScript hcollation (sorted_dedup ids) fun k hk =>
        absurd hk (Set.notMem_empty k)

/-! ## Two orders -/

section Crossing

variable {a b : String}

/-- Two scopes without an allowance. -/
def crossingBudgets (a b : String) : List Budget :=
  [{ scope := a, limitUnits := 0 }, { scope := b, limitUnits := 0 }]

/-- A reservation of nothing in each of the two scopes. -/
def crossingReservations (a b : String) : List Reservation :=
  [{ id := 1, scope := a, dedupKey := "k", reservedUnits := 0 },
    { id := 2, scope := b, dedupKey := "k", reservedUnits := 0 }]

def crossing (a b : String) : Accounts :=
  { budgets := crossingBudgets a b, reservations := crossingReservations a b }

/-- Calls that cost nothing. -/
def crossingReserve (a b key : String) : BudgetCall :=
  .reserveMany [a, b] key 0 false fun scope => if scope = a then 1 else 2

/-- Python's order of the two scopes. -/
theorem sort_crossing (hlt : a < b) : [a, b].dedup.insertionSort (· ≤ ·) = [a, b] := by
  have hne : a ≠ b := hlt.ne
  have hdedup : [a, b].dedup = [a, b] := List.dedup_eq_self.mpr (by simp [hne])
  rw [hdedup]
  simp [hlt.le]

theorem not_lt_empty (a : String) : ¬ a < "" := by
  rw [String.lt_iff_toList_lt]
  exact List.not_lt_nil _

/-- The reservations are made: a budget without an allowance has room for nothing. -/
theorem reserve_crossing (ha : a ≠ "") (hlt : a < b) :
    (crossingReserve a b "k").answer { budgets := crossingBudgets a b } =
      .ok ([1, 2], crossing a b) := by
  have hb : b ≠ "" := fun heq => not_lt_empty a (heq ▸ hlt)
  have hne : a ≠ b := hlt.ne
  rw [crossingReserve, BudgetCall.answer, reserveMany,
    if_neg (by decide), if_neg (by simp [ha.symm, hb.symm]), sort_crossing hlt]
  simp [reserveScopes, reserveScope, crossingBudgets,
    reservationOf, updateBudget, Rows.updateWhere, Budget.reserve,
    Budget.checked, crossing, crossingReservations, hne, hne.symm, Except.map]

theorem setBudgets_crossing (hne : a ≠ b) :
    (BudgetCall.setBudget a 0).answer {} =
      .ok ([], { budgets := [{ scope := a, limitUnits := 0 }] }) ∧
      (BudgetCall.setBudget b 0).answer { budgets := [{ scope := a, limitUnits := 0 }] } =
        .ok ([], { budgets := crossingBudgets a b }) := by
  constructor
  · rfl
  · simp [BudgetCall.answer, setBudget, crossingBudgets, hne, Except.map]

/-- The last lock of each of two transactions is held by the other one. -/
theorem settle_after (hne : a ≠ b) (hcollation : ¬ collation a b) :
    ∃ next, ((BudgetCall.settleMany [1, 2] 0).script collation).after (crossing a b)
      [.reservation 1, .reservation 2, .budget b] = some (.lock (.budget a) next) := by
  have hsort : [a, b].dedup.insertionSort collation = [b, a] := by
    have hdedup : [a, b].dedup = [a, b] := List.dedup_eq_self.mpr (by simp [hne])
    rw [hdedup]
    simp [List.insertionSort_cons, hcollation]
  have hids : ([1, 2] : List Uuid).dedup.insertionSort (· ≤ ·) = [1, 2] := by decide
  have hcount : ([1, 2] : List Uuid).dedup.length = 2 := by decide
  refine ⟨fun _ => lockBudgets (.finish (settleWrite 0 (crossingReservations a b))) [], ?_⟩
  rw [BudgetCall.script, if_neg (by decide), if_neg (by decide), hids, hcount]
  show (settleRest collation 2 0 (crossingReservations a b)).after (crossing a b) [.budget b] = _
  rw [settleRest, if_neg (by simp [crossingReservations]), if_neg (by simp [crossingReservations])]
  show (lockBudgets _ ([a, b].dedup.insertionSort collation)).after (crossing a b) [.budget b] = _
  rw [hsort]
  simp [lockBudgets, Script.after]

/-- `reserve_many` holds the first scope and waits for the second one. -/
theorem reserve_after (collation : String → String → Prop)
    [DecidableRel collation] (ha : a ≠ "") (hlt : a < b) :
    ∃ next, ((crossingReserve a b "l").script collation).after (crossing a b) [.budget a] =
      some (.lock (.budget b) next) := by
  have hb : b ≠ "" := fun heq => not_lt_empty a (heq ▸ hlt)
  have hadmit : admission (crossing a b) "l" 0 false a = .ok none := by
    simp [admission, crossing, crossingBudgets, reservationOf, crossingReservations]
  rw [crossingReserve, BudgetCall.script, if_neg (by decide),
    if_neg (by simp [ha.symm, hb.symm]), sort_crossing hlt,
    reserveScript, Script.after, if_pos rfl, hadmit]
  exact ⟨_, rfl⟩

/-- Nothing is under way, and the store is `s`. -/
def Rests (collation : String → String → Prop) [DecidableRel collation] (s : Accounts) : Prop :=
  ∃ X, (budgetStatements collation).Reachable X ∧ X.store = s ∧
    X.running = (fun _ => none) ∧ X.locks = fun _ => none

/-- A call that nobody interferes with leads from rest to rest. -/
theorem Rests.answered (h : Rests collation s) (hs : Conserved s)
    (hanswer : call.answer s = .ok (ids, t)) :
    Rests collation t := by
  obtain ⟨X, hX, rfl, hidle, hlocks⟩ := h
  have hrun : (call.script collation).run X.store = some (ids, t) := by
    rw [run_script hs, toOption_eq_some, hanswer]
  obtain ⟨steps, hsteps⟩ :=
    run_alone (BudgetCall.script collation) (· = {}) (congrFun hidle 0) hlocks hrun
  exact ⟨_, hX.run hsteps, rfl, hidle, hlocks⟩

/-- **A deadlock**, where the database has two scopes in another order than Python. -/
theorem budgets_deadlock (ha : a ≠ "") (hlt : a < b) (hcollation : ¬ collation a b) :
    ∃ X, (budgetStatements collation).Reachable X ∧ Waits X 0 1 ∧ Waits X 1 0 := by
  -- both scopes have a reservation
  obtain ⟨hfirst, hsecond⟩ := setBudgets_crossing hlt.ne
  have hconserved := answer_conserved conserved_init hfirst
  have hempty : Rests collation {} :=
    ⟨{ store := {} }, ⟨_, [], ⟨_, rfl, rfl⟩, .nil _⟩, rfl, rfl, rfl⟩
  have hrests := ((hempty.answered conserved_init hfirst).answered hconserved hsecond).answered
    (answer_conserved hconserved hsecond) (reserve_crossing ha hlt)
  obtain ⟨X, hX, hstore, hidle, hlocks⟩ := hrests
  -- a settlement locks the reservations and the budget that the database has first
  obtain ⟨next, hsettle⟩ := settle_after hlt.ne hcollation
  rw [← hstore] at hsettle
  set X₁ := X.goOn 0 (.settleMany [1, 2] 0)
    ((BudgetCall.settleMany [1, 2] 0).script collation) with hX₁
  have hrunning₁ (q : Nat) : X₁.running q = _ := running_goOn
  obtain ⟨steps, X₂, hsteps, hstore₂, hrunning₂, hlocks₂⟩ := run_locks (BudgetCall.script collation)
    (· = {}) ((hrunning₁ 0).trans (if_pos rfl)) (fun k _ => .inl (congrFun hlocks k)) hsettle
  -- an admission locks the budget that Python has first
  obtain ⟨next', hreserve⟩ := reserve_after collation ha hlt
  rw [← hstore, ← show X₁.store = X.store from rfl, ← hstore₂] at hreserve
  set X₃ := X₂.goOn 1 (crossingReserve a b "l")
    ((crossingReserve a b "l").script collation) with hX₃
  have hrunning₃ (q : Nat) : X₃.running q = _ := running_goOn
  have hfree : X₂.locks (.budget a) = none := by
    rw [hlocks₂]
    simp [hlt.ne, X₁, State.goOn, hlocks]
  obtain ⟨steps', X₄, hsteps', -, hrunning₄, hlocks₄⟩ := run_locks (BudgetCall.script collation)
    (· = {}) ((hrunning₃ 1).trans (if_pos rfl))
    (fun k (hk : k ∈ [LockedRow.budget a]) =>
      .inl (by rw [List.mem_singleton.mp hk]; exact hfree)) hreserve
  -- each of the two holds what the other one asks for next
  have hidle₁ : X.running 0 = none := congrFun hidle 0
  have hidle₂ : X₂.running 1 = none := by
    rw [hrunning₂]
    simp [hrunning₁, hidle]
  refine ⟨X₄, ((hX.run (.single (step_start hidle₁))).run hsteps).run
    (.cons (step_start hidle₂) hsteps'), ?_, ?_⟩
  · refine ⟨.settleMany [1, 2] 0, .budget a, next, ?_, ?_, by decide⟩
    · simp [hrunning₄, hrunning₃, hrunning₂]
    · simp [hlocks₄]
  · refine ⟨crossingReserve a b "l", .budget b, next', ?_, ?_, by decide⟩
    · simp [hrunning₄]
    · simp [hlocks₄, hX₃, State.goOn, hlocks₂, hlt.ne']

end Crossing

/-- Among any transactions on the budgets, one waits for none of the others. -/
def DeadlockFree (collation : String → String → Prop) [DecidableRel collation] : Prop :=
  ∀ X, (budgetStatements collation).Reachable X → ∀ D : Set Nat, D.Finite → D.Nonempty →
    ∃ p ∈ D, ∀ q ∈ D, ¬ Waits X p q

/-- **When calls do not deadlock**: just where the database sorts scopes as Python does. -/
theorem budgets_deadlock_free_iff [Std.Total collation]
    [Std.Antisymm collation] (hempty : ∀ a, collation "" a) :
    DeadlockFree collation ↔ ∀ a b, collation a b ↔ a ≤ b := by
  constructor
  · intro hfree
    -- a pair in another order
    have hagrees : ∀ a b, a < b → collation a b := by
      intro a b hlt
      by_contra hcollation
      have ha : a ≠ "" := fun heq => hcollation (heq ▸ hempty b)
      obtain ⟨X, hX, hwaits, hwaits'⟩ := budgets_deadlock ha hlt hcollation
      obtain ⟨p, hp, hnone⟩ := hfree X hX {0, 1} (Set.toFinite _) ⟨0, Set.mem_insert 0 {1}⟩
      rcases hp with rfl | rfl
      · exact hnone 1 (Set.mem_insert_of_mem 0 rfl) hwaits
      · exact hnone 0 (Set.mem_insert 0 {1}) hwaits'
    intro a b
    constructor
    · intro hab
      by_contra hlt
      have hba := hagrees b a (not_le.mp hlt)
      exact hlt (Std.Antisymm.antisymm a b hab hba).le
    · intro hle
      rcases hle.lt_or_eq with hlt | rfl
      · exact hagrees a b hlt
      · rcases Std.Total.total (r := collation) a a with h | h <;> exact h
  · intro hcollation X hX D hfinite hne
    exact no_deadlock (r := Before) (script_ascends hcollation) hX hfinite hne

/-- Shorter scopes first. -/
def shorterFirst (a b : String) : Prop := toLex (a.length, a) ≤ toLex (b.length, b)

instance : DecidableRel shorterFirst := fun a b =>
  inferInstanceAs (Decidable (toLex (a.length, a) ≤ toLex (b.length, b)))

instance : Std.Total shorterFirst :=
    ⟨fun a b => le_total (toLex (a.length, a)) (toLex (b.length, b))⟩

instance : Std.Antisymm shorterFirst where
  antisymm a b hab hba := by
    have heq : toLex (a.length, a) = toLex (b.length, b) := le_antisymm hab hba
    exact congrArg (fun p => (ofLex p).2) heq

theorem empty_shorterFirst (a : String) : shorterFirst "" a := by
  by_cases ha : a = ""
  · rw [ha]
    exact le_refl (toLex ("".length, ""))
  · refine (Prod.Lex.toLex_lt_toLex.mpr (.inl ?_)).le
    exact Nat.pos_of_ne_zero fun hlength => ha (String.length_eq_zero_iff.mp hlength)

theorem budgets_deadlock_free : DeadlockFree (· ≤ ·) ∧ ¬ DeadlockFree shorterFirst := by
  constructor
  · apply (budgets_deadlock_free_iff fun a => not_lt.mp (not_lt_empty a)).mpr
    intro a b
    rfl
  · intro hfree
    have hagrees := (budgets_deadlock_free_iff empty_shorterFirst).mp hfree "b" "aa"
    revert hagrees
    decide

end GenusOs.Operations
