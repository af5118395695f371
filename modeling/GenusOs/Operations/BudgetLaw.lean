import GenusOs.Operations.Budgets
import Mathlib

/-!
# The law of the budgets

* `call_moves`: a call comes to moves of single rows.
* `moved_sound`: what a move preserves.
* `budgets_conserved`: conservation, replays and the allowance, over every run.
-/

namespace GenusOs.Operations

open Rows Relation

variable {s t u : Accounts} {scope key : String} {amount actual : Int}
    {activeOnly : Bool} {newId : String → Uuid}
  {Q : Prop} {b : Budget} {r : Reservation} {ids : List Uuid}

/-- What is reserved in a scope and has not been settled, added up over the reservations. -/
def heldUnits (reservations : List Reservation) (scope : String) : Int :=
  (reservations.map fun r => if r.scope = scope ∧ r.actualUnits = none then
    r.reservedUnits else 0).sum

/-- What has been settled in a scope, added up over the reservations. -/
def costUnits (reservations : List Reservation) (scope : String) : Int :=
  (reservations.map fun r => if r.scope = scope then r.actualUnits.getD 0 else 0).sum

/-- The tables agree: each budget shows as reserved and as spent just what its reservations add up
to. Scopes, ids and keys are unique, every reservation has its budget, and no amount is negative. -/
structure Conserved (s : Accounts) : Prop where
  scopes : KeyUnique Budget.scope s.budgets
  ids : KeyUnique Reservation.id s.reservations
  keys : KeyUnique (fun r => (r.scope, r.dedupKey)) s.reservations
  configured : ∀ r ∈ s.reservations, ∃ b ∈ s.budgets, b.scope = r.scope
  nonneg : ∀ r ∈ s.reservations, 0 ≤ r.reservedUnits ∧
    ∀ actual, r.actualUnits = some actual → 0 ≤ actual
  limits : ∀ b ∈ s.budgets, 0 ≤ b.limitUnits
  reserved : ∀ b ∈ s.budgets, b.reservedUnits = heldUnits s.reservations b.scope
  spent : ∀ b ∈ s.budgets, b.spentUnits = costUnits s.reservations b.scope

/-- No scope is overdrawn: what it has spent and what it has set aside fit into its limit. -/
def Within (s : Accounts) : Prop := ∀ b ∈ s.budgets, b.spentUnits + b.reservedUnits ≤ b.limitUnits

/-- **The condition** for the allowance: a limit is not set below what is used, and a call does not
cost more than it has reserved. The code asks for neither, since reducing a limit never erases
consumption and a provider charges what it charges. -/
def Modest (s : Accounts) : BudgetCall → Prop
  | .setBudget scope limit => ∀ b ∈ s.budgets, b.scope = scope →
      b.spentUnits + b.reservedUnits ≤ limit
  | .reserveMany .. => True
  | .settleMany ids actual => ∀ r ∈ s.reservations, r.id ∈ ids → actual ≤ r.reservedUnits

/-- How the tables go on: a reservation stays with its key and its amount, and is settled at most
once; and the budget of a scope stays. It is transitive, so that what a call was answered with is
still there after any run. -/
structure Follows (s t : Accounts) : Prop where
  budgets : ∀ b ∈ s.budgets, ∃ b' ∈ t.budgets, b'.scope = b.scope
  reservations : ∀ r ∈ s.reservations, ∃ r' ∈ t.reservations, r'.id = r.id ∧ r'.scope = r.scope ∧
    r'.dedupKey = r.dedupKey ∧ r'.reservedUnits = r.reservedUnits ∧
      ∀ actual, r.actualUnits = some actual → r'.actualUnits = some actual

theorem Follows.refl (s : Accounts) : Follows s s :=
  ⟨fun b hb => ⟨b, hb, rfl⟩, fun r hr => ⟨r, hr, rfl, rfl, rfl, rfl, fun _ h => h⟩⟩

theorem Follows.trans (h : Follows s t) (h' : Follows t u) : Follows s u := by
  refine ⟨fun b hb => ?_, fun r hr => ?_⟩
  · obtain ⟨b', hb', hscope⟩ := h.budgets b hb
    obtain ⟨b'', hb'', hscope'⟩ := h'.budgets b' hb'
    exact ⟨b'', hb'', hscope'.trans hscope⟩
  · obtain ⟨r', hr', hid, hscope, hkey, hunits, hactual⟩ := h.reservations r hr
    obtain ⟨r'', hr'', hid', hscope', hkey', hunits', hactual'⟩ := h'.reservations r' hr'
    exact ⟨r'', hr'', hid'.trans hid, hscope'.trans hscope, hkey'.trans hkey, hunits'.trans hunits,
      fun actual h => hactual' actual (hactual actual h)⟩

/-! ## Moves -/

/-- What a call does to single rows; under `Q` it is modest. `set_budget` is one move, and the other
calls are one for each scope. The guards are those that the call has found to hold of the row that
it locked. -/
inductive Move (Q : Prop) (s : Accounts) : Accounts → Prop
  | limit (scope : String) (limit : Int) (hlimit : 0 ≤ limit)
      (hmodest : Q → ∀ b ∈ s.budgets, b.scope = scope → b.spentUnits + b.reservedUnits ≤ limit) :
      Move Q s { s with budgets := updateWhere (·.scope = scope) (Budget.relimit limit) s.budgets }
  | configure (scope : String) (limit : Int) (hlimit : 0 ≤ limit)
      (hnew : ∀ b ∈ s.budgets, b.scope ≠ scope) :
      Move Q s { s with budgets := s.budgets ++ [{ scope, limitUnits := limit }] }
  | reserve (b : Budget) (r : Reservation) (hb : b ∈ s.budgets) (hscope : r.scope = b.scope)
      (hkey : ∀ r' ∈ s.reservations, ¬ (r'.scope = r.scope ∧ r'.dedupKey = r.dedupKey))
      (hid : ∀ r' ∈ s.reservations, r'.id ≠ r.id) (hamount : 0 ≤ r.reservedUnits)
      (hopen : r.actualUnits = none)
      (hfits : b.spentUnits + b.reservedUnits + r.reservedUnits ≤ b.limitUnits) :
      Move Q s
        { budgets := updateWhere (·.scope = b.scope) (Budget.reserve r.reservedUnits) s.budgets
          reservations := s.reservations ++ [r] }
  | settle (b : Budget) (r : Reservation) (actual : Int)
      (hb : b ∈ s.budgets) (hscope : r.scope = b.scope)
      (hr : r ∈ s.reservations) (hopen : r.actualUnits = none) (hactual : 0 ≤ actual)
      (hmodest : Q → actual ≤ r.reservedUnits) :
      Move Q s
        { budgets := updateWhere (·.scope = b.scope)
            (Budget.settle r.reservedUnits actual) s.budgets
          reservations := updateWhere (·.id = r.id) (Reservation.settled actual) s.reservations }

/-- The invariant. The allowance is part of it where every move so far was modest. -/
structure BudgetSound (Q : Prop) (s : Accounts) : Prop extends Conserved s where
  within : Q → Within s

/-- A new reservation is held in its scope until it is settled. -/
theorem heldUnits_concat (reservations : List Reservation) (r : Reservation) (scope : String) :
    heldUnits (reservations ++ [r]) scope = heldUnits reservations scope +
      if r.scope = scope ∧ r.actualUnits = none then r.reservedUnits else 0 := by
  simp [heldUnits]

/-- A new reservation costs what it was settled with, which is nothing at first. -/
theorem costUnits_concat (reservations : List Reservation) (r : Reservation) (scope : String) :
    costUnits (reservations ++ [r]) scope = costUnits reservations scope +
      if r.scope = scope then r.actualUnits.getD 0 else 0 := by
  simp [costUnits]

namespace Conserved

/-- The one budget of a scope that an update changes. -/
theorem budget_cases {f : Budget → Budget} {b' : Budget} (h : Conserved s) (hb : b ∈ s.budgets)
    (hb' : b' ∈ updateWhere (·.scope = b.scope) f s.budgets) :
    b' = f b ∨ b' ∈ s.budgets ∧ b'.scope ≠ b.scope :=
  mem_updateWhere_key h.scopes hb hb'

/-- A scope that is not configured has no reservations. -/
theorem unconfigured (h : Conserved s) (hnew : ∀ b ∈ s.budgets, b.scope ≠ scope) :
    heldUnits s.reservations scope = 0 ∧ costUnits s.reservations scope = 0 := by
  have hother : ∀ r ∈ s.reservations, r.scope ≠ scope := fun r hr heq => by
    obtain ⟨b, hb, hscope⟩ := h.configured r hr
    exact hnew b hb (hscope.trans heq)
  unfold heldUnits costUnits
  constructor
  · refine List.sum_eq_zero fun x hx => ?_
    obtain ⟨r, hr, rfl⟩ := List.mem_map.mp hx
    exact if_neg fun hboth => hother r hr hboth.1
  · refine List.sum_eq_zero fun x hx => ?_
    obtain ⟨r, hr, rfl⟩ := List.mem_map.mp hx
    exact if_neg (hother r hr)

end Conserved

theorem Budget.relimit_scope (limit : Int) (b : Budget) : (b.relimit limit).scope = b.scope := rfl

theorem Budget.reserve_scope (amount : Int) (b : Budget) : (b.reserve amount).scope = b.scope := rfl

theorem Budget.settle_scope (reserved actual : Int) (b : Budget) :
    (b.settle reserved actual).scope = b.scope := rfl

/-- The budgets keep their scopes. -/
theorem scopes_updated {f : Budget → Budget} (hf : ∀ b, (f b).scope = b.scope)
    (scope : String) (hb : b ∈ s.budgets) :
    ∃ b' ∈ updateWhere (·.scope = scope) f s.budgets, b'.scope = b.scope := by
  refine ⟨_, mem_updateWhere.mpr ⟨b, hb, rfl⟩, ?_⟩
  split
  · exact hf b
  · rfl

/-- A move changes one row at most, and keeps what `Follows` asks of it. -/
theorem moved_follows (hmove : Move Q s t) (hids : KeyUnique Reservation.id s.reservations) :
    Follows s t := by
  cases hmove with
  | limit scope limit hlimit hmodest =>
    exact ⟨fun b hb => scopes_updated (Budget.relimit_scope limit) scope hb,
      (Follows.refl s).reservations⟩
  | configure scope limit hlimit hnew =>
    exact ⟨fun b hb => ⟨b, List.mem_append_left _ hb, rfl⟩, (Follows.refl s).reservations⟩
  | reserve b r hb hscope hkey hid hamount hopen hfits =>
    exact ⟨fun b hb => scopes_updated (Budget.reserve_scope _) _ hb,
      fun r hr => ⟨r, List.mem_append_left _ hr, rfl, rfl, rfl, rfl, fun _ h => h⟩⟩
  | settle b r actual hb hscope hr hopen hactual hmodest =>
    refine ⟨fun b hb => scopes_updated (Budget.settle_scope _ _) _ hb,
      fun r' hr' => ⟨_, mem_updateWhere.mpr ⟨r', hr', rfl⟩, ?_⟩⟩
    split
    · next hid =>
      obtain rfl := hids.eq hr' hr (of_decide_eq_true hid)
      exact ⟨rfl, rfl, rfl, rfl, fun actual' h => absurd (hopen.symm.trans h) (by simp)⟩
    · exact ⟨rfl, rfl, rfl, rfl, fun _ h => h⟩

/-- **The tables go on to agree.** By cases on the move: a limit is in no sum; a new scope has no
reservations; a reservation is added to what its budget holds as the same amount is added to the sum
over the rows; and a settlement takes its amount off the one sum and adds the cost to the other. -/
theorem moved_conserved (h : Conserved s) (hmove : Move Q s t) : Conserved t := by
  cases hmove with
  | limit scope limit hlimit hmodest =>
    -- only the limit of one budget changes: every sum stays as it was
    refine ⟨h.scopes.updateWhere fun _ _ => rfl, h.ids,
      h.keys, fun r hr => ?_, h.nonneg, fun b hb => ?_,
      fun b hb => ?_, fun b hb => ?_⟩
    · obtain ⟨b, hb, hscope⟩ := h.configured r hr
      obtain ⟨b', hb', hscope'⟩ := scopes_updated (Budget.relimit_scope limit) scope hb
      exact ⟨b', hb', hscope'.trans hscope⟩
    all_goals
      obtain ⟨b', hb', rfl⟩ := mem_updateWhere.mp hb
      split
    · exact hlimit
    · exact h.limits b' hb'
    · exact h.reserved b' hb'
    · exact h.reserved b' hb'
    · exact h.spent b' hb'
    · exact h.spent b' hb'
  | configure scope limit hlimit hnew =>
    -- a scope without a budget has no reservation, so that both sums start at zero
    obtain ⟨hheld, hcost⟩ := h.unconfigured hnew
    refine ⟨h.scopes.insert hnew, h.ids, h.keys, fun r hr => ?_, h.nonneg, fun b hb => ?_,
      fun b hb => ?_, fun b hb => ?_⟩
    · obtain ⟨b, hb, hscope⟩ := h.configured r hr
      exact ⟨b, List.mem_append_left _ hb, hscope⟩
    all_goals rcases List.mem_append.mp hb with hb | hb
    · exact h.limits b hb
    · exact List.mem_singleton.mp hb ▸ hlimit
    · exact h.reserved b hb
    · rw [List.mem_singleton.mp hb]
      exact hheld.symm
    · exact h.spent b hb
    · rw [List.mem_singleton.mp hb]
      exact hcost.symm
  | reserve b r hb hscope hkey hid hamount hopen hfits =>
    -- the new reservation is held, and costs nothing yet
    refine ⟨h.scopes.updateWhere fun _ _ => rfl, h.ids.insert hid,
      h.keys.insert fun r' hr' heq => ?_,
      fun r' hr' => ?_, fun r' hr' => ?_, fun b' hb' => ?_, fun b' hb' => ?_, fun b' hb' => ?_⟩
    · exact hkey r' hr' (Prod.mk.inj heq)
    · rcases List.mem_append.mp hr' with hr' | hr'
      · obtain ⟨a, ha, hsame⟩ := h.configured r' hr'
        obtain ⟨a', ha', hsame'⟩ := scopes_updated (Budget.reserve_scope _) _ ha
        exact ⟨a', ha', hsame'.trans hsame⟩
      · obtain ⟨a', ha', hsame'⟩ := scopes_updated (Budget.reserve_scope _) _ hb
        exact ⟨a', ha', hsame'.trans (List.mem_singleton.mp hr' ▸ hscope.symm)⟩
    · rcases List.mem_append.mp hr' with hr' | hr'
      · exact h.nonneg r' hr'
      · rw [List.mem_singleton.mp hr']
        exact ⟨hamount, fun actual hactual => absurd (hopen.symm.trans hactual) (by simp)⟩
    · rcases h.budget_cases hb hb' with rfl | ⟨hb', -⟩
      · exact h.limits b hb
      · exact h.limits b' hb'
    · show b'.reservedUnits = heldUnits (s.reservations ++ [r]) b'.scope
      rw [heldUnits_concat]
      rcases h.budget_cases hb hb' with rfl | ⟨hb', hne⟩
      · have hreserved := h.reserved b hb
        simp only [Budget.reserve, hscope, hopen, and_self, if_true]
        omega
      · rw [if_neg fun hboth => hne (hboth.1.symm.trans hscope), h.reserved b' hb', add_zero]
    · show b'.spentUnits = costUnits (s.reservations ++ [r]) b'.scope
      rw [costUnits_concat, hopen, Option.getD_none, ite_self, add_zero]
      rcases h.budget_cases hb hb' with rfl | ⟨hb', -⟩
      · exact h.spent b hb
      · exact h.spent b' hb'
  | settle b r actual hb hscope hr hopen hactual hmodest =>
    -- the settled row leaves the held sum and enters the cost sum, in its own scope alone
    have hheld (scope : String) :
        heldUnits (updateWhere (·.id = r.id) (Reservation.settled actual) s.reservations) scope =
        heldUnits s.reservations scope - if r.scope = scope then r.reservedUnits else 0 := by
      unfold heldUnits
      rw [sum_map_updateWhere_key h.ids hr]
      simp [hopen, Reservation.settled]
    have hcost (scope : String) :
        costUnits (updateWhere (·.id = r.id) (Reservation.settled actual) s.reservations) scope =
        costUnits s.reservations scope + if r.scope = scope then actual else 0 := by
      unfold costUnits
      rw [sum_map_updateWhere_key h.ids hr]
      by_cases hsame : r.scope = scope <;> simp [hopen, hsame, Reservation.settled]
    refine ⟨h.scopes.updateWhere fun _ _ => rfl, h.ids.updateWhere fun _ _ => rfl,
      h.keys.updateWhere fun _ _ => rfl, fun r' hr' => ?_,
      fun r' hr' => ?_, fun b' hb' => ?_, fun b' hb' => ?_,
      fun b' hb' => ?_⟩
    · obtain ⟨r₀, hr₀, rfl⟩ := mem_updateWhere.mp hr'
      obtain ⟨a, ha, hsame⟩ := h.configured r₀ hr₀
      obtain ⟨a', ha', hsame'⟩ := scopes_updated (Budget.settle_scope _ _) _ ha
      refine ⟨a', ha', hsame'.trans (hsame.trans ?_)⟩
      split <;> rfl
    · obtain ⟨r₀, hr₀, rfl⟩ := mem_updateWhere.mp hr'
      split
      · refine ⟨(h.nonneg r₀ hr₀).1, fun actual' heq => ?_⟩
        cases heq
        exact hactual
      · exact h.nonneg r₀ hr₀
    · rcases h.budget_cases hb hb' with rfl | ⟨hb', -⟩
      · exact h.limits b hb
      · exact h.limits b' hb'
    · show b'.reservedUnits = heldUnits _ b'.scope
      rw [hheld]
      rcases h.budget_cases hb hb' with rfl | ⟨hb', hne⟩
      · have hreserved := h.reserved b hb
        simp only [Budget.settle, hscope, if_true]
        omega
      · rw [if_neg fun hsame => hne (hsame.symm.trans hscope), h.reserved b' hb', sub_zero]
    · show b'.spentUnits = costUnits _ b'.scope
      rw [hcost]
      rcases h.budget_cases hb hb' with rfl | ⟨hb', hne⟩
      · have hspent := h.spent b hb
        simp only [Budget.settle, hscope, if_true]
        omega
      · rw [if_neg fun hsame => hne (hsame.symm.trans hscope), h.spent b' hb', add_zero]

/-- A modest move overdraws no scope: the guard of a reservation says that it fits, and a settlement
adds no more than it releases. -/
theorem moved_sound (h : BudgetSound Q s) (hmove : Move Q s t) : BudgetSound Q t := by
  refine ⟨moved_conserved h.toConserved hmove, fun hQ => ?_⟩
  have hwithin := h.within hQ
  cases hmove with
  | limit scope limit hlimit hmodest =>
    intro b' hb'
    obtain ⟨b, hb, rfl⟩ := mem_updateWhere.mp hb'
    split
    · next hscope => exact hmodest hQ b hb (of_decide_eq_true hscope)
    · exact hwithin b hb
  | configure scope limit hlimit hnew =>
    intro b' hb'
    rcases List.mem_append.mp hb' with hb' | hb'
    · exact hwithin b' hb'
    · rw [List.mem_singleton.mp hb']
      simpa using hlimit
  | reserve b r hb hscope hkey hid hamount hopen hfits =>
    intro b' hb'
    rcases h.budget_cases hb hb' with rfl | ⟨hb', -⟩
    · simp only [Budget.reserve]
      omega
    · exact hwithin b' hb'
  | settle b r actual hb hscope hr hopen hactual hmodest =>
    intro b' hb'
    rcases h.budget_cases hb hb' with rfl | ⟨hb', -⟩
    · have hless := hmodest hQ
      have hbefore := hwithin b hb
      simp only [Budget.settle]
      omega
    · exact hwithin b' hb'

/-- Any number of moves. -/
theorem chain_sound (h : BudgetSound Q s) (hmoves : ReflTransGen (Move Q) s t) :
    BudgetSound Q t := by
  induction hmoves with
  | refl => exact h
  | tail _ hmove ih => exact moved_sound ih hmove

theorem chain_follows (h : Conserved s) (hmoves : ReflTransGen (Move Q) s t) :
    Conserved t ∧ Follows s t := by
  induction hmoves with
  | refl => exact ⟨h, .refl s⟩
  | tail _ hmove ih => exact ⟨moved_conserved ih.1 hmove, ih.2.trans (moved_follows hmove ih.1.ids)⟩

/-- Where the tables agree no check of `operation_budgets` fails: sums of amounts that are not
negative are not negative. -/
theorem Conserved.checked (h : Conserved s) : s.budgets.all Budget.checked = true := by
  refine List.all_eq_true.mpr fun b hb => ?_
  unfold Budget.checked
  simp only [Bool.and_eq_true, decide_eq_true_eq]
  refine ⟨⟨h.limits b hb, ?_⟩, ?_⟩
  · rw [h.spent b hb]
    refine List.sum_nonneg fun x hx => ?_
    obtain ⟨r, hr, rfl⟩ := List.mem_map.mp hx
    split
    · cases hactual : r.actualUnits with
      | none => exact le_rfl
      | some actual => exact (h.nonneg r hr).2 actual hactual
    · exact le_rfl
  · rw [h.reserved b hb]
    refine List.sum_nonneg fun x hx => ?_
    obtain ⟨r, hr, rfl⟩ := List.mem_map.mp hx
    split
    · exact (h.nonneg r hr).1
    · exact le_rfl

theorem updateBudget_spec {f : Budget → Budget} (h : updateBudget s scope f = .ok t) :
    t = { s with budgets := updateWhere (·.scope = scope) f s.budgets } := by
  unfold updateBudget at h
  dsimp only at h
  split at h <;> cases h
  rfl

/-- An update is refused by the checks of the table only. -/
theorem updateBudget_ok {f : Budget → Budget}
    (h : (updateWhere (·.scope = scope) f s.budgets).all Budget.checked = true) :
    updateBudget s scope f =
      .ok { s with budgets := updateWhere (·.scope = scope) f s.budgets } := by
  unfold updateBudget
  dsimp only
  rw [if_pos h]

/-! ## The calls -/

theorem setBudget_moves {limit : Int} (hmodest : Q → Modest s (.setBudget scope limit))
    (h : setBudget s scope limit = .ok t) : ReflTransGen (Move Q) s t := by
  unfold setBudget at h
  split at h
  · cases h
  next hlimit =>
  split at h
  · rw [updateBudget_spec h]
    exact .single (.limit scope limit (not_lt.mp hlimit) hmodest)
  · next hnew =>
    cases h
    refine .single (.configure scope limit (not_lt.mp hlimit) fun b hb heq => hnew ?_)
    exact List.any_eq_true.mpr ⟨b, hb, decide_eq_true heq⟩

/-- The reservations of a key, one for each scope, in the order in which `reserve_many` answers. -/
def Reserved (key : String) (amount : Int) (s : Accounts) : List String → List Uuid → Prop :=
  List.Forall₂ fun scope id => ∃ r ∈ s.reservations, r.scope = scope ∧ r.dedupKey = key ∧
    r.reservedUnits = amount ∧ r.id = id

/-- Reservations stay. -/
theorem Reserved.follows {scopes : List String} (h : Reserved key amount s scopes ids)
    (hfollows : Follows s t) :
    Reserved key amount t scopes ids := by
  refine h.imp fun scope id ⟨r, hr, hscope, hkey, hunits, hid⟩ => ?_
  obtain ⟨r', hr', hid', hscope', hkey', hunits', -⟩ := hfollows.reservations r hr
  exact ⟨r', hr', hscope'.trans hscope, hkey'.trans hkey, hunits'.trans hunits, hid'.trans hid⟩

/-- One scope is one move, or none where its key is reserved already. -/
theorem reserveScope_moves {newId id : Uuid} (hamount : 0 ≤ amount)
    (h : reserveScope s key amount activeOnly newId scope = .ok (id, t)) :
    ReflTransGen (Move Q) s t ∧
      ∃ r ∈ t.reservations, r.scope = scope ∧ r.dedupKey = key ∧
        r.reservedUnits = amount ∧ r.id = id := by
  unfold reserveScope at h
  split at h
  · cases h
  next b hfind =>
  have hb := List.mem_of_find?_eq_some hfind
  have hscope := List.find?_some hfind
  obtain rfl : b.scope = scope := of_decide_eq_true hscope
  split at h
  · next existing hexisting =>
      -- the key is reserved already: the amount agrees, and nothing is written
    split at h
    · cases h
    next hsame =>
    split at h <;> cases h
    have hnames := List.find?_some hexisting
    obtain ⟨hrscope, hrkey⟩ := of_decide_eq_true hnames
    exact ⟨.refl, existing, List.mem_of_find?_eq_some hexisting,
      hrscope, hrkey, not_not.mp hsame, rfl⟩
  · next hnone =>
      -- the key is new: the checks of the source are the guards of the move
    split at h
    · cases h
    next hfits =>
    split at h
    · cases h
    next hid =>
    obtain ⟨t', hupdate, heq⟩ := map_eq_ok h
    cases heq
    rw [updateBudget_spec hupdate]
    set r : Reservation :=
      { id := newId, scope := b.scope, dedupKey := key, reservedUnits := amount } with hr
    refine ⟨.single
      (.reserve b r hb rfl (fun r hr heq => ?_) (fun r hr heq => hid ?_) hamount rfl ?_), r,
      List.mem_append_right _ (List.mem_singleton_self r), rfl, rfl, rfl, rfl⟩
    · exact List.find?_eq_none.mp hnone r hr (decide_eq_true heq)
    · exact List.any_eq_true.mpr ⟨r, hr, decide_eq_true heq⟩
    · exact not_lt.mp hfits

/-- The loop over the scopes, by induction on them: what one scope has reserved stays while the
others are. -/
theorem reserveScopes_moves {scopes : List String} (hs : Conserved s) (hamount : 0 ≤ amount)
    (h : reserveScopes key amount activeOnly newId scopes s = .ok (ids, t)) :
    ReflTransGen (Move Q) s t ∧ Reserved key amount t scopes ids := by
  induction scopes generalizing s ids with
  | nil =>
    cases h
    exact ⟨.refl, .nil⟩
  | cons scope scopes ih =>
    rw [reserveScopes] at h
    split at h
    · cases h
    next id u hfirst =>
    obtain ⟨⟨rest, t'⟩, hrest, heq⟩ := map_eq_ok h
    cases heq
    obtain ⟨hmoves, r, hr, hscope, hkey, hunits, hid⟩ := reserveScope_moves hamount hfirst
    obtain ⟨hu, -⟩ := chain_follows hs hmoves
    obtain ⟨hmoves', hreserved⟩ := ih hu hrest
    -- the later scopes leave the reservation of this one
    obtain ⟨r', hr', hid', hscope', hkey', hunits', -⟩ :=
      (chain_follows hu hmoves').2.reservations r hr
    exact ⟨hmoves.trans hmoves',
      .cons ⟨r', hr', hscope'.trans hscope, hkey'.trans hkey, hunits'.trans hunits,
      hid'.trans hid⟩ hreserved⟩

theorem reserveMany_spec {scopes : List String} (hs : Conserved s)
    (h : reserveMany s scopes key amount activeOnly newId = .ok (ids, t)) :
    0 ≤ amount ∧ scopes ≠ [] ∧ "" ∉ scopes ∧
      ReflTransGen (Move Q) s t ∧ Reserved key amount t
        (scopes.dedup.insertionSort (· ≤ ·)) ids := by
  unfold reserveMany at h
  split at h
  · cases h
  next hamount =>
  split at h
  · cases h
  next hscopes =>
  obtain ⟨hne, hnamed⟩ := not_or.mp hscopes
  exact ⟨not_lt.mp hamount, hne, hnamed, reserveScopes_moves hs (not_lt.mp hamount) h⟩

/-- A key that is reserved is answered with its reservations. -/
theorem reserveScopes_replay {scopes : List String}
    (hs : Conserved s) (h : Reserved key amount s scopes ids) :
    reserveScopes key amount false newId scopes s = .ok (ids, s) := by
  induction h with
  | nil => rfl
  | cons hrow _ ih =>
    obtain ⟨r, hr, rfl, rfl, rfl, rfl⟩ := hrow
    obtain ⟨b, hb, hscope⟩ := hs.configured r hr
    -- the unique row of the key is found again, and its amount agrees
    have hfirst (newId : Uuid) : reserveScope s r.dedupKey r.reservedUnits false newId r.scope =
        .ok (r.id, s) := by
      unfold reserveScope
      cases hbudget : s.budgets.find? (·.scope = r.scope) with
      | none => exact absurd (decide_eq_true hscope) (List.find?_eq_none.mp hbudget b hb)
      | some b' =>
        cases hfind : reservationOf s r.scope r.dedupKey with
        | none =>
          have hnone := List.find?_eq_none.mp hfind r hr
          exact absurd (decide_eq_true ⟨rfl, rfl⟩) hnone
        | some r' =>
          have hnames := List.find?_some hfind
          obtain ⟨hrscope, hrkey⟩ := of_decide_eq_true hnames
          obtain rfl : r' = r :=
            hs.keys.eq (List.mem_of_find?_eq_some hfind) hr (Prod.ext hrscope hrkey)
          simp
    rw [reserveScopes, hfirst]
    dsimp only
    rw [ih]
    rfl

/-! ## Settlements -/

theorem settleRow_moves {row : Reservation} (hs : Conserved s)
    (hrow : row ∈ s.reservations) (hactual : 0 ≤ actual)
    (hmodest : Q → actual ≤ row.reservedUnits) :
    ∃ t, settleRow s actual row = .ok t ∧ ReflTransGen (Move Q) s t ∧
      (∀ r ∈ s.reservations, r.id ≠ row.id → r ∈ t.reservations) ∧
        ∃ r ∈ t.reservations, r.id = row.id ∧
          r.actualUnits = some (row.actualUnits.getD actual) := by
  unfold settleRow
  cases hopen : row.actualUnits with
  | some cost => exact ⟨s, rfl, .refl, fun r hr _ => hr, row, hrow, rfl, hopen⟩
  | none =>
    obtain ⟨b, hb, hscope⟩ := hs.configured row hrow
    have hmove : Move Q s _ := .settle b row actual hb hscope.symm hrow hopen hactual hmodest
    -- the move keeps the tables in agreement, so the check of the source does not raise
    have hchecked := (moved_conserved hs hmove).checked
    dsimp only at hchecked
    rw [hscope] at hchecked hmove
    rw [updateBudget_ok hchecked]
    refine ⟨_, rfl, .single hmove, fun r hr hne => ?_, _, mem_updateWhere.mpr ⟨row, hrow, rfl⟩, ?_⟩
    · exact mem_updateWhere_of_not hr (decide_eq_false hne)
    · rw [if_pos (decide_eq_true rfl)]
      exact ⟨rfl, rfl⟩

theorem settleRows_moves {rows : List Reservation}
    (hs : Conserved s) (hrows : ∀ row ∈ rows, row ∈ s.reservations)
    (hids : KeyUnique Reservation.id rows) (hactual : 0 ≤ actual)
    (hmodest : Q → ∀ row ∈ rows, actual ≤ row.reservedUnits) :
    ∃ t, rows.foldlM (fun s row => settleRow s actual row) s = .ok t ∧ ReflTransGen (Move Q) s t ∧
      ∀ row ∈ rows, ∃ r ∈ t.reservations, r.id = row.id ∧
        r.actualUnits = some (row.actualUnits.getD actual) := by
  induction rows generalizing s with
  | nil => exact ⟨s, rfl, .refl, fun row hrow => absurd hrow List.not_mem_nil⟩
  | cons row rows ih =>
    obtain ⟨hrow, hrows⟩ := List.forall_mem_cons.mp hrows
    unfold KeyUnique at hids
    rw [List.map_cons, List.nodup_cons] at hids
    obtain ⟨hother, hids⟩ := hids
    obtain ⟨u, hfirst, hmoves, hkept, r, hr, hid, hsettled⟩ :=
      settleRow_moves hs hrow hactual fun hQ => hmodest hQ row List.mem_cons_self
    obtain ⟨hu, -⟩ := chain_follows hs hmoves
    -- the later rows have other ids, and are still open or settled as they were
    obtain ⟨t, hrest, hmoves', hlater⟩ := ih hu
      (fun row' hrow' => hkept row' (hrows row' hrow') fun heq =>
        hother (heq ▸ List.mem_map_of_mem hrow')) hids
      fun hQ row' hrow' => hmodest hQ row' (List.mem_cons_of_mem _ hrow')
    refine ⟨t, ?_, hmoves.trans hmoves', List.forall_mem_cons.mpr ⟨?_, hlater⟩⟩
    · rw [List.foldlM_cons, hfirst]
      exact hrest
    · obtain ⟨r', hr', hid', -, -, -, hactual'⟩ := (chain_follows hu hmoves').2.reservations r hr
      exact ⟨r', hr', hid'.trans hid, hactual' _ hsettled⟩

theorem mem_settledRows : r ∈ settledRows s ids ↔ r ∈ s.reservations ∧ r.id ∈ ids := by
  unfold settledRows
  rw [List.mem_insertionSort, List.mem_filter, decide_eq_true_eq]

theorem settledRows_ids (hs : Conserved s) (ids : List Uuid) :
    KeyUnique Reservation.id (settledRows s ids) := by
  have hperm : (settledRows s ids).Perm (s.reservations.filter (·.id ∈ ids)) :=
    List.perm_insertionSort _ _
  exact (hperm.map _).nodup_iff.mpr (hs.ids.sublist (List.filter_sublist.map _))

/-- All of the reservations are found if as many are found as are asked for. -/
theorem length_settledRows (hs : Conserved s) :
    (settledRows s ids).length = ids.toFinset.card ↔
      ∀ id ∈ ids, ∃ r ∈ s.reservations, r.id = id := by
  have hcard : ((settledRows s ids).map Reservation.id).toFinset.card =
      (settledRows s ids).length := by
    rw [List.toFinset_card_of_nodup (settledRows_ids hs ids), List.length_map]
  -- the found ids are among those asked for, so it is enough to count them
  have hsubset : ((settledRows s ids).map Reservation.id).toFinset ⊆ ids.toFinset := by
    intro id hid
    obtain ⟨r, hr, rfl⟩ := List.mem_map.mp (List.mem_toFinset.mp hid)
    exact List.mem_toFinset.mpr (mem_settledRows.mp hr).2
  rw [← hcard]
  constructor
  · intro hsame id hid
    have hequal := Finset.eq_of_subset_of_card_le hsubset hsame.ge
    have hmem : id ∈ ((settledRows s ids).map Reservation.id).toFinset :=
      hequal ▸ List.mem_toFinset.mpr hid
    obtain ⟨r, hr, rfl⟩ := List.mem_map.mp (List.mem_toFinset.mp hmem)
    exact ⟨r, (mem_settledRows.mp hr).1, rfl⟩
  · intro hknown
    refine congrArg Finset.card (Finset.Subset.antisymm hsubset fun id hid => ?_)
    obtain ⟨r, hr, rfl⟩ := hknown id (List.mem_toFinset.mp hid)
    exact List.mem_toFinset.mpr
      (List.mem_map_of_mem (mem_settledRows.mpr ⟨hr, List.mem_toFinset.mp hid⟩))

/-- Settled at this cost. -/
def Settled (s : Accounts) (ids : List Uuid) (actual : Int) : Prop :=
  ∀ id ∈ ids, ∃ r ∈ s.reservations, r.id = id ∧ r.actualUnits = some actual

theorem Settled.follows (h : Settled s ids actual) (hfollows : Follows s t) :
    Settled t ids actual := by
  intro id hid
  obtain ⟨r, hr, rfl, hactual⟩ := h id hid
  obtain ⟨r', hr', hsame, -, -, -, hactual'⟩ := hfollows.reservations r hr
  exact ⟨r', hr', hsame, hactual' _ hactual⟩

/-- A settlement is refused by its arguments, or it is made. -/
theorem settleMany_spec (hs : Conserved s) : settleMany s ids actual ≠ .error .integrityError ∧
    ∀ t, settleMany s ids actual = .ok t → 0 ≤ actual ∧ ids ≠ [] ∧ Settled t ids actual ∧
      ((Q → Modest s (.settleMany ids actual)) → ReflTransGen (Move Q) s t) := by
  unfold settleMany
  split
  · exact ⟨nofun, nofun⟩
  next hactual =>
  split
  · exact ⟨nofun, nofun⟩
  next hne =>
  dsimp only
  split
  · exact ⟨nofun, nofun⟩
  next hlength =>
  split
  · exact ⟨nofun, nofun⟩
  next hsame =>
  have hrows : ∀ row ∈ settledRows s ids, row ∈ s.reservations :=
    fun row hrow => (mem_settledRows.mp hrow).1
  have hids := settledRows_ids hs ids
  obtain ⟨t, hfold, -, hsettled⟩ := settleRows_moves hs hrows hids (not_lt.mp hactual) False.elim
  rw [hfold]
  refine ⟨nofun, ?_⟩
  rintro _ ⟨⟩
  -- a row that was settled before has the same cost, or the call would have been refused
  refine ⟨not_lt.mp hactual, hne, fun id hid => ?_, fun hmodest => ?_⟩
  · obtain ⟨row, hrow, rfl⟩ := (length_settledRows hs).mp (not_not.mp hlength) id hid
    have hmem := mem_settledRows.mpr ⟨hrow, hid⟩
    obtain ⟨r, hr, hrid, hcost⟩ := hsettled row hmem
    refine ⟨r, hr, hrid, hcost.trans ?_⟩
    cases hactual : row.actualUnits with
    | none => rfl
    | some cost =>
      by_contra hne
      refine hsame (List.any_eq_true.mpr ⟨row, hmem, ?_⟩)
      rw [hactual, Option.any_some]
      exact decide_eq_true fun heq => hne (congrArg some heq)
  · obtain ⟨t', hfold', hmoves, -⟩ := settleRows_moves (Q := Q) hs hrows hids (not_lt.mp hactual)
      fun hQ row hrow => hmodest hQ row (hrows row hrow) (mem_settledRows.mp hrow).2
    rw [hfold] at hfold'
    cases hfold'
    exact hmoves

/-- What is settled is settled again without a change. -/
theorem settleMany_replay (hs : Conserved s) (hactual : 0 ≤ actual)
    (hne : ids ≠ []) (h : Settled s ids actual) :
    settleMany s ids actual = .ok s := by
  have hrows : ∀ row ∈ settledRows s ids, row.actualUnits = some actual := by
    intro row hrow
    obtain ⟨hmem, hid⟩ := mem_settledRows.mp hrow
    obtain ⟨r, hr, hsame, hcost⟩ := h row.id hid
    rwa [hs.ids.eq hr hmem hsame] at hcost
  -- every check of the call passes again, and no row is open
  have hlength : (settledRows s ids).length = ids.toFinset.card :=
    (length_settledRows hs).mpr fun id hid => let ⟨r, hr, hid, _⟩ := h id hid; ⟨r, hr, hid⟩
  have hfold : ∀ rows : List Reservation, (∀ row ∈ rows, row.actualUnits = some actual) →
      rows.foldlM (fun s row => settleRow s actual row) s = .ok s := by
    intro rows hrows
    induction rows with
    | nil => rfl
    | cons row rows ih =>
      obtain ⟨hrow, hrows⟩ := List.forall_mem_cons.mp hrows
      have hfirst : settleRow s actual row = .ok s := by
        unfold settleRow
        rw [hrow]
        rfl
      rw [List.foldlM_cons, hfirst]
      exact ih hrows
  unfold settleMany
  rw [if_neg (not_lt.mpr hactual), if_neg hne]
  dsimp only
  rw [if_neg (not_not.mpr hlength), if_neg]
  · exact hfold _ hrows
  · intro hany
    obtain ⟨row, hrow, hdiffers⟩ := List.any_eq_true.mp hany
    rw [hrows row hrow] at hdiffers
    simp at hdiffers

/-! ## Runs -/

/-- A call comes to moves of single rows, one case for each call. -/
theorem call_moves {call : BudgetCall} (hs : Conserved s)
    (hmodest : Q → Modest s call) (h : call.run s = .ok t) :
    ReflTransGen (Move Q) s t := by
  cases call with
  | setBudget scope limit => exact setBudget_moves hmodest h
  | reserveMany scopes key amount activeOnly newId =>
    obtain ⟨⟨ids, t'⟩, hcall, rfl⟩ := map_eq_ok h
    exact (reserveMany_spec hs hcall).2.2.2.1
  | settleMany ids actual => exact ((settleMany_spec hs).2 t h).2.2.2 hmodest

theorem conserved_init : Conserved {} := by
  have hnone {α : Type} {P : α → Prop} : ∀ a ∈ ([] : List α), P a :=
    fun a ha => absurd ha List.not_mem_nil
  exact ⟨List.nodup_nil, List.nodup_nil, List.nodup_nil, hnone, hnone, hnone, hnone, hnone⟩

/-- **Run lemma**, for runs that need not be modest. -/
theorem run_follows {calls : List BudgetCall} (hs : Conserved s) (h : budgetSystem.Run s calls t) :
    Conserved t ∧ Follows s t := by
  induction h with
  | nil s => exact ⟨hs, .refl s⟩
  | cons hstep _ ih =>
    obtain ⟨ht, hfollows⟩ := chain_follows hs (call_moves (Q := False) hs False.elim hstep)
    obtain ⟨hu, hfollows'⟩ := ih ht
    exact ⟨hu, hfollows.trans hfollows'⟩

/-- **The law of the budgets.** In every state that any order of calls reaches the tables agree; no
scope is overdrawn if the calls are modest; a settlement is never refused by a check of the tables;
and what has been reserved or settled is answered in the same way ever after, without a change. -/
theorem budgets_conserved (h : budgetSystem.Reachable s) :
    Conserved s ∧ ((budgetSystem.restrict Modest).Reachable s → Within s) ∧
      (∀ ids actual, settleMany s ids actual ≠ .error .integrityError) ∧
      (∀ scopes key amount activeOnly newId ids t,
        reserveMany s scopes key amount activeOnly newId = .ok (ids, t) →
        ∀ calls u newId', budgetSystem.Run t calls u →
          reserveMany u scopes key amount false newId' = .ok (ids, u)) ∧
      ∀ ids actual t, settleMany s ids actual = .ok t →
        ∀ calls u, budgetSystem.Run t calls u → settleMany u ids actual = .ok u := by
  have hs : Conserved s := by
    obtain ⟨_, calls, rfl, hrun⟩ := h
    exact (run_follows conserved_init hrun).1
  refine ⟨hs, fun hmodest => ?_, fun ids actual => (settleMany_spec (Q := False) hs).1, ?_, ?_⟩
  · -- the moves of modest calls are modest, so that the invariant has the allowance in it
    have hsound : BudgetSound True s := by
      refine hmodest.invariant ?_ fun s call t hs hstep => ?_
      · rintro _ rfl
        exact ⟨conserved_init, fun _ b hb => absurd hb List.not_mem_nil⟩
      · exact chain_sound hs (call_moves hs.toConserved (fun _ => hstep.1) hstep.2)
    exact hsound.within trivial
  · -- the reservations of the first answer are still there, and the replay finds them by their keys
    intro scopes key amount activeOnly newId ids t hcall calls u newId' hrun
    obtain ⟨hamount, hne, hnamed, hmoves, hreserved⟩ := reserveMany_spec (Q := False) hs hcall
    obtain ⟨hu, hfollows⟩ := run_follows (chain_follows hs hmoves).1 hrun
    unfold reserveMany
    rw [if_neg (not_lt.mpr hamount), if_neg (not_or.mpr ⟨hne, hnamed⟩)]
    exact reserveScopes_replay hu (hreserved.follows hfollows)
  · -- what was settled keeps its cost, so that the second settlement has nothing to write
    intro ids actual t hcall calls u hrun
    obtain ⟨hactual, hne, hsettled, hmoves⟩ := (settleMany_spec (Q := False) hs).2 t hcall
    obtain ⟨hu, hfollows⟩ := run_follows (chain_follows hs (hmoves False.elim)).1 hrun
    exact settleMany_replay hu hactual hne (hsettled.follows hfollows)

/-! ### A call in two scopes -/

/-- Two budgets, and a call that reserves in both. -/
def sampleCalls : List BudgetCall :=
  [.setBudget "tenant" 100, .setBudget "campaign" 50,
    .reserveMany ["tenant", "campaign"] "call-1" 40 false fun scope =>
      if scope = "tenant" then 1 else 2]

def reservedAccounts : Accounts where
  budgets := [{ scope := "tenant", limitUnits := 100, reservedUnits := 40 },
    { scope := "campaign", limitUnits := 50, reservedUnits := 40 }]
  reservations := [{ id := 2, scope := "campaign", dedupKey := "call-1", reservedUnits := 40 },
    { id := 1, scope := "tenant", dedupKey := "call-1", reservedUnits := 40 }]

/-- The call has cost less than was reserved. -/
def settledAccounts : Accounts where
  budgets := [{ scope := "tenant", limitUnits := 100, spentUnits := 30 },
    { scope := "campaign", limitUnits := 50, spentUnits := 30 }]
  reservations := reservedAccounts.reservations.map (Reservation.settled 30)

/-- The calls are modest: 30 is less than the 40 that were reserved. -/
theorem settled_reachable : (budgetSystem.restrict Modest).Reachable settledAccounts := by
  refine ⟨{}, sampleCalls ++ [.settleMany [1, 2] 30], rfl, ?_⟩
  have hfirst : BudgetCall.run {} (.setBudget "tenant" 100) =
      .ok { budgets := [{ scope := "tenant", limitUnits := 100 }] } := rfl
  have hsecond : BudgetCall.run { budgets := [{ scope := "tenant", limitUnits := 100 }] }
    (.setBudget "campaign" 50) =
      .ok { budgets := [{ scope := "tenant", limitUnits := 100 },
        { scope := "campaign", limitUnits := 50 }] } := rfl
  refine .cons ⟨fun b hb => absurd hb List.not_mem_nil, hfirst⟩ (.cons ⟨?_, hsecond⟩
    (.cons (t := reservedAccounts) ⟨trivial, ?_⟩ (.single ⟨?_, ?_⟩)))
  · intro b hb hscope
    rw [List.mem_singleton.mp hb] at hscope
    exact absurd hscope (by decide)
  · show BudgetCall.run _ _ = .ok reservedAccounts
    decide +kernel
  · intro r hr _
    have hall : reservedAccounts.reservations.all fun r => 30 ≤ r.reservedUnits := by decide
    exact of_decide_eq_true (List.all_eq_true.mp hall r hr)
  · show BudgetCall.run _ _ = .ok settledAccounts
    decide +kernel

/-- A worker that comes back is given its reservations, and no scope is overdrawn. -/
theorem returned_reservation : Within settledAccounts ∧
    reserveMany settledAccounts ["tenant", "campaign"] "call-1" 40 false (fun _ => 7) =
      .ok ([2, 1], settledAccounts) := by
  have hreachable : budgetSystem.Reachable settledAccounts := by
    obtain ⟨s, calls, hinit, hrun⟩ := settled_reachable
    exact ⟨s, calls, hinit, hrun.of_restrict⟩
  refine ⟨(budgets_conserved hreachable).2.1 settled_reachable, ?_⟩
  have hagain : reserveMany settledAccounts ["tenant", "campaign"] "call-1" 40 false (fun _ => 3) =
      .ok ([2, 1], settledAccounts) := by decide +kernel
  exact (budgets_conserved hreachable).2.2.2.1 _ _ _ _ _ _ _ hagain [] _ _ (.nil _)

end GenusOs.Operations
