import GenusOs.Library.Run
import Mathlib

/-!
# The shared budget of a goal attempt

`SharedBudget` under any sequence of `reserve` and `settle`, each of which runs under the lock. What
`goal_completion` and `TokenStream` do with a budget is a reservation and at most one settlement
with what `usage_tokens` reads, so their calls are among these.

* `SharedBudget.Inv`: charges are reservations, or what was reported for them.
* `sharedLaw_reachable`: the bound, the closing, and what an unsettled reservation costs.
-/

namespace GenusOs.Engine.Budgets

/-- A `dict[str, int]`. -/
abbrev Amounts := List (String × Nat)

/-- `d[key] = value`, where the key is there. -/
def Amounts.set (d : Amounts) (key : String) (value : Nat) : Amounts :=
  d.map fun e => if e.1 = key then (key, value) else e

def Amounts.sum (d : Amounts) : Nat := (d.map Prod.snd).sum

/-! ## The budget -/

structure SharedBudget where
  limit : Nat
  charges : Amounts := []
  settled : Amounts := []
  overrun : Bool := false
  deriving DecidableEq

/-- What is reported for a call; `invalid` is not an int, or negative. -/
inductive Usage
  | unknown
  | invalid
  | known (actual : Nat)

namespace SharedBudget

def charged (b : SharedBudget) : Nat := b.charges.sum

/-- `none` for a bound that is not an int, or negative. -/
def reserve (b : SharedBudget) (callId : String) (maximum : Option Nat) :
    Except String SharedBudget :=
  match maximum with
  | none => .error "call identity and nonnegative bound required"
  | some maximum =>
    if callId = "" then .error "call identity and nonnegative bound required"
    else if (List.lookup callId b.charges).isSome then
      .error "provider call already reserved; do not redispatch"
    else if b.overrun ∨ b.limit < b.charged + maximum then .error "shared budget exhausted"
    else .ok { b with charges := b.charges ++ [(callId, maximum)] }

/-- The budget after it, and what it raises. -/
def settle (b : SharedBudget) (callId : String) (usage : Usage) : SharedBudget × Option String :=
  match List.lookup callId b.charges, usage with
  | none, _ => (b, some "KeyError")
  | some _, .unknown => (b, none)
  | some _, .invalid => (b, some "invalid usage")
  | some reserved, .known actual =>
    match List.lookup callId b.settled with
    | some previous => (b, if previous ≠ actual then some "conflicting usage event" else none)
    | none =>
      let b := { b with
        settled := b.settled ++ [(callId, actual)]
        charges := b.charges.set callId actual }
      -- The true overrun is retained.
      if reserved < actual then
        ({ b with overrun := true }, some "provider exceeded reserved bound")
      else (b, none)

end SharedBudget

/-! ## Runs -/

/-- The budget, with two logs that the source does not keep: the reservations that were accepted,
and the known usages that were reported for reserved calls, both in the order of the calls. A call
may be reported again, and a later report is of no account. -/
structure SharedRun where
  budget : SharedBudget
  reserved : Amounts := []
  reported : Amounts := []

inductive SharedAct
  | reserve (callId : String) (maximum : Option Nat)
  | settle (callId : String) (usage : Usage)

/-- The reports with one more. -/
def SharedRun.heard (s : SharedRun) (callId : String) (usage : Usage) : Amounts :=
  match List.lookup callId s.reserved, usage with
  | some _, .known actual => s.reported ++ [(callId, actual)]
  | _, _ => s.reported

def SharedRun.step (s : SharedRun) : SharedAct → Option SharedRun
  | .reserve callId maximum =>
    match s.budget.reserve callId maximum, maximum with
    | .ok budget, some maximum =>
      some { s with budget, reserved := s.reserved ++ [(callId, maximum)] }
    | _, _ => some s
  | .settle callId usage =>
    some { s with
      budget := (s.budget.settle callId usage).1
      reported := s.heard callId usage }

def sharedBudget : System SharedRun SharedAct :=
  .ofStep (fun s => ∃ limit, s = { budget := { limit } }) SharedRun.step

/-- A settlement has exceeded its reservation: the first report for a call is of more than was
reserved for it. -/
def SharedRun.Overrun (s : SharedRun) : Prop :=
  ∃ id reserved actual, List.lookup id s.reserved = some reserved ∧
    List.lookup id s.reported = some actual ∧ reserved < actual

/-- What holds of the budget whatever was reserved and reported. -/
structure SharedLaw (s : SharedRun) : Prop where
  bound : ¬ s.Overrun → s.budget.charged ≤ s.budget.limit
  closing : s.Overrun → ∀ id maximum, ∃ reason, s.budget.reserve id maximum = .error reason
  inFull : ∀ id reserved, List.lookup id s.reserved = some reserved →
    List.lookup id s.reported = none → List.lookup id s.budget.charges = some reserved
  repeated : ∀ id actual, List.lookup id s.reported = some actual →
    s.budget.settle id (.known actual) = (s.budget, none)
  conflicting : ∀ id actual other, List.lookup id s.reported = some actual → other ≠ actual →
    s.budget.settle id (.known other) = (s.budget, some "conflicting usage event")

/-! ## Amounts -/

namespace Amounts

variable {d : Amounts} {key other : String} {value old : Nat}

theorem keys_set : (d.set key value).map Prod.fst = d.map Prod.fst := by
  unfold Amounts.set
  rw [List.map_map]
  apply List.map_congr_left
  intro e _
  by_cases he : e.1 = key
  · simp [he]
  · simp [he]

theorem lookup_none_iff : List.lookup key d = none ↔ key ∉ d.map Prod.fst := by
  rw [List.lookup_eq_none_iff]
  constructor
  · intro h hmem
    obtain ⟨e, he, rfl⟩ := List.mem_map.mp hmem
    simpa using h e he
  · intro h e he
    exact bne_iff_ne.mpr fun heq => h (heq ▸ List.mem_map_of_mem he)

theorem lookup_set_of_ne (h : other ≠ key) :
    List.lookup other (d.set key value) = List.lookup other d := by
  induction d with
  | nil => rfl
  | cons entry d ih =>
    unfold Amounts.set at ih ⊢
    rw [List.map_cons, List.lookup_cons, List.lookup_cons, ih]
    by_cases he : entry.1 = key
    · rw [if_pos he, he, beq_eq_false_iff_ne.mpr h]
    · rw [if_neg he]

/-- Replacing one amount changes the sum by the difference. -/
theorem sum_set (hnodup : (d.map Prod.fst).Nodup) (h : List.lookup key d = some old) :
    (d.set key value).sum + old = d.sum + value := by
  induction d with
  | nil => cases h
  | cons entry d ih =>
    rw [List.map_cons, List.nodup_cons] at hnodup
    rw [List.lookup_cons] at h
    unfold Amounts.set Amounts.sum at ih ⊢
    rw [List.map_cons, List.map_cons, List.map_cons, List.sum_cons, List.sum_cons]
    by_cases he : entry.1 = key
    · rw [he, beq_self_eq_true] at h
      have hold : entry.2 = old := Option.some.inj h
      have hrest : d.map (fun e => if e.1 = key then (key, value) else e) = d := by
        conv_rhs => rw [← List.map_id d]
        apply List.map_congr_left
        intro e hmem
        refine if_neg fun heq => hnodup.1 ?_
        rw [he, ← heq]
        exact List.mem_map_of_mem hmem
      rw [if_pos he, hrest, hold]
      dsimp only
      omega
    · rw [beq_eq_false_iff_ne.mpr (Ne.symm he)] at h
      have hsum := ih hnodup.2 h
      rw [if_neg he]
      omega

end Amounts

/-! ## The invariant -/

/-- Charges are reservations, or what was reported for them, and `overrun` says if one was exceeded.
-/
structure SharedInv (s : SharedRun) : Prop where
  nodup : (s.budget.charges.map Prod.fst).Nodup
  keys : s.reserved.map Prod.fst = s.budget.charges.map Prod.fst
  settled : ∀ id, List.lookup id s.reported = List.lookup id s.budget.settled
  settledKey : ∀ id actual, List.lookup id s.budget.settled = some actual →
    id ∈ s.budget.charges.map Prod.fst
  inFull : ∀ id reserved, List.lookup id s.reserved = some reserved →
    List.lookup id s.budget.settled = none → List.lookup id s.budget.charges = some reserved
  overrun : s.budget.overrun = true ↔ s.Overrun
  bound : s.budget.overrun = false → s.budget.charged ≤ s.budget.limit

variable {s t : SharedRun} {b b' : SharedBudget} {id : String} {maximum actual reserved : Nat}

/-- What a reservation needs, and what it does. -/
theorem reserve_ok (h : b.reserve id (some maximum) = .ok b') :
    List.lookup id b.charges = none ∧ b.overrun = false ∧ b.charged + maximum ≤ b.limit ∧
      b' = { b with charges := b.charges ++ [(id, maximum)] } := by
  unfold SharedBudget.reserve at h
  dsimp only at h
  split at h
  · cases h
  · split at h
    · cases h
    · next hfresh =>
      split at h
      · cases h
      · next hroom =>
        rw [not_or, not_lt] at hroom
        exact ⟨Option.not_isSome_iff_eq_none.mp hfresh,
          Bool.eq_false_of_not_eq_true hroom.1, hroom.2,
          (Except.ok.inj h).symm⟩

theorem SharedInv.reserve (hs : SharedInv s) (h : s.budget.reserve id (some maximum) = .ok b') :
    SharedInv { s with budget := b', reserved := s.reserved ++ [(id, maximum)] } := by
  obtain ⟨hfresh, hopen, hroom, rfl⟩ := reserve_ok h
  have hkey : id ∉ s.budget.charges.map Prod.fst := Amounts.lookup_none_iff.mp hfresh
  have hunreserved : List.lookup id s.reserved = none := by
    rw [Amounts.lookup_none_iff, hs.keys]
    exact hkey
  have hunsettled : List.lookup id s.budget.settled = none := by
    cases hsettled : List.lookup id s.budget.settled with
    | none => rfl
    | some actual => exact absurd (hs.settledKey id actual hsettled) hkey
  have hlookup : ∀ other (d : Amounts), other ≠ id →
      List.lookup other (d ++ [(id, maximum)]) = List.lookup other d := by
    intro other d hne
    rw [List.lookup_append, List.lookup_cons, beq_eq_false_iff_ne.mpr hne]
    exact Option.or_none
  refine ⟨?_, ?_, hs.settled, fun other actual hother => ?_,
    fun other reserved hother hnone => ?_, ?_,
    fun _ => ?_⟩
  · rw [List.map_append, List.nodup_append]
    exact ⟨hs.nodup, List.nodup_singleton _, fun a ha b hb heq => hkey (by
      rw [List.map_singleton, List.mem_singleton] at hb
      rwa [heq, hb] at ha)⟩
  · rw [List.map_append, List.map_append, hs.keys]
  · rw [List.map_append]
    exact List.mem_append_left _ (hs.settledKey other actual hother)
  · by_cases hne : other = id
    · subst hne
      rw [List.lookup_append, hunreserved] at hother
      rw [List.lookup_append, hfresh]
      exact hother
    · rw [hlookup other _ hne] at hother ⊢
      exact hs.inFull other reserved hother hnone
  · rw [show
      ({ s.budget with charges := s.budget.charges ++ [(id, maximum)] } : SharedBudget).overrun =
      s.budget.overrun from rfl, hs.overrun]
    constructor
    · rintro ⟨other, reserved, actual, hreserved, hactual, hlt⟩
      refine ⟨other, reserved, actual, ?_, hactual, hlt⟩
      rw [List.lookup_append, hreserved]
      rfl
    · rintro ⟨other, reserved, actual, hreserved, hactual, hlt⟩
      have hne : other ≠ id := by
        rintro rfl
        rw [hs.settled, hunsettled] at hactual
        cases hactual
      rw [hlookup other _ hne] at hreserved
      exact ⟨other, reserved, actual, hreserved, hactual, hlt⟩
  · show ((s.budget.charges ++ [(id, maximum)]).map Prod.snd).sum ≤ s.budget.limit
    rw [List.map_append, List.sum_append]
    exact hroom

/-- What a settlement does: nothing, or the first known usage of a reservation replaces it. -/
theorem settle_cases (b : SharedBudget) (id : String) (usage : Usage) :
    ((b.settle id usage).1 = b ∧ ∀ actual, usage = .known actual →
      List.lookup id b.charges = none ∨ List.lookup id b.settled ≠ none) ∨
    ∃ reserved actual, usage = .known actual ∧
      List.lookup id b.charges = some reserved ∧ List.lookup id b.settled = none ∧
        (b.settle id usage).1 = { b with
          settled := b.settled ++ [(id, actual)]
          charges := b.charges.set id actual
          overrun := b.overrun || reserved < actual } := by
  unfold SharedBudget.settle
  split
  · next hfresh => exact .inl ⟨rfl, fun _ _ => .inl hfresh⟩
  · exact .inl ⟨rfl, nofun⟩
  · exact .inl ⟨rfl, nofun⟩
  · next reserved actual hreserved =>
    split
    · next previous hsettled =>
      exact .inl ⟨rfl, fun _ _ => .inr (by rw [hsettled]; exact Option.some_ne_none _)⟩
    · next hunsettled =>
      refine .inr ⟨reserved, actual, rfl, hreserved, hunsettled, ?_⟩
      dsimp only
      split
      · next hlt => simp [hlt]
      · next hle => simp [hle]

/-- A call is reserved exactly where it is charged. -/
theorem SharedInv.reserved_none_iff (hs : SharedInv s) :
    List.lookup id s.reserved = none ↔ List.lookup id s.budget.charges = none := by
  rw [Amounts.lookup_none_iff, Amounts.lookup_none_iff, hs.keys]

/-- A report that settles nothing is not the first one. -/
theorem SharedInv.heard_same (hs : SharedInv s) {usage : Usage}
    (h : ∀ actual, usage = .known actual →
      List.lookup id s.budget.charges = none ∨
        List.lookup id s.budget.settled ≠ none) (other : String) :
    List.lookup other (s.heard id usage) = List.lookup other s.reported := by
  unfold SharedRun.heard
  split
  · next charge actual hreserved =>
    rcases h actual rfl with hfresh | hsettled
    · rw [hs.reserved_none_iff.mpr hfresh] at hreserved
      cases hreserved
    · obtain ⟨previous, hprevious⟩ := Option.ne_none_iff_exists'.mp hsettled
      rw [List.lookup_append, List.lookup_cons]
      by_cases hne : other = id
      · rw [hne, hs.settled, hprevious]
        rfl
      · rw [beq_eq_false_iff_ne.mpr hne]
        exact Option.or_none
  · rfl

theorem SharedInv.settle (hs : SharedInv s) (id : String) (usage : Usage) :
    SharedInv { s with
      budget := (s.budget.settle id usage).1
      reported := s.heard id usage } := by
  rcases settle_cases s.budget id usage with
    ⟨hsame, hlate⟩ | ⟨charge, actual, rfl, hcharge, hunsettled, hafter⟩
  · have hheard := hs.heard_same hlate
    rw [hsame]
    refine ⟨hs.nodup, hs.keys, fun other => (hheard other).trans (hs.settled other), hs.settledKey,
      hs.inFull, ?_, hs.bound⟩
    rw [hs.overrun]
    unfold SharedRun.Overrun
    simp only [hheard]
  rw [hafter]
  have hmem : id ∈ s.budget.charges.map Prod.fst := by
    by_contra hfresh
    rw [Amounts.lookup_none_iff.mpr hfresh] at hcharge
    cases hcharge
  have hreserved : List.lookup id s.reserved = some charge := by
    cases hlookup : List.lookup id s.reserved with
    | none =>
      rw [hs.reserved_none_iff.mp hlookup] at hcharge
      cases hcharge
    | some reserved =>
      have hfull := hs.inFull id reserved hlookup hunsettled
      rw [hcharge] at hfull
      exact hfull.symm
  have hself : List.lookup id (s.budget.settled ++ [(id, actual)]) = some actual := by
    rw [List.lookup_append, hunsettled, List.lookup_cons, beq_self_eq_true]
    rfl
  have hother : ∀ other, other ≠ id →
      List.lookup other (s.budget.settled ++ [(id, actual)]) =
        List.lookup other s.budget.settled := by
    intro other hne
    rw [List.lookup_append, List.lookup_cons, beq_eq_false_iff_ne.mpr hne]
    exact Option.or_none
  have hheard : s.heard id (.known actual) = s.reported ++ [(id, actual)] := by
    unfold SharedRun.heard
    rw [hreserved]
  rw [hheard]
  -- the reports and the settled amounts get the same entry
  have hreports : ∀ other, List.lookup other (s.reported ++ [(id, actual)]) =
      List.lookup other (s.budget.settled ++ [(id, actual)]) := by
    intro other
    rw [List.lookup_append, List.lookup_append, hs.settled]
  refine ⟨?_, ?_, hreports, fun other value hvalue => ?_, fun other reserved hres hnone => ?_, ?_,
    fun hopen => ?_⟩
  · show ((s.budget.charges.set id actual).map Prod.fst).Nodup
    rw [Amounts.keys_set]
    exact hs.nodup
  · exact hs.keys.trans Amounts.keys_set.symm
  · rw [Amounts.keys_set]
    by_cases hne : other = id
    · exact hne ▸ hmem
    · exact hs.settledKey other value ((hother other hne).symm.trans hvalue)
  · have hne : other ≠ id := by
      rintro rfl
      rw [hself] at hnone
      cases hnone
    exact (Amounts.lookup_set_of_ne hne).trans
      (hs.inFull other reserved hres ((hother other hne).symm.trans hnone))
  · constructor
    · intro hover
      rcases Bool.or_eq_true_iff.mp hover with hbefore | hnow
      · obtain ⟨other, reserved, value, hres, hvalue, hlt⟩ := hs.overrun.mp hbefore
        rw [hs.settled] at hvalue
        have hne : other ≠ id := by
          rintro rfl
          rw [hunsettled] at hvalue
          cases hvalue
        exact ⟨other, reserved, value, hres,
          (hreports other).trans ((hother other hne).trans hvalue), hlt⟩
      · exact ⟨id, charge, actual, hreserved, (hreports id).trans hself, of_decide_eq_true hnow⟩
    · rintro ⟨other, reserved, value, hres, hvalue, hlt⟩
      replace hvalue := (hreports other).symm.trans hvalue
      by_cases hne : other = id
      · subst hne
        obtain rfl := Option.some.inj (hres.symm.trans hreserved)
        obtain rfl := Option.some.inj (hvalue.symm.trans hself)
        exact Bool.or_eq_true_iff.mpr (.inr (decide_eq_true hlt))
      · exact Bool.or_eq_true_iff.mpr (.inl (hs.overrun.mpr
          ⟨other, reserved, value, hres,
            (hs.settled other).trans ((hother other hne).symm.trans hvalue), hlt⟩))
  · obtain ⟨hbefore, hle⟩ := Bool.or_eq_false_iff.mp hopen
    have hle := of_decide_eq_false hle
    have hsum := @Amounts.sum_set _ id actual charge hs.nodup hcharge
    have hbound := hs.bound hbefore
    unfold SharedBudget.charged at hbound ⊢
    dsimp only
    omega

theorem sharedInv_reachable (hs : sharedBudget.Reachable s) : SharedInv s := by
  refine hs.invariant ?_ ?_
  · rintro _ ⟨limit, rfl⟩
    refine ⟨List.nodup_nil, rfl, fun _ => rfl, nofun, nofun, ⟨nofun, ?_⟩, fun _ => Nat.zero_le _⟩
    rintro ⟨_, _, _, hnone, -⟩
    cases hnone
  · intro s a t hs hstep
    have hstep : s.step a = some t := hstep
    cases a with
    | reserve id maximum =>
      unfold SharedRun.step at hstep
      dsimp only at hstep
      split at hstep
      · next budget maximum hok =>
        obtain rfl := Option.some.inj hstep
        exact hs.reserve hok
      · obtain rfl := Option.some.inj hstep
        exact hs
    | settle id usage =>
      obtain rfl := Option.some.inj hstep
      exact hs.settle id usage

/-- What is settled is charged. -/
theorem lookup_of_settled (hs : SharedInv s) (h : List.lookup id s.budget.settled = some actual) :
    ∃ charge, List.lookup id s.budget.charges = some charge := by
  cases hcharge : List.lookup id s.budget.charges with
  | none => exact absurd (hs.settledKey id actual h) (Amounts.lookup_none_iff.mp hcharge)
  | some charge => exact ⟨charge, rfl⟩

/-- **A shared budget is never overspent unnoticed.** -/
theorem sharedLaw_reachable (hs : sharedBudget.Reachable s) : SharedLaw s := by
  have hinv := sharedInv_reachable hs
  refine ⟨fun hwithin => ?_, fun hover id maximum => ?_,
    fun id reserved hreserved hunreported => ?_,
    fun id actual hreported => ?_, fun id actual other hreported hne => ?_⟩
  · exact hinv.bound (Bool.eq_false_of_not_eq_true fun h => hwithin (hinv.overrun.mp h))
  · cases maximum with
    | none => exact ⟨_, rfl⟩
    | some maximum =>
      cases hreserve : s.budget.reserve id (some maximum) with
      | error reason => exact ⟨reason, rfl⟩
      | ok b =>
        have hopen := (reserve_ok hreserve).2.1
        rw [hinv.overrun.mpr hover] at hopen
        cases hopen
  · exact hinv.inFull id reserved hreserved ((hinv.settled id).symm.trans hunreported)
  · have hsettled := (hinv.settled id).symm.trans hreported
    obtain ⟨charge, hcharge⟩ := lookup_of_settled hinv hsettled
    unfold SharedBudget.settle
    rw [hcharge]
    dsimp only
    rw [hsettled]
    dsimp only
    rw [if_neg (not_not.mpr rfl)]
  · have hsettled := (hinv.settled id).symm.trans hreported
    obtain ⟨charge, hcharge⟩ := lookup_of_settled hinv hsettled
    unfold SharedBudget.settle
    rw [hcharge]
    dsimp only
    rw [hsettled]
    dsimp only
    rw [if_pos (Ne.symm hne)]

end GenusOs.Engine.Budgets
