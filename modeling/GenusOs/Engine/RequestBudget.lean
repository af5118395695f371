import GenusOs.Engine.Runtime.SharedBudget
import GenusOs.Library.Count
import Mathlib

/-!
# The spending allowance of a run

`RequestBudget`, and the completions and streams that spend from it: `_cost_bounded_completion` and
`_BudgetStream`. A completion is quoted, reserved, called and settled; any number of them
interleave, and the scope may close at any time. `__anext__` and `aclose` may be called on a stream
at any time; the source refuses a read while another is under way.

* `RequestInv`: what is charged is the sum of what the completions cost.
* `no_overspending_unnoticed`: neither budget is overspent unnoticed.
-/

namespace GenusOs.Engine.Budgets

/-! ## The budget -/

structure RequestBudget where
  limitUnits : Nat
  charged : Int := 0
  closed : Bool := false
  deriving DecidableEq

namespace RequestBudget

/-- `none` for a bound that is not an int, or negative. -/
def reserve (b : RequestBudget) (units : Option Nat) : Except String RequestBudget :=
  match units with
  | none => .error "Invalid request cost bound"
  | some units =>
    if b.closed ∨ b.limitUnits < b.charged + units then
      .error "Request spending allowance exhausted or closed"
    else .ok { b with charged := b.charged + units }

/-- The budget after it, and what it raises. -/
def settle (b : RequestBudget) (reserved : Nat) (actual : Option Nat) :
    RequestBudget × Option String :=
  match actual with
  | none => (b, none)
  | some actual =>
    if reserved < actual then
      ({ b with charged := b.charged + (actual - reserved : Int), closed := true },
        some "Provider charge exceeded the reserved request bound")
    else if b.closed then (b, none)
    else ({ b with charged := b.charged - (reserved - actual : Int) }, none)

def close (b : RequestBudget) : RequestBudget := { b with closed := true }

end RequestBudget

/-! ## Completions -/

/-- `_BudgetStream`. -/
structure BudgetStream where
  units : Nat
  actual : Option Nat := none
  done : Bool := false
  /-- A read of the source is under way. -/
  reading : Bool := false
  deriving DecidableEq

inductive Phase
  | quoting
  | calling (units : Nat)
  | streaming (stream : BudgetStream)
  | refused
  /-- What it had reserved, what was reported and what it has cost. -/
  | ended (units : Nat) (actual : Option Nat) (cost : Nat)
  deriving DecidableEq

inductive Event
  | quoted (units : Option Nat)
  | quoteFails
  | callFails
  | responds (cost : Option Nat)
  /-- The response is a stream. -/
  | opens
  /-- `__anext__` is called, and what becomes of the read under way. -/
  | next
  | chunk (cost : Option Nat)
  | finishes
  | readFails
  | aclose

/-- What a settlement leaves charged. -/
def RequestBudget.settledCost (b : RequestBudget) (units : Nat) (actual : Option Nat) : Nat :=
  match actual with
  | none => units
  | some actual => if units < actual then actual else if b.closed then units else actual

def RequestBudget.finish (b : RequestBudget) (units : Nat) (actual : Option Nat) :
    RequestBudget × Phase :=
  ((b.settle units actual).1, .ended units actual (b.settledCost units actual))

/-- One step of a completion. -/
def advance (b : RequestBudget) : Phase → Event → Option (RequestBudget × Phase)
  | .quoting, .quoted units =>
    match b.reserve units, units with
    | .ok b, some units => some (b, .calling units)
    | _, _ => some (b, .refused)
  | .quoting, .quoteFails => some (b, .refused)
  -- The request could have reached the provider.
  | .calling units, .callFails => some (b, .ended units none units)
  | .calling units, .responds cost => some (b.finish units cost)
  | .calling units, .opens => some (b, .streaming { units })
  | .streaming stream, .next =>
    if stream.done then some (b, .streaming stream)
    else if stream.reading then some (b, .streaming { stream with done := true })
    else some (b, .streaming { stream with reading := true })
  | .streaming stream, .chunk cost =>
    if stream.reading then some (b, .streaming { stream with actual := cost, reading := false })
    else none
  | .streaming stream, .finishes =>
    if stream.reading then some (b.finish stream.units stream.actual) else none
  | .streaming stream, .readFails =>
    if stream.reading then some (b, .streaming { stream with done := true, reading := false })
    else none
  | .streaming stream, .aclose => some (b, .streaming { stream with done := true })
  -- A stream that was settled is `done`.
  | .ended units actual cost, .next => some (b, .ended units actual cost)
  | .ended units actual cost, .aclose => some (b, .ended units actual cost)
  | _, _ => none

structure RequestRun where
  budget : RequestBudget
  completions : List Phase := []

inductive RequestAct
  | complete
  | event (i : Nat) (event : Event)
  /-- The budget's scope ends. -/
  | close

def RequestRun.step (s : RequestRun) : RequestAct → Option RequestRun
  | .complete => some { s with completions := s.completions ++ [.quoting] }
  | .event i event => do
    let phase ← s.completions[i]?
    let (budget, phase) ← advance s.budget phase event
    some { budget, completions := s.completions.set i phase }
  | .close => some { s with budget := s.budget.close }

def requestBudget : System RequestRun RequestAct :=
  .ofStep (fun s => ∃ limitUnits, s = { budget := { limitUnits } }) RequestRun.step

/-- What a completion costs: its reservation, until it has ended. -/
def Phase.cost : Phase → Nat
  | .quoting | .refused => 0
  | .calling units => units
  | .streaming stream => stream.units
  | .ended _ _ cost => cost

/-- A settlement has exceeded its reservation. -/
def RequestRun.Overrun (s : RequestRun) : Prop :=
  ∃ units actual cost, Phase.ended units (some actual) cost ∈ s.completions ∧ units < actual

structure RequestLaw (s : RequestRun) : Prop where
  bound : ¬ s.Overrun → s.budget.charged ≤ s.budget.limitUnits
  closing : s.Overrun → ∀ units, ∃ reason, s.budget.reserve units = .error reason
  total : s.budget.charged = (s.completions.map Phase.cost).sum
  inFull : ∀ units cost, Phase.ended units none cost ∈ s.completions → cost = units
  known : ∀ units actual cost, Phase.ended units (some actual) cost ∈ s.completions → actual ≤ cost

/-! ## One completion -/

variable {s t : RequestRun} {b b' : RequestBudget} {phase phase' : Phase} {event : Event}
  {units i : Nat} {actual : Option Nat}

/-- What a step of a completion does to the budget. -/
structure Advances (b : RequestBudget) (phase : Phase) (b' : RequestBudget) (phase' : Phase) :
    Prop where
  limit : b'.limitUnits = b.limitUnits
  closed : b.closed = true → b'.closed = true
  charged : b'.charged + phase.cost = b.charged + phase'.cost
  /-- It costs more within the limit only, or it has ended with more than it reserved. -/
  bound : b'.charged ≤ max b.charged b.limitUnits ∨
    ∃ units actual cost, phase' = .ended units (some actual) cost ∧ units < actual
  before : ∀ units actual cost, phase ≠ .ended units actual cost
  ended : ∀ units actual cost, phase' = .ended units actual cost →
    (actual = none → cost = units) ∧ (∀ known, actual = some known → known ≤ cost) ∧
      ∀ known, actual = some known → units < known → b'.closed = true

/-- A step that leaves the budget, and what the completion costs. -/
theorem Advances.same (hcost : phase'.cost = phase.cost) (hopen : ∀ u a c, phase ≠ .ended u a c)
    (hended : ∀ u a c, phase' = .ended u a c → a = none ∧ c = u) : Advances b phase b phase' where
  limit := rfl
  closed := id
  charged := by rw [hcost]
  bound := .inl (le_max_left _ _)
  before := hopen
  ended u a c h := by
    obtain ⟨rfl, rfl⟩ := hended u a c h
    exact ⟨fun _ => rfl, nofun, nofun⟩

theorem finish_advances (hcost : phase.cost = units) (hopen : ∀ u a c, phase ≠ .ended u a c) :
    Advances b phase (b.finish units actual).1 (b.finish units actual).2 := by
  cases actual with
  | none =>
    have hended : ∀ u a c, Phase.ended units none units = .ended u a c → a = none ∧ c = u := by
      rintro _ _ _ ⟨⟩
      exact ⟨rfl, rfl⟩
    exact .same hcost.symm hopen hended
  | some actual =>
    by_cases hover : units < actual
    · -- The overrun is charged, and the budget closes.
      have hfinish : b.finish units (some actual) =
          ({ b with charged := b.charged + (actual - units : Int), closed := true },
            .ended units (some actual) actual) := by
        simp [RequestBudget.finish, RequestBudget.settle, RequestBudget.settledCost, hover]
      rw [hfinish]
      refine ⟨rfl, fun _ => rfl, ?_, .inr ⟨units, actual, actual, rfl, hover⟩, hopen, ?_⟩
      · rw [hcost]
        show b.charged + (actual - units : Int) + units = b.charged + actual
        omega
      · rintro _ _ _ ⟨⟩
        exact ⟨nofun, fun _ h => (Option.some.inj h).ge, fun _ _ _ => rfl⟩
    · cases hclosed : b.closed with
      | true =>
        have hfinish : b.finish units (some actual) = (b, .ended units (some actual) units) := by
          simp [RequestBudget.finish, RequestBudget.settle,
            RequestBudget.settledCost, hover, hclosed]
        rw [hfinish]
        refine ⟨rfl, id, ?_, .inl (le_max_left _ _), hopen, ?_⟩
        · rw [hcost]
          rfl
        · rintro _ _ _ ⟨⟩
          exact ⟨nofun, fun _ h => Option.some.inj h ▸ not_lt.mp hover, fun _ _ _ => hclosed⟩
      | false =>
        have hfinish : b.finish units (some actual) =
            ({ b with charged := b.charged - (units - actual : Int) },
              .ended units (some actual) actual) := by
          simp [RequestBudget.finish, RequestBudget.settle,
            RequestBudget.settledCost, hover, hclosed]
        rw [hfinish]
        refine ⟨rfl, id, ?_, .inl (le_max_of_le_left ?_), hopen, ?_⟩
        · rw [hcost]
          show b.charged - (units - actual : Int) + units = b.charged + actual
          omega
        · show b.charged - (units - actual : Int) ≤ b.charged
          omega
        · rintro _ _ _ ⟨⟩
          exact ⟨nofun, fun _ h => (Option.some.inj h).ge,
            fun _ h hlt => absurd (Option.some.inj h ▸ hlt) hover⟩

/-- A reservation fits. -/
theorem quoted_advances (h : b.reserve (some units) = .ok b') :
    Advances b .quoting b' (.calling units) := by
  unfold RequestBudget.reserve at h
  dsimp only at h
  split at h
  · cases h
  · next hroom =>
    rw [not_or, not_lt] at hroom
    obtain rfl := Except.ok.inj h
    refine ⟨rfl, id, ?_, .inl (le_max_of_le_right hroom.2), nofun, nofun⟩
    show b.charged + units + (0 : Nat) = b.charged + units
    omega

/-- A step leaves everything as it is, or advances a completion that has not ended. -/
theorem advance_cases (h : advance b phase event = some (b', phase')) :
    (b' = b ∧ phase' = phase) ∨ Advances b phase b' phase' := by
  cases phase with
  | quoting =>
    right
    cases event with
    | quoted quote =>
      unfold advance at h
      dsimp only at h
      split at h
      · next budget units hok =>
        cases h
        exact quoted_advances hok
      · cases h
        exact .same rfl nofun nofun
    | quoteFails =>
      cases h
      exact .same rfl nofun nofun
    | _ => cases h
  | calling units =>
    right
    cases event with
    | callFails =>
      cases h
      refine .same rfl nofun ?_
      rintro _ _ _ ⟨⟩
      exact ⟨rfl, rfl⟩
    | responds cost =>
      cases h
      exact finish_advances rfl nofun
    | opens =>
      cases h
      exact .same rfl nofun nofun
    | _ => cases h
  | streaming stream =>
    cases event with
    | next =>
      unfold advance at h
      dsimp only at h
      split at h
      · cases h
        exact .inl ⟨rfl, rfl⟩
      · split at h
        · cases h
          exact .inr (.same rfl nofun nofun)
        · cases h
          exact .inr (.same rfl nofun nofun)
    | chunk cost =>
      obtain ⟨-, heq⟩ := Option.ite_none_right_eq_some.mp h
      cases heq
      exact .inr (.same rfl nofun nofun)
    | finishes =>
      obtain ⟨-, heq⟩ := Option.ite_none_right_eq_some.mp h
      cases heq
      exact .inr (finish_advances rfl nofun)
    | readFails =>
      obtain ⟨-, heq⟩ := Option.ite_none_right_eq_some.mp h
      cases heq
      exact .inr (.same rfl nofun nofun)
    | aclose =>
      cases h
      exact .inr (.same rfl nofun nofun)
    | _ => cases h
  | refused => cases h
  | ended units actual cost =>
    cases event with
    | next =>
      cases h
      exact .inl ⟨rfl, rfl⟩
    | aclose =>
      cases h
      exact .inl ⟨rfl, rfl⟩
    | _ => cases h

/-! ## The invariant -/

structure RequestInv (s : RequestRun) : Prop where
  total : s.budget.charged = (s.completions.map Phase.cost).sum
  ended : ∀ units actual cost, Phase.ended units actual cost ∈ s.completions →
    (actual = none → cost = units) ∧ (∀ known, actual = some known → known ≤ cost) ∧
      ∀ known, actual = some known → units < known → s.budget.closed = true
  bound : ¬ s.Overrun → s.budget.charged ≤ s.budget.limitUnits

theorem RequestInv.complete (hs : RequestInv s) :
    RequestInv { s with completions := s.completions ++ [.quoting] } where
  total := by
    rw [List.map_append, List.sum_append]
    exact hs.total
  ended units actual cost hmem := by
    rcases List.mem_append.mp hmem with hmem | hnew
    · exact hs.ended units actual cost hmem
    · cases List.mem_singleton.mp hnew
  bound hwithin := hs.bound fun ⟨units, actual, cost, hmem, hlt⟩ =>
    hwithin ⟨units, actual, cost, List.mem_append_left _ hmem, hlt⟩

theorem RequestInv.close (hs : RequestInv s) : RequestInv { s with budget := s.budget.close } where
  total := hs.total
  ended units actual cost hmem :=
    have hended := hs.ended units actual cost hmem
    ⟨hended.1, hended.2.1, fun _ _ _ => rfl⟩
  bound := hs.bound

/-- The completions that had ended stay. -/
theorem mem_set_of_ended {l : List Phase} {cost : Nat} (h : l[i]? = some phase)
    (hbefore : ∀ units actual cost, phase ≠ .ended units actual cost)
    (hmem : Phase.ended units actual cost ∈ l) :
    Phase.ended units actual cost ∈ l.set i phase' := by
  obtain ⟨j, hj⟩ := List.mem_iff_getElem?.mp hmem
  have hne : i ≠ j := by
    rintro rfl
    exact hbefore units actual cost (Option.some.inj (h.symm.trans hj))
  refine List.mem_iff_getElem?.mpr ⟨j, ?_⟩
  rw [List.getElem?_set_ne hne]
  exact hj

theorem RequestInv.advances (hs : RequestInv s) (h : s.completions[i]? = some phase)
    (hadv : Advances s.budget phase b' phase') :
    RequestInv { budget := b', completions := s.completions.set i phase' } where
  total := by
    have hcharged := hadv.charged
    have hsum := @sum_map_set _ s.completions i phase phase' Phase.cost h
    have htotal := hs.total
    dsimp only
    omega
  ended units actual cost hmem := by
    rcases List.mem_or_eq_of_mem_set hmem with hold | hnew
    · obtain ⟨hnone, hknown, hclosed⟩ := hs.ended units actual cost hold
      exact ⟨hnone, hknown, fun known hsome hlt => hadv.closed (hclosed known hsome hlt)⟩
    · exact hadv.ended units actual cost hnew.symm
  bound hwithin := by
    have hbefore : ¬ s.Overrun := fun ⟨units, actual, cost, hmem, hlt⟩ =>
      hwithin ⟨units, actual, cost, mem_set_of_ended h hadv.before hmem, hlt⟩
    rcases hadv.bound with hle | ⟨units, actual, cost, rfl, hlt⟩
    · have hbound := hs.bound hbefore
      rw [max_eq_right hbound] at hle
      rw [hadv.limit]
      exact hle
    · have hi : i < s.completions.length := (List.getElem?_eq_some_iff.mp h).1
      exact absurd ⟨units, actual, cost, List.mem_set hi _, hlt⟩ hwithin

theorem requestInv_reachable (hs : requestBudget.Reachable s) : RequestInv s := by
  refine hs.invariant ?_ ?_
  · rintro _ ⟨limitUnits, rfl⟩
    exact ⟨rfl, nofun, fun _ => Int.natCast_nonneg limitUnits⟩
  · intro s act t hs hstep
    have hstep : s.step act = some t := hstep
    cases act with
    | complete =>
      obtain rfl := Option.some.inj hstep
      exact hs.complete
    | event i event =>
      obtain ⟨phase, hphase, hrest⟩ := Option.bind_eq_some_iff.mp hstep
      obtain ⟨⟨b', phase'⟩, hadvance, heq⟩ := Option.bind_eq_some_iff.mp hrest
      obtain rfl := Option.some.inj heq
      rcases advance_cases hadvance with ⟨rfl, rfl⟩ | hadv
      · obtain ⟨hi, hget⟩ := List.getElem?_eq_some_iff.mp hphase
        rw [← hget, List.set_getElem_self]
        exact hs
      · exact hs.advances hphase hadv
    | close =>
      obtain rfl := Option.some.inj hstep
      exact hs.close

theorem requestLaw_reachable (hs : requestBudget.Reachable s) : RequestLaw s := by
  have hinv := requestInv_reachable hs
  refine ⟨hinv.bound, ?_, hinv.total, fun units cost hmem => (hinv.ended _ _ _ hmem).1 rfl,
    fun units actual cost hmem => (hinv.ended _ _ _ hmem).2.1 actual rfl⟩
  rintro ⟨units, actual, cost, hmem, hlt⟩ quote
  have hclosed := (hinv.ended _ _ _ hmem).2.2 actual rfl hlt
  cases quote with
  | none => exact ⟨_, rfl⟩
  | some quote => exact ⟨_, if_pos (.inl hclosed)⟩

/-! ## The law -/

/-- **Neither budget is overspent unnoticed.** -/
theorem no_overspending_unnoticed :
    (∀ s, sharedBudget.Reachable s → SharedLaw s) ∧ ∀ s, requestBudget.Reachable s → RequestLaw s :=
  ⟨fun _ => sharedLaw_reachable, fun _ => requestLaw_reachable⟩

/-- A provider charged more than its bound, under either budget. -/
theorem overrun_noticed :
    SharedLaw {
      budget := { limit := 10, charges := [("call", 6)], settled := [("call", 6)], overrun := true }
      reserved := [("call", 4)]
      reported := [("call", 6)] } ∧
    RequestLaw {
      budget := { limitUnits := 10, charged := 6, closed := true }
      completions := [.ended 4 (some 6) 6] } := by
  have hshared : [.reserve "call" (some 4), .settle "call" (.known 6)].foldlM SharedRun.step
      { budget := { limit := 10 } } = some {
        budget :=
          { limit := 10, charges := [("call", 6)], settled := [("call", 6)], overrun := true }
        reserved := [("call", 4)]
        reported := [("call", 6)] } := by rfl
  have hrequest : [.complete, .event 0 (.quoted (some 4)), .event 0 .opens, .event 0 .next,
      .event 0 (.chunk (some 6)), .event 0 .next, .event 0 .finishes].foldlM RequestRun.step
      { budget := { limitUnits := 10 } } = some {
        budget := { limitUnits := 10, charged := 6, closed := true }
        completions := [.ended 4 (some 6) 6] } := by rfl
  exact ⟨no_overspending_unnoticed.1 _ ⟨_, _, ⟨10, rfl⟩, System.run_of_foldlM hshared⟩,
    no_overspending_unnoticed.2 _ ⟨_, _, ⟨10, rfl⟩, System.run_of_foldlM hrequest⟩⟩

end GenusOs.Engine.Budgets
