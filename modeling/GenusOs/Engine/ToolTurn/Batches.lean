import GenusOs.Python.Str
import Mathlib

/-!
# Which calls of a turn may run at the same time

`plan_batches` groups a turn's calls by index: consecutive calls that are classified read-only share
a batch up to the limit, and the first call that is not ends the grouping for the rest of the turn.

* `planBatches_flatten`: the groups are the turn's calls, in the model's order.
* `planBatches_nonempty`: no group is empty.
* `planBatches_partition`: a group stays within the limit, holds one call or only eligible ones, and
  never reaches over a call that is not.
-/

namespace GenusOs.Engine.ToolTurn

open GenusOs.Python

def DEFAULT_PARALLEL_TOOL_CALLS : Int := 4

def MAX_PARALLEL_TOOL_CALLS : Int := 16

/-- Never concurrent, whatever any classification table says. -/
def NEVER_PARALLEL_TOOLS : List String := ["exec", "execute_code", "browser", "ask_user"]

/-- And never concurrent by shape. -/
def NEVER_PARALLEL_PREFIXES : List String := ["send_", "spawn_", "desktop_"]

/-- Non-positive means one, not unbounded. -/
def clampParallelLimit (requested : Int) : Nat :=
  if requested ≤ 0 then 1 else (min requested MAX_PARALLEL_TOOL_CALLS).toNat

/-- The configured ceiling, if it can be read. -/
def parallelLimit (configured : Option Int) : Nat :=
  clampParallelLimit (configured.getD DEFAULT_PARALLEL_TOOL_CALLS)

variable (fnmatch : String → String → Bool) (readOnly humanApproval : List String)

def isParallelSafe (toolName : String) : Bool :=
  !NEVER_PARALLEL_TOOLS.contains toolName &&
    !NEVER_PARALLEL_PREFIXES.any (startsWith toolName) &&
    !humanApproval.any (fnmatch toolName) && readOnly.contains toolName

/-- The plan with the group that is being filled, if it holds a call. -/
def closeGroup (plan : List (List Nat)) (current : List Nat) : List (List Nat) :=
  if current.isEmpty then plan else plan ++ [current]

/-- The loop over the calls from `index` on; `serialised` after an ineligible one. -/
def planFrom (bound : Nat) (plan : List (List Nat)) (current : List Nat) (serialised : Bool)
    (index : Nat) : List String → List (List Nat)
  | [] => closeGroup plan current
  | name :: names =>
    if !serialised && isParallelSafe fnmatch readOnly humanApproval name then
      if bound ≤ (current ++ [index]).length then
        planFrom bound (plan ++ [current ++ [index]]) [] serialised (index + 1) names
      else planFrom bound plan (current ++ [index]) serialised (index + 1) names
    else planFrom bound (closeGroup plan current ++ [[index]]) [] true (index + 1) names

def planBatches (limit : Int) (toolNames : List String) : List (List Nat) :=
  planFrom fnmatch readOnly humanApproval (clampParallelLimit limit) [] [] false 0 toolNames

variable {fnmatch readOnly humanApproval} {plan : List (List Nat)} {current : List Nat}
  {bound index : Nat} {serialised : Bool} {names : List String}

theorem closeGroup_flatten : (closeGroup plan current).flatten = plan.flatten ++ current := by
  unfold closeGroup
  cases current with
  | nil => simp
  | cons i current => simp

theorem closeGroup_nonempty (h : ∀ g ∈ plan, g ≠ []) : ∀ g ∈ closeGroup plan current, g ≠ [] := by
  unfold closeGroup
  split
  · exact h
  · next hne =>
    intro g hg
    rcases List.mem_append.mp hg with hg | hg
    · exact h g hg
    · rw [List.mem_singleton.mp hg]
      simpa using hne

/-- No call is lost, doubled or moved, wherever the loop stands. -/
theorem planFrom_flatten :
    (planFrom fnmatch readOnly humanApproval bound plan current serialised index names).flatten =
      plan.flatten ++ current ++ List.range' index names.length := by
  induction names generalizing plan current serialised index with
  | nil =>
    unfold planFrom
    rw [closeGroup_flatten]
    simp
  | cons name names ih =>
    unfold planFrom
    rw [List.length_cons, List.range'_succ]
    split
    · split
      · rw [ih]
        simp
      · rw [ih]
        simp
    · rw [ih, List.flatten_append, closeGroup_flatten]
      simp

theorem planFrom_nonempty (h : ∀ g ∈ plan, g ≠ []) :
    ∀ g ∈ planFrom fnmatch readOnly humanApproval bound plan current serialised index names,
      g ≠ [] := by
  induction names generalizing plan current serialised index with
  | nil => exact closeGroup_nonempty h
  | cons name names ih =>
    have hsnoc : ∀ {plan : List (List Nat)} {group : List Nat}, (∀ g ∈ plan, g ≠ []) →
        group ≠ [] → ∀ g ∈ plan ++ [group], g ≠ [] := by
      intro plan group hplan hgroup g hg
      rcases List.mem_append.mp hg with hg | hg
      · exact hplan g hg
      · rw [List.mem_singleton.mp hg]
        exact hgroup
    unfold planFrom
    split
    · split
      · exact ih (hsnoc h (List.append_ne_nil_of_right_ne_nil _ (List.cons_ne_nil _ _)))
      · exact ih h
    · exact ih (hsnoc (closeGroup_nonempty h) (List.cons_ne_nil _ _))

/-- **The groups, concatenated, are the calls in the model's order.** -/
theorem planBatches_flatten (limit : Int) (names : List String) :
    (planBatches fnmatch readOnly humanApproval limit names).flatten =
      List.range names.length := by
  unfold planBatches
  rw [planFrom_flatten, List.range_eq_range']
  rfl

theorem planBatches_nonempty (limit : Int) (names : List String) :
    ∀ g ∈ planBatches fnmatch readOnly humanApproval limit names, g ≠ [] :=
  planFrom_nonempty (by simp)

/-! ## What a group holds -/

/-- The call at an index may run with others. -/
def Eligible (fnmatch : String → String → Bool) (readOnly humanApproval : List String)
    (names : List String) (i : Nat) : Prop :=
  ∃ name, names[i]? = some name ∧ isParallelSafe fnmatch readOnly humanApproval name = true

/-- A group within the bound, of one call or of calls that meet `P`. -/
def Sound (bound : Nat) (P : Nat → Prop) (g : List Nat) : Prop :=
  g.length ≤ bound ∧ (1 < g.length → ∀ i ∈ g, P i)

variable {P : Nat → Prop}

theorem sound_singleton (hbound : 0 < bound) (i : Nat) : Sound bound P [i] := by
  refine ⟨hbound, fun h => ?_⟩
  rw [List.length_singleton] at h
  exact absurd h (Nat.lt_irrefl 1)

theorem sound_snoc {group : List Nat} (hplan : ∀ g ∈ plan, Sound bound P g)
    (hgroup : Sound bound P group) :
    ∀ g ∈ plan ++ [group], Sound bound P g := by
  intro g hg
  rcases List.mem_append.mp hg with hg | hg
  · exact hplan g hg
  · rw [List.mem_singleton.mp hg]
    exact hgroup

theorem closeGroup_sound (hplan : ∀ g ∈ plan, Sound bound P g) (hcurrent : Sound bound P current) :
    ∀ g ∈ closeGroup plan current, Sound bound P g := by
  unfold closeGroup
  split
  · exact hplan
  · exact sound_snoc hplan hcurrent

/-- The open group is below the bound and holds eligible calls only. -/
theorem planFrom_sound (hbound : 0 < bound) (hplan : ∀ g ∈ plan, Sound bound P g)
    (hlength : current.length < bound) (hcurrent : ∀ i ∈ current, P i)
    (hP : ∀ k name, names[k]? = some name →
      isParallelSafe fnmatch readOnly humanApproval name = true → P (index + k)) :
    ∀ g ∈ planFrom fnmatch readOnly humanApproval bound plan current serialised index names,
      Sound bound P g := by
  induction names generalizing plan current serialised index with
  | nil => exact closeGroup_sound hplan ⟨Nat.le_of_lt hlength, fun _ => hcurrent⟩
  | cons name names ih =>
    have hnext : ∀ k name, names[k]? = some name →
        isParallelSafe fnmatch readOnly humanApproval name = true → P (index + 1 + k) := by
      intro k name hname hsafe
      have h := hP (k + 1) name (by simpa using hname) hsafe
      rwa [Nat.add_assoc, Nat.add_comm 1 k]
    unfold planFrom
    split
    · next hsafe =>
      have hindex : P index := hP 0 name rfl (by simp_all)
      have hopen : ∀ i ∈ current ++ [index], P i := by
        intro i hi
        rcases List.mem_append.mp hi with hi | hi
        · exact hcurrent i hi
        · rw [List.mem_singleton.mp hi]
          exact hindex
      have hlen : (current ++ [index]).length = current.length + 1 := List.length_append
      split
      · have hfull : Sound bound P (current ++ [index]) := ⟨by omega, fun _ => hopen⟩
        exact ih (sound_snoc hplan hfull) hbound (by simp) hnext
      · exact ih hplan (by omega) hopen hnext
    · have hclosed : ∀ g ∈ closeGroup plan current, Sound bound P g :=
        closeGroup_sound hplan ⟨Nat.le_of_lt hlength, fun _ => hcurrent⟩
      exact ih (sound_snoc hclosed (sound_singleton hbound index)) hbound (by simp) hnext

theorem clampParallelLimit_pos (limit : Int) : 0 < clampParallelLimit limit := by
  unfold clampParallelLimit MAX_PARALLEL_TOOL_CALLS
  split <;> omega

/-- The groups of a partition in order have no gaps. -/
theorem mem_of_between {groups : List (List Nat)} {n i j k : Nat} {g : List Nat}
    (hflatten : groups.flatten = List.range n) (hg : g ∈ groups) (hi : i ∈ g) (hj : j ∈ g)
    (hik : i < k) (hkj : k < j) : k ∈ g := by
  obtain ⟨before, after, rfl⟩ := List.append_of_mem hg
  rw [List.flatten_append, List.flatten_cons] at hflatten
  have hsorted := List.pairwise_lt_range (n := n)
  rw [← hflatten, List.pairwise_append] at hsorted
  obtain ⟨-, hrest, hbefore⟩ := hsorted
  obtain ⟨-, -, hafter⟩ := List.pairwise_append.mp hrest
  have hjn : j < n := by
    rw [← List.mem_range, ← hflatten]
    exact List.mem_append_right _ (List.mem_append_left _ hj)
  have hk : k ∈ before.flatten ++ (g ++ after.flatten) := by
    rw [hflatten, List.mem_range]
    omega
  rcases List.mem_append.mp hk with hk | hk
  · have := hbefore k hk i (List.mem_append_left _ hi)
    omega
  · rcases List.mem_append.mp hk with hk | hk
    · exact hk
    · have := hafter j hj k hk
      omega

/-- **The plan is an order-preserving partition** of the turn's calls. -/
theorem planBatches_partition (limit : Int) (names : List String) :
    (planBatches fnmatch readOnly humanApproval limit names).flatten = List.range names.length ∧
    (∀ g ∈ planBatches fnmatch readOnly humanApproval limit names,
      g.length ≤ clampParallelLimit limit) ∧
    (∀ g ∈ planBatches fnmatch readOnly humanApproval limit names, 1 < g.length →
      ∀ i ∈ g, Eligible fnmatch readOnly humanApproval names i) ∧
    (∀ i j k, i < k → k < j → ¬ Eligible fnmatch readOnly humanApproval names k →
      ∀ g ∈ planBatches fnmatch readOnly humanApproval limit names, ¬ (i ∈ g ∧ j ∈ g)) := by
  have hbound := clampParallelLimit_pos limit
  have hempty : ([] : List Nat).length < clampParallelLimit limit := hbound
  have hsound : ∀ g ∈ planBatches fnmatch readOnly humanApproval limit names,
      Sound (clampParallelLimit limit) (Eligible fnmatch readOnly humanApproval names) g := by
    refine planFrom_sound hbound (by simp) hempty (by simp) ?_
    intro k name hname hsafe
    rw [Nat.zero_add]
    exact ⟨name, hname, hsafe⟩
  refine ⟨planBatches_flatten limit names, fun g hg => (hsound g hg).1,
    fun g hg => (hsound g hg).2, ?_⟩
  rintro i j k hik hkj hnot g hg ⟨hi, hj⟩
  have hk : k ∈ g := mem_of_between (planBatches_flatten limit names) hg hi hj hik hkj
  apply hnot
  refine (hsound g hg).2 ?_ k hk
  -- two members that differ
  by_contra hlen
  match g, hi, hj, hlen with
  | [a], hi, hj, _ =>
    rw [List.mem_singleton] at hi hj
    omega
  | _ :: _ :: _, _, _, hlen => exact hlen (by simp)

end GenusOs.Engine.ToolTurn
