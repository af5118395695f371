import GenusOs.Engine.Compaction.ProtectedHead
import Mathlib

/-!
# Where the protected prefix cuts

The shrinking loop of `protected_prefix_len` looks at the last message of the prefix, so it steps
back from a call, and not from a result that further results follow.

* `take_wellPaired_iff`: a cut falls between two exchanges, exactly in front of no result.
* `prefix_cut_iff`: when the prefix holds the exchanges that it starts whole.
-/

namespace GenusOs.Engine.Compaction

variable {env : Platform} {ms : List Message} {m n : Message} {i k : Nat}

/-! ## Cuts of a well paired list -/

theorem WellPaired.head_not_tool (h : WellPaired (m :: ms)) : m.isTool = false := by
  by_contra ht
  have hnone := h.takeWhile_tool
  rw [List.takeWhile_cons_of_pos (by simpa using ht)] at hnone
  cases hnone

theorem take_wellPaired_iff (h : WellPaired ms) :
    WellPaired (ms.take k) ↔ ∀ m, ms[k]? = some m → m.isTool = false := by
  cases hm : ms[k]? with
  | none =>
    rw [List.take_of_length_le (List.getElem?_eq_none_iff.mp hm)]
    exact ⟨fun _ => nofun, fun _ => h⟩
  | some m =>
    obtain ⟨hk, rfl⟩ := List.getElem?_eq_some_iff.mp hm
    have hsplit : ms.take k ++ ms[k] :: ms.drop (k + 1) = ms := by
      rw [← List.drop_eq_getElem_cons hk]
      exact List.take_append_drop k ms
    constructor
    · intro htake m hm
      obtain rfl := Option.some.inj hm
      rw [← hsplit, htake.append_iff] at h
      exact h.head_not_tool
    · intro hall
      rw [← hsplit, wellPaired_append_cons (hall _ rfl)] at h
      exact h.1

/-- A call is no result. -/
theorem WellPaired.call_not_tool (h : WellPaired ms) (hm : ms[i]? = some m)
    (hcalls : m.toolCalls.isEmpty = false) : m.isTool = false := by
  by_contra ht
  have hnone := callIds_of_tool h (List.mem_of_getElem? hm) (by simpa using ht)
  rw [Message.callIds, List.map_eq_nil_iff] at hnone
  rw [hnone] at hcalls
  cases hcalls

/-- Behind a call comes a result. -/
theorem WellPaired.tool_of_call (h : WellPaired ms) (hm : ms[i]? = some m)
    (hcalls : m.toolCalls.isEmpty = false) (hn : ms[i + 1]? = some n) : n.isTool = true := by
  by_contra ht
  have htake : WellPaired (ms.take (i + 1)) := by
    rw [take_wellPaired_iff h]
    intro x hx
    obtain rfl := Option.some.inj (hn.symm.trans hx)
    simpa using ht
  obtain ⟨hi, rfl⟩ := List.getElem?_eq_some_iff.mp hm
  rw [List.take_succ_eq_append_getElem hi,
    wellPaired_append_cons (h.call_not_tool hm hcalls)] at htake
  have hcall := htake.2
  unfold WellPaired at hcall
  rw [scan_cons] at hcall
  obtain ⟨waiting, hstep, hrest⟩ := Option.bind_eq_some_iff.mp hcall
  obtain rfl := Option.some.inj hrest
  unfold pairStep at hstep
  rw [if_neg (by simpa using h.call_not_tool hm hcalls)] at hstep
  simp only [List.isEmpty_nil, Bool.not_true, Bool.false_eq_true, ↓reduceIte, hcalls] at hstep
  split at hstep
  · have hnil := Option.some.inj hstep
    rw [Message.callIds, List.map_eq_nil_iff] at hnil
    rw [hnil] at hcalls
    cases hcalls
  · cases hstep

/-! ## The prefix -/

/-- Where the setting alone ends the prefix. -/
def prefixBound (env : Platform) (ms : List Message) : Nat :=
  (max 1 (min env.protectFirstN ms.length)).toNat

/-- No result is the first message behind that bound, or a call is the last one in front of it, and
not the first of the list. -/
def BoundsExchanges (env : Platform) (ms : List Message) : Prop :=
  (∀ m, ms[prefixBound env ms]? = some m → m.isTool = false) ∨
    1 < prefixBound env ms ∧
      ∃ m, ms[prefixBound env ms - 1]? = some m ∧ m.toolCalls.isEmpty = false

theorem protectedPrefixLen_eq (hne : ms ≠ []) :
    protectedPrefixLen env ms = protectedPrefixLen.shrink ms (prefixBound env ms) := by
  unfold protectedPrefixLen
  rw [if_neg (by simpa using hne)]
  rfl

/-- The loop stays where the last message makes no call, or is the first one. -/
theorem shrink_eq (h : k ≤ 1 ∨ (ms[k - 1]?).any (!·.toolCalls.isEmpty) = false) :
    protectedPrefixLen.shrink ms k = k :=
  le_antisymm (shrink_le k) (le_shrink le_rfl h)

/-- **The protected prefix holds the exchanges that it starts whole**, exactly where its bound does
not fall among results. -/
theorem prefix_cut_iff (env : Platform) (h : WellPaired ms) :
    WellPaired (ms.take (protectedPrefixLen env ms)) ↔ BoundsExchanges env ms := by
  by_cases hne : ms = []
  · subst hne
    exact ⟨fun _ => .inl nofun, fun _ => rfl⟩
  rw [protectedPrefixLen_eq hne]
  unfold BoundsExchanges
  generalize prefixBound env ms = bound
  by_cases hcall : 1 < bound ∧ ∃ m, ms[bound - 1]? = some m ∧ m.toolCalls.isEmpty = false
  · -- The loop takes one step back, since no call stands in front of a call.
    refine ⟨fun _ => .inr hcall, fun _ => ?_⟩
    obtain ⟨hlt, m, hm, hcalls⟩ := hcall
    obtain ⟨k, rfl⟩ := Nat.exists_eq_add_of_le hlt
    rw [show 0 + 1 + 1 + k = k + 2 by omega] at hm ⊢
    rw [Nat.add_sub_cancel (k + 1) 1] at hm
    have hback : protectedPrefixLen.shrink ms (k + 2) = k + 1 := by
      rw [protectedPrefixLen.shrink, hm, Option.any_some, hcalls]
      refine shrink_eq ?_
      by_cases hk : k = 0
      · exact .inl (by omega)
      · right
        rw [Nat.add_sub_cancel]
        cases hn : ms[k]? with
        | none => rfl
        | some n =>
          by_contra hother
          have htool := h.tool_of_call hn (by simpa using hother) hm
          rw [h.call_not_tool hm hcalls] at htool
          cases htool
    rw [hback, take_wellPaired_iff h]
    intro x hx
    obtain rfl := Option.some.inj (hm.symm.trans hx)
    exact h.call_not_tool hm hcalls
  · have hstays : protectedPrefixLen.shrink ms bound = bound := by
      refine shrink_eq (or_iff_not_imp_left.mpr fun hlt => ?_)
      cases hm : ms[bound - 1]? with
      | none => rfl
      | some m =>
        by_contra hcalls
        exact hcall ⟨not_le.mp hlt, m, hm, by simpa using hcalls⟩
    rw [hstays, take_wellPaired_iff h, or_iff_left hcall]

/-- The default setting, and a turn with two calls right behind the system message. -/
def parallelCalls : List Message :=
  [{ role := "system", content := .text "You are an agent." },
    { role := "assistant", toolCalls := [{ id := "c1" }, { id := "c2" }] },
    { role := "tool", toolCallId := "c1", content := .text "one" },
    { role := "tool", toolCallId := "c2", content := .text "two" }]

theorem prefix_splits_parallel_calls :
    ¬ ∀ (env : Platform) (ms : List Message), WellPaired ms →
      WellPaired (ms.take (protectedPrefixLen env ms)) := by
  intro h
  exact absurd (h plainPlatform parallelCalls (by decide)) (by decide)

/-- A bound right behind the call steps back in front of it. -/
theorem prefix_steps_back :
    WellPaired (parallelCalls.take
      (protectedPrefixLen { plainPlatform with protectFirstN := 2 } parallelCalls)) :=
  (prefix_cut_iff _ (by decide)).mpr (.inr ⟨by decide, _, rfl, rfl⟩)

end GenusOs.Engine.Compaction
