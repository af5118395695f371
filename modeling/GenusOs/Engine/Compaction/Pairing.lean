import GenusOs.Engine.Compaction.Compact

/-!
# What compaction does to the pairing of tool calls

The passes that rewrite contents keep every message's shape, so they keep the pairing. What moves or
drops messages tears an exchange in two ways: the protected prefix may end inside it, and the text
`[RETAINED CONTEXT]` in one of its messages lifts that message out of it.

* `shape_prePass`, `shape_shrinkLargest`: the passes that keep the shape.
* `Layout.splitForSummary_eq`: the three parts of the split, as filters of the tail.
* `Thinned.drop`, `Thinned.wellPaired`: a cut in front of no result falls between two exchanges, and
  what is left behind it is well paired where no exchange is torn.
-/

namespace GenusOs.Engine.Compaction

open GenusOs.Python

variable {env : Platform} {ms ns : List Message} {m : Message} {p : List String}

/-! ## Passes that keep the shape -/

section Kept

variable {β : Type} {g : Message → β}

theorem map_beforeTail {f : List Message → List Message} (k : Nat)
    (hf : ∀ ms, (f ms).map g = ms.map g) : (beforeTail k f ms).map g = ms.map g := by
  unfold beforeTail
  rw [List.map_append, hf, ← List.map_append, List.take_append_drop]

theorem map_each {f : Message → Message} (hf : ∀ m, g (f m) = g m) (ms : List Message) :
    (ms.map f).map g = ms.map g := by
  rw [List.map_map]
  exact List.map_congr_left fun m _ => hf m

variable (hg : ∀ (m : Message) (c : Content), g { m with content := c } = g m)

include hg

theorem map_dedup (ms : List Message) : (dedupToolResults env ms).map g = ms.map g := by
  induction ms with
  | nil => rfl
  | cons m ms ih =>
    rw [dedupToolResults, List.map_cons, List.map_cons, ih]
    split
    · rw [hg]
    · rfl

theorem kept_stripMedia (m : Message) : g (stripMedia m) = g m := by
  unfold stripMedia
  split
  · exact hg _ _
  · rfl

theorem kept_elide (m : Message) : g (elideLargeToolResult env m) = g m := by
  unfold elideLargeToolResult
  split
  · split
    · exact hg _ _
    · rfl
  · rfl

/-- The pre-pass keeps every message in its place, with all but contents and arguments. -/
theorem map_prePass (htruncate : ∀ m, g (truncateToolArguments env m) = g m) (k : Nat) :
    (llmFreePrePass env ms k).map g = ms.map g := by
  unfold llmFreePrePass
  simp only [List.map_append]
  rw [map_beforeTail k (map_each htruncate), map_beforeTail k (map_each (kept_elide hg)),
    map_beforeTail k (map_each (kept_stripMedia hg)), map_beforeTail k (map_dedup hg),
    ← List.map_append, List.take_append_drop]

theorem map_shrinkLoop {drainTo : Int} {order : List Nat} :
    ∀ {out : List Message} {n : Nat},
      (shrinkLoop env drainTo out n order).1.map g = out.map g := by
  induction order with
  | nil => intros; rfl
  | cons i order ih =>
    intro out n
    unfold shrinkLoop
    split
    · rfl
    · split
      · exact ih
      · next m hm =>
        split
        · exact ih
        · rw [ih, List.map_set, hg]
          refine List.ext_getElem? fun j => ?_
          rw [List.getElem?_set]
          split
          · next hij =>
            subst hij
            obtain ⟨hlt, rfl⟩ := List.getElem?_eq_some_iff.mp hm
            simp [hlt]
          · rfl

theorem map_shrinkLargest (drainTo : Int) : (shrinkLargest env ms drainTo).1.map g = ms.map g :=
  map_shrinkLoop hg

end Kept

theorem shape_truncate (m : Message) : (truncateToolArguments env m).shape = m.shape := by
  have hids : (truncateToolArguments env m).callIds = m.callIds := by
    simp only [truncateToolArguments, Message.callIds, List.map_map]
    refine List.map_congr_left fun call _ => ?_
    simp only [Function.comp_apply]
    split <;> rfl
  simp only [Message.shape, hids]
  rfl

theorem shape_prePass (k : Nat) :
    (llmFreePrePass env ms k).map Message.shape = ms.map Message.shape :=
  map_prePass (fun _ _ => rfl) shape_truncate k

theorem shape_shrinkLargest (drainTo : Int) :
    (shrinkLargest env ms drainTo).1.map Message.shape = ms.map Message.shape :=
  map_shrinkLargest (fun _ _ => rfl) drainTo

/-! ## The flags and the hoisted messages -/

/-- `_in_tool_exchange` flags the messages that are not plain, provided the ids it waits for are
among those still to be answered. -/
theorem inToolExchange_eq {pending : List String} (h : scan p ms = some [])
    (hp : pending ⊆ p) : inToolExchange pending ms = ms.map (!·.isPlain) := by
  induction ms generalizing p pending with
  | nil => rfl
  | cons m ms ih =>
    rw [scan_cons] at h
    obtain ⟨q, hq, hrest⟩ := Option.bind_eq_some_iff.mp h
    unfold inToolExchange
    by_cases ht : m.isTool = true
    · rw [if_pos ht, List.map_cons]
      simp only [pairStep, ht, ↓reduceIte] at hq
      split at hq
      · cases hq
        rw [ih hrest]
        · simp [Message.isPlain, ht]
        · intro i hi
          simp only [List.mem_filter, ne_eq, decide_eq_true_eq] at hi
          exact (List.mem_erase_of_ne hi.2).mpr (hp hi.1)
      · cases hq
    · have hnil : p = [] := by
        by_contra hne
        rw [pairStep_not_tool (by simpa using ht) hne] at hq
        cases hq
      subst hnil
      have hpending : pending = [] := List.subset_nil.mp hp
      simp only [pairStep, ht, Bool.false_eq_true, ↓reduceIte, List.isEmpty_nil,
        Bool.not_true] at hq
      by_cases hcalls : m.toolCalls.isEmpty = true
      · simp only [hcalls, ↓reduceIte, Option.some.injEq] at hq
        subst hq
        rw [if_neg ht, if_pos hcalls, List.map_cons, ih hrest hp]
        simp [Message.isPlain, ht, hcalls, hpending]
      · simp only [hcalls, Bool.false_eq_true, ↓reduceIte] at hq
        split at hq
        · cases hq
          rw [if_neg ht, if_neg hcalls, List.map_cons, ih hrest (List.Subset.refl _)]
          simp [Message.isPlain, hcalls]
        · cases hq

/-- A pinned message that compaction may move. -/
def Message.isHoisted (m : Message) : Bool := m.isPinned && m.isPlain

theorem hoist_eq (h : scan p ms = some []) :
    hoist ms = (ms.filter (·.isHoisted), ms.filter (!·.isHoisted)) := by
  have hzip : ms.zip (inToolExchange [] ms) = ms.map fun m => (m, !m.isPlain) := by
    rw [inToolExchange_eq h (List.nil_subset _)]
    exact List.map_prod_left_eq_zip.symm
  have hfst : ((·.1) ∘ fun m : Message => (m, !m.isPlain)) = id := rfl
  unfold hoist
  simp only [hzip, List.filter_map, List.map_map, hfst, List.map_id]
  refine Prod.ext ?_ ?_ <;> refine List.filter_congr fun m _ => ?_ <;>
    simp [Message.isHoisted]

/-! ## Where the head ends -/

/-- The messages behind the protected prefix. -/
def tailOf (env : Platform) (ms : List Message) :
    List Message := ms.drop (protectedPrefixLen env ms)

/-- The protected prefix ends inside an exchange: results follow it. -/
def cutResults (env : Platform) (ms : List Message) : List Message :=
  (tailOf env ms).takeWhile (·.isTool)

/-- Head, results of the exchange the prefix cuts, and the groups behind them. -/
structure Layout (env : Platform) (ms : List Message) (pending : List String)
    (groups : List (List Message)) : Prop where
  head : scan [] (ms.take (protectedPrefixLen env ms)) = some pending
  tail : scan pending (tailOf env ms) = some []
  results : scan pending (cutResults env ms) = some []
  split : tailOf env ms = cutResults env ms ++ groups.flatten
  groups : ∀ g ∈ groups, IsGroup g

theorem head_append_tail (env : Platform) (ms : List Message) :
    ms.take (protectedPrefixLen env ms) ++ tailOf env ms = ms :=
  List.take_append_drop _ _

/-- A well paired list starts with no result. -/
theorem WellPaired.takeWhile_tool (h : WellPaired ms) : ms.takeWhile (·.isTool) = [] := by
  cases ms with
  | nil => rfl
  | cons m ms =>
    rw [List.takeWhile_cons_of_neg]
    intro ht
    unfold WellPaired at h
    rw [scan_cons] at h
    simp [pairStep, ht] at h

theorem WellPaired.layout (env : Platform) (h : WellPaired ms) :
    ∃ pending groups, Layout env ms pending groups := by
  have hscan := h
  unfold WellPaired at hscan
  rw [← head_append_tail env ms, scan_append] at hscan
  obtain ⟨q, hq, htail⟩ := Option.bind_eq_some_iff.mp hscan
  by_cases hne : q = []
  · subst hne
    have hw : WellPaired (tailOf env ms) := htail
    obtain ⟨gs, hgs, hgroups⟩ := hw.groups
    have hcut : cutResults env ms = [] := hw.takeWhile_tool
    exact ⟨[], gs, hq, htail, by rw [hcut]; rfl, by rw [hcut]; exact hgs, hgroups⟩
  · obtain ⟨rs, ns, hsplit, hrs, htools, -, hns⟩ := scan_results hne htail
    obtain ⟨gs, rfl, hgroups⟩ := hns.groups
    have hcut : cutResults env ms = rs := by
      unfold cutResults
      rw [hsplit, List.takeWhile_append_of_pos htools, hns.takeWhile_tool, List.append_nil]
    exact ⟨q, gs, hq, htail, by rw [hcut]; exact hrs, by rw [hcut]; exact hsplit, hgroups⟩

namespace Layout

variable {pending : List String} {groups : List (List Message)}

/-- Results follow the prefix exactly where calls of it are unanswered. -/
theorem cutResults_eq_nil_iff (h : Layout env ms pending groups) :
    cutResults env ms = [] ↔ pending = [] := by
  constructor
  · intro hnil
    have := h.results
    rw [hnil] at this
    exact Option.some.inj this
  · rintro rfl
    exact WellPaired.takeWhile_tool h.tail

theorem mem_cutResults_tool (hm : m ∈ cutResults env ms) : m.isTool = true :=
  List.all_eq_true.mp List.all_takeWhile m hm

/-- What a filter keeps of the tail. -/
theorem filter_tail (h : Layout env ms pending groups) (keep : Message → Bool) :
    (tailOf env ms).filter keep =
      (cutResults env ms).filter keep ++ (groups.map (·.filter keep)).flatten := by
  rw [h.split, List.filter_append, List.filter_flatten]

/-- The three parts of `_split_for_summary`. -/
theorem splitForSummary_eq (h : Layout env ms pending groups) :
    splitForSummary env ms =
      (ms.take (protectedPrefixLen env ms) ++ (tailOf env ms).filter (·.isHoisted),
        (tailOf env ms).filter (fun m => !m.isHoisted && m.isRetainedContext),
        (tailOf env ms).filter (fun m => !m.isHoisted && !m.isRetainedContext)) := by
  have hh : hoist (ms.drop (protectedPrefixLen env ms)) = _ := hoist_eq h.tail
  unfold splitForSummary
  simp only [hh, List.filter_filter]
  refine Prod.ext rfl (Prod.ext ?_ ?_) <;> refine List.filter_congr fun m _ => ?_ <;>
    simp [Bool.and_comm]

end Layout

theorem Message.isHoisted_plain (h : m.isHoisted = true) : m.isPlain = true := by
  simp only [Message.isHoisted, Bool.and_eq_true] at h
  exact h.2

theorem hoisted_plain (ms : List Message) : ∀ m ∈ ms.filter (·.isHoisted), m.isPlain = true :=
  fun _ hm => Message.isHoisted_plain (List.mem_filter.mp hm).2

/-- A filter that takes each exchange whole or not at all keeps the pairing. -/
theorem wellPaired_filter_groups {groups : List (List Message)} {keep : Message → Bool}
    (hg : ∀ g ∈ groups, IsGroup g)
    (hkeep : ∀ g ∈ groups, IsExchange g → (∀ m ∈ g, keep m = true) ∨ ∀ m ∈ g, keep m = false) :
    WellPaired (groups.map (·.filter keep)).flatten := by
  refine wellPaired_flatten fun part hpart => ?_
  obtain ⟨g, hmem, rfl⟩ := List.mem_map.mp hpart
  rcases hg g hmem with ⟨m, rfl, hplain⟩ | hex
  · refine wellPaired_of_plain fun n hn => ?_
    rw [List.mem_singleton.mp (List.mem_filter.mp hn).1]
    exact hplain
  · rcases hkeep g hmem hex with hall | hnone
    · rw [List.filter_eq_self.mpr hall]
      exact hex.paired
    · rw [List.filter_eq_nil_iff.mpr fun m hm => by simp [hnone m hm]]
      rfl

/-! ## The slice and its recent part -/

/-- The list holds, group by group, what `keep` leaves of the group, or nothing of a plain one. -/
inductive Thinned (keep : Message → Bool) : List (List Message) → List Message → Prop
  | nil : Thinned keep [] []
  | kept {g : List Message} {gs : List (List Message)} {out : List Message} :
      Thinned keep gs out → Thinned keep (g :: gs) (g.filter keep ++ out)
  | dropped {m : Message} {gs : List (List Message)} {out : List Message} :
      Thinned keep gs out → Thinned keep ([m] :: gs) out

theorem IsExchange.not_summary {g : List Message} (h : IsExchange g) (hm : m ∈ g) :
    m.isSummary = false ∧ m.isAck = false := by
  have hplain := h.not_plain hm
  have hrole := h.role hm
  have huser : m.role ≠ "user" := by
    rcases hrole with hr | ht
    · rw [hr]
      decide
    · intro hr
      simp [Message.isTool, hr] at ht
  constructor
  · unfold Message.isSummary
    split
    · simp [huser]
    · rfl
  · unfold Message.isAck
    split
    · rcases hrole with hr | ht
      · have hnt : m.isTool = false := by simp [Message.isTool, hr]
        have hcalls : m.toolCalls.isEmpty = false := by simpa [Message.isPlain, hnt] using hplain
        simp [hcalls]
      · have hr : m.role ≠ "assistant" := by
          intro hr
          simp [Message.isTool, hr] at ht
        simp [hr]
    · rfl

/-- Messages that are neither a summary nor an acknowledgement stay. -/
theorem takePreviousSummary_append {part : List Message}
    (h : ∀ m ∈ part, m.isSummary = false ∧ m.isAck = false) :
    ∀ skipAck, ∃ skipAck', (takePreviousSummary skipAck (part ++ ms)).2 =
      part ++ (takePreviousSummary skipAck' ms).2 := by
  induction part with
  | nil => exact fun skipAck => ⟨skipAck, rfl⟩
  | cons m part ih =>
    intro skipAck
    obtain ⟨hs, ha⟩ := h m List.mem_cons_self
    obtain ⟨skipAck', hrec⟩ := ih (fun m hm => h m (List.mem_cons_of_mem _ hm)) false
    refine ⟨skipAck', ?_⟩
    rw [List.cons_append, takePreviousSummary]
    simp only [hs, ha, Bool.and_false, Bool.false_eq_true, ↓reduceIte, hrec]
    rfl

theorem thinned_takePreviousSummary (keep : Message → Bool) {groups : List (List Message)}
    (hg : ∀ g ∈ groups, IsGroup g) :
    ∀ skipAck, Thinned keep groups
      (takePreviousSummary skipAck (groups.map (·.filter keep)).flatten).2 := by
  induction groups with
  | nil => exact fun _ => .nil
  | cons g groups ih =>
    intro skipAck
    have ih := ih fun g h => hg g (List.mem_cons_of_mem _ h)
    rw [List.map_cons, List.flatten_cons]
    rcases hg g List.mem_cons_self with ⟨m, rfl, hplain⟩ | hex
    · by_cases hk : keep m = true
      · have hpart : [m].filter keep = [m] := by simp [hk]
        rw [hpart, List.singleton_append, takePreviousSummary]
        split
        · exact .dropped (ih true)
        · split
          · exact .dropped (ih false)
          · have := Thinned.kept (g := [m]) (ih false)
            rw [hpart] at this
            exact this
      · have hpart : [m].filter keep = [] := by simp [hk]
        rw [hpart, List.nil_append]
        exact .dropped (ih skipAck)
    · have hpart : ∀ m ∈ g.filter keep, m.isSummary = false ∧ m.isAck = false :=
        fun m hm => hex.not_summary (List.mem_filter.mp hm).1
      obtain ⟨skipAck', hrec⟩ := takePreviousSummary_append hpart skipAck
      rw [hrec]
      exact .kept (ih skipAck')

/-- In front of the list stands no result. -/
def StartsClean (ms : List Message) : Prop := ∀ m ∈ ms.head?, m.isTool = false

/-- A message behind the first one of what is left of an exchange is a result. -/
theorem IsExchange.filter_tail_tool {g : List Message} {keep : Message → Bool}
    (h : IsExchange g) {i : Nat} (hi : 0 < i) (hm : (g.filter keep)[i]? = some m) :
    m.isTool = true := by
  obtain ⟨call, results, rfl, -, htools⟩ := h.call
  have hmem : m ∈ results.filter keep := by
    by_cases hk : keep call = true
    · rw [List.filter_cons_of_pos hk] at hm
      obtain ⟨n, rfl⟩ := Nat.exists_eq_add_of_lt hi
      rw [Nat.zero_add, List.getElem?_cons_succ] at hm
      exact List.mem_of_getElem? hm
    · rw [List.filter_cons_of_neg hk] at hm
      exact List.mem_of_getElem? hm
  exact htools m (List.mem_filter.mp hmem).1

/-- A cut in front of no result falls between two groups. -/
theorem Thinned.drop {keep : Message → Bool} {groups : List (List Message)} {out : List Message}
    (h : Thinned keep groups out) (hg : ∀ g ∈ groups, IsGroup g) :
    ∀ idx, StartsClean (out.drop idx) →
      ∃ groups', groups' ⊆ groups ∧ Thinned keep groups' (out.drop idx) := by
  induction h with
  | nil => exact fun idx _ => ⟨[], List.Subset.refl _, by rw [List.drop_nil]; exact .nil⟩
  | @dropped m gs out _ ih =>
    intro idx hclean
    obtain ⟨gs', hsub, ht⟩ := ih (fun g h => hg g (List.mem_cons_of_mem _ h)) idx hclean
    exact ⟨gs', List.subset_cons_of_subset _ hsub, ht⟩
  | @kept g gs out ht ih =>
    intro idx hclean
    by_cases hlen : (g.filter keep).length ≤ idx
    · rw [List.drop_append, List.drop_eq_nil_of_le hlen, List.nil_append] at hclean ⊢
      obtain ⟨gs', hsub, ht'⟩ := ih (fun g h => hg g (List.mem_cons_of_mem _ h)) _ hclean
      exact ⟨gs', List.subset_cons_of_subset _ hsub, ht'⟩
    · cases idx with
      | zero => exact ⟨g :: gs, List.Subset.refl _, .kept ht⟩
      | succ idx =>
        exfalso
        have hlt : idx + 1 < (g.filter keep).length := by omega
        have hhead : ((g.filter keep ++ out).drop (idx + 1)).head? =
            some (g.filter keep)[idx + 1] := by
          rw [List.head?_drop, List.getElem?_append_left hlt, List.getElem?_eq_getElem hlt]
        have hnt := hclean _ hhead
        rcases hg g List.mem_cons_self with ⟨m, rfl, -⟩ | hex
        · have := List.length_filter_le keep [m]
          simp only [List.length_singleton] at this
          omega
        · rw [hex.filter_tail_tool (Nat.succ_pos idx) (List.getElem?_eq_getElem hlt)] at hnt
          cases hnt

/-- Where no exchange that left a message is torn, what is left is well paired. -/
theorem Thinned.wellPaired {keep : Message → Bool} {groups : List (List Message)}
    {out : List Message} (h : Thinned keep groups out) (hg : ∀ g ∈ groups, IsGroup g)
    (hwhole : ∀ m ∈ out, ∀ g ∈ groups, IsExchange g → m ∈ g → ∀ x ∈ g, keep x = true) :
    WellPaired out := by
  induction h with
  | nil => rfl
  | @dropped m gs out _ ih =>
    exact ih (fun g h => hg g (List.mem_cons_of_mem _ h))
      fun m hm g hmem => hwhole m hm g (List.mem_cons_of_mem _ hmem)
  | @kept g gs out _ ih =>
    have hout : WellPaired out := ih (fun g h => hg g (List.mem_cons_of_mem _ h))
      fun m hm g hmem => hwhole m (List.mem_append_right _ hm) g (List.mem_cons_of_mem _ hmem)
    refine WellPaired.append ?_ hout
    rcases hg g List.mem_cons_self with ⟨m, rfl, hplain⟩ | hex
    · refine wellPaired_of_plain fun n hn => ?_
      rw [List.mem_singleton.mp (List.mem_filter.mp hn).1]
      exact hplain
    · by_cases hnil : g.filter keep = []
      · rw [hnil]
        rfl
      · obtain ⟨m, hm⟩ := List.exists_mem_of_ne_nil _ hnil
        have hall := hwhole m (List.mem_append_left _ hm) g List.mem_cons_self hex
          (List.mem_filter.mp hm).1
        rw [List.filter_eq_self.mpr hall]
        exact hex.paired

theorem walkBack_clean (ms : List Message) (idx : Nat) :
    findSafeSplitIndex.walkBack ms idx = 0 ∨
      StartsClean (ms.drop (findSafeSplitIndex.walkBack ms idx)) := by
  induction idx with
  | zero => exact Or.inl rfl
  | succ idx ih =>
    unfold findSafeSplitIndex.walkBack
    split
    · exact ih
    · next ht =>
      refine Or.inr fun m hm => ?_
      rw [List.head?_drop] at hm
      rw [Option.mem_def.mp hm] at ht
      simpa using ht

/-- A safe split index cuts in front of no result. -/
theorem findSafeSplitIndex_clean (ms : List Message) (idx : Nat) :
    findSafeSplitIndex ms idx = 0 ∨ StartsClean (ms.drop (findSafeSplitIndex ms idx)) := by
  unfold findSafeSplitIndex
  split
  · next h =>
    rcases h with h | h
    · exact Or.inl h
    · refine Or.inr fun m hm => ?_
      rw [List.drop_eq_nil_of_le h] at hm
      cases hm
  · exact walkBack_clean ms idx

theorem splitIdx_clean (env : Platform) (drainTo : Int) (rest : List Message) :
    splitIdx env drainTo rest = 0 ∨ StartsClean (rest.drop (splitIdx env drainTo rest)) := by
  unfold splitIdx
  split
  · exact findSafeSplitIndex_clean _ _
  · exact Or.inl rfl

end GenusOs.Engine.Compaction
