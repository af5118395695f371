import GenusOs.Engine.Compaction.ContextFit
import Mathlib

/-!
# Removing exchanges

`_drop_tool_exchanges` goes over the calls from the head on, and dooms each with every later result
of one of its ids, until what is left of the total is within the budget.

* `survivors_dropLoop`: what is left, as a recursion over the conversation.
* `wellPaired_keepFrom_iff`: it is paired exactly where no call that stays has the id of a removed
  one.
-/

namespace GenusOs.Engine.Compaction

variable {price : Pricing} {keep : Option Nat} {budget : Int} {m n : Message} {ms ns : List Message}

/-! ## The loop -/

/-- The message is the result of a call with one of the ids. -/
def answers (ids : List String) (m : Message) : Bool := m.isTool && ids.contains m.toolCallId

/-- What stays of a conversation where the calls among its first `s` messages are removed, with
every later result of one of their ids; `ids` were removed before. -/
def keepFrom (ids : List String) : Nat → List Message → List Message
  | _, [] => []
  | s, m :: ms =>
    if 0 < s ∧ m.toolCalls.isEmpty = false then keepFrom (ids ++ m.callIds) (s - 1) ms
    else if answers ids m then keepFrom ids (s - 1) ms
    else m :: keepFrom ids (s - 1) ms

/-- How many messages the loop of `_drop_tool_exchanges` goes over before what is left of the total
is within the budget. -/
def dropEnd (price : Pricing) (keep : Option Nat) (budget : Int) (index : Nat) (total : Int) :
    List Message → Nat
  | [] => 0
  | m :: ms =>
    if total ≤ budget then 0
    else if some index = keep ∨ m.toolCalls.isEmpty then
      dropEnd price keep budget (index + 1) total ms + 1
    else
      let lost := (group index m ms).filter fun p => some p.2 ≠ keep
      dropEnd price keep budget (index + 1) (total - price.total (lost.map Prod.fst)) ms + 1

theorem keepFrom_zero (ids : List String) (ms : List Message) :
    keepFrom ids 0 ms = ms.filter fun m => !answers ids m := by
  induction ms with
  | nil => rfl
  | cons m ms ih =>
    rw [keepFrom, if_neg (fun hpos => absurd hpos.1 (lt_irrefl 0)), List.filter_cons, ih]
    cases answers ids m with
    | _ => rfl

theorem mem_group {index j : Nat} {call : Message} : j ∈ (group index call ms).map Prod.snd ↔
    j = index ∨ ∃ i m, ms[i]? = some m ∧ j = index + 1 + i ∧
      answers call.callIds m = true := by
  unfold group
  rw [List.map_cons, List.mem_cons]
  refine or_congr_right ?_
  constructor
  · intro hmem
    obtain ⟨⟨m, i⟩, hpair, rfl⟩ := List.mem_map.mp hmem
    obtain ⟨hzip, hlost⟩ := List.mem_filter.mp hpair
    rw [List.mem_zipIdx_iff_le_and_getElem?_sub] at hzip
    exact ⟨i - (index + 1), m, hzip.2, by have := hzip.1; omega, hlost⟩
  · rintro ⟨i, m, hm, rfl, hlost⟩
    refine List.mem_map.mpr ⟨(m, index + 1 + i), List.mem_filter.mpr ⟨?_, hlost⟩, rfl⟩
    rw [List.mem_zipIdx_iff_le_and_getElem?_sub]
    exact ⟨Nat.le_add_right _ _, by rwa [Nat.add_sub_cancel_left]⟩

/-- The loop dooms no message in front of it. -/
theorem mem_dropLoop_of_lt {index j : Nat} (hj : j < index) (total : Int) (doomed : Finset Nat)
    (ms : List Message) :
    j ∈ (dropLoop price keep budget index total doomed ms).2 ↔ j ∈ doomed := by
  induction ms generalizing index total doomed with
  | nil => rfl
  | cons m ms ih =>
    unfold dropLoop
    split
    · rfl
    · split
      · exact ih (Nat.lt_succ_of_lt hj) total doomed
      · rw [ih (Nat.lt_succ_of_lt hj), Finset.mem_union, List.mem_toFinset]
        refine or_iff_left fun hmem => ?_
        have hgroup : j ∈ (group index m ms).map Prod.snd :=
          (List.filter_sublist.map _).subset hmem
        rcases mem_group.mp hgroup with rfl | ⟨i, n, -, rfl, -⟩
        · exact lt_irrefl _ hj
        · omega

theorem survivors_cons {α : Type} (doomed : Finset Nat) (index : Nat) (x : α) (l : List α) :
    survivors doomed index (x :: l) = if index ∈ doomed then survivors doomed (index + 1) l
      else x :: survivors doomed (index + 1) l := by
  unfold survivors
  rw [List.zipIdx_cons, List.filter_cons]
  split
  · next hout => rw [if_neg (of_decide_eq_true hout), List.map_cons]
  · next hin => rw [if_pos (by simpa using hin)]

theorem survivors_eq_filter {index : Nat} {doomed : Finset Nat} {q : Message → Bool}
    (h : ∀ i m, ms[i]? = some m → (index + i ∈ doomed ↔ q m = true)) :
    survivors doomed index ms = ms.filter (!q ·) := by
  induction ms generalizing index with
  | nil => rfl
  | cons m ms ih =>
    have hfirst : index ∈ doomed ↔ q m = true := h 0 m rfl
    have hrest : survivors doomed (index + 1) ms = ms.filter (!q ·) := ih fun i n hn => by
      rw [← h (i + 1) n (by rwa [List.getElem?_cons_succ]), Nat.add_right_comm, Nat.add_assoc]
    rw [survivors_cons, List.filter_cons, hrest]
    by_cases hq : q m = true
    · rw [if_pos (hfirst.mpr hq), hq]
      rfl
    · rw [if_neg (fun hin => hq (hfirst.mp hin)), Bool.not_eq_true] at *
      rw [hq]
      rfl

/-- **What the loop leaves.** Neither the message at `keep` nor a result makes calls, and what was
doomed before are the results of the calls with `ids`. -/
theorem survivors_dropLoop {index : Nat} {total : Int} {doomed : Finset Nat} {ids : List String}
    (hcalls : ∀ i m, ms[i]? = some m → m.toolCalls.isEmpty = false →
      m.isTool = false ∧ some (index + i) ≠ keep)
    (hkeep : ∀ i m, ms[i]? = some m → some (index + i) = keep → m.isTool = false)
    (hdoomed : ∀ i m, ms[i]? = some m → (index + i ∈ doomed ↔ answers ids m = true)) :
    survivors (dropLoop price keep budget index total doomed ms).2 index ms =
      keepFrom ids (dropEnd price keep budget index total ms) ms := by
  induction ms generalizing index total doomed ids with
  | nil => rfl
  | cons m ms ih =>
    have hshift {P : Nat → Message → Prop}
        (hall : ∀ i n, (m :: ms)[i]? = some n → P (index + i) n) :
        ∀ i n, ms[i]? = some n → P (index + 1 + i) n := by
      intro i n hn
      have := hall (i + 1) n (by rwa [List.getElem?_cons_succ])
      rwa [← Nat.add_assoc, Nat.add_right_comm] at this
    have hcalls' := hshift (P := fun j n => n.toolCalls.isEmpty = false →
      n.isTool = false ∧ some j ≠ keep) hcalls
    have hkeep' := hshift (P := fun j n => some j = keep → n.isTool = false) hkeep
    have hdoomed' := hshift (P := fun j n => j ∈ doomed ↔ answers ids n = true) hdoomed
    have hfirst : index ∈ doomed ↔ answers ids m = true := hdoomed 0 m rfl
    have hstay (d : Finset Nat) (t : Int) :
        index ∈ (dropLoop price keep budget (index + 1) t d ms).2 ↔ index ∈ d :=
      mem_dropLoop_of_lt (Nat.lt_succ_self index) t d ms
    unfold dropLoop dropEnd
    split
    · rw [keepFrom_zero]
      exact survivors_eq_filter hdoomed
    · split
      · next hskip =>
        have hplain : m.toolCalls.isEmpty = true := by
          rcases hskip with hat | hempty
          · by_contra hne
            exact (hcalls 0 m rfl (by simpa using hne)).2 hat
          · exact hempty
        rw [keepFrom, hplain, if_neg (fun hcall => Bool.noConfusion hcall.2), Nat.add_sub_cancel,
          survivors_cons, ih hcalls' hkeep' hdoomed']
        exact if_congr ((hstay doomed total).trans hfirst) rfl rfl
      · next hdrop =>
        rw [not_or, Bool.not_eq_true] at hdrop
        have hlost : (group index m ms).filter (fun p => some p.2 ≠ keep) = group index m ms := by
          refine List.filter_eq_self.mpr fun p hmem => decide_eq_true fun hat => ?_
          rcases List.mem_cons.mp hmem with rfl | hmem
          · exact hdrop.1 hat
          · obtain ⟨hn, hanswers⟩ := List.mem_filter.mp hmem
            rw [List.mem_zipIdx_iff_le_and_getElem?_sub] at hn
            have hplace : index + 1 + (p.2 - (index + 1)) = p.2 := Nat.add_sub_cancel' hn.1
            have hnot := hkeep' _ p.1 hn.2 (hplace.symm ▸ hat)
            rw [Bool.and_eq_true, hnot] at hanswers
            cases hanswers.1
        have hmore : ∀ i n, ms[i]? = some n →
            (index + 1 + i ∈ doomed ∪ ((group index m ms).map Prod.snd).toFinset ↔
              answers (ids ++ m.callIds) n = true) := by
          intro i n hn
          have hboth : answers (ids ++ m.callIds) n = true ↔
              answers ids n = true ∨ answers m.callIds n = true := by
            simp [answers, and_or_left]
          rw [Finset.mem_union, List.mem_toFinset, hboth, mem_group]
          refine or_congr (hdoomed' i n hn) ⟨?_, fun hanswers => .inr ⟨i, n, hn, rfl, hanswers⟩⟩
          rintro (hself | ⟨i', n', hn', heq, hanswers⟩)
          · omega
          · obtain rfl : i' = i := by omega
            rw [hn] at hn'
            cases hn'
            exact hanswers
        dsimp only
        rw [hlost, survivors_cons, if_pos, ih hcalls' hkeep' hmore, keepFrom,
          if_pos ⟨Nat.succ_pos _, hdrop.2⟩, Nat.add_sub_cancel]
        refine (hstay _ _).mpr (Finset.mem_union_right _ (List.mem_toFinset.mpr ?_))
        exact mem_group.mpr (.inl rfl)

/-- The loop dooms calls and results only. -/
theorem of_mem_dropLoop {index j : Nat} (total : Int) {doomed : Finset Nat}
    (hj : j ∈ (dropLoop price keep budget index total doomed ms).2) :
    j ∈ doomed ∨ ∃ i m, ms[i]? = some m ∧ j = index + i ∧
      (m.toolCalls.isEmpty = false ∨ m.isTool = true) := by
  induction ms generalizing index total doomed with
  | nil => exact .inl hj
  | cons m ms ih =>
    have hlater {P : Prop} (h : P ∨ ∃ i n, ms[i]? = some n ∧ j = index + 1 + i ∧
        (n.toolCalls.isEmpty = false ∨ n.isTool = true)) : P ∨ ∃ i n, (m :: ms)[i]? = some n ∧
          j = index + i ∧ (n.toolCalls.isEmpty = false ∨ n.isTool = true) := by
      refine h.imp_right fun ⟨i, n, hn, hj, hkind⟩ => ⟨i + 1, n, ?_, ?_, hkind⟩
      · rwa [List.getElem?_cons_succ]
      · omega
    unfold dropLoop at hj
    split at hj
    · exact .inl hj
    · split at hj
      · exact hlater (ih _ hj)
      · next hdrop =>
        rw [not_or, Bool.not_eq_true] at hdrop
        rcases ih _ hj with hmem | hmem
        · rw [Finset.mem_union, List.mem_toFinset] at hmem
          refine hmem.imp_right fun hgroup => ?_
          rcases mem_group.mp ((List.filter_sublist.map _).subset hgroup) with
            rfl | ⟨i, n, hn, rfl, hanswers⟩
          · exact ⟨0, m, rfl, rfl, .inl hdrop.2⟩
          · rw [answers, Bool.and_eq_true] at hanswers
            refine ⟨i + 1, n, by rwa [List.getElem?_cons_succ], by omega, .inr hanswers.1⟩
        · exact hlater (.inr hmem)

/-! ## Survivors -/

theorem survivors_sublist {α : Type} (doomed : Finset Nat) (index : Nat) (l : List α) :
    (survivors doomed index l).Sublist l := by
  have hmap := (List.filter_sublist (p := fun p => decide (p.2 ∉ doomed))
    (l := l.zipIdx index)).map Prod.fst
  rwa [List.zipIdx_map_fst] at hmap

theorem survivors_append {α : Type} (doomed : Finset Nat) (index : Nat) (l l' : List α) :
    survivors doomed index (l ++ l') =
      survivors doomed index l ++ survivors doomed (index + l.length) l' := by
  unfold survivors
  rw [List.zipIdx_append, List.filter_append, List.map_append]

theorem survivors_map {α β : Type} (f : α → β) (doomed : Finset Nat) (index : Nat) (l : List α) :
    (survivors doomed index l).map f = survivors doomed index (l.map f) := by
  induction l generalizing index with
  | nil => rfl
  | cons x l ih =>
    rw [List.map_cons, survivors_cons, survivors_cons]
    split
    · exact ih (index + 1)
    · rw [List.map_cons, ih]

theorem survivors_front {α : Type} {doomed : Finset Nat} {index : Nat} {l : List α}
    (h : ∀ j, index ≤ j → j < index + l.length → j ∉ doomed) : survivors doomed index l = l := by
  induction l generalizing index with
  | nil => rfl
  | cons x l ih =>
    rw [List.length_cons] at h
    rw [survivors_cons, if_neg (h index (le_refl _) (by omega)),
      ih fun j hj hlt => h j (by omega) (by omega)]

/-! ## What is left is paired -/

/-- Rule of induction over a well paired list: plain messages, and calls with their results. -/
theorem WellPaired.induction {P : List Message → Prop} (nil : P [])
    (plain : ∀ m ms, m.isPlain = true → P ms → P (m :: ms))
    (exchange : ∀ call results ms, IsExchange (call :: results) →
      (∀ r ∈ results, r.isTool = true ∧ r.callIds = [] ∧ r.toolCallId ∈ call.callIds) → P ms →
      P (call :: (results ++ ms)))
    (h : WellPaired ms) : P ms := by
  obtain ⟨gs, rfl, hgs⟩ := h.groups
  clear h
  induction gs with
  | nil => exact nil
  | cons g gs ih =>
    have hrest : ∀ g ∈ gs, IsGroup g := fun g hg => hgs g (List.mem_cons_of_mem _ hg)
    have hP := ih hrest
    rcases hgs g List.mem_cons_self with ⟨m, rfl, hplain⟩ | hex
    · exact plain m gs.flatten hplain hP
    · obtain ⟨call, results, rfl, -, hids⟩ := hex.ids
      refine exchange call results gs.flatten hex (fun r hr => ?_) hP
      obtain ⟨htool, hid⟩ := hids r hr
      exact ⟨htool, callIds_of_tool hex.paired (List.mem_cons_of_mem _ hr) htool, hid⟩

theorem callIdsOf_append (ms ns : List Message) :
    callIdsOf (ms ++ ns) = callIdsOf ms ++ callIdsOf ns := List.flatMap_append

theorem callIdsOf_congr (hs : ns.map Message.shape = ms.map Message.shape) :
    callIdsOf ns = callIdsOf ms := by
  have hids (l : List Message) : callIdsOf l = (l.map Message.shape).flatMap (·.2.1) := by
    rw [List.flatMap_map]
    rfl
  rw [hids, hids, hs]

theorem callIdsOf_eq_nil (h : ∀ m ∈ ms, m.callIds = []) : callIdsOf ms = [] :=
  List.flatMap_eq_nil_iff.mpr h

theorem callIdsOf_take_results {rs : List Message} (h : ∀ r ∈ rs, r.callIds = []) (s : Nat)
    (ms : List Message) :
    callIdsOf ((rs ++ ms).take s) = callIdsOf (ms.take (s - rs.length)) := by
  rw [List.take_append, callIdsOf_append,
    callIdsOf_eq_nil fun r hr => h r (List.mem_of_mem_take hr), List.nil_append]

theorem callIdsOf_drop_results {rs : List Message} (h : ∀ r ∈ rs, r.callIds = []) (s : Nat)
    (ms : List Message) :
    callIdsOf ((rs ++ ms).drop s) = callIdsOf (ms.drop (s - rs.length)) := by
  rw [List.drop_append, callIdsOf_append,
    callIdsOf_eq_nil fun r hr => h r (List.mem_of_mem_drop hr), List.nil_append]

theorem toolCalls_of_callIds (h : m.callIds = []) : m.toolCalls.isEmpty = true := by
  rw [Message.callIds, List.map_eq_nil_iff] at h
  rw [h]
  rfl

theorem keepFrom_quiet (h : m.callIds = []) (ids : List String) (s : Nat) (ms : List Message) :
    keepFrom ids s (m :: ms) =
      if answers ids m then keepFrom ids (s - 1) ms else m :: keepFrom ids (s - 1) ms := by
  rw [keepFrom, toolCalls_of_callIds h, if_neg fun hcall => Bool.noConfusion hcall.2]

theorem keepFrom_results {rs : List Message} (h : ∀ r ∈ rs, r.callIds = []) (ids : List String)
    (s : Nat) (ms : List Message) : keepFrom ids s (rs ++ ms) =
      rs.filter (!answers ids ·) ++ keepFrom ids (s - rs.length) ms := by
  induction rs generalizing s with
  | nil => rfl
  | cons r rs ih =>
    have hrest := ih (fun r hr => h r (List.mem_cons_of_mem _ hr)) (s - 1)
    rw [List.cons_append, keepFrom_quiet (h r List.mem_cons_self), hrest, List.filter_cons,
      List.length_cons, Nat.sub_sub, Nat.add_comm 1]
    cases answers ids r with
    | _ => rfl

theorem answers_not_tool (h : m.isTool = false) (ids : List String) : answers ids m = false := by
  rw [answers, h, Bool.false_and]

theorem keepFrom_plain (h : m.isPlain = true) (ids : List String) (s : Nat) (ms : List Message) :
    m.callIds = [] ∧ keepFrom ids s (m :: ms) = m :: keepFrom ids (s - 1) ms := by
  obtain ⟨htool, hcalls⟩ : m.isTool = false ∧ m.toolCalls = [] := by
    simpa [Message.isPlain] using h
  have hids : m.callIds = [] := by rw [Message.callIds, hcalls, List.map_nil]
  rw [keepFrom_quiet hids, answers_not_tool htool]
  exact ⟨hids, rfl⟩

theorem IsExchange.first {call : Message} {results : List Message}
    (h : IsExchange (call :: results)) :
    call.toolCalls.isEmpty = false ∧ call.isTool = false := by
  obtain ⟨first, rest, heq, hcalls, -⟩ := h.call
  obtain ⟨rfl, rfl⟩ := List.cons.inj heq
  exact ⟨by simpa using hcalls, h.paired.head_not_tool⟩

/-- A removed exchange goes with all its results. -/
theorem keepFrom_removed {call : Message} {results : List Message}
    (h : IsExchange (call :: results))
    (hids : ∀ r ∈ results, r.isTool = true ∧ r.callIds = [] ∧ r.toolCallId ∈ call.callIds)
    (ids : List String) (s : Nat) (ms : List Message) :
    keepFrom ids (s + 1) (call :: (results ++ ms)) =
      keepFrom (ids ++ call.callIds) (s - results.length) ms := by
  rw [keepFrom, if_pos ⟨Nat.succ_pos s, h.first.1⟩, Nat.add_sub_cancel,
    keepFrom_results fun r hr => (hids r hr).2.1]
  have hgone : results.filter (!answers (ids ++ call.callIds) ·) = [] := by
    refine List.filter_eq_nil_iff.mpr fun r hr => ?_
    obtain ⟨htool, -, hid⟩ := hids r hr
    simp [answers, htool, hid]
  rw [hgone, List.nil_append]

theorem keepFrom_staying {call : Message} {results : List Message}
    (h : IsExchange (call :: results))
    (hids : ∀ r ∈ results, r.isTool = true ∧ r.callIds = [] ∧ r.toolCallId ∈ call.callIds)
    (ids : List String) (ms : List Message) : keepFrom ids 0 (call :: (results ++ ms)) =
      call :: (results.filter (!answers ids ·) ++ keepFrom ids 0 ms) := by
  rw [keepFrom, if_neg fun hpos => absurd hpos.1 (lt_irrefl 0), answers_not_tool h.first.2,
    Nat.zero_sub, keepFrom_results (fun r hr => (hids r hr).2.1), Nat.zero_sub]
  rfl

theorem callIdsOf_cons (m : Message) (ms : List Message) :
    callIdsOf (m :: ms) = m.callIds ++ callIdsOf ms := List.flatMap_cons

/-- No result of a removed call stays. -/
theorem resultIds_keepFrom (hw : WellPaired ms) : ∀ (ids : List String) (s : Nat),
    ∀ x ∈ resultIdsOf (keepFrom ids s ms), x ∉ ids ++ callIdsOf (ms.take s) := by
  refine hw.induction (P := fun ms => ∀ (ids : List String) (s : Nat),
    ∀ x ∈ resultIdsOf (keepFrom ids s ms), x ∉ ids ++ callIdsOf (ms.take s)) ?_ ?_ ?_
  · intro ids s x hx
    cases hx
  · intro m ms hplain ih ids s x hx
    obtain ⟨hids, hkeep⟩ := keepFrom_plain hplain ids s ms
    have htool : m.isTool = false := by
      rw [Message.isPlain, Bool.and_eq_true, Bool.not_eq_true'] at hplain
      exact hplain.1
    have hresults : resultIdsOf (m :: keepFrom ids (s - 1) ms) =
        resultIdsOf (keepFrom ids (s - 1) ms) := by
      rw [resultIdsOf, List.filter_cons_of_neg (by simp [htool])]
      rfl
    have hquiet : ∀ r ∈ [m], r.callIds = [] := by simpa using hids
    have htake := callIdsOf_take_results hquiet s ms
    rw [List.singleton_append, List.length_singleton] at htake
    rw [htake]
    rw [hkeep, hresults] at hx
    exact ih ids (s - 1) x hx
  · intro call results ms hex hids ih ids s x hx
    have hquiet : ∀ r ∈ results, r.callIds = [] := fun r hr => (hids r hr).2.1
    cases s with
    | zero =>
      rw [keepFrom_staying hex hids] at hx
      obtain ⟨r, hr, htool, rfl⟩ := mem_resultIdsOf.mp hx
      rcases List.mem_cons.mp hr with rfl | hr
      · rw [hex.first.2] at htool
        cases htool
      · rcases List.mem_append.mp hr with hr | hr
        · have hkept := (List.mem_filter.mp hr).2
          simpa [answers, htool, callIdsOf] using hkept
        · exact ih ids 0 _ (mem_resultIdsOf.mpr ⟨r, hr, htool, rfl⟩)
    | succ s =>
      rw [keepFrom_removed hex hids] at hx
      have := ih _ _ x hx
      rwa [List.take_succ_cons, callIdsOf_cons, callIdsOf_take_results hquiet, ← List.append_assoc]

/-- The calls that stay are those behind the end of the loop. -/
theorem callIds_keepFrom (hw : WellPaired ms) : ∀ (ids : List String) (s : Nat),
    callIdsOf (keepFrom ids s ms) = callIdsOf (ms.drop s) := by
  refine hw.induction (P := fun ms => ∀ (ids : List String) (s : Nat),
    callIdsOf (keepFrom ids s ms) = callIdsOf (ms.drop s)) ?_ ?_ ?_
  · intro ids s
    rw [List.drop_nil]
    rfl
  · intro m ms hplain ih ids s
    obtain ⟨hids, hkeep⟩ := keepFrom_plain hplain ids s ms
    have hquiet : ∀ r ∈ [m], r.callIds = [] := by simpa using hids
    have hdrop := callIdsOf_drop_results hquiet s ms
    rw [List.singleton_append, List.length_singleton] at hdrop
    rw [hkeep, hdrop, callIdsOf_cons, hids, List.nil_append, ih]
  · intro call results ms hex hids ih ids s
    have hquiet : ∀ r ∈ results, r.callIds = [] := fun r hr => (hids r hr).2.1
    cases s with
    | zero =>
      rw [keepFrom_staying hex hids, List.drop_zero, callIdsOf_cons, callIdsOf_cons,
        callIdsOf_append, callIdsOf_append, ih, List.drop_zero, callIdsOf_eq_nil hquiet,
        callIdsOf_eq_nil fun r hr => hquiet r (List.mem_filter.mp hr).1]
    | succ s =>
        rw [keepFrom_removed hex hids, ih, List.drop_succ_cons, callIdsOf_drop_results hquiet]

/-- Where no id is used again, what is left is whole exchanges. -/
theorem wellPaired_keepFrom (hw : WellPaired ms) : ∀ (ids : List String) (s : Nat),
    List.Disjoint (ids ++ callIdsOf (ms.take s)) (callIdsOf (ms.drop s)) →
      WellPaired (keepFrom ids s ms) := by
  refine hw.induction (P := fun ms => ∀ (ids : List String) (s : Nat),
    List.Disjoint (ids ++ callIdsOf (ms.take s)) (callIdsOf (ms.drop s)) →
      WellPaired (keepFrom ids s ms)) ?_ ?_ ?_
  · exact fun _ _ _ => rfl
  · intro m ms hplain ih ids s hd
    obtain ⟨hids, hkeep⟩ := keepFrom_plain hplain ids s ms
    have hquiet : ∀ r ∈ [m], r.callIds = [] := by simpa using hids
    have htake := callIdsOf_take_results hquiet s ms
    have hdrop := callIdsOf_drop_results hquiet s ms
    rw [List.singleton_append, List.length_singleton] at htake hdrop
    rw [htake, hdrop] at hd
    rw [hkeep, wellPaired_cons_plain hplain]
    exact ih ids (s - 1) hd
  · intro call results ms hex hids ih ids s hd
    have hquiet : ∀ r ∈ results, r.callIds = [] := fun r hr => (hids r hr).2.1
    cases s with
    | zero =>
      rw [List.take_zero, List.drop_zero, callIdsOf_cons, callIdsOf_append,
        callIdsOf_eq_nil hquiet, List.nil_append] at hd
      have hwhole : results.filter (!answers ids ·) = results := by
        refine List.filter_eq_self.mpr fun r hr => ?_
        obtain ⟨htool, -, hid⟩ := hids r hr
        have hout : r.toolCallId ∉ ids := fun hin =>
          hd (List.mem_append_left _ hin) (List.mem_append_left _ hid)
        simp [answers, htool, hout]
      rw [keepFrom_staying hex hids, hwhole]
      refine hex.paired.append (ih ids 0 fun x hx hx' => ?_)
      rw [List.take_zero] at hx
      rw [List.drop_zero] at hx'
      exact hd hx (List.mem_append_right _ hx')
    | succ s =>
      rw [List.take_succ_cons, List.drop_succ_cons, callIdsOf_cons, callIdsOf_take_results hquiet,
        callIdsOf_drop_results hquiet, ← List.append_assoc] at hd
      rw [keepFrom_removed hex hids]
      exact ih _ _ hd

/-- **What is left is paired** exactly where no call that stays has the id of a removed one. -/
theorem wellPaired_keepFrom_iff (hw : WellPaired ms) (s : Nat) :
    WellPaired (keepFrom [] s ms) ↔
      List.Disjoint (callIdsOf (ms.take s)) (callIdsOf (ms.drop s)) := by
  constructor
  · intro hkept x hx hx'
    rw [← callIds_keepFrom hw [] s] at hx'
    exact resultIds_keepFrom hw [] s x (hkept.perm.mem_iff.mpr hx') hx
  · exact wellPaired_keepFrom hw [] s

/-! ## The whole pass -/

theorem WellPaired.isPlain_of_user (h : WellPaired ms) (hm : m ∈ ms) (hu : m.role = "user") :
    m.isPlain = true := by
  obtain ⟨gs, rfl, hgs⟩ := h.groups
  obtain ⟨g, hg, hm⟩ := List.mem_flatten.mp hm
  rcases hgs g hg with ⟨n, rfl, hplain⟩ | hex
  · rwa [List.mem_singleton.mp hm]
  · rcases hex.role hm with hrole | htool
    · simp [hu] at hrole
    · simp [Message.isTool, hu] at htool

theorem WellPaired.not_tool_of_calls (h : WellPaired ms) (hm : m ∈ ms)
    (hcalls : m.toolCalls.isEmpty = false) : m.isTool = false := by
  by_contra htool
  have hids := callIds_of_tool h hm (by simpa using htool)
  rw [toolCalls_of_callIds hids] at hcalls
  cases hcalls

/-- The removal keeps what is in front of `head`, and of the rest what is not of the removed
exchanges. -/
theorem survivors_exchanges {head : Nat} (hw : WellPaired ms)
    (hkeep : ∀ i m, ms[i]? = some m → some i = keep → m.role = "user") (hlen : head ≤ ms.length) :
    survivors (dropLoop price keep budget head (price.total ms) ∅ (ms.drop head)).2 0 ms =
      ms.take head ++ keepFrom []
        (dropEnd price keep budget head (price.total ms) (ms.drop head)) (ms.drop head) := by
  have hplace (i : Nat) (m : Message) (hm : (ms.drop head)[i]? = some m) :
      ms[head + i]? = some m := by
    rwa [List.getElem?_drop] at hm
  have htake : (ms.take head).length = head := by rw [List.length_take, min_eq_left hlen]
  have hsplit (doomed : Finset Nat) : survivors doomed 0 ms =
      survivors doomed 0 (ms.take head) ++ survivors doomed head (ms.drop head) := by
    have happend := survivors_append doomed 0 (ms.take head) (ms.drop head)
    rwa [List.take_append_drop, htake, Nat.zero_add] at happend
  rw [hsplit, survivors_front, survivors_dropLoop]
  · intro i m hm hcalls
    have hmem := List.mem_of_getElem? (hplace i m hm)
    refine ⟨hw.not_tool_of_calls hmem hcalls, fun hat => ?_⟩
    have hplain := hw.isPlain_of_user hmem (hkeep _ m (hplace i m hm) hat)
    rw [Message.isPlain, hcalls, Bool.and_false] at hplain
    cases hplain
  · intro i m hm hat
    have hplain := hw.isPlain_of_user (List.mem_of_getElem? (hplace i m hm))
      (hkeep _ m (hplace i m hm) hat)
    rw [Message.isPlain, Bool.and_eq_true, Bool.not_eq_true'] at hplain
    exact hplain.1
  · intro i m _
    simp [answers]
  · intro j _ hj
    rw [htake, Nat.zero_add] at hj
    rw [mem_dropLoop_of_lt hj]
    exact Finset.notMem_empty j

end GenusOs.Engine.Compaction
