import Mathlib

/-!
# Conversations and their tool exchanges

The messages of a run, with the fields that compaction reads, and what it means that tool calls and
tool results are paired (`WellPaired`). Pairing is a scan that carries the ids of the calls still
waiting for their result, so it splits along any concatenation (`scan_append`).
-/

namespace GenusOs.Engine.Compaction

/-! ## Messages -/

structure ToolCall where
  id : String
  name : String := ""
  arguments : String := ""
  deriving DecidableEq, Repr

/-- A content block: `text`, an image (`image_url`, `image`), or one compaction does not look at. -/
inductive Block
  | text (s : String)
  | media
  | other
  deriving DecidableEq, Repr

inductive Content
  | text (s : String)
  | blocks (bs : List Block)
  | none
  deriving DecidableEq, Repr

/-- A chat message; `toolCalls` is empty where the message carries no `tool_calls`. -/
structure Message where
  role : String
  content : Content := .none
  toolCalls : List ToolCall := []
  toolCallId : String := ""
  pin : Option String := none
  deriving DecidableEq, Repr

namespace Message

def isTool (m : Message) : Bool := m.role = "tool"

/-- The ids of the calls the message makes. -/
def callIds (m : Message) : List String := m.toolCalls.map (·.id)

/-- What pairing looks at. -/
def shape (m : Message) : String × List String × String := (m.role, m.callIds, m.toolCallId)

/-- A message outside any exchange. -/
def isPlain (m : Message) : Bool := !m.isTool && m.toolCalls.isEmpty

end Message

/-! ## Pairing -/

/-- One message, with the results of the calls `pending` still to come: a result answers one of
them, and nothing else may come before all are answered. -/
def pairStep (pending : List String) (m : Message) : Option (List String) :=
  if m.isTool then
    if m.toolCalls.isEmpty && pending.contains m.toolCallId then some (pending.erase m.toolCallId)
    else none
  else if !pending.isEmpty then none
  else if m.toolCalls.isEmpty then some []
  else if m.role = "assistant" then some m.callIds
  else none

/-- The ids still to be answered after `ms`; `none` where a message is out of place. -/
def scan (pending : List String) (ms : List Message) : Option (List String) :=
  ms.foldlM pairStep pending

/-- Every assistant message with tool calls is immediately followed by exactly its results, one for
each call, and no result stands anywhere else. -/
def WellPaired (ms : List Message) : Prop := scan [] ms = some []

instance (ms : List Message) : Decidable (WellPaired ms) := inferInstanceAs (Decidable (_ = _))

variable {p q : List String} {m : Message} {ms ns : List Message}

@[simp] theorem scan_nil : scan p [] = some p := rfl

@[simp] theorem scan_cons : scan p (m :: ms) = (pairStep p m).bind fun q => scan q ms := rfl

theorem scan_append : scan p (ms ++ ns) = (scan p ms).bind fun q => scan q ns := by
  simp [scan, List.foldlM_append]

@[simp] theorem wellPaired_nil : WellPaired [] := rfl

/-- Behind a well paired list the scan starts anew. -/
theorem WellPaired.append_iff (h : WellPaired ms) : WellPaired (ms ++ ns) ↔ WellPaired ns := by
  unfold WellPaired at *
  rw [scan_append, h]
  rfl

theorem WellPaired.append (h : WellPaired ms) (k : WellPaired ns) : WellPaired (ms ++ ns) :=
  h.append_iff.mpr k

theorem pairStep_plain (h : m.isPlain = true) : pairStep [] m = some [] := by
  simp only [Message.isPlain, Bool.and_eq_true, Bool.not_eq_true'] at h
  simp [pairStep, h.1, h.2]

/-- A message that is no result needs every call before it answered. -/
theorem pairStep_not_tool (h : m.isTool = false) (hp : p ≠ []) : pairStep p m = none := by
  simp [pairStep, h, hp]

theorem wellPaired_cons_plain (h : m.isPlain = true) : WellPaired (m :: ms) ↔ WellPaired ms := by
  unfold WellPaired
  rw [scan_cons, pairStep_plain h]
  rfl

theorem wellPaired_of_plain (h : ∀ m ∈ ms, m.isPlain = true) : WellPaired ms := by
  induction ms with
  | nil => rfl
  | cons m ms ih =>
    exact (wellPaired_cons_plain (h m List.mem_cons_self)).mpr
      (ih fun m hm => h m (List.mem_cons_of_mem _ hm))

/-- A concatenation is cut cleanly in front of a message that is no result. -/
theorem wellPaired_append_cons (h : m.isTool = false) :
    WellPaired (ms ++ m :: ns) ↔ WellPaired ms ∧ WellPaired (m :: ns) := by
  constructor
  · intro hw
    have hms : WellPaired ms := by
      unfold WellPaired at hw ⊢
      rw [scan_append] at hw
      cases hq : scan [] ms with
      | none => rw [hq] at hw; cases hw
      | some q =>
        by_cases hne : q = []
        · rw [hne]
        · rw [hq, Option.bind_some, scan_cons, pairStep_not_tool h hne] at hw
          cases hw
    exact ⟨hms, hms.append_iff.mp hw⟩
  · exact fun ⟨hms, hns⟩ => hms.append hns

/-- Pairing reads the shape of the messages alone. -/
theorem scan_congr (h : ms.map Message.shape = ns.map Message.shape) : scan p ms = scan p ns := by
  induction ms generalizing p ns with
  | nil =>
    rw [List.map_nil, eq_comm, List.map_eq_nil_iff] at h
    rw [h]
  | cons m ms ih =>
    cases ns with
    | nil => cases h
    | cons n ns =>
      simp only [List.map_cons, List.cons.injEq] at h
      have hstep : pairStep p m = pairStep p n := by
        have hrole : m.role = n.role := congrArg (·.1) h.1
        have hids : m.callIds = n.callIds := congrArg (·.2.1) h.1
        have hid : m.toolCallId = n.toolCallId := congrArg (·.2.2) h.1
        have hempty : m.toolCalls.isEmpty = n.toolCalls.isEmpty := by
          have := congrArg List.isEmpty hids
          simpa [Message.callIds] using this
        unfold pairStep Message.isTool
        rw [hrole, hids, hid, hempty]
      rw [scan_cons, scan_cons, hstep]
      exact Option.bind_congr fun _ _ => ih h.2

theorem wellPaired_congr (h : ms.map Message.shape = ns.map Message.shape) :
    WellPaired ms ↔ WellPaired ns := by
  unfold WellPaired
  rw [scan_congr h]

/-! ## Exchanges -/

/-- A call with its results. -/
structure IsExchange (g : List Message) : Prop where
  paired : WellPaired g
  call : ∃ call results, g = call :: results ∧ call.toolCalls ≠ [] ∧
    ∀ r ∈ results, r.isTool = true

/-- A message outside any exchange, or an exchange. -/
def IsGroup (g : List Message) : Prop := (∃ m, g = [m] ∧ m.isPlain = true) ∨ IsExchange g

theorem IsGroup.wellPaired {g : List Message} (h : IsGroup g) : WellPaired g := by
  rcases h with ⟨m, rfl, hm⟩ | h
  · exact (wellPaired_cons_plain hm).mpr rfl
  · exact h.paired

/-- What a scan leaves pending is answered by results alone: `ms` starts with them. -/
theorem scan_results (hp : p ≠ []) (h : scan p ms = some []) :
    ∃ rs ns, ms = rs ++ ns ∧ scan p rs = some [] ∧ (∀ r ∈ rs, r.isTool = true) ∧ rs ≠ [] ∧
      WellPaired ns := by
  induction ms generalizing p with
  | nil => exact absurd (Option.some.inj h) hp
  | cons m ms ih =>
    rw [scan_cons] at h
    obtain ⟨q, hq, hrest⟩ := Option.bind_eq_some_iff.mp h
    have htool : m.isTool = true := by
      by_contra hm
      rw [pairStep_not_tool (by simpa using hm) hp] at hq
      cases hq
    by_cases hne : q = []
    · subst hne
      refine ⟨[m], ms, rfl, ?_, by simpa using htool, by simp, hrest⟩
      rw [scan_cons, hq]
      rfl
    · obtain ⟨rs, ns, rfl, hrs, htools, -, hns⟩ := ih hne hrest
      refine ⟨m :: rs, ns, rfl, ?_, ?_, by simp, hns⟩
      · rw [scan_cons, hq]
        exact hrs
      · intro r hr
        rcases List.mem_cons.mp hr with rfl | hr
        · exact htool
        · exact htools r hr

/-- A well paired list is a list of groups. -/
theorem WellPaired.groups (h : WellPaired ms) :
    ∃ gs : List (List Message), ms = gs.flatten ∧ ∀ g ∈ gs, IsGroup g := by
  induction hn : ms.length using Nat.strongRecOn generalizing ms with
  | _ n ih =>
    cases ms with
    | nil => exact ⟨[], rfl, by simp⟩
    | cons m ms =>
      have hw := h
      unfold WellPaired at h
      rw [scan_cons] at h
      obtain ⟨q, hq, hrest⟩ := Option.bind_eq_some_iff.mp h
      have hnt : m.isTool = false := by
        by_contra hm
        simp [pairStep, (by simpa using hm : m.isTool = true)] at hq
      by_cases hcalls : m.toolCalls = []
      · have hplain : m.isPlain = true := by simp [Message.isPlain, hnt, hcalls]
        obtain ⟨gs, rfl, hgs⟩ := ih ms.length (by simp [← hn])
          ((wellPaired_cons_plain hplain).mp hw) rfl
        refine ⟨[m] :: gs, rfl, ?_⟩
        intro g hg
        rcases List.mem_cons.mp hg with rfl | hg
        · exact Or.inl ⟨m, rfl, hplain⟩
        · exact hgs g hg
      · have hne : q ≠ [] := by
          intro hqe
          simp only [pairStep, hnt, Bool.false_eq_true, ↓reduceIte, List.isEmpty_nil,
            Bool.not_true, List.isEmpty_iff, hcalls] at hq
          split at hq
          · cases hq
            simp [Message.callIds, hcalls] at hqe
          · cases hq
        obtain ⟨rs, ns, rfl, hrs, htools, -, hns⟩ := scan_results hne hrest
        have hlt : ns.length < n := by
          simp only [← hn, List.length_cons, List.length_append]
          omega
        obtain ⟨gs, rfl, hgs⟩ := ih ns.length hlt hns rfl
        refine ⟨(m :: rs) :: gs, by simp, ?_⟩
        intro g hg
        rcases List.mem_cons.mp hg with rfl | hg
        · refine Or.inr ⟨?_, m, rs, rfl, hcalls, htools⟩
          unfold WellPaired
          rw [scan_cons, hq]
          exact hrs
        · exact hgs g hg

theorem wellPaired_flatten {gs : List (List Message)} (h : ∀ g ∈ gs, WellPaired g) :
    WellPaired gs.flatten := by
  induction gs with
  | nil => rfl
  | cons g gs ih =>
    exact (h g List.mem_cons_self).append (ih fun g hg => h g (List.mem_cons_of_mem _ hg))

theorem IsGroup.contiguous {gs : List (List Message)} {g : List Message} (h : g ∈ gs) :
    g <:+: gs.flatten := List.infix_of_mem_flatten h

namespace IsExchange

variable {g : List Message}

/-- No message of an exchange is plain. -/
theorem not_plain (h : IsExchange g) (hm : m ∈ g) : m.isPlain = false := by
  obtain ⟨call, results, rfl, hcalls, htools⟩ := h.call
  rcases List.mem_cons.mp hm with rfl | hm
  · simp [Message.isPlain, hcalls]
  · simp [Message.isPlain, htools m hm]

/-- A message of an exchange is an assistant's or a result. -/
theorem role (h : IsExchange g) (hm : m ∈ g) : m.role = "assistant" ∨ m.isTool = true := by
  obtain ⟨call, results, rfl, hcalls, htools⟩ := h.call
  rcases List.mem_cons.mp hm with rfl | hm
  · by_cases ht : m.isTool = true
    · exact Or.inr ht
    · refine Or.inl ?_
      have hw := h.paired
      unfold WellPaired at hw
      rw [scan_cons] at hw
      obtain ⟨q, hq, -⟩ := Option.bind_eq_some_iff.mp hw
      simp only [pairStep, ht, Bool.false_eq_true, ↓reduceIte, List.isEmpty_nil, Bool.not_true,
        List.isEmpty_iff, hcalls] at hq
      split at hq
      · assumption
      · cases hq
  · exact Or.inr (htools m hm)

end IsExchange

/-! ## Ids -/

/-- The ids of the calls a conversation makes. -/
def callIdsOf (ms : List Message) : List String := ms.flatMap (·.callIds)

/-- The ids the results of a conversation answer. -/
def resultIdsOf (ms : List Message) : List String := (ms.filter (·.isTool)).map (·.toolCallId)

/-- Every id is answered once: the results, with what is still pending, are the calls. -/
theorem scan_perm (h : scan p ms = some q) : (resultIdsOf ms ++ q).Perm (p ++ callIdsOf ms) := by
  induction ms generalizing p with
  | nil =>
    cases h
    simp [resultIdsOf, callIdsOf]
  | cons m ms ih =>
    rw [scan_cons] at h
    obtain ⟨p', hp', hrest⟩ := Option.bind_eq_some_iff.mp h
    have hperm := ih hrest
    unfold pairStep at hp'
    by_cases ht : m.isTool = true
    · rw [if_pos ht] at hp'
      split at hp'
      · next hcond =>
        simp only [Bool.and_eq_true, List.isEmpty_iff, List.contains_iff_mem] at hcond
        cases hp'
        have hcalls : callIdsOf (m :: ms) = callIdsOf ms := by
          simp [callIdsOf, Message.callIds, hcond.1]
        have hresults : resultIdsOf (m :: ms) = m.toolCallId :: resultIdsOf ms := by
          simp [resultIdsOf, ht]
        rw [hcalls, hresults]
        exact (hperm.cons _).trans ((List.perm_cons_erase hcond.2).symm.append_right _)
      · cases hp'
    · have hresults : resultIdsOf (m :: ms) = resultIdsOf ms := by simp [resultIdsOf, ht]
      rw [hresults]
      simp only [ht, Bool.false_eq_true, ↓reduceIte] at hp'
      split at hp'
      · cases hp'
      · next hp =>
        have hpnil : p = [] := by simpa using hp
        subst hpnil
        split at hp'
        · next hempty =>
          cases hp'
          have hcalls : callIdsOf (m :: ms) = callIdsOf ms := by
            simp [callIdsOf, Message.callIds, List.isEmpty_iff.mp hempty]
          rw [hcalls]
          exact hperm
        · split at hp'
          · cases hp'
            exact hperm
          · cases hp'

/-- The calls and the results of a well paired conversation have the same ids. -/
theorem WellPaired.perm (h : WellPaired ms) : (resultIdsOf ms).Perm (callIdsOf ms) := by
  simpa using scan_perm h

/-- No two calls share an id. -/
def DistinctIds (ms : List Message) : Prop := (callIdsOf ms).Nodup

instance (ms : List Message) : Decidable (DistinctIds ms) :=
  inferInstanceAs (Decidable (List.Nodup _))

theorem distinctIds_congr (h : ms.map Message.shape = ns.map Message.shape) :
    DistinctIds ms ↔ DistinctIds ns := by
  have hids : ∀ ms : List Message, callIdsOf ms = (ms.map Message.shape).flatMap (·.2.1) := by
    intro ms
    rw [List.flatMap_map]
    rfl
  unfold DistinctIds
  rw [hids, hids, h]

/-- With distinct ids a call is known by any of its ids. -/
theorem DistinctIds.call_eq (h : DistinctIds ms) {c c' : Message} (hc : c ∈ ms) (hc' : c' ∈ ms)
    {i : String} (hi : i ∈ c.callIds) (hi' : i ∈ c'.callIds) : c = c' := by
  by_contra hne
  have hdisj : ms.Pairwise fun a b => List.Disjoint a.callIds b.callIds :=
    (List.nodup_flatMap.mp h).2
  have : Std.Symm fun a b : Message => List.Disjoint a.callIds b.callIds :=
    ⟨fun _ _ hd i hi hj => hd hj hi⟩
  exact hdisj.forall hc hc' hne hi hi'

/-- With distinct ids a result is known by its id. -/
theorem DistinctIds.result_eq (h : DistinctIds ms) (hw : WellPaired ms) {r r' : Message}
    (hr : r ∈ ms) (hr' : r' ∈ ms) (ht : r.isTool = true) (ht' : r'.isTool = true)
    (hid : r.toolCallId = r'.toolCallId) : r = r' :=
  List.inj_on_of_nodup_map (hw.perm.nodup_iff.mpr h) (List.mem_filter.mpr ⟨hr, ht⟩)
    (List.mem_filter.mpr ⟨hr', ht'⟩) hid

theorem mem_resultIdsOf {i : String} :
    i ∈ resultIdsOf ms ↔ ∃ r ∈ ms, r.isTool = true ∧ r.toolCallId = i := by
  simp [resultIdsOf, and_assoc]

theorem mem_callIdsOf {i : String} : i ∈ callIdsOf ms ↔ ∃ c ∈ ms, i ∈ c.callIds := by
  simp [callIdsOf]

/-- A result makes no calls. -/
theorem callIds_of_tool (h : scan p ms = some q) (hm : m ∈ ms) (ht : m.isTool = true) :
    m.callIds = [] := by
  induction ms generalizing p with
  | nil => cases hm
  | cons n ms ih =>
    rw [scan_cons] at h
    obtain ⟨p', hp', hrest⟩ := Option.bind_eq_some_iff.mp h
    rcases List.mem_cons.mp hm with rfl | hm
    · simp only [pairStep, ht, ↓reduceIte] at hp'
      split at hp'
      · next hcond =>
        simp only [Bool.and_eq_true, List.isEmpty_iff] at hcond
        simp [Message.callIds, hcond.1]
      · cases hp'
    · exact ih hrest hm

/-- The results of an exchange answer its call. -/
theorem IsExchange.ids {g : List Message} (h : IsExchange g) :
    ∃ call results, g = call :: results ∧ call.callIds ≠ [] ∧
      ∀ r ∈ results, r.isTool = true ∧ r.toolCallId ∈ call.callIds := by
  obtain ⟨call, results, rfl, hcalls, htools⟩ := h.call
  refine ⟨call, results, rfl, by simpa [Message.callIds] using hcalls, fun r hr => ?_⟩
  have ht := htools r hr
  refine ⟨ht, ?_⟩
  have hid : r.toolCallId ∈ callIdsOf (call :: results) :=
    (h.paired.perm.mem_iff).mp (mem_resultIdsOf.mpr ⟨r, List.mem_cons_of_mem _ hr, ht, rfl⟩)
  obtain ⟨c, hc, hi⟩ := mem_callIdsOf.mp hid
  rcases List.mem_cons.mp hc with rfl | hc
  · exact hi
  · rw [callIds_of_tool h.paired (List.mem_cons_of_mem _ hc) (htools c hc)] at hi
    cases hi

/-- With distinct ids a well paired part of a conversation that holds one message of an exchange
holds all of it. -/
theorem IsExchange.subset_of_mem {g part : List Message} (hg : IsExchange g)
    (hw : WellPaired ms) (hd : DistinctIds ms) (hgs : g ⊆ ms) (hps : part ⊆ ms)
    (hpart : WellPaired part) (hmg : m ∈ g) (hmp : m ∈ part) : g ⊆ part := by
  obtain ⟨call, results, rfl, hne, hids⟩ := hg.ids
  have hcall : call ∈ part := by
    rcases List.mem_cons.mp hmg with rfl | hr
    · exact hmp
    · obtain ⟨ht, hi⟩ := hids m hr
      obtain ⟨c, hc, hic⟩ := mem_callIdsOf.mp
        ((hpart.perm.mem_iff).mp (mem_resultIdsOf.mpr ⟨m, hmp, ht, rfl⟩))
      rw [hd.call_eq (hgs List.mem_cons_self) (hps hc) hi hic]
      exact hc
  intro x hx
  rcases List.mem_cons.mp hx with rfl | hr
  · exact hcall
  · obtain ⟨ht, hi⟩ := hids x hr
    obtain ⟨r, hr', ht', hid⟩ := mem_resultIdsOf.mp
      ((hpart.perm.mem_iff).mpr (mem_callIdsOf.mpr ⟨call, hcall, hi⟩))
    rw [← hd.result_eq hw (hps hr') (hgs hx) ht' ht hid]
    exact hr'

end GenusOs.Engine.Compaction
