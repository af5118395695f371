import GenusOs.Engine.Compaction.Pairing

/-!
# When compaction keeps the pairing

* `SafeToCompact`, `SafeToDrain`: compaction stops before it moves a message, or the protected
  prefix ends between two exchanges and no exchange is torn by the marker of retained context.
* `compaction_wellPaired_iff`: the result is well paired where that holds; and, where the calls have
  distinct ids, only there.
* `compact_tears_exchange`: a tool result that contains the marker.
-/

namespace GenusOs.Engine.Compaction

open GenusOs.Python

variable {env : Platform} {ms : List Message} {m : Message}

/-! ## The conditions -/

/-- The messages after the pre-pass. -/
def workingOf (env : Platform) (ms : List Message) :
    List Message := llmFreePrePass env ms KEEP_RECENT

/-- The slice `compact` would summarise. -/
def oldMessages (env : Platform) (drainTo : Int) (working : List Message) : List Message :=
  (slicedMessages env working).take (splitIdx env drainTo (slicedMessages env working))

/-- `compact` gets as far as replacing the slice by its summary. -/
structure Summarises (env : Platform) (ms : List Message) (args : CompactArgs) : Prop where
  reaches : args.threshold ≤ env.estimateTokens ms
  stillOver : args.drainTo ≤ env.estimateTokens (workingOf env ms)
  long : KEEP_RECENT + 1 < (workingOf env ms).length
  slice : oldMessages env args.drainTo (workingOf env ms) ≠ []
  summary : summarise env
    (joinSummaries (takePreviousSummary false (splitForSummary env (workingOf env ms)).2.2).1)
    (oldMessages env args.drainTo (workingOf env ms))
    (summaryChain env args.models args.brokenModels args.preferredModel) ≠ none

/-- No message that `compact` keeps behind its summary is of an exchange with retained context. -/
def KeepsWholeExchanges (env : Platform) (drainTo : Int) (working : List Message) : Prop :=
  ∀ m ∈ recentMessages env drainTo working, ∀ g, IsExchange g → g <:+: tailOf env working →
    m ∈ g → ∀ x ∈ g, x.isRetainedContext = false

/-- When `compact` keeps the pairing. -/
def SafeToCompact (env : Platform) (ms : List Message) (args : CompactArgs) : Prop :=
  Summarises env ms args →
    cutResults env (workingOf env ms) = [] ∧
      KeepsWholeExchanges env args.drainTo (workingOf env ms)

/-- The messages `drain_history` may drop from. -/
def drainTail (env : Platform) (ms : List Message) : List Message := (splitForSummary env ms).2.2

/-- `drain_history` gets as far as dropping a message. -/
def Drains (env : Platform) (ms : List Message) (target : Int) : Prop :=
  target < env.estimateTokens ms ∧ keepIdx (drainTail env ms) ≠ 0

/-- An exchange with a message of retained context consists of such messages. -/
def NoExchangeTorn (env : Platform) (ms : List Message) : Prop :=
  ∀ g, IsExchange g → g <:+: tailOf env ms → (∃ x ∈ g, x.isRetainedContext = true) →
    ∀ x ∈ g, x.isRetainedContext = true

/-- When `drain_history` keeps the pairing: an exchange the prefix cuts may also go on in the
retained context, where no pinned message comes between. -/
def SafeToDrain (env : Platform) (ms : List Message) (target : Int) : Prop :=
  Drains env ms target →
    (cutResults env ms = [] ∨
      (tailOf env ms).filter (·.isHoisted) = [] ∧
        ∀ r ∈ cutResults env ms, r.isRetainedContext = true) ∧
      NoExchangeTorn env ms

/-! ## `compact` -/

theorem compact_cases (ms : List Message) (args : CompactArgs) :
    (¬ Summarises env ms args ∧
      (compact env ms args).messages.map Message.shape = ms.map Message.shape) ∨
    (Summarises env ms args ∧ ∃ facts summary, (compact env ms args).messages =
      summarised env ms (workingOf env ms) args.drainTo facts summary) := by
  have hworking : (workingOf env ms).map Message.shape = ms.map Message.shape := shape_prePass _
  unfold compact
  dsimp only
  split
  · next h => exact Or.inl ⟨fun k => absurd k.reaches (by omega), rfl⟩
  next h1 =>
  split
  · next h => exact Or.inl ⟨fun k => absurd k.stillOver (not_le.mpr h), hworking⟩
  next h2 =>
  split
  · next h =>
    refine Or.inl ⟨fun k => absurd k.long (not_lt.mpr h), ?_⟩
    split
    · rfl
    · exact (shape_shrinkLargest _).trans hworking
  next h3 =>
  split
  · next h => exact Or.inl ⟨fun k => absurd (List.isEmpty_iff.mp h) k.slice, hworking⟩
  next h4 =>
  split
  · next h => exact Or.inl ⟨fun k => absurd h k.summary, hworking⟩
  · next summary hsome =>
    refine Or.inr ⟨⟨not_lt.mp h1, not_lt.mp h2, not_le.mp h3,
      fun h => h4 (List.isEmpty_iff.mpr h), fun h => ?_⟩, _, _, rfl⟩
    exact absurd (hsome.symm.trans h) (Option.some_ne_none _)

theorem wellPaired_append_plain {ns : List Message} (h : ∀ m ∈ ns, m.isPlain = true) :
    WellPaired (ms ++ ns) ↔ WellPaired ms := by
  cases ns with
  | nil => rw [List.append_nil]
  | cons n ns =>
    have hn : n.isTool = false := by
      have := h n List.mem_cons_self
      simp only [Message.isPlain, Bool.and_eq_true, Bool.not_eq_true'] at this
      exact this.1
    rw [wellPaired_append_cons hn]
    exact and_iff_left (wellPaired_of_plain h)

namespace Layout

variable {pending : List String} {groups : List (List Message)}

theorem wellPaired_head_iff (h : Layout env ms pending groups) :
    WellPaired (ms.take (protectedPrefixLen env ms)) ↔ cutResults env ms = [] := by
  rw [h.cutResults_eq_nil_iff]
  unfold WellPaired
  rw [h.head]
  exact ⟨fun he => Option.some.inj he, fun he => congrArg some he⟩

/-- What the split leaves to summarise, where the prefix cuts no exchange. -/
theorem rest_eq (h : Layout env ms pending groups) (hcut : cutResults env ms = []) :
    (splitForSummary env ms).2.2 =
      (groups.map (·.filter fun m => !m.isHoisted && !m.isRetainedContext)).flatten := by
  rw [h.splitForSummary_eq]
  dsimp only
  rw [h.filter_tail, hcut]
  rfl

theorem group_contiguous (h : Layout env ms pending groups) {g : List Message} (hg : g ∈ groups) :
    g <:+: tailOf env ms := by
  rw [h.split]
  exact (IsGroup.contiguous hg).trans (List.suffix_append _ _).isInfix

end Layout

theorem takePreviousSummary_subset (ms : List Message) :
    ∀ skipAck, (takePreviousSummary skipAck ms).2 ⊆ ms := by
  induction ms with
  | nil => exact fun _ => List.Subset.refl _
  | cons m ms ih =>
    intro skipAck
    unfold takePreviousSummary
    split
    · exact List.subset_cons_of_subset _ (ih true)
    · split
      · exact List.subset_cons_of_subset _ (ih false)
      · exact List.cons_subset_cons _ (ih false)

/-- The new list is well paired exactly when its head and its recent part are. -/
theorem summarised_wellPaired_iff {pending : List String} {groups : List (List Message)}
    {working : List Message} (h : Layout env working pending groups) (ms : List Message)
    (drainTo : Int) (facts : List CompactionFact) (summary : String) :
    WellPaired (summarised env ms working drainTo facts summary) ↔
      cutResults env working = [] ∧ WellPaired (recentMessages env drainTo working) := by
  have hsummary : (summaryMessage summary).isPlain = true := rfl
  have hack : ackMessage.isPlain = true := rfl
  have hactive := hoisted_plain (tailOf env working)
  have hfacts : ∀ m ∈ (if facts.isEmpty then [] else [buildRetainedContextMessage env facts ms]),
      m.isPlain = true := by
    intro m hm
    split at hm
    · cases hm
    · rw [List.mem_singleton.mp hm]
      rfl
  have hresult : WellPaired (assembled env ms working drainTo facts summary) ↔
      cutResults env working = [] ∧ WellPaired (recentMessages env drainTo working) := by
    unfold assembled
    rw [List.append_assoc, List.cons_append, wellPaired_append_cons rfl,
      wellPaired_append_plain hfacts, h.splitForSummary_eq, wellPaired_append_plain hactive,
      h.wellPaired_head_iff, wellPaired_cons_plain hsummary, List.singleton_append,
      wellPaired_cons_plain hack]
  unfold summarised
  dsimp only
  split
  · rw [wellPaired_congr (shape_shrinkLargest _)]
    exact hresult
  · exact hresult

/-- Where no kept message is of a torn exchange, the recent part is well paired. -/
theorem recent_wellPaired {pending : List String} {groups : List (List Message)}
    {working : List Message} {drainTo : Int} (h : Layout env working pending groups)
    (hcut : cutResults env working = []) (hslice : oldMessages env drainTo working ≠ [])
    (hwhole : KeepsWholeExchanges env drainTo working) :
    WellPaired (recentMessages env drainTo working) := by
  have hthin := thinned_takePreviousSummary (fun m => !m.isHoisted && !m.isRetainedContext)
    h.groups false
  rw [← h.rest_eq hcut] at hthin
  have hclean : StartsClean (recentMessages env drainTo working) := by
    rcases splitIdx_clean env drainTo (slicedMessages env working) with hzero | hclean
    · exact absurd (by simp [oldMessages, hzero]) hslice
    · exact hclean
  obtain ⟨groups', hsub, hthin'⟩ := hthin.drop h.groups _ hclean
  refine hthin'.wellPaired (fun g hg => h.groups g (hsub hg)) fun m hm g hg hex hmg x hx => ?_
  have hnot := hwhole m hm g hex (h.group_contiguous (hsub hg)) hmg x hx
  have hplain := hex.not_plain hx
  simp [Message.isHoisted, hplain, hnot]

/-- With distinct ids a well paired recent part means that none of its exchanges was torn. -/
theorem keepsWhole_of_wellPaired {pending : List String} {groups : List (List Message)}
    {working : List Message} {drainTo : Int} (h : Layout env working pending groups)
    (hw : WellPaired working) (hd : DistinctIds working)
    (hrecent : WellPaired (recentMessages env drainTo working)) :
    KeepsWholeExchanges env drainTo working := by
  have hrest : recentMessages env drainTo working ⊆ (splitForSummary env working).2.2 :=
    List.Subset.trans (List.drop_subset _ _) (takePreviousSummary_subset _ _)
  rw [h.splitForSummary_eq] at hrest
  have htail : tailOf env working ⊆ working := List.drop_subset _ _
  intro m hm g hex hinf hmg x hx
  have hgs : g ⊆ working := List.Subset.trans hinf.subset htail
  have hrs : recentMessages env drainTo working ⊆ working :=
    List.Subset.trans hrest (List.Subset.trans (List.filter_subset_self _) htail)
  have hxr := hex.subset_of_mem hw hd hgs hrs hrecent hmg hm hx
  have hkeep := (List.mem_filter.mp (hrest hxr)).2
  simp only [Bool.and_eq_true, Bool.not_eq_true'] at hkeep
  exact hkeep.2

theorem compact_wellPaired_of_safe (h : WellPaired ms) {args : CompactArgs}
    (hsafe : SafeToCompact env ms args) : WellPaired (compact env ms args).messages := by
  have hw : WellPaired (workingOf env ms) := (wellPaired_congr (shape_prePass _)).mpr h
  rcases compact_cases ms args with ⟨-, hshape⟩ | ⟨hsum, facts, summary, hmessages⟩
  · exact (wellPaired_congr hshape).mpr h
  · obtain ⟨pending, groups, hlayout⟩ := hw.layout env
    obtain ⟨hcut, hwhole⟩ := hsafe hsum
    rw [hmessages, summarised_wellPaired_iff hlayout]
    exact ⟨hcut, recent_wellPaired hlayout hcut hsum.slice hwhole⟩

theorem safe_of_compact_wellPaired (h : WellPaired ms) (hd : DistinctIds ms) {args : CompactArgs}
    (hc : WellPaired (compact env ms args).messages) : SafeToCompact env ms args := by
  intro hsum
  have hshape : (workingOf env ms).map Message.shape = ms.map Message.shape := shape_prePass _
  have hw : WellPaired (workingOf env ms) := (wellPaired_congr hshape).mpr h
  rcases compact_cases ms args with ⟨hnot, -⟩ | ⟨-, facts, summary, hmessages⟩
  · exact absurd hsum hnot
  · obtain ⟨pending, groups, hlayout⟩ := hw.layout env
    rw [hmessages, summarised_wellPaired_iff hlayout] at hc
    exact ⟨hc.1, keepsWhole_of_wellPaired hlayout hw ((distinctIds_congr hshape).mpr hd) hc.2⟩

/-! ## `drain_history` -/

theorem drainLoop_suffix {target : Int} :
    ∀ {remaining : Int} {inGroup : Bool}, drainLoop env target remaining inGroup ms <:+ ms := by
  induction ms with
  | nil => exact List.suffix_refl _
  | cons m ms ih =>
    intro remaining inGroup
    unfold drainLoop
    split
    · exact ih.trans (List.suffix_cons _ _)
    · exact List.suffix_refl _

/-- The results of a dropped call are dropped with it. -/
theorem drainLoop_clean {target : Int} :
    ∀ {remaining : Int} {inGroup : Bool}, inGroup = true ∨ target < remaining →
      StartsClean (drainLoop env target remaining inGroup ms) := by
  induction ms with
  | nil => exact fun _ m hm => by cases hm
  | cons m ms ih =>
    intro remaining inGroup hstart
    unfold drainLoop
    split
    · exact ih (Or.inl rfl)
    · next hcond =>
      intro n hn
      cases hn
      simp only [Bool.or_eq_true, Bool.and_eq_true, decide_eq_true_eq, not_or, not_and] at hcond
      rcases hstart with hg | hlt
      · simpa using hcond.1 hg
      · exact absurd hlt hcond.2

theorem keepIdx_clean (tail : List Message) (h : keepIdx tail ≠ 0) :
    StartsClean (tail.drop (keepIdx tail)) := by
  unfold keepIdx at h ⊢
  cases hu : lastUserIdx tail with
  | none =>
    rw [hu] at h
    exact (findSafeSplitIndex_clean tail _).resolve_left h
  | some i =>
    intro m hm
    have huser := List.find?_some hu
    rw [Option.getD_some, List.head?_drop] at hm
    rw [Option.mem_def.mp hm, Option.any_some, decide_eq_true_eq] at huser
    simp [Message.isTool, huser]

theorem suffix_append_drop {kept : List Message} {k : Nat} (h : kept <:+ ms.take k) :
    kept ++ ms.drop k <:+ ms := by
  obtain ⟨dropped, hd⟩ := h
  exact ⟨dropped, by rw [← List.append_assoc, hd, List.take_append_drop]⟩

theorem StartsClean.append {ns : List Message} (h : StartsClean ms) (k : StartsClean ns) :
    StartsClean (ms ++ ns) := by
  cases ms with
  | nil => exact k
  | cons m ms => exact h

theorem wellPaired_append_clean {ns : List Message} (h : StartsClean ns) :
    WellPaired (ms ++ ns) ↔ WellPaired ms ∧ WellPaired ns := by
  cases ns with
  | nil => simp
  | cons n ns => exact wellPaired_append_cons (h n rfl)

theorem drainHistory_cases (env : Platform) (ms : List Message) (target : Int) :
    (¬ Drains env ms target ∧ drainHistory env ms target = ms) ∨
    (Drains env ms target ∧ ∃ kept, kept <:+ drainTail env ms ∧ StartsClean kept ∧
      drainHistory env ms target =
        (splitForSummary env ms).1 ++ (splitForSummary env ms).2.1 ++ kept) := by
  unfold drainHistory
  dsimp only
  split
  · next h => exact Or.inl ⟨fun k => absurd k.1 (not_lt.mpr h), rfl⟩
  next hover =>
  split
  · next h => exact Or.inl ⟨fun k => absurd h k.2, rfl⟩
  next hkeep =>
  exact Or.inr ⟨⟨not_le.mp hover, hkeep⟩, _, suffix_append_drop drainLoop_suffix,
    (drainLoop_clean (Or.inr (not_le.mp hover))).append (keepIdx_clean _ hkeep),
    List.append_assoc _ _ _⟩

/-- The part of the result that `drain_history` never drops. -/
def drainHead (env : Platform) (ms : List Message) : List Message :=
  (splitForSummary env ms).1 ++ (splitForSummary env ms).2.1

namespace Layout

variable {pending : List String} {groups : List (List Message)}

theorem drainHead_eq (h : Layout env ms pending groups) :
    drainHead env ms = ms.take (protectedPrefixLen env ms) ++
      ((tailOf env ms).filter (·.isHoisted) ++
        (tailOf env ms).filter fun m => !m.isHoisted && m.isRetainedContext) := by
  unfold drainHead
  rw [h.splitForSummary_eq, List.append_assoc]

theorem drainTail_eq (h : Layout env ms pending groups) :
    drainTail env ms =
      (tailOf env ms).filter fun m => !m.isHoisted && !m.isRetainedContext := by
  unfold drainTail
  rw [h.splitForSummary_eq]

theorem tool_not_hoisted (ht : m.isTool = true) : m.isHoisted = false := by
  simp [Message.isHoisted, Message.isPlain, ht]

/-- The retained context of a tail none of whose exchanges is torn. -/
theorem retained_groups_wellPaired (h : Layout env ms pending groups)
    (hwhole : NoExchangeTorn env ms) (retained : Bool) :
    WellPaired (groups.map (·.filter fun m =>
      !m.isHoisted && (m.isRetainedContext == retained))).flatten := by
  refine wellPaired_filter_groups h.groups fun g hg hex => ?_
  have hnot : ∀ m ∈ g, m.isHoisted = false := fun m hm => by
    simp [Message.isHoisted, hex.not_plain hm]
  by_cases hmarked : ∃ x ∈ g, x.isRetainedContext = true
  · have hall := hwhole g hex (h.group_contiguous hg) hmarked
    cases retained
    · exact Or.inr fun m hm => by simp [hall m hm]
    · exact Or.inl fun m hm => by simp [hnot m hm, hall m hm]
  · have hnone : ∀ m ∈ g, m.isRetainedContext = false := fun m hm => by
      by_contra hr
      exact hmarked ⟨m, hm, by simpa using hr⟩
    cases retained
    · exact Or.inl fun m hm => by simp [hnot m hm, hnone m hm]
    · exact Or.inr fun m hm => by simp [hnone m hm]

end Layout

theorem drainHistory_wellPaired_of_safe (h : WellPaired ms) {target : Int}
    (hsafe : SafeToDrain env ms target) : WellPaired (drainHistory env ms target) := by
  rcases drainHistory_cases env ms target with ⟨-, hsame⟩ | ⟨hdrains, kept, hkept, hclean, hres⟩
  · rw [hsame]
    exact h
  obtain ⟨pending, groups, hl⟩ := h.layout env
  obtain ⟨hcut, hwhole⟩ := hsafe hdrains
  have hretained := hl.retained_groups_wellPaired hwhole true
  have hrest := hl.retained_groups_wellPaired hwhole false
  simp only [beq_true, beq_false] at hretained hrest
  rw [hres]
  change WellPaired (drainHead env ms ++ kept)
  rw [wellPaired_append_clean hclean]
  constructor
  · rw [hl.drainHead_eq]
    rcases hcut with hnil | ⟨hactive, hmarked⟩
    · have hhead : WellPaired (ms.take (protectedPrefixLen env ms)) :=
        hl.wellPaired_head_iff.mpr hnil
      refine hhead.append ((wellPaired_of_plain (hoisted_plain _)).append ?_)
      rw [hl.filter_tail, hnil]
      exact hretained
    · -- the exchange the prefix cuts goes on with all of its results
      have hall : (cutResults env ms).filter
          (fun m => !m.isHoisted && m.isRetainedContext) = cutResults env ms :=
        List.filter_eq_self.mpr fun r hr => by
          simp [Layout.tool_not_hoisted (Layout.mem_cutResults_tool hr), hmarked r hr]
      rw [hactive, List.nil_append, hl.filter_tail, hall, ← List.append_assoc]
      refine WellPaired.append ?_ hretained
      unfold WellPaired
      rw [scan_append, hl.head]
      exact hl.results
  · have htail : WellPaired (drainTail env ms) := by
      have hnone : (cutResults env ms).filter
          (fun m => !m.isHoisted && !m.isRetainedContext) = [] := by
        refine List.filter_eq_nil_iff.mpr fun r hr => ?_
        rcases hcut with hnil | ⟨-, hmarked⟩
        · rw [hnil] at hr
          cases hr
        · simp [hmarked r hr]
      rw [hl.drainTail_eq, hl.filter_tail, hnone]
      exact hrest
    obtain ⟨dropped, hd⟩ := hkept
    rw [← hd, wellPaired_append_clean hclean] at htail
    exact htail.2

/-! ### A well paired result -/

/-- With distinct ids no message of an exchange stands twice. -/
theorem IsExchange.not_mem_of_mem {front back g : List Message} (hex : IsExchange g)
    (hw : WellPaired (front ++ back)) (hd : DistinctIds (front ++ back)) (hm : m ∈ g)
    (hb : m ∈ back) : m ∉ front := by
  intro hf
  by_cases ht : m.isTool = true
  · have hnodup : (resultIdsOf (front ++ back)).Nodup := hw.perm.nodup_iff.mpr hd
    unfold resultIdsOf at hnodup
    rw [List.filter_append, List.map_append, List.nodup_append] at hnodup
    exact hnodup.2.2 m.toolCallId (List.mem_map_of_mem (List.mem_filter.mpr ⟨hf, ht⟩))
      m.toolCallId (List.mem_map_of_mem (List.mem_filter.mpr ⟨hb, ht⟩)) rfl
  · obtain ⟨call, results, rfl, hne, hids⟩ := hex.ids
    have hcall : m = call := by
      rcases List.mem_cons.mp hm with h | h
      · exact h
      · exact absurd (hids m h).1 ht
    subst hcall
    obtain ⟨i, hi⟩ := List.exists_mem_of_ne_nil _ hne
    unfold DistinctIds callIdsOf at hd
    rw [List.flatMap_append, List.nodup_append] at hd
    exact hd.2.2 i (List.mem_flatMap.mpr ⟨m, hf, hi⟩) i (List.mem_flatMap.mpr ⟨m, hb, hi⟩) rfl

/-- The results the prefix cuts off answer calls of the head. -/
theorem Layout.cutResults_pending {pending : List String} {groups : List (List Message)}
    (h : Layout env ms pending groups) {r : Message} (hr : r ∈ cutResults env ms) :
    r.toolCallId ∈ pending := by
  have hperm := scan_perm h.results
  have hnone : callIdsOf (cutResults env ms) = [] := by
    refine List.flatMap_eq_nil_iff.mpr fun c hc => ?_
    exact callIds_of_tool h.results hc (Layout.mem_cutResults_tool hc)
  rw [hnone, List.append_nil, List.append_nil] at hperm
  exact hperm.mem_iff.mp (mem_resultIdsOf.mpr ⟨r, hr, Layout.mem_cutResults_tool hr, rfl⟩)

theorem safe_of_drainHistory_wellPaired (h : WellPaired ms) (hd : DistinctIds ms) {target : Int}
    (hres : WellPaired (drainHistory env ms target)) : SafeToDrain env ms target := by
  intro hdrains
  rcases drainHistory_cases env ms target with ⟨hnot, -⟩ | ⟨-, kept, -, hclean, heq⟩
  · exact absurd hdrains hnot
  obtain ⟨pending, groups, hl⟩ := h.layout env
  rw [heq] at hres
  have hhead : WellPaired (drainHead env ms) := ((wellPaired_append_clean hclean).mp hres).1
  rw [hl.drainHead_eq] at hhead
  have htail : tailOf env ms ⊆ ms := List.drop_subset _ _
  constructor
  · by_cases hnil : cutResults env ms = []
    · exact Or.inl hnil
    · have hpending : pending ≠ [] := fun hp => hnil (hl.cutResults_eq_nil_iff.mpr hp)
      unfold WellPaired at hhead
      rw [scan_append, hl.head, Option.bind_some] at hhead
      have hactive : (tailOf env ms).filter (·.isHoisted) = [] := by
        -- a pinned message would come before the results still to be given
        cases hact : (tailOf env ms).filter (·.isHoisted) with
        | nil => rfl
        | cons m rest =>
          have hplain := hoisted_plain (tailOf env ms) m (by rw [hact]; exact List.mem_cons_self)
          have hnt : m.isTool = false := by
            simp only [Message.isPlain, Bool.and_eq_true, Bool.not_eq_true'] at hplain
            exact hplain.1
          rw [hact, List.cons_append, scan_cons, pairStep_not_tool hnt hpending] at hhead
          cases hhead
      refine Or.inr ⟨hactive, fun r hr => ?_⟩
      rw [hactive, List.nil_append] at hhead
      have hperm := scan_perm hhead
      rw [List.append_nil] at hperm
      obtain ⟨r', hr', ht', hid⟩ := mem_resultIdsOf.mp
        (hperm.mem_iff.mpr (List.mem_append_left _ (hl.cutResults_pending hr)))
      have hr'tail := (List.mem_filter.mp hr').1
      have hrtail : r ∈ tailOf env ms := (List.takeWhile_prefix _).subset hr
      have hsame := hd.result_eq h (htail hr'tail) (htail hrtail) ht'
        (Layout.mem_cutResults_tool hr) hid
      have hkeep := (List.mem_filter.mp hr').2
      simp only [Bool.and_eq_true] at hkeep
      exact hsame ▸ hkeep.2
  · intro g hex hinf hsome y hy
    obtain ⟨x, hx, hmarked⟩ := hsome
    have hgt : g ⊆ tailOf env ms := hinf.subset
    have hsub : ms.take (protectedPrefixLen env ms) ++ ((tailOf env ms).filter (·.isHoisted) ++
        (tailOf env ms).filter fun m => !m.isHoisted && m.isRetainedContext) ⊆ ms := by
      intro z hz
      rcases List.mem_append.mp hz with hz | hz
      · exact List.take_subset _ _ hz
      · rcases List.mem_append.mp hz with hz | hz <;> exact htail (List.mem_filter.mp hz).1
    have hxr : x ∈ (tailOf env ms).filter fun m => !m.isHoisted && m.isRetainedContext := by
      refine List.mem_filter.mpr ⟨hgt hx, ?_⟩
      simp [Message.isHoisted, hex.not_plain hx, hmarked]
    have hyr := hex.subset_of_mem h hd (List.Subset.trans hgt htail) hsub hhead hx
      (List.mem_append_right _ (List.mem_append_right _ hxr)) hy
    rcases List.mem_append.mp hyr with hyr | hyr
    · have hsplit := head_append_tail env ms
      exact absurd hyr (hex.not_mem_of_mem (by rw [hsplit]; exact h) (by rw [hsplit]; exact hd) hy
        (hgt hy))
    · rcases List.mem_append.mp hyr with hyr | hyr
      · have := hoisted_plain _ y hyr
        rw [hex.not_plain hy] at this
        cases this
      · have hkeep := (List.mem_filter.mp hyr).2
        simp only [Bool.and_eq_true] at hkeep
        exact hkeep.2

/-! ## Both together -/

/-- **When compaction keeps the pairing**: wherever it is safe; and, where no two calls share an
id, nowhere else. -/
theorem compaction_wellPaired_iff (env : Platform) (h : WellPaired ms) (args : CompactArgs)
    (target : Int) :
    ((SafeToCompact env ms args → WellPaired (compact env ms args).messages) ∧
      (SafeToDrain env ms target → WellPaired (drainHistory env ms target))) ∧
    (DistinctIds ms →
      (WellPaired (compact env ms args).messages ↔ SafeToCompact env ms args) ∧
      (WellPaired (drainHistory env ms target) ↔ SafeToDrain env ms target)) :=
  ⟨⟨compact_wellPaired_of_safe h, drainHistory_wellPaired_of_safe h⟩,
    fun hd => ⟨⟨safe_of_compact_wellPaired h hd, compact_wellPaired_of_safe h⟩,
      ⟨safe_of_drainHistory_wellPaired h hd, drainHistory_wellPaired_of_safe h⟩⟩⟩

/-- The default heuristic of `estimate_tokens`, for text. -/
def heuristicTokens (ms : List Message) : Int :=
  let chars (m : Message) := (contentText m.content).length +
    (m.toolCalls.map fun call => call.arguments.length + call.name.length).sum
  (ms.map chars).sum / 4 + 400 * (ms.map (·.toolCalls.length)).sum

/-- A platform whose one model answers every summary with `s`, and that extracts no facts. -/
def plainPlatform : Platform where
  estimateTokens := heuristicTokens
  sha256 s := s
  toolSummary s := s
  truncateArguments s _ := s
  deterministicTail _ := ""
  retainedFacts _ := []
  fleetModelChain := ["model"]
  updateSummary _ _ _ := some "s"
  extractFacts _ _ := []
  protectFirstN := 3

/-- A long conversation, then a call whose result quotes the marker. -/
def quotedMarker : List Message :=
  { role := "system", content := .text "s" } ::
    List.replicate 25 { role := "user", content := .text "u" } ++
    [{ role := "assistant", toolCalls := [{ id := "c1" }] },
      { role := "tool", toolCallId := "c1", content := .text "see [RETAINED CONTEXT]" },
      { role := "user", content := .text "go on" }]

/-- The call of the last exchange and its result. -/
def markedCall : Message := { role := "assistant", toolCalls := [{ id := "c1" }] }

def markedResult : Message :=
  { role := "tool", toolCallId := "c1", content := .text "see [RETAINED CONTEXT]" }

theorem quotedMarker_summarises :
    Summarises plainPlatform quotedMarker { threshold := 0, drainTo := 30 } where
  reaches := by decide +kernel
  stillOver := by decide +kernel
  long := by decide +kernel
  slice := by decide +kernel
  summary := by decide +kernel

theorem quotedMarker_unsafe :
    ¬ SafeToCompact plainPlatform quotedMarker { threshold := 0, drainTo := 30 } := by
  intro hsafe
  have hwhole := (hsafe quotedMarker_summarises).2 markedCall (by decide +kernel)
    [markedCall, markedResult] ⟨by decide, markedCall, [markedResult], rfl, by decide, by decide⟩
    (by decide +kernel) List.mem_cons_self markedResult (by decide)
  exact absurd hwhole (by decide +kernel)

/-- `compact` keeps the call and drops its result. -/
theorem compact_tears_exchange :
    ¬ ∀ (env : Platform) (ms : List Message), WellPaired ms →
      (∀ args, WellPaired (compact env ms args).messages) ∧
        ∀ target, WellPaired (drainHistory env ms target) := by
  intro h
  have hpaired : WellPaired quotedMarker := by decide
  have hc := (h plainPlatform quotedMarker hpaired).1 { threshold := 0, drainTo := 30 }
  exact quotedMarker_unsafe (safe_of_compact_wellPaired hpaired (by decide) hc)

/-- A long conversation with an exchange near its beginning and one at its end. -/
def pairedTranscript : List Message :=
  [{ role := "system", content := .text "s" }, { role := "user", content := .text "u" },
    { role := "user", content := .text "u" },
    { role := "assistant", toolCalls := [{ id := "c0" }] },
    { role := "tool", toolCallId := "c0", content := .text "listed" }] ++
    List.replicate 23 { role := "user", content := .text "u" } ++
    [markedCall, { role := "tool", toolCallId := "c1", content := .text "done" },
      { role := "user", content := .text "go on" }]

/-- The first exchange is summarised, and the second is kept; a drain drops both. -/
theorem two_exchanges_stay_paired :
    WellPaired pairedTranscript ∧ pairedTranscript.length = 31 ∧
      Summarises plainPlatform pairedTranscript { threshold := 0, drainTo := 30 } ∧
      oldMessages plainPlatform 30 (workingOf plainPlatform pairedTranscript) =
        (pairedTranscript.drop 3).take 8 ∧
      WellPaired
        (compact plainPlatform pairedTranscript { threshold := 0, drainTo := 30 }).messages ∧
      WellPaired (drainHistory plainPlatform pairedTranscript 30) ∧
      (drainHistory plainPlatform pairedTranscript 30).length = 4 := by
  have hplain : ∀ m ∈ tailOf plainPlatform (workingOf plainPlatform pairedTranscript),
      m.isRetainedContext = false := by decide +kernel
  have hplain' : ∀ m ∈ tailOf plainPlatform pairedTranscript, m.isRetainedContext = false := by
    decide +kernel
  have hcut : cutResults plainPlatform (workingOf plainPlatform pairedTranscript) = [] := by
    decide +kernel
  have hcut' : cutResults plainPlatform pairedTranscript = [] := by decide +kernel
  have hpaired : WellPaired pairedTranscript := by decide
  obtain ⟨⟨hcompact, hdrain⟩, -⟩ :=
    compaction_wellPaired_iff plainPlatform hpaired { threshold := 0, drainTo := 30 } 30
  refine ⟨hpaired, rfl, ?_, by decide +kernel, hcompact fun _ => ⟨hcut, ?_⟩,
    hdrain fun _ => ⟨.inl hcut', ?_⟩, by decide +kernel⟩
  · constructor <;> decide +kernel
  · intro m _ g _ hpart _ x hx
    exact hplain x (hpart.subset hx)
  · rintro g _ hpart ⟨x, hx, hmarked⟩
    rw [hplain' x (hpart.subset hx)] at hmarked
    cases hmarked

end GenusOs.Engine.Compaction
