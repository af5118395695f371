import GenusOs.Engine.Compaction.PrePass
import GenusOs.Library.Run
import Mathlib

/-!
# What compaction protects

The protected head and the messages that the engine pinned, through any number of compactions. The
passes that rebuild the list put them first; what reaches them is the pre-pass, which takes the
images out of a pinned message, and the last resort, which cuts every message but the first and the
last four.

* `shrinkLargest_getElem?_iff`: which messages `_shrink_largest` leaves as they are.
* `Follows`: one list of messages protects at least what another one does.
* `head_and_pins_survive`: what is protected stays, exactly where the last resort spares it.
-/

namespace GenusOs.Engine.Compaction

open GenusOs.Python

variable {env env' : Platform} {ms ns l : List Message} {m : Message} {args : CompactArgs}
  {drainTo : Int} {pending : List String} {i k : Nat}

/-! ## The last resort -/

def Message.oversized (m : Message) : Bool := SHRINK_HEAD_CHARS < (contentText m.content).length

/-- What `_shrink_largest` leaves of a message. -/
def Message.shortened (m : Message) : Message :=
  { m with content := .text (shrunkText (contentText m.content)) }

/-- The indices of `_shrink_largest`, the biggest message first. -/
def shrinkOrder (ms : List Message) : List Nat :=
  let size (i : Nat) := ((ms[i]?).map fun m => (contentText m.content).length).getD 0
  (List.range' 1 (ms.length - SHRINK_KEEP_INTACT - 1)).mergeSort fun i j => decide (size j ≤ size i)

def oversizedAt (ms : List Message) (i : Nat) : Bool := (ms[i]?).any (·.oversized)

/-- The messages with those at the indices cut. -/
def cut (ms : List Message) (indices : List Nat) : List Message :=
  indices.foldl (fun out i => out.modify i Message.shortened) ms

/-- The messages that the last resort may cut, in its order. -/
def candidates (ms : List Message) : List Nat := (shrinkOrder ms).filter (oversizedAt ms)

/-- The last resort comes to the message: cutting the bigger ones, one by one, is not enough. -/
def Cuts (env : Platform) (drainTo : Int) (ms : List Message) (i : Nat) : Prop :=
  ∃ k, (candidates ms)[k]? = some i ∧
    ∀ j ≤ k, drainTo < env.estimateTokens (cut ms ((candidates ms).take j))

theorem oversizedAt_modify (h : k ≠ i) :
    oversizedAt (ms.modify k Message.shortened) i = oversizedAt ms i := by
  unfold oversizedAt
  rw [List.getElem?_modify_ne _ _ h]

/-- The loop cuts the first oversized ones, as long as too much remains. -/
theorem shrinkLoop_eq {order : List Nat} (hnodup : order.Nodup) :
    ∀ (out : List Message) (count : Nat),
    ∃ n, (shrinkLoop env drainTo out count order).1 =
        cut out ((order.filter (oversizedAt out)).take n) ∧
      ∀ k < (order.filter (oversizedAt out)).length, (k < n ↔
        ∀ j ≤ k, drainTo < env.estimateTokens
          (cut out ((order.filter (oversizedAt out)).take j))) := by
  induction order with
  | nil => exact fun _ _ => ⟨0, rfl, fun _ hk => absurd hk (Nat.not_lt_zero _)⟩
  | cons i order ih =>
    intro out count
    rw [List.nodup_cons] at hnodup
    have ih := ih hnodup.2
    unfold shrinkLoop
    by_cases hfits : env.estimateTokens out ≤ drainTo
    · rw [if_pos hfits]
      refine ⟨0, rfl, fun k _ => ⟨fun hk => absurd hk (Nat.not_lt_zero _), fun hall => ?_⟩⟩
      exact absurd (hall 0 (Nat.zero_le _)) (not_lt.mpr hfits)
    · rw [if_neg hfits]
      cases hm : out[i]? with
      | none =>
        have hsmall : oversizedAt out i = false := by
          unfold oversizedAt
          rw [hm]
          rfl
        rw [List.filter_cons_of_neg (Bool.eq_false_iff.mp hsmall)]
        exact ih out count
      | some m =>
        dsimp only
        have hover : oversizedAt out i = m.oversized := by
          unfold oversizedAt
          rw [hm]
          rfl
        by_cases hsize : (contentText m.content).length ≤ SHRINK_HEAD_CHARS
        · have hsmall : ¬ oversizedAt out i = true := by
            rw [hover]
            simpa [Message.oversized] using hsize
          rw [if_pos hsize, List.filter_cons_of_neg hsmall]
          exact ih out count
        · have hbig : oversizedAt out i = true := by
            rw [hover]
            simpa [Message.oversized] using hsize
          rw [if_neg hsize, List.filter_cons_of_pos hbig]
          have hset : out.set i { m with content := .text (shrunkText (contentText m.content)) } =
              out.modify i Message.shortened := by
            obtain ⟨hi, rfl⟩ := List.getElem?_eq_some_iff.mp hm
            rw [List.modify_eq_set_getElem?, List.getElem?_eq_getElem hi]
            rfl
          have hrest : order.filter (oversizedAt (out.modify i Message.shortened)) =
              order.filter (oversizedAt out) :=
            List.filter_congr fun j hj => oversizedAt_modify fun heq => hnodup.1 (heq ▸ hj)
          obtain ⟨n, heq, hn⟩ := ih (out.modify i Message.shortened) (count + 1)
          rw [hrest] at heq hn
          rw [hset]
          refine ⟨n + 1, heq, fun k hk => ?_⟩
          cases k with
          | zero =>
            refine ⟨fun _ j hj => ?_, fun _ => Nat.succ_pos n⟩
            obtain rfl := Nat.le_zero.mp hj
            exact not_le.mp hfits
          | succ k =>
            rw [Nat.succ_lt_succ_iff, hn k (Nat.lt_of_succ_lt_succ hk)]
            constructor
            · intro hall j hj
              cases j with
              | zero => exact not_le.mp hfits
              | succ j => exact hall j (Nat.le_of_succ_le_succ hj)
            · exact fun hall j hj => hall (j + 1) (Nat.succ_le_succ hj)

theorem cut_getElem? {indices : List Nat} (hnodup : indices.Nodup) :
    ∀ ms : List Message, (cut ms indices)[i]? =
      if i ∈ indices then (ms[i]?).map Message.shortened else ms[i]? := by
  induction indices with
  | nil => exact fun _ => rfl
  | cons k indices ih =>
    intro ms
    rw [List.nodup_cons] at hnodup
    show (cut (ms.modify k Message.shortened) indices)[i]? = _
    rw [ih hnodup.2]
    by_cases hk : k = i
    · subst hk
      rw [if_neg hnodup.1, if_pos List.mem_cons_self, List.getElem?_modify_eq]
      rfl
    · have hmem : i ∈ k :: indices ↔ i ∈ indices := by
        rw [List.mem_cons]
        exact ⟨fun h => h.resolve_left (Ne.symm hk), .inr⟩
      rw [List.getElem?_modify_ne _ _ hk]
      simp only [hmem]

theorem candidates_nodup (ms : List Message) : (candidates ms).Nodup :=
  (((List.mergeSort_perm _ _).nodup_iff.mpr List.nodup_range').filter _)

/-- **What the last resort does to each message.** -/
theorem shrinkLargest_getElem? (env : Platform) (ms : List Message) (drainTo : Int) (i : Nat) :
    (Cuts env drainTo ms i →
      (shrinkLargest env ms drainTo).1[i]? = (ms[i]?).map Message.shortened) ∧
    (¬ Cuts env drainTo ms i → (shrinkLargest env ms drainTo).1[i]? = ms[i]?) := by
  have horder : (shrinkOrder ms).Nodup := (List.mergeSort_perm _ _).nodup_iff.mpr List.nodup_range'
  obtain ⟨n, heq, hn⟩ := @shrinkLoop_eq env drainTo _ horder ms 0
  have hcut : (shrinkLargest env ms drainTo).1 = cut ms ((candidates ms).take n) := heq
  have hnodup : ((candidates ms).take n).Nodup :=
    (candidates_nodup ms).sublist (List.take_sublist _ _)
  have hmem : i ∈ (candidates ms).take n ↔ Cuts env drainTo ms i := by
    rw [List.mem_iff_getElem?]
    constructor
    · rintro ⟨k, hk⟩
      rw [List.getElem?_take, Option.ite_none_right_eq_some] at hk
      exact ⟨k, hk.2, (hn k (List.getElem?_eq_some_iff.mp hk.2).1).mp hk.1⟩
    · rintro ⟨k, hk, hall⟩
      have hlt : k < n := (hn k (List.getElem?_eq_some_iff.mp hk).1).mpr hall
      refine ⟨k, ?_⟩
      rw [List.getElem?_take, if_pos hlt]
      exact hk
  rw [hcut, cut_getElem? hnodup]
  exact ⟨fun h => if_pos (hmem.mpr h), fun h => if_neg fun hin => h (hmem.mp hin)⟩

/-- The last resort does not come to the message, or would leave it as it is. -/
def Spared (env : Platform) (drainTo : Int) (ms : List Message) (i : Nat) : Prop :=
  ∀ m, ms[i]? = some m → Cuts env drainTo ms i → m.shortened = m

theorem shrinkLargest_getElem?_iff :
    (shrinkLargest env ms drainTo).1[i]? = ms[i]? ↔ Spared env drainTo ms i := by
  obtain ⟨hcuts, hnot⟩ := shrinkLargest_getElem? env ms drainTo i
  constructor
  · intro heq m hm hcut
    rw [hcuts hcut, hm] at heq
    exact Option.some.inj heq
  · intro hspared
    by_cases hcut : Cuts env drainTo ms i
    · rw [hcuts hcut]
      cases hm : ms[i]? with
      | none => rfl
      | some m => exact congrArg some (hspared m hm hcut)
    · exact hnot hcut

/-! ## The protected prefix -/

theorem protectedPrefixLen_congr (h : env.protectFirstN = env'.protectFirstN) :
    protectedPrefixLen env ms = protectedPrefixLen env' ms := by
  unfold protectedPrefixLen
  rw [h]

/-- The prefix ends at its first message, or in front of no call. -/
theorem shrink_stops (n : Nat) : protectedPrefixLen.shrink ms n ≤ 1 ∨
    (ms[protectedPrefixLen.shrink ms n - 1]?).any (!·.toolCalls.isEmpty) = false := by
  induction n with
  | zero => exact .inl (Nat.zero_le _)
  | succ n ih =>
    cases n with
    | zero => exact .inl le_rfl
    | succ n =>
      rw [protectedPrefixLen.shrink]
      split
      · exact ih
      · next hcall => exact .inr (Bool.eq_false_iff.mpr hcall)

theorem le_shrink {n : Nat} (hk : k ≤ n)
    (hstop : k ≤ 1 ∨ (ms[k - 1]?).any (!·.toolCalls.isEmpty) = false) :
    k ≤ protectedPrefixLen.shrink ms n := by
  induction n with
  | zero => exact hk
  | succ n ih =>
    cases n with
    | zero => exact hk
    | succ n =>
      rw [protectedPrefixLen.shrink]
      split
      · next hcall =>
        refine ih (Nat.lt_succ_iff.mp (lt_of_le_of_ne hk ?_))
        rintro rfl
        rcases hstop with hone | hnone
        · omega
        · rw [Nat.add_sub_cancel_right (n + 1) 1] at hnone
          exact Bool.false_ne_true (hnone.symm.trans hcall)
      · exact hk

/-- **The prefix of a list that starts with a protected prefix is no shorter.** -/
theorem protectedPrefixLen_mono (h : ms.take (protectedPrefixLen env ms) <+: ns) :
    protectedPrefixLen env ms ≤ protectedPrefixLen env ns := by
  have hle := protectedPrefixLen_le env ms
  have hlen : protectedPrefixLen env ms ≤ ns.length := by
    have := h.length_le
    rw [List.length_take] at this
    omega
  have hlast : ∀ i < protectedPrefixLen env ms, ns[i]? = ms[i]? := by
    intro i hi
    rw [List.prefix_iff_getElem?.mp h i (by rw [List.length_take]; omega)]
    rw [List.getElem_take]
    exact (List.getElem?_eq_getElem (by omega)).symm
  generalize hn : protectedPrefixLen env ms = n at hle hlen hlast ⊢
  unfold protectedPrefixLen at hn ⊢
  split at hn
  · omega
  · split
    · next hempty =>
      rw [List.isEmpty_iff.mp hempty] at hlen
      omega
    · have hbound := @shrink_le ms (max 1 (min env.protectFirstN ms.length)).toNat
      have hstops := @shrink_stops ms (max 1 (min env.protectFirstN ms.length)).toNat
      rw [hn] at hbound hstops
      refine le_shrink (by omega) ?_
      by_cases hone : n ≤ 1
      · exact .inl hone
      · rw [hlast (n - 1) (by omega)]
        exact hstops

/-! ## The pinned messages -/

/-- The flag of a message, and the calls that wait for their result behind it. -/
def flagStep (pending : List String) (m : Message) : Bool × List String :=
  if m.isTool then (true, pending.filter (· ≠ m.toolCallId))
  else if m.toolCalls.isEmpty then (!pending.isEmpty, pending)
  else (true, m.callIds)

theorem inToolExchange_cons : inToolExchange pending (m :: ms) =
    (flagStep pending m).1 :: inToolExchange (flagStep pending m).2 ms := by
  unfold flagStep
  rw [inToolExchange]
  split
  · rfl
  · split <;> rfl

/-- The pinned messages outside the exchanges, with calls that wait in front of them. -/
def hoistFrom (pending : List String) (ms : List Message) : List Message :=
  ((ms.zip (inToolExchange pending ms)).filter fun x => x.1.isPinned && !x.2).map (·.1)

/-- What the engine has pinned outside of tool exchanges. -/
def pinnedOutside (ms : List Message) : List Message := (hoist ms).1

theorem hoistFrom_cons : hoistFrom pending (m :: ms) =
    (if m.isPinned && !(flagStep pending m).1 then [m] else []) ++
      hoistFrom (flagStep pending m).2 ms := by
  unfold hoistFrom
  rw [inToolExchange_cons, List.zip_cons_cons, List.filter_cons]
  dsimp only
  split <;> rfl

theorem hoistFrom_subset : hoistFrom pending ms ⊆ ms := by
  intro m hm
  obtain ⟨⟨x, flag⟩, hx, rfl⟩ := List.mem_map.mp hm
  exact (List.of_mem_zip (List.mem_filter.mp hx).1).1

theorem flagStep_plain (h : (flagStep pending m).1 = false) : m.isPlain = true := by
  unfold flagStep at h
  split at h
  · cases h
  · next ht =>
    split at h
    · next hcalls => simp [Message.isPlain, ht, hcalls]
    · cases h

theorem plain_of_flag (hm : ms[i]? = some m) (h : (inToolExchange pending ms)[i]? = some false) :
    m.isPlain = true := by
  induction ms generalizing pending i with
  | nil => cases hm
  | cons n ms ih =>
    rw [inToolExchange_cons] at h
    cases i with
    | zero =>
      obtain rfl := Option.some.inj hm
      exact flagStep_plain (Option.some.inj h)
    | succ i => exact ih hm h

/-- What is hoisted is pinned, and neither makes calls nor answers one. -/
theorem hoistFrom_isHoisted : ∀ m ∈ hoistFrom pending ms, m.isHoisted = true := by
  induction ms generalizing pending with
  | nil => exact fun _ h => absurd h List.not_mem_nil
  | cons n ms ih =>
    intro m hm
    rw [hoistFrom_cons] at hm
    rcases List.mem_append.mp hm with hhead | htail
    · split at hhead
      · next hflag =>
        obtain rfl := List.mem_singleton.mp hhead
        obtain ⟨hpin, hout⟩ := Bool.and_eq_true_iff.mp hflag
        exact Bool.and_eq_true_iff.mpr ⟨hpin, flagStep_plain (by simpa using hout)⟩
      · cases hhead
    · exact ih m htail

theorem flagStep_mono {waiting : List String} (h : waiting ⊆ pending) (m : Message) :
    ((flagStep waiting m).1 = true → (flagStep pending m).1 = true) ∧
      (flagStep waiting m).2 ⊆ (flagStep pending m).2 := by
  unfold flagStep
  split
  · exact ⟨fun _ => rfl, List.filter_subset _ h⟩
  · split
    · refine ⟨fun hne => ?_, h⟩
      cases hpending : pending with
      | nil =>
        rw [hpending] at h
        rw [List.subset_nil.mp h] at hne
        exact hne
      | cons => rfl
    · exact ⟨fun _ => rfl, List.Subset.refl _⟩

/-- With fewer calls waiting, no fewer messages are outside. -/
theorem hoistFrom_anti {waiting : List String} (h : waiting ⊆ pending) :
    hoistFrom pending ms ⊆ hoistFrom waiting ms := by
  induction ms generalizing pending waiting with
  | nil => exact List.Subset.refl _
  | cons m ms ih =>
    obtain ⟨hflag, hrest⟩ := flagStep_mono h m
    intro n hn
    rw [hoistFrom_cons] at hn ⊢
    rcases List.mem_append.mp hn with hhead | htail
    · refine List.mem_append_left _ ?_
      split at hhead
      · next hout =>
        obtain ⟨hpin, hout⟩ := Bool.and_eq_true_iff.mp hout
        have hwaiting : (flagStep waiting m).1 = false := by
          by_contra hin
          rw [hflag (Bool.eq_true_of_not_eq_false hin)] at hout
          cases hout
        rw [hpin, hwaiting]
        exact hhead
      · cases hhead
    · exact List.mem_append_right _ (ih hrest htail)

theorem hoistFrom_append :
    ∃ waiting, hoistFrom pending (ms ++ ns) = hoistFrom pending ms ++ hoistFrom waiting ns := by
  induction ms generalizing pending with
  | nil => exact ⟨pending, rfl⟩
  | cons m ms ih =>
    obtain ⟨waiting, heq⟩ := @ih (flagStep pending m).2
    refine ⟨waiting, ?_⟩
    rw [List.cons_append, hoistFrom_cons, hoistFrom_cons, heq, List.append_assoc]

/-- What is outside stays so where the scan starts later. -/
theorem hoistFrom_drop (k : Nat) :
    hoistFrom pending ms ⊆ ms.take k ++ hoistFrom [] (ms.drop k) := by
  obtain ⟨waiting, heq⟩ := @hoistFrom_append (ms.take k) (ms.drop k) pending
  rw [List.take_append_drop] at heq
  rw [heq]
  exact List.append_subset.mpr ⟨fun m hm => List.mem_append_left _ (hoistFrom_subset hm),
    fun m hm => List.mem_append_right _ (hoistFrom_anti (List.nil_subset _) hm)⟩

/-- Pinned messages in front of the others are all outside. -/
theorem subset_hoistFrom (h : ∀ m ∈ ms, m.isHoisted = true) : ms ⊆ hoistFrom [] (ms ++ ns) := by
  induction ms with
  | nil => exact List.nil_subset _
  | cons m ms ih =>
    obtain ⟨hpin, hplain⟩ := Bool.and_eq_true_iff.mp (h m List.mem_cons_self)
    obtain ⟨htool, hcalls⟩ := Bool.and_eq_true_iff.mp hplain
    have hflag : flagStep [] m = (false, []) := by
      unfold flagStep
      rw [if_neg (by simpa using htool), if_pos hcalls]
      rfl
    rw [List.cons_append, hoistFrom_cons, hflag, hpin]
    exact List.cons_subset.mpr ⟨List.mem_cons_self, fun n hn =>
      List.mem_cons_of_mem _ (ih (fun n hn => h n (List.mem_cons_of_mem _ hn)) hn)⟩

theorem flagStep_congr {n : Message} (h : n.shape = m.shape) :
    flagStep pending n = flagStep pending m := by
  have hrole : n.role = m.role := congrArg (·.1) h
  have hids : n.callIds = m.callIds := congrArg (·.2.1) h
  have hid : n.toolCallId = m.toolCallId := congrArg (·.2.2) h
  have hempty : n.toolCalls.isEmpty = m.toolCalls.isEmpty := by
    have := congrArg List.isEmpty hids
    simpa [Message.callIds] using this
  unfold flagStep Message.isTool
  rw [hrole, hids, hid, hempty]

/-- The same messages are hoisted where these are unchanged, and the shapes and pins of all. -/
theorem hoistFrom_congr (hshape : ns.map Message.shape = ms.map Message.shape)
    (hpin : ns.map (·.pin) = ms.map (·.pin))
    (hsame : ∀ (i : Nat) (m : Message), ms[i]? = some m → m.isPinned = true →
      (inToolExchange pending ms)[i]? = some false → ns[i]? = some m) :
    hoistFrom pending ns = hoistFrom pending ms := by
  induction ms generalizing pending ns with
  | nil =>
    rw [List.map_nil, List.map_eq_nil_iff] at hshape
    rw [hshape]
  | cons m ms ih =>
    cases ns with
    | nil => cases hshape
    | cons n ns =>
      rw [List.map_cons, List.map_cons, List.cons.injEq] at hshape hpin
      have hflag : flagStep pending n = flagStep pending m := flagStep_congr hshape.1
      have hpinned : n.isPinned = m.isPinned := by
        unfold Message.isPinned
        rw [hpin.1]
      have hrest : hoistFrom (flagStep pending m).2 ns = hoistFrom (flagStep pending m).2 ms := by
        refine ih hshape.2 hpin.2 fun i x hx hxpin hxflag => ?_
        refine hsame (i + 1) x hx hxpin ?_
        rw [inToolExchange_cons]
        exact hxflag
      rw [hoistFrom_cons, hoistFrom_cons, hflag, hpinned, hrest]
      split
      · next hout =>
        obtain ⟨hmpin, hmout⟩ := Bool.and_eq_true_iff.mp hout
        have heq : some n = some m := hsame 0 m rfl hmpin (by
          rw [inToolExchange_cons, List.getElem?_cons_zero]
          exact congrArg some (by simpa using hmout))
        rw [Option.some.inj heq]
      · rfl

/-! ## What is protected -/

/-- The head, and what is pinned behind it. -/
def protectedMessages (env : Platform) (ms : List Message) : List Message :=
  ms.take (protectedPrefixLen env ms) ++ hoistFrom [] (tailOf env ms)

theorem splitForSummary_fst : (splitForSummary env ms).1 = protectedMessages env ms := rfl

/-- `ns` starts with the protected head of `ms` and protects what `ms` does. -/
structure Follows (env : Platform) (ms ns : List Message) : Prop where
  head : ms.take (protectedPrefixLen env ms) <+: ns
  pinned : protectedMessages env ms ⊆ protectedMessages env ns

theorem Follows.refl (env : Platform) (ms : List Message) : Follows env ms ms :=
  ⟨List.take_prefix _ _, List.Subset.refl _⟩

theorem Follows.trans {os : List Message} (h : Follows env ms ns) (k : Follows env ns os) :
    Follows env ms os where
  head := by
    have hhead : ms.take (protectedPrefixLen env ms) <+: ns.take (protectedPrefixLen env ns) := by
      rw [List.prefix_take_iff]
      refine ⟨h.head, (List.length_take_le _ _).trans (protectedPrefixLen_mono h.head)⟩
    exact hhead.trans k.head
  pinned := List.Subset.trans h.pinned k.pinned

/-- What is behind the start of the head is protected, if it is in the head or hoisted. -/
theorem subset_protectedMessages (h : k ≤ protectedPrefixLen env ns) :
    ns.take k ++ hoistFrom [] (ns.drop k) ⊆ protectedMessages env ns := by
  have hhead : ns.take k ⊆ ns.take (protectedPrefixLen env ns) :=
    (List.take_prefix_take_left h).subset
  have hmiddle : (ns.drop k).take (protectedPrefixLen env ns - k) ⊆
      ns.take (protectedPrefixLen env ns) := by
    rw [← List.drop_take]
    exact (List.drop_sublist _ _).subset
  refine List.append_subset.mpr ⟨fun m hm => List.mem_append_left _ (hhead hm), fun m hm => ?_⟩
  rcases List.mem_append.mp (hoistFrom_drop (protectedPrefixLen env ns - k) hm) with hin | hout
  · exact List.mem_append_left _ (hmiddle hin)
  · rw [List.drop_drop, Nat.add_sub_cancel' h] at hout
    exact List.mem_append_right _ hout

/-- **What a list has to keep of another one** in order to follow it. -/
theorem Follows.of_tail (hhead : ms.take (protectedPrefixLen env ms) <+: ns)
    (htail : hoistFrom [] (tailOf env ms) ⊆
      hoistFrom [] (ns.drop (protectedPrefixLen env ms))) : Follows env ms ns where
  head := hhead
  pinned := by
    have htake : ms.take (protectedPrefixLen env ms) = ns.take (protectedPrefixLen env ms) := by
      have heq := List.prefix_iff_eq_take.mp hhead
      rwa [List.length_take, min_eq_left (protectedPrefixLen_le env ms)] at heq
    refine List.Subset.trans ?_ (subset_protectedMessages (protectedPrefixLen_mono hhead))
    rw [← htake]
    exact List.append_subset.mpr ⟨List.subset_append_left _ _,
      fun m hm => List.mem_append_right _ (htail hm)⟩

theorem Follows.of_hoisted_eq (hhead : ms.take (protectedPrefixLen env ms) <+: ns)
    (htail : hoistFrom [] (ns.drop (protectedPrefixLen env ms)) =
      hoistFrom [] (tailOf env ms)) : Follows env ms ns :=
  .of_tail hhead (htail ▸ List.Subset.refl _)

/-- Messages behind the others leave these protected. -/
theorem Follows.append (env : Platform) (ms ns : List Message) : Follows env ms (ms ++ ns) := by
  refine .of_tail ((List.take_prefix _ _).trans (List.prefix_append _ _)) ?_
  rw [List.drop_append_of_le_length (protectedPrefixLen_le env ms)]
  obtain ⟨waiting, heq⟩ := @hoistFrom_append (tailOf env ms) ns []
  exact heq ▸ List.subset_append_left _ _

theorem pinnedOutside_subset : pinnedOutside ms ⊆ protectedMessages env ms :=
  List.Subset.trans (List.subset_append_right _ _)
    (@subset_protectedMessages env ms 0 (Nat.zero_le _))

theorem protectedMessages_subset : protectedMessages env ms ⊆ ms :=
  List.append_subset.mpr ⟨(List.take_sublist _ _).subset,
    List.Subset.trans hoistFrom_subset (List.drop_sublist _ _).subset⟩

/-! ## The pre-pass -/

/-- **What the pre-pass leaves of a message outside the exchanges.** -/
theorem prePass_keeps (h : (tailOf env ms)[i]? = some m) (hm : m.isPlain = true)
    (hmedia : i + k < (tailOf env ms).length → stripMedia m = m) :
    ((llmFreePrePass env ms k).drop (protectedPrefixLen env ms))[i]? = some m := by
  obtain ⟨htool, hcalls⟩ := Bool.and_eq_true_iff.mp hm
  have htool : m.isTool = false := by simpa using htool
  have hget : ms[protectedPrefixLen env ms + i]? = some m := by
    rw [← h, tailOf, List.getElem?_drop]
  obtain ⟨hrewritten, hkept⟩ := prePass_getElem? env ms k (protectedPrefixLen env ms + i)
  rw [List.getElem?_drop]
  by_cases hold : IsOld env ms k (protectedPrefixLen env ms + i)
  · have hstrip : stripMedia m = m := by
      refine hmedia ?_
      have := hold.2
      unfold tailOf
      rw [List.length_drop]
      omega
    have hdeduped (later : List Message) : deduped env later m = m := by
      have hlong : longResult m = none := by
        unfold longResult
        rw [htool]
        split <;> rfl
      unfold deduped isRepeated
      rw [hlong]
      rfl
    have helide : elideLargeToolResult env m = m :=
      elide_eq_self fun _ _ ht => absurd ht (by rw [htool]; exact Bool.false_ne_true)
    have htruncate : truncateToolArguments env m = m := by
      unfold truncateToolArguments
      rw [List.isEmpty_iff.mp hcalls]
      obtain ⟨⟩ := m
      cases List.isEmpty_iff.mp hcalls
      rfl
    rw [hrewritten hold, hget, Option.map_some, rewritten, hdeduped, hstrip, helide, htruncate]
  · rw [hkept hold, hget]

/-- The pre-pass keeps the protected messages, where it would take no image out of a pinned one. -/
theorem hoistFrom_prePass (hmedia : ∀ (i : Nat) (m : Message), (tailOf env ms)[i]? = some m →
      m.isPinned = true → (inToolExchange [] (tailOf env ms))[i]? = some false →
      i + k < (tailOf env ms).length → stripMedia m = m) :
    hoistFrom [] ((llmFreePrePass env ms k).drop (protectedPrefixLen env ms)) =
      hoistFrom [] (tailOf env ms) := by
  have hshape : ((llmFreePrePass env ms k).drop (protectedPrefixLen env ms)).map Message.shape =
      (tailOf env ms).map Message.shape := by
    rw [List.map_drop, shape_prePass, ← List.map_drop]
    rfl
  have hpin : ((llmFreePrePass env ms k).drop (protectedPrefixLen env ms)).map (·.pin) =
      (tailOf env ms).map (·.pin) := by
    rw [List.map_drop, map_prePass (fun _ _ => rfl) (fun _ => rfl), ← List.map_drop]
    rfl
  refine hoistFrom_congr hshape hpin fun i m hm hpinned hflag => ?_
  exact prePass_keeps hm (plain_of_flag hm hflag) (hmedia i m hm hpinned hflag)

/-- The prefix is a matter of the shapes. -/
theorem protectedPrefixLen_shape (h : ns.map Message.shape = ms.map Message.shape) :
    protectedPrefixLen env ns = protectedPrefixLen env ms := by
  have hlen := length_of_map h
  have hcalls : ∀ (l : List Message) (i : Nat), (l[i]?).any (!·.toolCalls.isEmpty) =
      ((l.map Message.shape)[i]?).any (!·.2.1.isEmpty) := by
    intro l i
    rw [List.getElem?_map]
    cases l[i]? with
    | none => rfl
    | some m => simp [Message.shape, Message.callIds]
  have hshrink : ∀ n, protectedPrefixLen.shrink ns n = protectedPrefixLen.shrink ms n := by
    intro n
    induction n with
    | zero => rfl
    | succ n ih =>
      cases n with
      | zero => rfl
      | succ n => rw [protectedPrefixLen.shrink, protectedPrefixLen.shrink, hcalls, hcalls, h, ih]
  have hempty : ns.isEmpty = ms.isEmpty := by
    rw [← @List.isEmpty_map _ _ ns Message.shape, h, List.isEmpty_map]
  unfold protectedPrefixLen
  rw [hlen, hempty, hshrink]

/-- A short list has no message in front of the recent ones. -/
theorem workingOf_short (h : ms.length ≤ KEEP_RECENT + 1) : workingOf env ms = ms := by
  have hbefore : ∀ {f : List Message → List Message} {l : List Message}, f [] = [] →
      l.length ≤ KEEP_RECENT → beforeTail KEEP_RECENT f l = l := by
    intro f l hnil hl
    unfold beforeTail
    rw [Nat.sub_eq_zero_of_le hl, List.take_zero, hnil]
    rfl
  have htail : (tailOf env ms).length ≤ KEEP_RECENT := by
    cases ms with
    | nil => exact Nat.zero_le _
    | cons m ms =>
      have hpos : 1 ≤ protectedPrefixLen env (m :: ms) := le_shrink (by omega) (.inl le_rfl)
      unfold tailOf
      rw [List.length_drop]
      omega
  calc workingOf env ms
      = ms.take (protectedPrefixLen env ms) ++
          (workingOf env ms).drop (protectedPrefixLen env ms) := by
        rw [← @take_prePass env ms KEEP_RECENT]
        exact (List.take_append_drop _ _).symm
    _ = ms.take (protectedPrefixLen env ms) ++ tailOf env ms := by
        unfold workingOf
        rw [drop_prePass, hbefore rfl htail, hbefore rfl htail,
          hbefore rfl htail, hbefore rfl htail]
    _ = ms := head_append_tail env ms

/-! ## The paths of `compact` -/

/-- `compact` replaces the slice by the summary. -/
structure ReplacesSlice (env : Platform) (ms : List Message) (args : CompactArgs)
    (summary : String) : Prop where
  reaches : args.threshold ≤ env.estimateTokens ms
  stillOver : args.drainTo ≤ env.estimateTokens (workingOf env ms)
  long : KEEP_RECENT + 1 < ms.length
  slice : oldMessages env args.drainTo (workingOf env ms) ≠ []
  summary : summarise env
    (joinSummaries (takePreviousSummary false (splitForSummary env (workingOf env ms)).2.2).1)
    (oldMessages env args.drainTo (workingOf env ms))
    (summaryChain env args.models args.brokenModels args.preferredModel) = some summary

/-- The messages with the summary, in front of the last resort. -/
def replaced (env : Platform) (ms : List Message) (args : CompactArgs) (summary : String) :
    List Message :=
  let chain := summaryChain env args.models args.brokenModels args.preferredModel
  assembled env ms (workingOf env ms) args.drainTo
    (mergeRetainedFacts env
      (sliceFacts env (oldMessages env args.drainTo (workingOf env ms)) chain)
      (splitForSummary env (workingOf env ms)).2.1)
    summary

theorem shrinkLoop_count {order : List Nat} : ∀ (out : List Message) (count : Nat),
    count ≤ (shrinkLoop env drainTo out count order).2 ∧
      ((shrinkLoop env drainTo out count order).2 = count →
        (shrinkLoop env drainTo out count order).1 = out) := by
  induction order with
  | nil => exact fun _ _ => ⟨le_rfl, fun _ => rfl⟩
  | cons i order ih =>
    intro out count
    unfold shrinkLoop
    split
    · exact ⟨le_rfl, fun _ => rfl⟩
    · split
      · exact ih out count
      · split
        · exact ih out count
        · next m _ _ =>
          have hmore := (ih (out.set i m.shortened) (count + 1)).1
          exact ⟨(Nat.le_succ _).trans hmore, fun heq => absurd (heq ▸ hmore) (by omega)⟩

/-- **Where `compact` ends**, if the last resort may have been at work. -/
theorem compact_paths (env : Platform) (ms : List Message) (args : CompactArgs) :
    (compact env ms args).messages = ms ∨
    (args.threshold ≤ env.estimateTokens ms ∧ (compact env ms args).messages = workingOf env ms) ∨
    (args.threshold ≤ env.estimateTokens ms ∧ args.drainTo ≤ env.estimateTokens ms ∧
      ms.length ≤ KEEP_RECENT + 1) ∨
    ∃ summary, ReplacesSlice env ms args summary := by
  have hlen : (workingOf env ms).length = ms.length := length_of_map (shape_prePass _)
  unfold compact
  dsimp only
  split
  · exact .inl rfl
  next h1 =>
  split
  · exact .inr (.inl ⟨not_lt.mp h1, rfl⟩)
  next h2 =>
  split
  · next h =>
    have hshort : ms.length ≤ KEEP_RECENT + 1 := hlen ▸ h
    have hover : ¬ env.estimateTokens (workingOf env ms) < args.drainTo := h2
    rw [workingOf_short hshort] at hover
    exact .inr (.inr (.inl ⟨not_lt.mp h1, not_lt.mp hover, hshort⟩))
  next h3 =>
  split
  · exact .inr (.inl ⟨not_lt.mp h1, rfl⟩)
  next h4 =>
  split
  · exact .inr (.inl ⟨not_lt.mp h1, rfl⟩)
  · next summary hsome =>
    exact .inr (.inr (.inr ⟨summary, not_lt.mp h1, not_lt.mp h2, hlen ▸ not_le.mp h3,
      fun h => h4 (List.isEmpty_iff.mpr h), hsome⟩))

theorem compact_short (hreaches : args.threshold ≤ env.estimateTokens ms)
    (hover : args.drainTo ≤ env.estimateTokens ms) (hshort : ms.length ≤ KEEP_RECENT + 1) :
    (compact env ms args).messages = (shrinkLargest env ms args.drainTo).1 := by
  have hworking : llmFreePrePass env ms KEEP_RECENT = ms := workingOf_short hshort
  unfold compact
  dsimp only
  rw [hworking, if_neg (not_lt.mpr hreaches), if_neg (not_lt.mpr hover), if_pos hshort]
  split
  · next hnone =>
    have hzero : (shrinkLargest env ms args.drainTo).2 = 0 := by
      simpa using (Bool.and_eq_true_iff.mp hnone).1
    exact ((shrinkLoop_count ms 0).2 hzero).symm
  · rfl

theorem compact_replaced {summary : String} (h : ReplacesSlice env ms args summary) :
    (compact env ms args).messages =
      if env.estimateTokens (replaced env ms args summary) > args.drainTo then
        (shrinkLargest env (replaced env ms args summary) args.drainTo).1
      else replaced env ms args summary := by
  have hlen : (workingOf env ms).length = ms.length := length_of_map (shape_prePass _)
  have hlong : ¬ (workingOf env ms).length ≤ KEEP_RECENT + 1 := not_le.mpr (hlen ▸ h.long)
  have hslice : ¬ (oldMessages env args.drainTo (workingOf env ms)).isEmpty = true :=
    fun hnil => h.slice (List.isEmpty_iff.mp hnil)
  have hover := not_lt.mpr h.stillOver
  have hsummary := h.summary
  unfold workingOf at hlong hover
  unfold oldMessages slicedMessages workingOf at hslice hsummary
  unfold compact
  dsimp only
  rw [if_neg (not_lt.mpr h.reaches), if_neg hover, if_neg hlong, if_neg hslice, hsummary]
  rfl

/-! ## What a compaction spares -/

/-- The message at the index is in the head, or pinned outside the exchanges behind it. -/
def Protected (env : Platform) (ms : List Message) (i : Nat) : Prop :=
  i < protectedPrefixLen env ms ∨
    ∃ k m, i = protectedPrefixLen env ms + k ∧ (tailOf env ms)[k]? = some m ∧ m.isPinned = true ∧
      (inToolExchange [] (tailOf env ms))[k]? = some false

/-- The last resort spares the head. -/
structure SparesHead (env : Platform) (ms : List Message) (args : CompactArgs) : Prop where
  short : args.threshold ≤ env.estimateTokens ms → ms.length ≤ KEEP_RECENT + 1 →
    ∀ i < protectedPrefixLen env ms, Spared env args.drainTo ms i
  replaced : ∀ summary, ReplacesSlice env ms args summary →
    ∀ i < protectedPrefixLen env ms, Spared env args.drainTo (replaced env ms args summary) i

/-- The pre-pass takes no image out of a pinned message. -/
def SparesImages (env : Platform) (ms : List Message) : Prop :=
  ∀ (i : Nat) (m : Message), Protected env ms i → protectedPrefixLen env ms ≤ i →
    i + KEEP_RECENT < ms.length → ms[i]? = some m → stripMedia m = m

/-- The pre-pass and the last resort spare what is protected. -/
structure Spares (env : Platform) (ms : List Message) (args : CompactArgs) : Prop where
  images : args.threshold ≤ env.estimateTokens ms → SparesImages env ms
  short : args.threshold ≤ env.estimateTokens ms → ms.length ≤ KEEP_RECENT + 1 →
    ∀ i, Protected env ms i → Spared env args.drainTo ms i
  replaced : ∀ summary, ReplacesSlice env ms args summary →
    ∀ i < (protectedMessages env ms).length,
      Spared env args.drainTo (replaced env ms args summary) i

theorem tailOf_getElem? (k : Nat) :
    (tailOf env ms)[k]? = ms[protectedPrefixLen env ms + k]? := List.getElem?_drop

theorem spared_of_fits (h : env.estimateTokens ms ≤ drainTo) : Spared env drainTo ms i :=
  fun _ _ ⟨_, _, hall⟩ => absurd (hall 0 (Nat.zero_le _)) (not_lt.mpr h)

/-- What every index of a part at the front is spared stays at the front. -/
theorem prefix_shrinkLargest_iff {front : List Message} (h : front <+: ms) :
    front <+: (shrinkLargest env ms drainTo).1 ↔ ∀ i < front.length, Spared env drainTo ms i := by
  have hfront : ∀ i (hi : i < front.length), ms[i]? = some front[i] := List.prefix_iff_getElem?.mp h
  rw [List.prefix_iff_getElem?]
  constructor
  · intro hall i hi
    rw [← shrinkLargest_getElem?_iff, hall i hi, hfront i hi]
  · intro hall i hi
    rw [shrinkLargest_getElem?_iff.mpr (hall i hi), hfront i hi]

theorem length_take_prefix :
    (ms.take (protectedPrefixLen env ms)).length = protectedPrefixLen env ms := by
  rw [List.length_take]
  exact min_eq_left (protectedPrefixLen_le env ms)

/-- The rebuilt list starts with the head. -/
theorem take_prefix_replaced {summary : String} :
    ms.take (protectedPrefixLen env ms) <+: replaced env ms args summary := by
  have hlen : protectedPrefixLen env (workingOf env ms) = protectedPrefixLen env ms :=
    protectedPrefixLen_shape (shape_prePass _)
  have hhead : (splitForSummary env (workingOf env ms)).1 = ms.take (protectedPrefixLen env ms) ++
      hoistFrom [] (tailOf env (workingOf env ms)) := by
    rw [splitForSummary_fst]
    unfold protectedMessages
    rw [hlen]
    exact congrArg (· ++ _) take_prePass
  unfold replaced assembled
  rw [hhead, List.append_assoc, List.append_assoc, List.append_assoc]
  exact List.prefix_append _ _

/-- **A compaction keeps the head, exactly where the last resort spares it.** -/
theorem head_prefix_iff (env : Platform) (ms : List Message) (args : CompactArgs) :
    ms.take (protectedPrefixLen env ms) <+: (compact env ms args).messages ↔
      SparesHead env ms args := by
  constructor
  · intro hhead
    constructor
    · intro hreaches hshort i hi
      by_cases hover : args.drainTo ≤ env.estimateTokens ms
      · rw [compact_short hreaches hover hshort, prefix_shrinkLargest_iff (List.take_prefix _ _),
          length_take_prefix] at hhead
        exact hhead i hi
      · exact spared_of_fits (not_le.mp hover).le
    · intro summary hreplaces i hi
      rw [compact_replaced hreplaces] at hhead
      split at hhead
      · rw [prefix_shrinkLargest_iff take_prefix_replaced, length_take_prefix] at hhead
        exact hhead i hi
      · next hfits => exact spared_of_fits (not_lt.mp hfits)
  · intro hspares
    rcases compact_paths env ms args with
      heq | ⟨-, heq⟩ | ⟨hreaches, hover, hshort⟩ | ⟨summary, hreplaces⟩
    · rw [heq]
      exact List.take_prefix _ _
    · rw [heq, ← @take_prePass env ms KEEP_RECENT]
      exact List.take_prefix _ _
    · rw [compact_short hreaches hover hshort, prefix_shrinkLargest_iff (List.take_prefix _ _),
        length_take_prefix]
      exact hspares.short hreaches hshort
    · rw [compact_replaced hreplaces]
      split
      · rw [prefix_shrinkLargest_iff take_prefix_replaced, length_take_prefix]
        exact hspares.replaced summary hreplaces
      · exact take_prefix_replaced

/-- A list that starts with all that is protected follows. -/
theorem Follows.starting (h : protectedMessages env ms <+: ns) : Follows env ms ns := by
  obtain ⟨rest, rfl⟩ := h
  refine .of_tail ((List.prefix_append _ _).trans (List.prefix_append _ _)) ?_
  have hdrop : (protectedMessages env ms ++ rest).drop (protectedPrefixLen env ms) =
      hoistFrom [] (tailOf env ms) ++ rest := by
    unfold protectedMessages
    rw [List.append_assoc]
    exact List.drop_left' length_take_prefix
  rw [hdrop]
  exact subset_hoistFrom hoistFrom_isHoisted

theorem hoistFrom_working (h : SparesImages env ms) :
    hoistFrom [] ((workingOf env ms).drop (protectedPrefixLen env ms)) =
      hoistFrom [] (tailOf env ms) := by
  refine hoistFrom_prePass fun k m hm hpinned hflag hk => ?_
  have hprotected : Protected env ms (protectedPrefixLen env ms + k) :=
    .inr ⟨k, m, rfl, hm, hpinned, hflag⟩
  refine h _ m hprotected (Nat.le_add_right _ _) ?_ (tailOf_getElem? k ▸ hm)
  unfold tailOf at hk
  rw [List.length_drop] at hk
  omega

/-- The rebuilt list starts with all that is protected. -/
theorem protected_prefix_replaced {summary : String} (h : SparesImages env ms) :
    protectedMessages env ms <+: replaced env ms args summary := by
  have hlen : protectedPrefixLen env (workingOf env ms) = protectedPrefixLen env ms :=
    protectedPrefixLen_shape (shape_prePass _)
  have hhead : (splitForSummary env (workingOf env ms)).1 = protectedMessages env ms := by
    rw [splitForSummary_fst]
    unfold protectedMessages tailOf
    rw [hlen]
    exact congrArg₂ (· ++ ·) take_prePass (hoistFrom_working h)
  unfold replaced assembled
  rw [hhead, List.append_assoc, List.append_assoc]
  exact List.prefix_append _ _

/-- **A compaction that spares what is protected keeps it protected.** -/
theorem follows_compact (h : Spares env ms args) :
    Follows env ms (compact env ms args).messages := by
  rcases compact_paths env ms args with
    heq | ⟨hreaches, heq⟩ | ⟨hreaches, hover, hshort⟩ | ⟨summary, hreplaces⟩
  · rw [heq]
    exact .refl env ms
  · rw [heq]
    refine .of_hoisted_eq ?_ (hoistFrom_working (h.images hreaches))
    rw [← @take_prePass env ms KEEP_RECENT]
    exact List.take_prefix _ _
  · have hspared := h.short hreaches hshort
    rw [compact_short hreaches hover hshort]
    refine .of_hoisted_eq ?_ (hoistFrom_congr ?_ ?_ fun k m hm hpinned hflag => ?_)
    · rw [prefix_shrinkLargest_iff (List.take_prefix _ _), length_take_prefix]
      exact fun i hi => hspared i (.inl hi)
    · rw [List.map_drop, shape_shrinkLargest, ← List.map_drop]
      rfl
    · rw [List.map_drop, map_shrinkLargest fun _ _ => rfl, ← List.map_drop]
      rfl
    · have hprotected : Protected env ms (protectedPrefixLen env ms + k) :=
        .inr ⟨k, m, rfl, hm, hpinned, hflag⟩
      rw [List.getElem?_drop, shrinkLargest_getElem?_iff.mpr (hspared _ hprotected),
        ← tailOf_getElem?]
      exact hm
  · have hfront := @protected_prefix_replaced env ms args summary (h.images hreplaces.reaches)
    rw [compact_replaced hreplaces]
    split
    · refine .starting ?_
      rw [prefix_shrinkLargest_iff hfront]
      exact h.replaced summary hreplaces
    · exact .starting hfront

theorem mem_protectedMessages (h : Protected env ms i) (hm : ms[i]? = some m) :
    m ∈ protectedMessages env ms := by
  rcases h with hhead | ⟨k, n, rfl, hn, hpinned, hflag⟩
  · refine List.mem_append_left _ (List.mem_of_getElem? (i := i) ?_)
    rw [List.getElem?_take, if_pos hhead]
    exact hm
  · obtain rfl : n = m := by
      rw [tailOf_getElem?, hm] at hn
      exact (Option.some.inj hn).symm
    refine List.mem_append_right _
      (List.mem_map.mpr ⟨(n, false), List.mem_filter.mpr ⟨?_, ?_⟩, rfl⟩)
    · refine List.mem_of_getElem? (i := k) ?_
      rw [List.getElem?_zip_eq_some]
      exact ⟨hn, hflag⟩
    · rw [hpinned]
      rfl

theorem spared_of_small (h : ∀ m, ms[i]? = some m → m.oversized = false) :
    Spared env drainTo ms i := by
  rintro m hm ⟨k, hk, -⟩
  have hover := (List.mem_filter.mp (List.mem_of_getElem? hk)).2
  unfold oversizedAt at hover
  rw [hm] at hover
  exact absurd hover (Bool.eq_false_iff.mp (h m hm))

/-- Short messages without images are spared. -/
theorem spares_of_small
    (h : ∀ m ∈ protectedMessages env ms, m.oversized = false ∧ stripMedia m = m) :
    Spares env ms args := by
  have himages : SparesImages env ms := fun i m hprotected _ _ hm =>
    (h m (mem_protectedMessages hprotected hm)).2
  refine ⟨fun _ => himages, fun _ _ i hprotected => spared_of_small fun m hm =>
    (h m (mem_protectedMessages hprotected hm)).1, fun summary hreplaces i hi =>
      spared_of_small fun m hm => ?_⟩
  have hfront := List.prefix_iff_getElem?.mp
    (@protected_prefix_replaced env ms args summary himages) i hi
  rw [hm] at hfront
  obtain rfl := Option.some.inj hfront
  exact (h _ (List.getElem_mem hi)).1

/-! ## Histories -/

inductive HistoryAct
  | compact (env : Platform) (args : CompactArgs)
  /-- The run goes on. -/
  | extend (ms : List Message)

/-- The messages of a run, compacted any number of times under one setting of `protect_first_n`;
what the models answer and how tokens are counted may change from one compaction to the next. -/
def history (env : Platform) : System (List Message) HistoryAct where
  init _ := True
  step ms act ns :=
    match act with
    | .compact platform args =>
      platform.protectFirstN = env.protectFirstN ∧ ns = (compact platform ms args).messages
    | .extend more => ns = ms ++ more

/-- Its compactions spare what is protected. -/
def Sparing (ms : List Message) : HistoryAct → Prop
  | .compact env args => Spares env ms args
  | .extend _ => True

theorem Follows.congr (h : env.protectFirstN = env'.protectFirstN) (hf : Follows env ms ns) :
    Follows env' ms ns := by
  have hlen : ∀ l, protectedPrefixLen env l = protectedPrefixLen env' l :=
    fun _ => protectedPrefixLen_congr h
  have hprotected : ∀ l, protectedMessages env l = protectedMessages env' l := by
    intro l
    unfold protectedMessages tailOf
    rw [hlen]
  exact ⟨hlen ms ▸ hf.head, hprotected ms ▸ hprotected ns ▸ hf.pinned⟩

theorem follows_run {acts : List HistoryAct}
    (h : ((history env).restrict Sparing).Run ms acts ns) : Follows env ms ns := by
  refine h.follows (I := fun _ => True) (R := Follows env) (Follows.refl env)
    (fun _ _ _ => Follows.trans) (fun _ _ _ _ _ => trivial) ?_ trivial
  intro ms act ns _ ⟨hsparing, hstep⟩
  cases act with
  | compact platform args =>
    obtain ⟨hn, rfl⟩ := hstep
    exact (follows_compact hsparing).congr hn
  | extend more =>
    obtain rfl := hstep
    exact .append env ms more

/-- **The protected head and the pinned messages survive** every sparing run, and a compaction
that does not spare the head changes it. -/
theorem head_and_pins_survive (env : Platform) :
    (∀ ms acts ns, ((history env).restrict Sparing).Run ms acts ns →
      ms.take (protectedPrefixLen env ms) <+: ns ∧ ∀ m ∈ pinnedOutside ms, m ∈ ns) ∧
    ∀ ms args, ms.take (protectedPrefixLen env ms) <+: (compact env ms args).messages ↔
      SparesHead env ms args := by
  refine ⟨fun ms acts ns hrun => ?_, head_prefix_iff env⟩
  have hfollows := follows_run hrun
  exact ⟨hfollows.head, fun m hm =>
    protectedMessages_subset (hfollows.pinned (pinnedOutside_subset hm))⟩

/-- A conversation that is summarised, and then passed over. -/
def smallTalk : List Message :=
  { role := "system", content := .text "You are an agent." } ::
    List.replicate 30
      { role := "user", content := .text "Here is the next row of the list of talks." }

theorem smallTalk_working : workingOf plainPlatform smallTalk = smallTalk := by decide +kernel

/-- The first compaction replaces the slice behind the head. -/
theorem smallTalk_replaces :
    ReplacesSlice plainPlatform smallTalk { threshold := 0, drainTo := 300 } "s" where
  reaches := by decide +kernel
  stillOver := by rw [smallTalk_working]; decide +kernel
  long := by decide
  slice := by rw [smallTalk_working]; decide +kernel
  summary := by rw [smallTalk_working]; decide +kernel

theorem small_talk_kept :
    smallTalk.take 3 <+: (compact plainPlatform
      (compact plainPlatform smallTalk { threshold := 0, drainTo := 300 }).messages
      { threshold := 0, drainTo := 300 }).messages := by
  have hfirst : Spares plainPlatform smallTalk { threshold := 0, drainTo := 300 } :=
    spares_of_small (by decide +kernel)
  have hsecond : Spares plainPlatform
      (compact plainPlatform smallTalk { threshold := 0, drainTo := 300 }).messages
      { threshold := 0, drainTo := 300 } := by
    rw [compact_replaced smallTalk_replaces]
    exact spares_of_small (by decide +kernel)
  exact ((head_and_pins_survive plainPlatform).1 smallTalk [.compact _ _, .compact _ _] _
    (.cons ⟨hfirst, rfl, rfl⟩ (.single ⟨hsecond, rfl, rfl⟩))).1

def longText : String := String.ofList (List.replicate 2400 'x')

theorem longText_length : longText.length = 2400 := by
  unfold longText
  rw [String.length_ofList, List.length_replicate]

/-- The task is longer than what the last resort leaves of a message. -/
def longTask : List Message :=
  [{ role := "system", content := .text "You are an agent." },
    { role := "user", content := .text longText },
    { role := "assistant", content := .text "Working." },
    { role := "user", content := .text "Go on." },
    { role := "assistant", content := .text "Working." },
    { role := "user", content := .text "Go on." }]

theorem longTask_tokens : 1 < plainPlatform.estimateTokens longTask := by
  show 1 < heuristicTokens longTask
  simp [heuristicTokens, longTask, contentText, longText_length]
  omega

/-- A text without the mark of the last resort is changed by it. -/
theorem shortened_ne {role text : String} (h : ']' ∉ text.toList) :
    Message.shortened { role, content := .text text } ≠ { role, content := .text text } := by
  intro heq
  have htext : shrunkText text = text := Content.text.inj (congrArg Message.content heq)
  have hmem : ']' ∈ (shrunkText text).toList := by
    unfold shrunkText
    rw [String.toList_append]
    exact List.mem_append_right _ (by decide)
  exact h (htext ▸ hmem)

theorem longTask_order : shrinkOrder longTask = [1] := List.mergeSort_singleton 1

theorem longTask_oversized : oversizedAt longTask 1 = true := by
  have hlong : (contentText (.text longText)).length = 2400 := longText_length
  unfold oversizedAt longTask Message.oversized SHRINK_HEAD_CHARS
  rw [List.getElem?_cons_succ, List.getElem?_cons_zero, Option.any_some, hlong]
  decide

theorem longTask_candidates : candidates longTask = [1] := by
  unfold candidates
  rw [longTask_order, List.filter_cons_of_pos longTask_oversized, List.filter_nil]

theorem longTask_cuts : Cuts plainPlatform 1 longTask 1 := by
  refine ⟨0, by rw [longTask_candidates]; rfl, fun j hj => ?_⟩
  obtain rfl := Nat.le_zero.mp hj
  rw [List.take_zero]
  exact longTask_tokens

theorem longTask_cut : ¬ Spared plainPlatform 1 longTask 1 := by
  intro hspared
  have hplain : ']' ∉ longText.toList := by
    unfold longText
    rw [String.toList_ofList]
    exact fun hmem => absurd (List.eq_of_mem_replicate hmem) (by decide)
  exact shortened_ne hplain (hspared _ rfl longTask_cuts)

/-- The task statement loses its end. -/
theorem long_task_cut :
    ¬ ∀ (env : Platform) (ms : List Message) (acts : List HistoryAct) (ns : List Message),
      (history env).Run ms acts ns →
        ms.take (protectedPrefixLen env ms) <+: ns ∧ ∀ m ∈ pinnedOutside ms, m ∈ ns := by
  intro hclaim
  have hhead :=
    (hclaim plainPlatform longTask [.compact plainPlatform { threshold := 1, drainTo := 1 }]
    _ (.single ⟨rfl, rfl⟩)).1
  rw [head_prefix_iff] at hhead
  exact longTask_cut (hhead.short longTask_tokens.le (by decide) 1 (by decide))

end GenusOs.Engine.Compaction
