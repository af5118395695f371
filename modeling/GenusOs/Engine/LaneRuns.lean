import GenusOs.Engine.LaneSlots

/-!
# Runs of the execution lanes

Every step of the lanes keeps the invariant of each lane, so `lanes_lose_no_slot` holds in every
reachable state. A cancellation in the gap between a slot's hand-over and the waiter's own turn is
followed step by step: `step_cancelledInGap` up to the handler's lock section, `step_passingOn`
from there until the slot is given back.
-/

namespace GenusOs.Engine

namespace ExecutionLanes

variable {w w' : ExecutionLanes} {lane lane' : Lane} {i : Nat} {a : Action}
  {guard : Acquirer → Bool} {f : LaneTraffic → Nat → Acquirer → LaneTraffic}

/-! ## Steps of one call -/

theorem setLane_same (t : LaneTraffic) : (w.setLane lane t).lanes lane = t := by
  simp [setLane]

theorem setLane_other (t : LaneTraffic) (h : lane' ≠ lane) :
    (w.setLane lane t).lanes lane' = w.lanes lane' := by
  simp [setLane, h]

@[simp] theorem notifyAfter_lanes : (w.notifyAfter lane).lanes = w.lanes := by
  unfold notifyAfter notifyInteractiveClear
  split
  · split <;> rfl
  · rfl

theorem atAcquirer_some (h : w.atAcquirer lane i guard f = some w') :
    ∃ c, (w.lanes lane).acquirers[i]? = some c ∧ guard c = true ∧
      w' = w.setLane lane (f (w.lanes lane) i c) := by
  unfold atAcquirer at h
  split at h
  · next c hc =>
    split at h
    · next hg => exact ⟨c, hc, hg, (Option.some.inj h).symm⟩
    · cases h
  · cases h

theorem atAcquirer_of {c : Acquirer} (hc : (w.lanes lane).acquirers[i]? = some c)
    (hg : guard c = true) :
    w.atAcquirer lane i guard f = some (w.setLane lane (f (w.lanes lane) i c)) := by
  simp [atAcquirer, hc, hg]

/-- What an action does to the lane it is of. -/
inductive Effect (w : ExecutionLanes) : Action → Lane → LaneTraffic → Prop
  | acquire {lane c} (hc : c.phase = .asked ∨ c.phase = .entering) :
      Effect w (.acquire lane) lane
        { w.lanes lane with acquirers := (w.lanes lane).acquirers ++ [c] }
  | goOn {i c} (hc : (w.lanes .background).acquirers[i]? = some c) (hp : c.phase = .asked) :
      Effect w (.yieldToInteractive i) .background
        ((w.lanes .background).setAcquirer i { c with phase := .entering })
  | yieldNow {i c} (hc : (w.lanes .background).acquirers[i]? = some c) (hp : c.phase = .asked) :
      Effect w (.yieldToInteractive i) .background
        { (w.lanes .background).setAcquirer i { c with phase := .yielding } with
          st := { (w.lanes .background).st with
            yielding := (w.lanes .background).st.yielding + 1 } }
  | stopYielding {i cancelled c} (hc : (w.lanes .background).acquirers[i]? = some c)
      (hp : c.phase = .yielding) :
      Effect w (.stopYielding i cancelled) .background
        { (w.lanes .background).setAcquirer i
            { c with phase := if cancelled then .done else .entering } with
          st := { (w.lanes .background).st with
            yielding := (w.lanes .background).st.yielding - 1 } }
  | enter {lane i c} (hc : (w.lanes lane).acquirers[i]? = some c) (hp : c.phase = .entering) :
      Effect w (.enter lane i) lane ((w.lanes lane).enter i)
  | resolve {lane i c} (hc : (w.lanes lane).acquirers[i]? = some c) (hs : c.scheduled = true) :
      Effect w (.resolve lane i) lane ((w.lanes lane).resolve i c)
  | cancel {lane i c} (hc : (w.lanes lane).acquirers[i]? = some c) (hp : c.phase = .awaiting) :
      Effect w (.cancel lane i) lane ((w.lanes lane).cancel i c)
  | resume {lane i c} (hc : (w.lanes lane).acquirers[i]? = some c) (hp : c.phase = .awaiting)
      (hr : c.returns = true) : Effect w (.resume lane i) lane ((w.lanes lane).resume i c)
  | unwind {lane i c} (hc : (w.lanes lane).acquirers[i]? = some c) (hp : c.phase = .awaiting)
      (hr : c.raises = true) : Effect w (.unwind lane i) lane ((w.lanes lane).unwind i c)
  | passOn {lane i c} (hc : (w.lanes lane).acquirers[i]? = some c) (hp : c.phase = .passing) :
      Effect w (.passOn lane i) lane ((w.lanes lane).giveBack i c)
  | release {lane i c} (hc : (w.lanes lane).acquirers[i]? = some c) (hp : c.phase = .holding) :
      Effect w (.release lane i) lane ((w.lanes lane).giveBack i c)

/-- Every step changes one lane, as its action says, and no other lane. -/
theorem step_effect (h : w.step a = some w') :
    ∃ lane t, Effect w a lane t ∧ w'.lanes = (w.setLane lane t).lanes := by
  cases a with
  | acquire lane =>
    simp only [step, Option.some.injEq] at h
    refine ⟨lane, _, .acquire ?_, by rw [← h]⟩
    split
    · exact Or.inl rfl
    · exact Or.inr rfl
  | yieldToInteractive i =>
    simp only [step, yieldToInteractive] at h
    split at h
    · obtain ⟨c, hc, hg, rfl⟩ := atAcquirer_some h
      exact ⟨_, _, .goOn hc (by simpa using hg), rfl⟩
    · obtain ⟨w₁, h₁, rfl⟩ := Option.map_eq_some_iff.mp h
      obtain ⟨c, hc, hg, rfl⟩ := atAcquirer_some h₁
      exact ⟨_, _, .yieldNow hc (by simpa using hg), rfl⟩
  | stopYielding i cancelled =>
    simp only [step, stopYielding] at h
    obtain ⟨w₁, h₁, rfl⟩ := Option.map_eq_some_iff.mp h
    obtain ⟨c, hc, hg, rfl⟩ := atAcquirer_some h₁
    exact ⟨_, _, .stopYielding hc (by simpa using hg), rfl⟩
  | enter lane i =>
    simp only [step] at h
    obtain ⟨c, hc, hg, rfl⟩ := atAcquirer_some h
    exact ⟨_, _, .enter hc (by simpa using hg), rfl⟩
  | resolve lane i =>
    obtain ⟨c, hc, hg, rfl⟩ := atAcquirer_some h
    exact ⟨_, _, .resolve hc hg, rfl⟩
  | cancel lane i =>
    obtain ⟨c, hc, hg, rfl⟩ := atAcquirer_some h
    exact ⟨_, _, .cancel hc (by simpa using hg), rfl⟩
  | resume lane i =>
    obtain ⟨c, hc, hg, rfl⟩ := atAcquirer_some h
    simp only [Bool.and_eq_true, decide_eq_true_eq] at hg
    exact ⟨_, _, .resume hc hg.1 hg.2, rfl⟩
  | unwind lane i =>
    simp only [step, unwind] at h
    obtain ⟨w₁, h₁, rfl⟩ := Option.map_eq_some_iff.mp h
    obtain ⟨c, hc, hg, rfl⟩ := atAcquirer_some h₁
    simp only [Bool.and_eq_true, decide_eq_true_eq] at hg
    refine ⟨_, _, .unwind hc hg.1 hg.2, ?_⟩
    split <;> simp
  | passOn lane i =>
    simp only [step] at h
    obtain ⟨w₁, h₁, rfl⟩ := Option.map_eq_some_iff.mp h
    obtain ⟨c, hc, hg, rfl⟩ := atAcquirer_some h₁
    exact ⟨_, _, .passOn hc (by simpa using hg), by simp⟩
  | release lane i =>
    simp only [step] at h
    obtain ⟨w₁, h₁, rfl⟩ := Option.map_eq_some_iff.mp h
    obtain ⟨c, hc, hg, rfl⟩ := atAcquirer_some h₁
    exact ⟨_, _, .release hc (by simpa using hg), by simp⟩

/-! ## The invariant of every lane -/

def Inv (w : ExecutionLanes) : Prop := ∀ lane, (w.lanes lane).Inv 0

theorem Inv.effect (h : w.Inv) {t : LaneTraffic} (e : Effect w a lane t) : t.Inv 0 := by
  cases e with
  | acquire hc => exact (h _).arrive hc
  | goOn hc hp => exact (h _).before_lane hc (Or.inl hp) (Or.inl rfl) (by simp [hp])
  | yieldNow hc hp => exact (h _).before_lane hc (Or.inl hp) (Or.inr (Or.inl rfl)) (by simp [hp])
  | @stopYielding i cancelled c hc hp =>
    have hpos : 0 < (w.lanes .background).st.yielding := by
      rw [(h _).yielding]
      exact List.countP_pos_iff.mpr ⟨c, List.mem_of_getElem? hc, by simp [hp]⟩
    refine (h _).before_lane hc (Or.inr hp) ?_ ?_
    · cases cancelled
      · exact Or.inl rfl
      · exact Or.inr (Or.inr rfl)
    · rw [if_pos hp]
      cases cancelled <;> simp <;> omega
  | enter hc hp => exact (h _).enter hc hp
  | resolve hc hs => exact (h _).resolve hc hs
  | cancel hc => exact (h _).cancel hc
  | resume hc hp hr => exact (h _).resume hc hp hr
  | unwind hc hp => exact (h _).unwind hc hp
  | passOn hc hp => exact (h _).giveBack hc (Or.inr hp)
  | release hc hp => exact (h _).giveBack hc (Or.inl hp)

/-- **Step lemma.** Every step keeps every lane's invariant. -/
theorem Inv.step (h : w.Inv) (hs : w.step a = some w') : w'.Inv := by
  obtain ⟨lane, t, e, hw⟩ := step_effect hs
  intro lane'
  rw [hw]
  by_cases hl : lane' = lane
  · subst hl
    rw [setLane_same]
    exact h.effect e
  · rw [setLane_other _ hl]
    exact h lane'

theorem inv_new (il bl ym hl : Int) : (new il bl ym hl).Inv := by
  have hidle : ∀ limit, ({ st := { limit := limit } } : LaneTraffic).Inv 0 := fun limit =>
    { occupied := rfl
      bounded := fun _ => Nat.zero_le _
      full := fun _ hne => absurd rfl hne
      yielding := rfl
      placed := fun i c hc => by simp at hc
      order := List.Sublist.refl _
      nodup := List.nodup_nil
      handed := fun i hi => by cases hi
      arrived := fun i hi => by cases hi }
  intro lane
  cases lane <;> exact hidle _

theorem inv_of_reachable {il bl ym hl : Int} (h : (laneSystem il bl ym hl).Reachable w) : w.Inv :=
  h.invariant (fun _ h₀ => h₀ ▸ inv_new il bl ym hl) fun _ _ _ hi hs => hi.step hs

/-! ## A cancellation in the gap -/

/-- An action of another call leaves a call and its slot alone. -/
theorem Effect.keeps {t : LaneTraffic} (e : Effect w a lane t) (hi : a.call ≠ some i) :
    (w.lanes lane).Keeps i t := by
  have hne : ∀ {j : Nat}, some j ≠ some i → i ≠ j := fun h hij => h (hij ▸ rfl)
  cases e with
  | acquire _ =>
    refine ⟨fun c hc => ⟨c.scheduled, ?_⟩, id⟩
    obtain ⟨hlt, -⟩ := List.getElem?_eq_some_iff.mp hc
    rw [List.getElem?_append_left hlt]
    exact hc
  | goOn _ _ => exact .of_set (hne hi) id
  | yieldNow _ _ => exact .of_set (hne hi) id
  | stopYielding _ _ => exact .of_set (hne hi) id
  | enter _ _ =>
    unfold LaneTraffic.enter
    split
    · exact .of_set (hne hi) id
    · exact .of_set (hne hi) id
  | resolve _ _ => exact .of_set (hne hi) id
  | cancel _ _ =>
    unfold LaneTraffic.cancel
    split
    · exact .of_set (hne hi) id
    · exact .of_set (hne hi) id
    · exact .refl _ _
  | resume _ _ _ => exact .of_set (hne hi) fun hh => Finset.mem_erase.mpr ⟨hne hi, hh⟩
  | unwind _ _ _ => exact .of_set (hne hi) fun hh => Finset.mem_erase.mpr ⟨hne hi, hh⟩
  | passOn _ _ => exact .giveBack (hne hi)
  | release _ _ => exact .giveBack (hne hi)

/-- Call `i` was handed a slot and is to be sent a `CancelledError`. -/
def CancelledInGap (w : ExecutionLanes) (lane : Lane) (i : Nat) : Prop :=
  i ∈ (w.lanes lane).st.handed ∧
    ∃ c, (w.lanes lane).acquirers[i]? = some c ∧ c.phase = .awaiting ∧ c.raises = true

/-- Call `i` is about to pass its slot on. -/
def PassingOn (w : ExecutionLanes) (lane : Lane) (i : Nat) : Prop :=
  ∃ c, (w.lanes lane).acquirers[i]? = some c ∧ c.phase = .passing

theorem CancelledInGap.keeps {t : LaneTraffic} (h : w.CancelledInGap lane i)
    (k : (w.lanes lane).Keeps i t) (hw : w'.lanes = (w.setLane lane t).lanes) :
    w'.CancelledInGap lane i := by
  obtain ⟨hh, c, hc, hp, hr⟩ := h
  obtain ⟨b, hb⟩ := k.acquirer c hc
  unfold CancelledInGap
  rw [hw, setLane_same]
  exact ⟨k.handed hh, _, hb, hp, hr⟩

theorem PassingOn.keeps {t : LaneTraffic} (h : w.PassingOn lane i)
    (k : (w.lanes lane).Keeps i t) (hw : w'.lanes = (w.setLane lane t).lanes) :
    w'.PassingOn lane i := by
  obtain ⟨c, hc, hp⟩ := h
  obtain ⟨b, hb⟩ := k.acquirer c hc
  unfold PassingOn
  rw [hw, setLane_same]
  exact ⟨_, hb, hp⟩

/-- Up to its handler's lock section a call cancelled in the gap keeps its slot, whatever the
other calls do; the lock section makes it pass the slot on. -/
theorem step_cancelledInGap (hs : w.step a = some w') (h : w.CancelledInGap lane i) :
    w'.CancelledInGap lane i ∨ a = .unwind lane i ∧ w'.PassingOn lane i := by
  obtain ⟨lane', t, e, hw⟩ := step_effect hs
  by_cases hl : lane = lane'
  · subst hl
    by_cases hi : a.call = some i
    · obtain ⟨hh, c, hc, hp, hr⟩ := h
      have hsame : ∀ d, (w.lanes lane).acquirers[i]? = some d → c = d := fun d hd => by
        rw [hc] at hd
        exact Option.some.inj hd
      have hstay : ∀ {d : Acquirer}, d.phase = .awaiting → d.raises = true →
          t = (w.lanes lane).setAcquirer i d → w'.CancelledInGap lane i := by
        rintro d hd hdr rfl
        unfold CancelledInGap
        rw [hw, setLane_same]
        exact ⟨hh, d, LaneTraffic.getElem?_setAcquirer hc, hd, hdr⟩
      cases e with
      | acquire => cases hi
      | goOn hd hq | yieldNow hd hq | stopYielding hd hq | enter hd hq | passOn hd hq
      | release hd hq =>
        cases hi
        rw [← hsame _ hd, hp] at hq
        cases hq
      | resolve hd hsch =>
        cases hi
        obtain rfl := hsame _ hd
        refine Or.inl (hstay (by exact hp) ?_ rfl)
        have hr' := hr
        cases hf : c.fut <;> simp [Acquirer.raises, hf] at hr' ⊢
        exact hr'
      | cancel hd hq =>
        cases hi
        obtain rfl := hsame _ hd
        cases hf : c.fut with
        | pending => simp [Acquirer.raises, hf] at hr
        | resolved =>
          exact Or.inl (hstay (d := { c with mustCancel := true }) hp
            (by simp [Acquirer.raises, hf]) (by simp [LaneTraffic.cancel, hf]))
        | cancelled =>
          refine Or.inl ?_
          have hsame : (w.lanes lane).cancel i c = w.lanes lane := by
            simp only [LaneTraffic.cancel, hf]
          unfold CancelledInGap
          rw [hw, setLane_same, hsame]
          exact ⟨hh, _, hc, hp, hr⟩
      | resume hd hq hret =>
        cases hi
        rw [← hsame _ hd] at hret
        simp only [Acquirer.returns, Acquirer.raises, Bool.and_eq_true, beq_iff_eq, Bool.or_eq_true,
          Bool.not_eq_true'] at hret hr
        simp [hret.1, hret.2] at hr
      | unwind hd hq hr' =>
        cases hi
        refine Or.inr ⟨rfl, ?_⟩
        unfold PassingOn
        rw [hw, setLane_same]
        refine ⟨_, LaneTraffic.getElem?_setAcquirer hd, ?_⟩
        simp [hh]
    · exact Or.inl (h.keeps (e.keeps hi) hw)
  · refine Or.inl ?_
    unfold CancelledInGap
    rw [hw, setLane_other _ hl]
    exact h

/-- Up to its own release a call passing its slot on stays there; the release gives the slot to
the next live waiter or frees it. -/
theorem step_passingOn (hw : w.Inv) (hs : w.step a = some w') (h : w.PassingOn lane i) :
    w'.PassingOn lane i ∨
      a = .passOn lane i ∧ LaneTraffic.GivenBack (w.lanes lane) (w'.lanes lane) := by
  obtain ⟨lane', t, e, hw'⟩ := step_effect hs
  by_cases hl : lane = lane'
  · subst hl
    by_cases hi : a.call = some i
    · obtain ⟨c, hc, hp⟩ := h
      have hsame : ∀ d, (w.lanes lane).acquirers[i]? = some d → d = c := fun d hd => by
        rw [hc] at hd
        exact (Option.some.inj hd).symm
      cases e with
      | acquire => cases hi
      | goOn hd hq | yieldNow hd hq | stopYielding hd hq | enter hd hq | cancel hd hq
      | resume hd hq | unwind hd hq | release hd hq =>
        cases hi
        rw [hsame _ hd, hp] at hq
        cases hq
      | resolve hd _ =>
        cases hi
        refine Or.inl ?_
        unfold PassingOn
        rw [hw', setLane_same]
        refine ⟨_, LaneTraffic.getElem?_setAcquirer hd, ?_⟩
        rw [hsame _ hd]
        exact hp
      | passOn hd hq =>
        cases hi
        refine Or.inr ⟨rfl, ?_⟩
        rw [hw', setLane_same]
        exact (hw lane).givenBack hd (Or.inr hq)
    · exact Or.inl (h.keeps (e.keeps hi) hw')
  · refine Or.inl ?_
    unfold PassingOn
    rw [hw', setLane_other _ hl]
    exact h

/-- Nothing blocks the handler. -/
theorem unwind_enabled (h : w.CancelledInGap lane i) : ∃ w', w.step (.unwind lane i) = some w' := by
  obtain ⟨-, c, hc, hp, hr⟩ := h
  simp only [step, unwind]
  rw [atAcquirer_of hc (by simp [hp, hr])]
  exact ⟨_, rfl⟩

/-- Nothing blocks the hand-over. -/
theorem passOn_enabled (h : w.PassingOn lane i) : ∃ w', w.step (.passOn lane i) = some w' := by
  obtain ⟨c, hc, hp⟩ := h
  simp only [step]
  rw [atAcquirer_of hc (by simp [hp])]
  exact ⟨_, rfl⟩

/-- **No slot is lost**, under any interleaving of the calls of the lanes. -/
theorem lanes_lose_no_slot {il bl ym hl : Int} {w : ExecutionLanes}
    (h : (laneSystem il bl ym hl).Reachable w) (lane : Lane)
    (hlimit : 0 < (w.lanes lane).st.limit) :
    -- the slots in use are counted, and no more than the limit
    ((w.lanes lane).count .holding + (w.lanes lane).handedOver = (w.lanes lane).st.active ∧
      (w.lanes lane).st.active ≤ (w.lanes lane).st.limit) ∧
    -- a lane with a live waiter is full
    (∀ i, (w.lanes lane).LiveWaiter i → (w.lanes lane).st.active = (w.lanes lane).st.limit) ∧
    -- who awaits a slot under a pending future is queued, or has been handed one
    (∀ i c, (w.lanes lane).acquirers[i]? = some c → c.phase = .awaiting → c.fut = .pending →
      (w.lanes lane).LiveWaiter i ∨ i ∈ (w.lanes lane).st.handed) ∧
    -- slots were given in the order of arrival, and the queue continues that order
    (((w.lanes lane).served ++ (w.lanes lane).st.waiters).Sublist (w.lanes lane).arrivals ∧
      (w.lanes lane).arrivals.Nodup) ∧
    -- a waiter cancelled in the gap passes its slot on or frees it
    (∀ i, w.CancelledInGap lane i → (∃ w', w.step (.unwind lane i) = some w') ∧
      ∀ a w', w.step a = some w' →
        w'.CancelledInGap lane i ∨ a = .unwind lane i ∧ w'.PassingOn lane i) ∧
    (∀ i, w.PassingOn lane i → (∃ w', w.step (.passOn lane i) = some w') ∧
      ∀ a w', w.step a = some w' → w'.PassingOn lane i ∨
        a = .passOn lane i ∧ LaneTraffic.GivenBack (w.lanes lane) (w'.lanes lane)) := by
  have hinv := inv_of_reachable h
  exact ⟨⟨(hinv lane).occupied, (hinv lane).bounded hlimit⟩,
    fun i hlive => (hinv lane).full hlimit (List.ne_nil_of_mem hlive.1),
    fun i c hc hphase hfut => (hinv lane).live_or_handed hc hphase hfut,
    ⟨(hinv lane).order, (hinv lane).nodup⟩,
    fun i hi => ⟨unwind_enabled hi, fun _ _ hs => step_cancelledInGap hs hi⟩,
    fun i hi => ⟨passOn_enabled hi, fun _ _ hs => step_passingOn hinv hs hi⟩⟩

/-- A hook lane of one slot: its holder, a waiter the slot is handed to as it is cancelled, and one
behind it. -/
def gapOnHooks : List Action :=
  [.acquire .hooks, .enter .hooks 0, .acquire .hooks, .enter .hooks 1, .acquire .hooks,
    .enter .hooks 2, .release .hooks 0, .cancel .hooks 1]

/-- The lanes after `gapOnHooks`. -/
def lanesInGap : ExecutionLanes :=
  (gapOnHooks.foldlM step (new 0 2 200 1)).getD (new 0 2 200 1)

theorem lanesInGap_reachable : (laneSystem 0 2 200 1).Reachable lanesInGap := by
  have h : gapOnHooks.foldlM step (new 0 2 200 1) = some lanesInGap := rfl
  exact ⟨_, _, rfl, System.run_of_foldlM h⟩

/-- The first waiter is handed the slot and cancelled, and the second still waits: the slot is
counted, the first passes it on next, and the second is first in the queue. -/
theorem lanes_lose_no_slot_in_gap :
    0 < (lanesInGap.lanes .hooks).st.limit ∧
      (lanesInGap.lanes .hooks).count .holding + (lanesInGap.lanes .hooks).handedOver =
        (lanesInGap.lanes .hooks).st.active ∧
      (lanesInGap.lanes .hooks).st.handed = {1} ∧ (lanesInGap.lanes .hooks).st.waiters = [2] ∧
      lanesInGap.CancelledInGap .hooks 1 ∧
      (∀ a w', lanesInGap.step a = some w' → w'.CancelledInGap .hooks 1 ∨
        a = .unwind .hooks 1 ∧ w'.PassingOn .hooks 1) := by
  have hgap : lanesInGap.CancelledInGap .hooks 1 := ⟨by decide, _, rfl, rfl, rfl⟩
  obtain ⟨⟨hcount, -⟩, -, -, -, hgone, -⟩ :=
    lanes_lose_no_slot lanesInGap_reachable .hooks (by decide)
  exact ⟨by decide, hcount, by decide, by decide, hgap, (hgone 1 hgap).2⟩

end ExecutionLanes

end GenusOs.Engine
