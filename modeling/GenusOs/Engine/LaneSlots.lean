import GenusOs.Engine.Lanes
import GenusOs.Library.Count

/-!
# No lane loses a slot

The invariant of one lane (`LaneTraffic.Inv`) and its preservation by every step:

* the slots in use are those of the holders, of the waiters a slot was handed to and of the
  cancelled waiters about to pass theirs on;
* a lane with a waiter is full;
* slots are given in the order of arrival.
-/

namespace GenusOs.Engine

namespace LaneTraffic

/-- The calls of a lane that stand in `phase`. -/
def count (t : LaneTraffic) (phase : Phase) : Nat := t.acquirers.countP (·.phase = phase)

/-- Slots handed to a woken waiter that has not yet taken or passed them. -/
def handedOver (t : LaneTraffic) : Nat := t.st.handed.card + t.count .passing

/-- A waiter in the queue whose future is pending. -/
def LiveWaiter (t : LaneTraffic) (i : Nat) : Prop := i ∈ t.st.waiters ∧ t.futDone i = false

/-- A call and the lane's two collections of waiters agree. -/
structure Placed (st : LaneState) (i : Nat) (c : Acquirer) : Prop where
  awaiting : i ∈ st.waiters ∨ i ∈ st.handed → c.phase = .awaiting
  pending : c.phase = .awaiting → c.fut = .pending → i ∈ st.waiters ∨ i ∈ st.handed
  resolved : c.phase = .awaiting → c.fut = .resolved → i ∈ st.handed
  scheduled : c.phase = .awaiting → c.fut = .pending → c.scheduled = true → i ∈ st.handed

/-- A call that has not reached `acquire`'s lock section. -/
def Early (c : Acquirer) : Prop := c.phase = .asked ∨ c.phase = .yielding ∨ c.phase = .entering

/-- The invariant of a lane, `freed` slots of which are being given back. -/
structure Inv (t : LaneTraffic) (freed : Nat) : Prop where
  occupied : t.count .holding + t.handedOver + freed = t.st.active
  bounded : 0 < t.st.limit → t.st.active ≤ t.st.limit
  full : 0 < t.st.limit → t.st.waiters ≠ [] → t.st.active = t.st.limit
  yielding : t.st.yielding = t.count .yielding
  placed : ∀ i c, t.acquirers[i]? = some c → Placed t.st i c
  order : (t.served ++ t.st.waiters).Sublist t.arrivals
  nodup : t.arrivals.Nodup
  handed : ∀ i ∈ t.st.handed, i ∈ t.served
  arrived : ∀ i ∈ t.arrivals, ∃ c, t.acquirers[i]? = some c ∧ ¬ Early c

/-! ## What the invariant says of the collections -/

namespace Inv

variable {t : LaneTraffic} {freed i : Nat} {c : Acquirer}

theorem nodup_served_waiters (h : t.Inv freed) : (t.served ++ t.st.waiters).Nodup :=
  h.order.nodup h.nodup

theorem not_mem_handed (h : t.Inv freed) (hi : i ∈ t.st.waiters) : i ∉ t.st.handed :=
  fun hh => (List.nodup_append.mp h.nodup_served_waiters).2.2 i (h.handed i hh) i hi rfl

/-- A call that has not reached the lane's lock section is in none of its collections. -/
theorem early_not_arrived (h : t.Inv freed) (hc : t.acquirers[i]? = some c) (he : Early c) :
    i ∉ t.arrivals := by
  intro hi
  obtain ⟨c', hc', hne⟩ := h.arrived i hi
  rw [hc] at hc'
  cases hc'
  exact hne he

/-- Who awaits a slot is in the queue, or has been handed one. -/
theorem live_or_handed (h : t.Inv freed) (hc : t.acquirers[i]? = some c)
    (hphase : c.phase = .awaiting)
    (hfut : c.fut = .pending) : t.LiveWaiter i ∨ i ∈ t.st.handed := by
  rcases (h.placed i c hc).pending hphase hfut with hi | hi
  · refine .inl ⟨hi, ?_⟩
    unfold futDone
    rw [hc]
    simp [hfut]
  · exact .inr hi

theorem waiters_arrived (h : t.Inv freed) (hi : i ∈ t.st.waiters) : i ∈ t.arrivals :=
  h.order.subset (List.mem_append_right _ hi)

theorem handed_arrived (h : t.Inv freed) (hi : i ∈ t.st.handed) : i ∈ t.arrivals :=
  h.order.subset (List.mem_append_left _ (h.handed i hi))

end Inv

/-! ## One acquirer changes -/

variable {t : LaneTraffic} {freed i : Nat} {c c' : Acquirer}

theorem count_set (hc : t.acquirers[i]? = some c) (c' : Acquirer) (phase : Phase) :
    (t.setAcquirer i c').count phase + (if c.phase = phase then 1 else 0) =
      t.count phase + (if c'.phase = phase then 1 else 0) := by
  simpa [count, setAcquirer] using countP_set_add (b := c') (·.phase = phase) hc

theorem getElem?_setAcquirer (hc : t.acquirers[i]? = some c) :
    (t.setAcquirer i c').acquirers[i]? = some c' := by
  obtain ⟨hi, -⟩ := List.getElem?_eq_some_iff.mp hc
  simp [setAcquirer, hi]

/-- Every call but `i` stays where it was placed; `i` is placed anew. -/
theorem placed_set {st : LaneState} (hold : ∀ j d, t.acquirers[j]? = some d → j ≠ i → Placed st j d)
    (hnew : Placed st i c') :
    ∀ j d, (t.setAcquirer i c').acquirers[j]? = some d → Placed st j d := by
  intro j d hj
  rcases getElem?_set_some hj with ⟨rfl, rfl⟩ | ⟨hne, hj⟩
  · exact hnew
  · exact hold j d hj hne

/-- The calls that arrived stay past the lock section. -/
theorem arrived_set {arrivals : List Nat} (hc : t.acquirers[i]? = some c)
    (hold : ∀ j ∈ arrivals, j ≠ i → ∃ d, t.acquirers[j]? = some d ∧ ¬ Early d)
    (hnew : i ∈ arrivals → ¬ Early c') :
    ∀ j ∈ arrivals, ∃ d, (t.setAcquirer i c').acquirers[j]? = some d ∧ ¬ Early d := by
  intro j hj
  by_cases hji : j = i
  · subst hji
    exact ⟨c', getElem?_setAcquirer hc, hnew hj⟩
  · obtain ⟨d, hd, he⟩ := hold j hj hji
    refine ⟨d, ?_, he⟩
    simpa [setAcquirer, List.getElem?_set, Ne.symm hji] using hd

/-- A call that stays in its phase, and whose future and callback stay as placed, changes nothing
else. -/
theorem Inv.setAcquirer_same (h : t.Inv freed) (hc : t.acquirers[i]? = some c)
    (hphase : c'.phase = c.phase) (hplaced : Placed t.st i c') :
    (t.setAcquirer i c').Inv freed := by
  have hcount : ∀ phase, (t.setAcquirer i c').count phase = t.count phase := by
    intro phase
    have := count_set hc c' phase
    rw [hphase] at this
    omega
  exact
    { occupied := by
        have := h.occupied
        unfold handedOver at *
        rw [hcount, hcount]
        exact this
      bounded := h.bounded
      full := h.full
      yielding := by rw [hcount]; exact h.yielding
      placed := placed_set (fun j d hj _ => h.placed j d hj) hplaced
      order := h.order
      nodup := h.nodup
      handed := h.handed
      arrived := arrived_set hc (fun j hj _ => h.arrived j hj) fun hi => by
        obtain ⟨d, hd, he⟩ := h.arrived i hi
        rw [hc] at hd
        cases hd
        simpa [Early, hphase] using he }

/-- A new call of `acquire` has yet to reach the lane. -/
theorem Inv.arrive (h : t.Inv freed) (hc : c.phase = .asked ∨ c.phase = .entering) :
    ({ t with acquirers := t.acquirers ++ [c] } : LaneTraffic).Inv freed := by
  have hlen : t.acquirers.length ∉ t.arrivals := by
    intro hmem
    obtain ⟨d, hd, -⟩ := h.arrived _ hmem
    simp at hd
  have hcount : ∀ phase, phase ≠ .asked → phase ≠ .entering →
      ({ t with acquirers := t.acquirers ++ [c] } : LaneTraffic).count phase = t.count phase := by
    intro phase ha he
    have hne : ¬ c.phase = phase := by
      rcases hc with hc | hc <;> rw [hc] <;> first | exact ha.symm | exact he.symm
    simp [count, hne]
  exact
    { occupied := by
        have := h.occupied
        unfold handedOver at *
        rw [hcount _ (by decide) (by decide), hcount _ (by decide) (by decide)]
        exact this
      bounded := h.bounded
      full := h.full
      yielding := by rw [hcount _ (by decide) (by decide)]; exact h.yielding
      placed := by
        intro j d hj
        rcases getElem?_snoc_some hj with ⟨rfl, rfl⟩ | ⟨-, hj⟩
        · have hphase : ¬ d.phase = .awaiting := by rcases hc with hc | hc <;> simp [hc]
          exact
            { awaiting := fun hi => absurd (hi.elim h.waiters_arrived h.handed_arrived) hlen
              pending := fun ha => absurd ha hphase
              resolved := fun ha => absurd ha hphase
              scheduled := fun ha => absurd ha hphase }
        · exact h.placed j d hj
      order := h.order
      nodup := h.nodup
      handed := h.handed
      arrived := by
        intro j hj
        obtain ⟨d, hd, he⟩ := h.arrived j hj
        obtain ⟨hlt, -⟩ := List.getElem?_eq_some_iff.mp hd
        exact ⟨d, by rw [List.getElem?_append_left hlt]; exact hd, he⟩ }

/-! ## The steps of a call that waits -/

/-- `_resolve` reaches a future that was handed a slot, or changes nothing. -/
theorem Inv.resolve (h : t.Inv freed) (hc : t.acquirers[i]? = some c) (hs : c.scheduled = true) :
    (t.resolve i c).Inv freed := by
  have hp := h.placed i c hc
  refine h.setAcquirer_same hc rfl
    { awaiting := hp.awaiting
      pending := ?_
      resolved := ?_
      scheduled := fun _ _ hs' => by cases hs' }
  · intro _ hpending
    exfalso
    cases hf : c.fut <;> simp [hf] at hpending
  · intro ha hresolved
    cases hf : c.fut with
    | pending => exact hp.scheduled ha hf hs
    | resolved => exact hp.resolved ha hf
    | cancelled => simp [hf] at hresolved

theorem Inv.cancel (h : t.Inv freed) (hc : t.acquirers[i]? = some c) :
    (t.cancel i c).Inv freed := by
  have hp := h.placed i c hc
  unfold LaneTraffic.cancel
  cases hf : c.fut with
  | pending =>
    exact h.setAcquirer_same hc rfl
      { awaiting := hp.awaiting
        pending := fun _ hpending => by cases hpending
        resolved := fun _ hresolved => by cases hresolved
        scheduled := fun _ hpending => by cases hpending }
  | resolved =>
    exact h.setAcquirer_same hc rfl
      { awaiting := hp.awaiting
        pending := fun _ hpending => by cases hpending
        resolved := fun ha _ => hp.resolved ha hf
        scheduled := fun _ hpending => by cases hpending }
  | cancelled => exact h

/-- Leaving a collection is no loss to a call whose future no longer asks for it. -/
theorem Placed.erase {st : LaneState} {j : Nat} {d : Acquirer} (h : Placed st j d) (hne : j ≠ i)
    (hnodup : st.waiters.Nodup) :
    Placed { st with handed := st.handed.erase i, waiters := st.waiters.erase i } j d where
  awaiting hi := h.awaiting (by
    rcases hi with hi | hi
    · exact Or.inl (List.mem_of_mem_erase hi)
    · exact Or.inr (Finset.mem_of_mem_erase hi))
  pending ha hf := by
    rcases h.pending ha hf with hi | hi
    · exact Or.inl ((hnodup.mem_erase_iff).mpr ⟨hne, hi⟩)
    · exact Or.inr (Finset.mem_erase.mpr ⟨hne, hi⟩)
  resolved ha hf := Finset.mem_erase.mpr ⟨hne, h.resolved ha hf⟩
  scheduled ha hf hs := Finset.mem_erase.mpr ⟨hne, h.scheduled ha hf hs⟩

/-- The woken waiter holds the slot it was handed. -/
theorem Inv.resume (h : t.Inv freed) (hc : t.acquirers[i]? = some c)
    (ha : c.phase = .awaiting) (hr : c.returns = true) : (t.resume i c).Inv freed := by
  have hfut : c.fut = .resolved := by
    simp only [Acquirer.returns, Bool.and_eq_true, beq_iff_eq] at hr
    exact hr.1
  have hhanded : i ∈ t.st.handed := (h.placed i c hc).resolved ha hfut
  have hqueued : i ∉ t.st.waiters := fun hi => h.not_mem_handed hi hhanded
  have hcount := fun phase => count_set hc { c with phase := .holding } phase
  have hcard := Finset.card_erase_add_one hhanded
  have hwaiters : t.st.waiters.Nodup := (List.nodup_append.mp h.nodup_served_waiters).2.1
  exact
    { occupied := by
        have hold := h.occupied
        have h1 := hcount .holding
        have h2 := hcount .passing
        simp only [ha, reduceCtorEq, ↓reduceIte] at h1 h2
        simp only [handedOver, LaneTraffic.resume] at *
        change (t.setAcquirer i _).count .holding + (_ + (t.setAcquirer i _).count .passing) + freed
          = _
        omega
      bounded := h.bounded
      full := h.full
      yielding := by
        have h1 := hcount .yielding
        have hold := h.yielding
        simp only [ha, reduceCtorEq, ↓reduceIte] at h1
        change t.st.yielding = (t.setAcquirer i _).count .yielding
        omega
      placed := by
        refine placed_set (fun j d hj hne => ?_)
          { awaiting := fun hi => ?_
            pending := fun ha' => by cases ha'
            resolved := fun ha' => by cases ha'
            scheduled := fun ha' => by cases ha' }
        · have := (h.placed j d hj).erase hne hwaiters
          rwa [List.erase_of_not_mem hqueued] at this
        · exact absurd hi (by simp [LaneTraffic.resume, hqueued])
      order := h.order
      nodup := h.nodup
      handed := fun j hj => h.handed j (Finset.mem_of_mem_erase hj)
      arrived := arrived_set hc (fun j hj _ => h.arrived j hj) fun _ => by simp [Early] }

/-- A cancelled waiter leaves the queue; one that a slot was handed to keeps it, to pass on. -/
theorem Inv.unwind (h : t.Inv freed) (hc : t.acquirers[i]? = some c)
    (ha : c.phase = .awaiting) : (t.unwind i c).Inv freed := by
  have hwaiters : t.st.waiters.Nodup := (List.nodup_append.mp h.nodup_served_waiters).2.1
  have hcount := fun phase =>
    count_set hc { c with phase := if i ∈ t.st.handed then .passing else .done } phase
  have hnew : ∀ {p : Phase}, p = (if i ∈ t.st.handed then Phase.passing else .done) →
      p ≠ .awaiting := by
    rintro p rfl
    split <;> simp
  exact
    { occupied := by
        have hold := h.occupied
        have h1 := hcount .holding
        have h2 := hcount .passing
        simp only [ha, reduceCtorEq, ↓reduceIte] at h1 h2
        simp only [handedOver, LaneTraffic.unwind] at *
        change (t.setAcquirer i _).count .holding + (_ + (t.setAcquirer i _).count .passing) + freed
          = _
        by_cases hi : i ∈ t.st.handed
        · have hcard := Finset.card_erase_add_one hi
          simp only [hi, reduceCtorEq, ↓reduceIte] at h1 h2 ⊢
          omega
        · rw [Finset.erase_eq_of_notMem hi]
          simp only [hi, reduceCtorEq, ↓reduceIte] at h1 h2 ⊢
          omega
      bounded := h.bounded
      full := fun hl hne => h.full hl fun he => hne (by simp [LaneTraffic.unwind, he])
      yielding := by
        have h1 := hcount .yielding
        have hold := h.yielding
        simp only [ha, reduceCtorEq, ↓reduceIte] at h1
        change t.st.yielding = (t.setAcquirer i _).count .yielding
        split at h1 <;> simp_all
      placed := by
        refine placed_set (fun j d hj hne => (h.placed j d hj).erase hne hwaiters)
          { awaiting := fun hi => ?_
            pending := fun ha' => absurd ha' (hnew rfl)
            resolved := fun ha' => absurd ha' (hnew rfl)
            scheduled := fun ha' => absurd ha' (hnew rfl) }
        simp [LaneTraffic.unwind, hwaiters.mem_erase_iff] at hi
      order := (List.Sublist.append_left List.erase_sublist _).trans h.order
      nodup := h.nodup
      handed := fun j hj => h.handed j (Finset.mem_of_mem_erase hj)
      arrived := arrived_set hc (fun j hj _ => h.arrived j hj) fun _ => by
        simp only [Early]
        split <;> simp }

/-! ## Taking a slot or joining the queue -/

/-- `acquire`'s lock section: a call with no queue before it takes a free slot, any other one
joins the end of the queue of a full lane. -/
theorem Inv.enter (h : t.Inv freed) (hc : t.acquirers[i]? = some c)
    (he : c.phase = .entering) : (t.enter i).Inv freed := by
  have hfresh : i ∉ t.arrivals := h.early_not_arrived hc (Or.inr (Or.inr he))
  have hqueued : i ∉ t.st.waiters := fun hi => hfresh (h.waiters_arrived hi)
  have hhanded : i ∉ t.st.handed := fun hi => hfresh (h.handed_arrived hi)
  have hnodup : (t.arrivals ++ [i]).Nodup := List.nodup_append.mpr
    ⟨h.nodup, List.nodup_singleton i, fun j hj k hk => by
      rw [List.mem_singleton.mp hk]
      exact fun hjk => hfresh (hjk ▸ hj)⟩
  have harrived : ∀ c' : Acquirer, ¬ Early c' → ∀ j ∈ t.arrivals ++ [i],
      ∃ d, (t.setAcquirer i c').acquirers[j]? = some d ∧ ¬ Early d := by
    intro c' hc'
    refine arrived_set hc (fun j hj hne => ?_) fun _ => hc'
    rcases List.mem_append.mp hj with hj | hj
    · exact h.arrived j hj
    · exact absurd (List.mem_singleton.mp hj) hne
  unfold LaneTraffic.enter
  by_cases hroom : (t.st.hasRoom && t.st.waiters.isEmpty) = true
  · rw [if_pos hroom]
    have hcount := fun phase => count_set hc { phase := .holding } phase
    simp only [Bool.and_eq_true, List.isEmpty_iff, LaneState.hasRoom, Bool.or_eq_true, beq_iff_eq,
      decide_eq_true_eq] at hroom
    obtain ⟨hroom, hempty⟩ := hroom
    exact
      { occupied := by
          have hold := h.occupied
          have h1 := hcount .holding
          have h2 := hcount .passing
          simp only [he, reduceCtorEq, ↓reduceIte] at h1 h2
          simp only [handedOver] at *
          change (t.setAcquirer i _).count .holding + (_ + (t.setAcquirer i _).count .passing)
            + freed = _
          omega
        bounded := fun hl => by
          simp only at hl ⊢
          omega
        full := fun _ hne => absurd hempty hne
        yielding := by
          have h1 := hcount .yielding
          have hold := h.yielding
          simp only [he, reduceCtorEq, ↓reduceIte] at h1
          change t.st.yielding = (t.setAcquirer i _).count .yielding
          omega
        placed := placed_set (fun j d hj _ => ⟨(h.placed j d hj).1, (h.placed j d hj).2,
            (h.placed j d hj).3, (h.placed j d hj).4⟩)
          { awaiting := fun hi => absurd hi (by simp [hqueued, hhanded])
            pending := fun ha => by cases ha
            resolved := fun ha => by cases ha
            scheduled := fun ha => by cases ha }
        order := by
          have hold := h.order
          simp only [hempty, List.append_nil] at hold ⊢
          exact hold.append (List.Sublist.refl [i])
        nodup := hnodup
        handed := fun j hj => List.mem_append_left _ (h.handed j hj)
        arrived := harrived _ (by simp [Early]) }
  · rw [if_neg hroom]
    have hcount := fun phase => count_set hc { phase := .awaiting } phase
    exact
      { occupied := by
          have hold := h.occupied
          have h1 := hcount .holding
          have h2 := hcount .passing
          simp only [he, reduceCtorEq, ↓reduceIte] at h1 h2
          simp only [handedOver] at *
          change (t.setAcquirer i _).count .holding + (_ + (t.setAcquirer i _).count .passing)
            + freed = _
          omega
        bounded := h.bounded
        full := by
          intro hl _
          simp only [LaneState.hasRoom, Bool.and_eq_true, Bool.or_eq_true, beq_iff_eq,
            decide_eq_true_eq, List.isEmpty_iff, not_and] at hroom
          have hbound := h.bounded hl
          by_cases hempty : t.st.waiters = []
          · have : ¬ (t.st.limit = 0 ∨ t.st.active < t.st.limit) := fun hr => hroom hr hempty
            simp only at hl ⊢
            omega
          · exact h.full hl hempty
        yielding := by
          have h1 := hcount .yielding
          have hold := h.yielding
          simp only [he, reduceCtorEq, ↓reduceIte] at h1
          change t.st.yielding = (t.setAcquirer i _).count .yielding
          omega
        placed := by
          refine placed_set (fun j d hj hne => ?_)
            { awaiting := fun _ => rfl
              pending := fun _ _ => Or.inl (by simp)
              resolved := fun _ hf => by cases hf
              scheduled := fun _ _ hs => by cases hs }
          have hp := h.placed j d hj
          exact
            { awaiting := fun hi => hp.awaiting (by simpa [hne] using hi)
              pending := fun ha hf => by simpa [hne] using hp.pending ha hf
              resolved := hp.resolved
              scheduled := hp.scheduled }
        order := by
          rw [← List.append_assoc]
          exact h.order.append (List.Sublist.refl [i])
        nodup := hnodup
        handed := h.handed
        arrived := harrived _ (by simp [Early]) }

/-! ## Giving a slot back -/

theorem popLive_some {done : Nat → Bool} {ws rest : List Nat} {fut : Nat}
    (h : popLive done ws = (some fut, rest)) :
    ∃ dead, ws = dead ++ fut :: rest ∧ (∀ j ∈ dead, done j = true) ∧ done fut = false := by
  induction ws with
  | nil => cases h
  | cons w ws ih =>
    unfold popLive at h
    by_cases hw : done w = true
    · rw [if_pos hw] at h
      obtain ⟨dead, rfl, hdead, hfut⟩ := ih h
      exact ⟨w :: dead, rfl, by simpa [hw] using hdead, hfut⟩
    · rw [if_neg hw] at h
      cases h
      exact ⟨[], rfl, by simp, by simpa using hw⟩

theorem popLive_none {done : Nat → Bool} {ws rest : List Nat}
    (h : popLive done ws = (none, rest)) : rest = [] ∧ ∀ j ∈ ws, done j = true := by
  induction ws with
  | nil => cases h; simp
  | cons w ws ih =>
    unfold popLive at h
    by_cases hw : done w = true
    · rw [if_pos hw] at h
      obtain ⟨hrest, hall⟩ := ih h
      exact ⟨hrest, by simpa [hw] using hall⟩
    · rw [if_neg hw] at h
      cases h

theorem scheduleResolve_getElem? {acquirers : List Acquirer} {i j : Nat} {d : Acquirer}
    (h : (scheduleResolve acquirers i)[j]? = some d) :
    ∃ c, acquirers[j]? = some c ∧ d = if j = i then { c with scheduled := true } else c := by
  unfold scheduleResolve at h
  rw [List.getElem?_modify] at h
  cases hc : acquirers[j]? with
  | none => simp [hc] at h
  | some c =>
    refine ⟨c, rfl, ?_⟩
    simp only [hc] at h
    by_cases hij : i = j
    · subst hij
      simpa using h.symm
    · simpa [hij, Ne.symm hij] using h.symm

theorem scheduleResolve_countP (acquirers : List Acquirer) (i : Nat) (phase : Phase) :
    (scheduleResolve acquirers i).countP (·.phase = phase) =
      acquirers.countP (·.phase = phase) := by
  unfold scheduleResolve
  induction acquirers generalizing i with
  | nil => simp
  | cons c cs ih => cases i <;> simp [List.countP_cons, ih]

theorem futDone_eq (hc : t.acquirers[i]? = some c) : t.futDone i = (c.fut != .pending) := by
  simp [futDone, hc]

theorem not_pending_of_futDone (hc : t.acquirers[i]? = some c) (hd : t.futDone i = true) :
    c.fut ≠ .pending := by
  rw [futDone_eq hc] at hd
  simpa using hd

/-- The freed slot goes to the first live waiter. -/
theorem release_some {fut : Nat} {rest : List Nat}
    (hp : popLive t.futDone t.st.waiters = (some fut, rest)) :
    t.release = { t with
      st := { t.st with waiters := rest, handed := insert fut t.st.handed }
      acquirers := scheduleResolve t.acquirers fut
      served := t.served ++ [fut] } := by
  simp [release, hp]

/-- With no live waiter the slot is free. -/
theorem release_none {rest : List Nat} (hp : popLive t.futDone t.st.waiters = (none, rest)) :
    t.release = { t with st := { t.st with waiters := [], active := t.st.active - 1 } } := by
  simp [release, hp, (popLive_none hp).1]

theorem Inv.release (h : t.Inv 1) : t.release.Inv 0 := by
  cases hp : popLive t.futDone t.st.waiters with
  | mk first rest =>
    cases first with
    | some fut =>
      rw [release_some hp]
      obtain ⟨dead, hws, hdead, -⟩ := popLive_some hp
      have hmem : fut ∈ t.st.waiters := by simp [hws]
      have hnot : fut ∉ t.st.handed := h.not_mem_handed hmem
      exact
        { occupied := by
            have hold := h.occupied
            have hcard := Finset.card_insert_of_notMem hnot
            simp only [handedOver, count, scheduleResolve_countP] at *
            omega
          bounded := h.bounded
          full := fun hl _ => h.full hl (List.ne_nil_of_mem hmem)
          yielding := by
            simp only [count, scheduleResolve_countP]
            exact h.yielding
          placed := by
            intro j d hd
            obtain ⟨c, hc, hdc⟩ := scheduleResolve_getElem? hd
            have hpl := h.placed j c hc
            have hphase : d.phase = c.phase := by rw [hdc]; split <;> rfl
            have hfut : d.fut = c.fut := by rw [hdc]; split <;> rfl
            exact
              { awaiting := fun hj => by
                  rw [hphase]
                  refine hpl.awaiting ?_
                  rcases hj with hj | hj
                  · exact Or.inl (by simp [hws, hj])
                  · rcases Finset.mem_insert.mp hj with rfl | hj
                    · exact Or.inl hmem
                    · exact Or.inr hj
                pending := fun ha hf => by
                  rw [hphase] at ha
                  rw [hfut] at hf
                  rcases hpl.pending ha hf with hj | hj
                  · rw [hws] at hj
                    rcases List.mem_append.mp hj with hj | hj
                    · exact absurd hf (not_pending_of_futDone hc (hdead j hj))
                    · rcases List.mem_cons.mp hj with rfl | hj
                      · exact Or.inr (Finset.mem_insert_self _ _)
                      · exact Or.inl hj
                  · exact Or.inr (Finset.mem_insert_of_mem hj)
                resolved := fun ha hf => by
                  rw [hphase] at ha
                  rw [hfut] at hf
                  exact Finset.mem_insert_of_mem (hpl.resolved ha hf)
                scheduled := fun ha hf hs => by
                  by_cases hj : j = fut
                  · exact hj ▸ Finset.mem_insert_self _ _
                  · rw [if_neg hj] at hdc
                    subst hdc
                    exact Finset.mem_insert_of_mem (hpl.scheduled ha hf hs) }
          order := by
            have hold := h.order
            rw [hws] at hold
            refine List.Sublist.trans ?_ hold
            simp only [List.append_assoc, List.singleton_append]
            exact List.Sublist.append_left (List.sublist_append_right dead _) _
          nodup := h.nodup
          handed := fun j hj => by
            rcases Finset.mem_insert.mp hj with rfl | hj
            · simp
            · exact List.mem_append_left _ (h.handed j hj)
          arrived := fun j hj => by
            obtain ⟨d, hd, he⟩ := h.arrived j hj
            refine ⟨if j = fut then { d with scheduled := true } else d, ?_, ?_⟩
            · simp only [scheduleResolve, List.getElem?_modify, hd]
              by_cases hjf : fut = j
              · simp [hjf]
              · simp [hjf, Ne.symm hjf]
            · split <;> simpa [Early] using he }
    | none =>
      rw [release_none hp]
      have hall := (popLive_none hp).2
      exact
        { occupied := by
            have hold := h.occupied
            simp only [handedOver] at *
            change t.count .holding + (_ + t.count .passing) + 0 = t.st.active - 1
            omega
          bounded := fun hl => (Nat.sub_le _ _).trans (h.bounded hl)
          full := fun _ hne => absurd rfl hne
          yielding := h.yielding
          placed := fun j d hd => by
            have hpl := h.placed j d hd
            exact
              { awaiting := fun hj => by
                  rcases hj with hj | hj
                  · cases hj
                  · exact hpl.awaiting (Or.inr hj)
                pending := fun ha hf => by
                  rcases hpl.pending ha hf with hj | hj
                  · exact absurd hf (not_pending_of_futDone hd (hall j hj))
                  · exact Or.inr hj
                resolved := hpl.resolved
                scheduled := hpl.scheduled }
          order := by
            simp only [List.append_nil]
            exact (List.sublist_append_left _ _).trans h.order
          nodup := h.nodup
          handed := h.handed
          arrived := h.arrived }

/-- The call whose slot goes back is done; a waiter takes the slot, or it is free. -/
theorem Inv.giveBack (h : t.Inv 0) (hc : t.acquirers[i]? = some c)
    (hp : c.phase = .holding ∨ c.phase = .passing) : (t.giveBack i c).Inv 0 := by
  have hcount := fun phase => count_set hc { c with phase := .done } phase
  refine Inv.release
    { occupied := ?_
      bounded := h.bounded
      full := h.full
      yielding := ?_
      placed := placed_set (fun j d hj _ => h.placed j d hj)
        { awaiting := fun hi => ?_
          pending := fun ha => by cases ha
          resolved := fun ha => by cases ha
          scheduled := fun ha => by cases ha }
      order := h.order
      nodup := h.nodup
      handed := h.handed
      arrived := arrived_set hc (fun j hj _ => h.arrived j hj) fun _ => by simp [Early] }
  · have hold := h.occupied
    have h1 := hcount .holding
    have h2 := hcount .passing
    simp only [handedOver] at *
    change _ + (_ + _) + 1 = t.st.active
    rcases hp with hp | hp <;> simp only [hp, reduceCtorEq, ↓reduceIte] at h1 h2 <;>
      simp only [setAcquirer] at * <;> omega
  · have h1 := hcount .yielding
    have hold := h.yielding
    change t.st.yielding = _
    rcases hp with hp | hp <;> simp only [hp, reduceCtorEq, ↓reduceIte] at h1 <;> omega
  · have := (h.placed i c hc).awaiting hi
    rcases hp with hp | hp <;> rw [hp] at this <;> cases this

/-! ## Yielding -/

/-- A call that has yet to reach the lane moves between the phases before it. -/
theorem Inv.before_lane (h : t.Inv freed) (hc : t.acquirers[i]? = some c)
    (hp : c.phase = .asked ∨ c.phase = .yielding) {q : Phase} {yielding : Nat}
    (hq : q = .entering ∨ q = .yielding ∨ q = .done)
    (hy : yielding + (if c.phase = .yielding then 1 else 0) =
      t.st.yielding + (if q = .yielding then 1 else 0)) :
    ({ t.setAcquirer i { c with phase := q } with
      st := { t.st with yielding := yielding } } : LaneTraffic).Inv freed := by
  have hfresh : i ∉ t.arrivals := h.early_not_arrived hc (by
    rcases hp with hp | hp
    · exact Or.inl hp
    · exact Or.inr (Or.inl hp))
  have hcount := fun phase => count_set hc { c with phase := q } phase
  have hsame : ∀ phase, phase = .holding ∨ phase = .passing →
      (t.setAcquirer i { c with phase := q }).count phase = t.count phase := by
    intro phase hphase
    have := hcount phase
    rcases hphase with rfl | rfl <;> rcases hp with hp | hp <;> rcases hq with rfl | rfl | rfl <;>
      simpa [hp] using this
  have hawaiting : q ≠ .awaiting := by rcases hq with rfl | rfl | rfl <;> decide
  exact
    { occupied := by
        have hold := h.occupied
        simp only [handedOver] at *
        change (t.setAcquirer i _).count .holding + (_ + (t.setAcquirer i _).count .passing) + freed
          = t.st.active
        rw [hsame _ (Or.inl rfl), hsame _ (Or.inr rfl)]
        exact hold
      bounded := h.bounded
      full := h.full
      yielding := by
        have h1 := hcount .yielding
        have hold := h.yielding
        change yielding = (t.setAcquirer i _).count .yielding
        simp only at h1
        omega
      placed := by
        refine placed_set (fun j d hj _ => ⟨(h.placed j d hj).1, (h.placed j d hj).2,
            (h.placed j d hj).3, (h.placed j d hj).4⟩)
          { awaiting := fun hi => absurd (hi.elim h.waiters_arrived h.handed_arrived) hfresh
            pending := fun ha => absurd ha hawaiting
            resolved := fun ha => absurd ha hawaiting
            scheduled := fun ha => absurd ha hawaiting }
      order := h.order
      nodup := h.nodup
      handed := h.handed
      arrived := arrived_set hc (fun j hj _ => h.arrived j hj) fun hi => absurd hi hfresh }

/-! ## What the steps of one call leave to another -/

/-- Call `i` keeps its place, its future and, where it was handed a slot, that slot. -/
structure Keeps (i : Nat) (t t' : LaneTraffic) : Prop where
  acquirer : ∀ c, t.acquirers[i]? = some c →
    ∃ scheduled, t'.acquirers[i]? = some { c with scheduled := scheduled }
  handed : i ∈ t.st.handed → i ∈ t'.st.handed

variable {t' : LaneTraffic} {j : Nat} {d : Acquirer}

theorem Keeps.refl (i : Nat) (t : LaneTraffic) : Keeps i t t :=
  ⟨fun c hc => ⟨c.scheduled, hc⟩, id⟩

theorem Keeps.trans {t'' : LaneTraffic} (h : Keeps i t t') (k : Keeps i t' t'') :
    Keeps i t t'' where
  acquirer c hc := by
    obtain ⟨b, hb⟩ := h.acquirer c hc
    obtain ⟨b', hb'⟩ := k.acquirer _ hb
    exact ⟨b', hb'⟩
  handed hi := k.handed (h.handed hi)

/-- A step that rewrites call `j` alone, and takes no slot from another. -/
theorem Keeps.of_set {st : LaneState} {arrivals served : List Nat} (hne : i ≠ j)
    (hst : i ∈ t.st.handed → i ∈ st.handed) :
    Keeps i t (LaneTraffic.mk st (t.acquirers.set j d) arrivals served) where
  acquirer c hc := ⟨c.scheduled, by
    rw [List.getElem?_set, if_neg (Ne.symm hne)]
    exact hc⟩
  handed := hst

theorem Keeps.release (i : Nat) (t : LaneTraffic) : Keeps i t t.release := by
  cases hp : popLive t.futDone t.st.waiters with
  | mk first rest =>
    cases first with
    | some fut =>
      rw [release_some hp]
      refine ⟨fun c hc => ?_, Finset.mem_insert_of_mem⟩
      by_cases hi : fut = i
      · exact ⟨true, by simp [scheduleResolve, hc, hi]⟩
      · exact ⟨c.scheduled, by simp [scheduleResolve, hi, hc]⟩
    | none =>
      rw [release_none hp]
      exact ⟨fun c hc => ⟨c.scheduled, hc⟩, id⟩

theorem Keeps.giveBack (hne : i ≠ j) : Keeps i t (t.giveBack j d) := by
  have hset : Keeps i t (t.setAcquirer j { d with phase := .done }) := Keeps.of_set hne id
  exact hset.trans (Keeps.release i _)

/-- A slot given back is handed to the first live waiter, or is free where there is none. -/
def GivenBack (t t' : LaneTraffic) : Prop :=
  (∃ dead fut rest, t.st.waiters = dead ++ fut :: rest ∧ (∀ k ∈ dead, ¬ t.LiveWaiter k) ∧
      t.LiveWaiter fut ∧ fut ∈ t'.st.handed ∧ t'.st.waiters = rest ∧
      t'.st.active = t.st.active) ∨
    ((∀ k, ¬ t.LiveWaiter k) ∧ t'.st.waiters = [] ∧ t'.st.active + 1 = t.st.active)

theorem Inv.givenBack (h : t.Inv 0) (hc : t.acquirers[i]? = some c)
    (hp : c.phase = .holding ∨ c.phase = .passing) : GivenBack t (t.giveBack i c) := by
  have hqueued : i ∉ t.st.waiters := fun hi => by
    have := (h.placed i c hc).awaiting (Or.inl hi)
    rcases hp with hp | hp <;> rw [hp] at this <;> cases this
  have hdone : ∀ k ∈ t.st.waiters, (t.setAcquirer i { c with phase := .done }).futDone k =
      t.futDone k := by
    intro k hk
    have hik : ¬ i = k := fun hik => hqueued (hik ▸ hk)
    simp [futDone, setAcquirer, hik]
  have hpos : 0 < t.st.active := by
    have hold := h.occupied
    have h1 : 0 < t.count c.phase :=
      List.countP_pos_iff.mpr ⟨c, List.mem_of_getElem? hc, by simp⟩
    unfold handedOver at hold
    rcases hp with hp | hp <;> rw [hp] at h1 <;> omega
  unfold LaneTraffic.giveBack
  cases hpop : popLive (t.setAcquirer i { c with phase := .done }).futDone
      (t.setAcquirer i { c with phase := .done }).st.waiters with
  | mk first rest =>
    cases first with
    | some fut =>
      rw [release_some hpop]
      obtain ⟨dead, hws, hdead, hfut⟩ := popLive_some hpop
      have hws : t.st.waiters = dead ++ fut :: rest := hws
      refine Or.inl ⟨dead, fut, rest, hws, fun k hk hlive => ?_, ⟨by simp [hws], ?_⟩,
        Finset.mem_insert_self _ _, rfl, rfl⟩
      · have := hdead k hk
        rw [hdone k (by simp [hws, hk]), hlive.2] at this
        cases this
      · rw [← hdone fut (by simp [hws])]
        exact hfut
    | none =>
      rw [release_none hpop]
      refine Or.inr ⟨fun k hlive => ?_, rfl, Nat.sub_add_cancel hpos⟩
      have := (popLive_none hpop).2 k hlive.1
      rw [hdone k hlive.1, hlive.2] at this
      cases this

end LaneTraffic

end GenusOs.Engine
