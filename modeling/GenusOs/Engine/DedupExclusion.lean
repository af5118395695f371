import GenusOs.Engine.Dedup
import Mathlib

/-!
# Dedup as mutual exclusion

What the running mark says of the acquisitions that are not released.

* `step_inv`: what every calm step keeps.
* `dedup_excludes_where_calm`: exclusion, and releases that free nothing of another, over the calm
  runs.
-/

namespace GenusOs.Engine.Dedup

variable {token : String} {s t : State} {a : Act} {c d r : Nat}

/-! ## Frames -/

@[simp] theorem setRelease_self {release : Release} :
    (s.setRelease r release).releases r = release := Function.update_self ..

@[simp] theorem discard_self :
    (s.discard r).releases r = { s.releases r with phase := .returned } := Function.update_self ..

theorem setRelease_of_ne {release : Release} (h : d ≠ r) :
    (s.setRelease r release).releases d = s.releases d := Function.update_of_ne h ..

theorem discard_of_ne (h : d ≠ r) : (s.discard r).releases d = s.releases d :=
  Function.update_of_ne h ..

theorem goOn_of_ne (h : d ≠ r) : (s.goOn r).releases d = s.releases d := by
  unfold State.goOn
  split
  · rfl
  · exact discard_of_ne h

/-- Only the phase of a release changes while it goes on. -/
theorem goOn_self : ((s.goOn r).releases r).holder = (s.releases r).holder ∧
    ((s.goOn r).releases r).frees = (s.releases r).frees := by
  unfold State.goOn
  split
  · exact ⟨rfl, rfl⟩
  · rw [discard_self]
    exact ⟨rfl, rfl⟩

@[simp] theorem goOn_acquires : (s.goOn r).acquires = s.acquires := by
  unfold State.goOn
  split
  · rfl
  · rfl

@[simp] theorem beginRelease_acquires {sync : Bool} {holder : Option Nat} :
    (s.beginRelease r sync holder).acquires = s.acquires := by
  unfold State.beginRelease
  split
  · rfl
  · exact goOn_acquires

@[simp] theorem tryInProcess_releases : (s.tryInProcess c).releases = s.releases := by
  unfold State.tryInProcess
  split
  · rfl
  · rfl

/-! ## What the running mark says -/

/-- The mark stands for the newest acquisition, and every release under way is of that one. -/
structure Inv (s : State) : Prop where
  newest : ∀ c ∈ s.held, s.held = [c] ∧ s.acquired.head? = some c
  running : s.running = true ↔ s.held ≠ []
  frees : ∀ r, (s.releases r).UnderWay → ∀ c ∈ s.held, c ∈ (s.releases r).frees
  holder : ∀ r c, (s.releases r).UnderWay → (s.releases r).ByHolder c → s.acquired.head? = some c
  returned : ∀ c ∈ s.acquired, s.acquires c = .returned true
  nodup : s.acquired.Nodup

/-- Nothing is later than the newest acquisition but a call that Redis has granted. -/
theorem Inv.not_later (h : Inv s) (hc : s.acquired.head? = some c) (hd : ¬ s.Granted d) :
    ¬ s.Later c d := by
  rintro (hgranted | ⟨after, before, heq, hmem⟩)
  · exact hd hgranted
  · have hnodup := h.nodup
    rw [heq] at hc hnodup
    cases after with
    | nil =>
      obtain rfl := Option.some.inj hc
      exact (List.nodup_cons.mp hnodup).1 hmem
    | cons e after =>
      obtain rfl := Option.some.inj hc
      apply (List.nodup_cons.mp hnodup).1
      exact List.mem_append_right _ (List.mem_cons_of_mem _ hmem)

theorem Inv.not_granted (h : Inv s) (hc : c ∈ s.acquired) : ¬ s.Granted c := by
  rintro ⟨token, hgranted⟩
  rw [h.returned c hc] at hgranted
  cases hgranted

/-! ## The parts of the steps -/

/-- A step of one call that is not an acquisition leaves the marks alone. -/
theorem Inv.setAcquire (h : Inv s) {phase : Acquiring} (hc : s.acquires c ≠ .returned true) :
    Inv (s.setAcquire c phase) where
  newest := h.newest
  running := h.running
  frees := h.frees
  holder := h.holder
  returned d hd := by
    have hne : d ≠ c := by
      rintro rfl
      exact hc (h.returned d hd)
    exact (Function.update_of_ne hne _ _).trans (h.returned d hd)
  nodup := h.nodup

/-- An acquisition that finds no mark and no release under way is the only one. -/
theorem Inv.succeed (h : Inv s) (hc : s.acquires c ≠ .returned true) (hr : s.running = false)
    (hclear : ∀ r, ¬ (s.releases r).UnderWay) : Inv (s.succeed c) := by
  have hheld : s.held = [] := by
    by_contra hne
    rw [h.running.mpr hne] at hr
    cases hr
  have hfresh : c ∉ s.acquired := fun hmem => hc (h.returned c hmem)
  constructor
  case newest =>
    intro d hd
    have hsucceed : (s.succeed c).held = [c] := congrArg (c :: ·) hheld
    rw [hsucceed] at hd ⊢
    obtain rfl := List.mem_singleton.mp hd
    exact ⟨rfl, rfl⟩
  case running => exact ⟨fun _ => List.cons_ne_nil _ _, fun _ => rfl⟩
  case frees => exact fun r hunder => absurd hunder (hclear r)
  case holder => exact fun r _ hunder => absurd hunder (hclear r)
  case returned =>
    intro d hd
    rcases List.mem_cons.mp hd with rfl | hd
    · exact Function.update_self ..
    · have hne : d ≠ c := ne_of_mem_of_not_mem hd hfresh
      exact (Function.update_of_ne hne _ _).trans (h.returned d hd)
  case nodup => exact List.nodup_cons.mpr ⟨hfresh, h.nodup⟩

/-- A release moves on, or begins with what is held. -/
theorem Inv.setRelease (h : Inv s) {release : Release}
    (hfrees : ∀ c ∈ s.held, c ∈ release.frees)
    (hholder : ∀ c, release.ByHolder c → s.acquired.head? = some c) :
    Inv (s.setRelease r release) where
  newest := h.newest
  running := h.running
  frees q hunder d hd := by
    by_cases hq : q = r
    · subst hq
      rw [setRelease_self]
      exact hfrees d hd
    · rw [setRelease_of_ne hq] at hunder ⊢
      exact h.frees q hunder d hd
  holder q d hunder hby := by
    by_cases hq : q = r
    · subst hq
      rw [setRelease_self] at hby
      exact hholder d hby
    · rw [setRelease_of_ne hq] at hunder hby
      exact h.holder q d hunder hby
  returned := h.returned
  nodup := h.nodup

/-- The mark goes with the last acquisition. -/
theorem Inv.discard (h : Inv s) (hfrees : ∀ c ∈ s.held, c ∈ (s.releases r).frees) :
    Inv (s.discard r) := by
  have hheld : (s.discard r).held = [] := by
    apply List.filter_eq_nil_iff.mpr
    intro c hc
    simpa using hfrees c hc
  constructor
  case newest => simp [hheld]
  case running => exact ⟨nofun, fun hne => absurd hheld hne⟩
  case frees =>
    intro q _ c hc
    rw [hheld] at hc
    cases hc
  case holder =>
    intro q c hunder hby
    by_cases hq : q = r
    · subst hq
      rw [discard_self] at hunder
      exact absurd rfl hunder.2
    · rw [discard_of_ne hq] at hunder hby
      exact h.holder q c hunder hby
  case returned => exact h.returned
  case nodup => exact h.nodup

theorem Inv.goOn (h : Inv s) (hfrees : ∀ c ∈ s.held, c ∈ (s.releases r).frees) :
    Inv (s.goOn r) := by
  unfold State.goOn
  split
  · exact h
  · exact h.discard hfrees

theorem Inv.beginRelease (h : Inv s) {sync : Bool} {holder : Option Nat} :
    Inv (s.beginRelease r sync holder) := by
  have hset : ∀ phase, Inv (s.setRelease r ⟨phase, sync, holder, s.held⟩) := fun phase =>
    h.setRelease (fun _ hc => hc) (fun c hby => (h.newest c hby.2).2)
  unfold State.beginRelease
  split
  · exact hset _
  · apply (hset _).goOn
    intro c hc
    rw [setRelease_self]
    exact hc

theorem Inv.settle (h : Inv s) {confirmed : Bool} (hunder : (s.releases r).UnderWay) :
    Inv (s.settle r confirmed) := by
  have hpop : Inv { s with owner := if confirmed then none else s.owner } :=
    ⟨h.newest, h.running, h.frees, h.holder, h.returned, h.nodup⟩
  apply (hpop.setRelease _ _).goOn
  · intro c hc
    rw [setRelease_self]
    exact h.frees r hunder c hc
  · exact h.frees r hunder
  · exact fun c hby => h.holder r c hunder hby

theorem Inv.tryInProcess (h : Inv s) (hc : s.acquires c ≠ .returned true)
    (hclear : s.running = false → ∀ r, ¬ (s.releases r).UnderWay) : Inv (s.tryInProcess c) := by
  unfold State.tryInProcess
  split
  · exact h.setAcquire hc
  · next hr =>
    have hr : s.running = false := by simpa using hr
    exact h.succeed hc hr (hclear hr)

/-! ## The steps -/

theorem resume_inv (h : Inv s) (hcalm : Calm s (.resume c)) (hstep : s.resume c = some t) :
    Inv t := by
  unfold State.resume at hstep
  split at hstep
  · next token hphase =>
    cases hstep
    obtain ⟨hr, hclear⟩ := hcalm.clear (.inl ⟨token, hphase⟩)
    have hpop : Inv { s with owner := some token } :=
      ⟨h.newest, h.running, h.frees, h.holder, h.returned, h.nodup⟩
    exact hpop.succeed (hphase.trans_ne nofun) hr hclear
  · next hphase =>
    cases hstep
    exact h.setAcquire (hphase.trans_ne nofun)
  · next hphase =>
    cases hstep
    exact h.tryInProcess (hphase.trans_ne nofun) fun hr =>
      (hcalm.clear (.inr ⟨hphase, hr⟩)).2
  · cases hstep

/-- **What every calm step keeps.** -/
theorem step_inv (h : Inv s) (hcalm : Calm s a) (hstep : step token s a = some t) : Inv t := by
  have hredis : ∀ lease, Inv { s with lease := lease } := fun _ =>
    ⟨h.newest, h.running, h.frees, h.holder, h.returned, h.nodup⟩
  unfold step at hstep
  cases a with
  | tryAcquire c ha =>
    obtain ⟨hphase, hstep⟩ := Option.ite_none_right_eq_some.mp hstep
    cases hstep
    have hc : s.acquires c ≠ .returned true := hphase.trans_ne nofun
    cases ha with
    | true => exact h.setAcquire hc
    | false => exact h.tryInProcess hc fun hr => (hcalm.clear ⟨rfl, hr⟩).2
  | set c fate =>
    obtain ⟨hphase, hstep⟩ := Option.ite_none_right_eq_some.mp hstep
    have hc : s.acquires c ≠ .returned true := hphase.trans_ne nofun
    cases fate with
    | answered =>
      cases hstep
      exact (hredis _).setAcquire hc
    | raised =>
      cases hstep
      exact h.setAcquire hc
    | raisedAfter =>
      cases hstep
      exact (hredis _).setAcquire hc
  | resume c => exact resume_inv h hcalm hstep
  | release r sync holder =>
    obtain ⟨-, hstep⟩ := Option.ite_none_right_eq_some.mp hstep
    cases hstep
    exact h.beginRelease
  | delete r fate =>
    dsimp only at hstep
    split at hstep
    · next owner hphase =>
      cases hstep
      have hunder : (s.releases r).UnderWay := ⟨hphase.trans_ne nofun, hphase.trans_ne nofun⟩
      exact (hredis _).setRelease (h.frees r hunder) (fun c hby => h.holder r c hunder hby)
    · cases hstep
  | settle r =>
    dsimp only at hstep
    split at hstep
    · next confirmed hphase =>
      cases hstep
      exact h.settle ⟨hphase.trans_ne nofun, hphase.trans_ne nofun⟩
    · cases hstep
  | discard r =>
    obtain ⟨hphase, hstep⟩ := Option.ite_none_right_eq_some.mp hstep
    cases hstep
    exact h.discard (h.frees r ⟨hphase.trans_ne nofun, hphase.trans_ne nofun⟩)
  | lost =>
    cases hstep
    exact hredis none
  | taken owner =>
    obtain ⟨-, hstep⟩ := Option.ite_none_right_eq_some.mp hstep
    cases hstep
    exact hredis _

/-! ## What a step may do -/

/-- Only a step that is about to succeed lets `try_acquire` return True. -/
theorem step_succeeding (hstep : step token s a = some t) (hc : s.acquires c ≠ .returned true)
    (ht : t.acquires c = .returned true) : s.Succeeding a := by
  have hsame : ∀ {u : State}, u.acquires c = s.acquires c → u.acquires c ≠ .returned true :=
    fun heq => heq.trans_ne hc
  have hset : ∀ {u : State} {d : Nat} {phase : Acquiring}, u.acquires = s.acquires →
      phase ≠ .returned true → (u.setAcquire d phase).acquires c ≠ .returned true := by
    intro u d phase hu hphase
    by_cases hd : c = d
    · subst hd
      exact (Function.update_self ..).trans_ne hphase
    · exact ((Function.update_of_ne hd _ _).trans (congrFun hu c)).trans_ne hc
  have hbranch : ∀ {d : Nat}, (s.tryInProcess d).acquires c = .returned true →
      s.running = false := by
    intro d hd
    unfold State.tryInProcess at hd
    split at hd
    · exact absurd hd (hset rfl nofun)
    · next hr => simpa using hr
  unfold step at hstep
  cases a with
  | tryAcquire d ha =>
    obtain ⟨-, hstep⟩ := Option.ite_none_right_eq_some.mp hstep
    cases hstep
    cases ha with
    | true => exact absurd ht (hset rfl nofun)
    | false => exact ⟨rfl, hbranch ht⟩
  | set d fate =>
    obtain ⟨-, hstep⟩ := Option.ite_none_right_eq_some.mp hstep
    cases fate with
    | _ =>
      cases hstep
      exact absurd ht (hset rfl nofun)
  | resume d =>
    unfold State.resume at hstep
    dsimp only at hstep
    split at hstep
    · next token hphase => exact .inl ⟨token, hphase⟩
    · cases hstep
      exact absurd ht (hset rfl nofun)
    · next hphase =>
      cases hstep
      exact .inr ⟨hphase, hbranch ht⟩
    · cases hstep
  | release r sync holder =>
    obtain ⟨-, hstep⟩ := Option.ite_none_right_eq_some.mp hstep
    cases hstep
    exact absurd ht (hsame (congrFun beginRelease_acquires c))
  | delete r fate =>
    dsimp only at hstep
    split at hstep
    · cases hstep
      exact absurd ht (hsame rfl)
    · cases hstep
  | settle r =>
    dsimp only at hstep
    split at hstep
    · cases hstep
      exact absurd ht (hsame (congrFun goOn_acquires c))
    · cases hstep
  | discard r =>
    obtain ⟨-, hstep⟩ := Option.ite_none_right_eq_some.mp hstep
    cases hstep
    exact absurd ht (hsame rfl)
  | lost =>
    cases hstep
    exact absurd ht (hsame rfl)
  | taken owner =>
    obtain ⟨-, hstep⟩ := Option.ite_none_right_eq_some.mp hstep
    cases hstep
    exact absurd ht (hsame rfl)

/-- A release that returns was under way, or it has just begun with what is held. -/
theorem step_returns (hstep : step token s a = some t) (hs : (s.releases r).phase ≠ .returned)
    (ht : (t.releases r).phase = .returned) :
    ((s.releases r).UnderWay ∧ ∀ c, (t.releases r).ByHolder c → (s.releases r).ByHolder c) ∨
      (t.releases r).frees = s.held := by
  have hsame : t.releases r ≠ s.releases r := fun heq => hs (heq ▸ ht)
  unfold step at hstep
  cases a with
  | tryAcquire d ha =>
    obtain ⟨-, hstep⟩ := Option.ite_none_right_eq_some.mp hstep
    cases hstep
    cases ha with
    | true => exact absurd rfl hsame
    | false => exact absurd (congrFun tryInProcess_releases r) hsame
  | set d fate =>
    obtain ⟨-, hstep⟩ := Option.ite_none_right_eq_some.mp hstep
    cases fate with
    | _ =>
      cases hstep
      exact absurd rfl hsame
  | resume d =>
    unfold State.resume at hstep
    dsimp only at hstep
    split at hstep
    · cases hstep
      exact absurd rfl hsame
    · cases hstep
      exact absurd rfl hsame
    · cases hstep
      exact absurd (congrFun tryInProcess_releases r) hsame
    · cases hstep
  | release q sync holder =>
    obtain ⟨-, hstep⟩ := Option.ite_none_right_eq_some.mp hstep
    cases hstep
    right
    unfold State.beginRelease at ht hsame ⊢
    split
    · next token howner =>
      rw [howner] at hsame
      by_cases hq : r = q
      · subst hq
        exact congrArg Release.frees setRelease_self
      · exact absurd (setRelease_of_ne hq) hsame
    · next howner =>
      rw [howner] at hsame
      by_cases hq : r = q
      · subst hq
        rw [goOn_self.2, setRelease_self]
      · exact absurd ((goOn_of_ne hq).trans (setRelease_of_ne hq)) hsame
  | delete q fate =>
    dsimp only at hstep
    split at hstep
    · cases hstep
      by_cases hq : r = q
      · subst hq
        rw [setRelease_self] at ht
        cases ht
      · exact absurd (setRelease_of_ne hq) hsame
    · cases hstep
  | settle q =>
    dsimp only at hstep
    split at hstep
    · next confirmed hphase =>
      cases hstep
      by_cases hq : r = q
      · subst hq
        refine .inl ⟨⟨hphase.trans_ne nofun, hphase.trans_ne nofun⟩, fun c hby => ?_⟩
        unfold State.settle Release.ByHolder at hby
        rw [goOn_self.1, goOn_self.2, setRelease_self] at hby
        exact hby
      · exact absurd ((goOn_of_ne hq).trans (setRelease_of_ne hq)) hsame
    · cases hstep
  | discard q =>
    obtain ⟨hphase, hstep⟩ := Option.ite_none_right_eq_some.mp hstep
    cases hstep
    by_cases hq : r = q
    · subst hq
      refine .inl ⟨⟨hphase.trans_ne nofun, hphase.trans_ne nofun⟩, fun c hby => ?_⟩
      rw [discard_self] at hby
      exact hby
    · exact absurd (discard_of_ne hq) hsame
  | lost =>
    cases hstep
    exact absurd rfl hsame
  | taken owner =>
    obtain ⟨-, hstep⟩ := Option.ite_none_right_eq_some.mp hstep
    cases hstep
    exact absurd rfl hsame

/-- A release deletes a lease only where Redis has done what it asked. -/
theorem delete_asking {fate : Fate} (hstep : step token s (.delete r fate) = some t)
    (hs : s.lease ≠ none) (ht : t.lease = none) : (s.releases r).UnderWay ∧ fate ≠ .raised := by
  unfold step at hstep
  dsimp only at hstep
  split at hstep
  · next owner hphase =>
    cases hstep
    refine ⟨⟨hphase.trans_ne nofun, hphase.trans_ne nofun⟩, ?_⟩
    rintro rfl
    exact hs ht
  · cases hstep

/-! ## The law -/

theorem step_lawful (h : Inv s) (hcalm : Calm s a) (hstep : step token s a = some t) :
    Lawful s a t where
  exclusive c hc ht := by
    obtain ⟨hr, -⟩ := hcalm.clear (step_succeeding hstep hc ht)
    by_contra hne
    rw [h.running.mpr hne] at hr
    cases hr
  lease r fate c l d ha hby hl ht hd := by
    subst ha
    obtain ⟨hunder, hfate⟩ := delete_asking hstep (hl.trans_ne nofun) ht
    exact h.not_later (h.holder r c hunder hby) (hcalm.spares r fate l d rfl hfate hl hd)
  mark r c hs ht hby d hd := by
    have hnewest := (h.newest d hd).2
    have hc : s.acquired.head? = some c := by
      rcases step_returns hstep hs ht with ⟨hunder, hsame⟩ | hfrees
      · exact h.holder r c hunder (hsame c hby)
      · exact (h.newest c (hfrees ▸ hby.2)).2
    exact h.not_later hc (h.not_granted (List.mem_of_mem_head? hnewest))

/-- **Dedup is mutual exclusion, and a holder frees nothing of a later acquisition, wherever an
acquisition finds no mark and no release under way and no lease is deleted before its grant has
arrived.** -/
theorem dedup_excludes_where_calm (token : String) (hs : ((dedup token).restrict Calm).Reachable s)
    (hstep : ((dedup token).restrict Calm).step s a t) : Lawful s a t := by
  have hinv : Inv s := by
    refine hs.invariant ?_ ?_
    · rintro _ ⟨lease, rfl, -⟩
      exact ⟨nofun, by simp, fun _ hunder => absurd rfl hunder.1,
        fun _ _ hunder => absurd rfl hunder.1, nofun, List.nodup_nil⟩
    · rintro u b v hu ⟨hcalm, hb⟩
      exact step_inv hu hcalm hb
  exact step_lawful hinv hstep.1 hstep.2

/-! ## The two locks apart -/

/-- A first acquisition falls back, and Redis answers the second. -/
def apart : List Act :=
  [.tryAcquire 0 true, .set 0 .raised, .resume 0, .tryAcquire 1 true, .set 1 .answered]

theorem two_acquisitions_at_once : ∃ s t : State, (dedup "4711:boot").Reachable s ∧
    (dedup "4711:boot").step s (.resume 1) t ∧ ¬ Lawful s (.resume 1) t := by
  obtain ⟨s, t, hrun, hstep, hheld, hs, ht⟩ :
      ∃ s t, apart.foldlM (step "4711:boot") {} = some s ∧
        step "4711:boot" s (.resume 1) = some t ∧ s.held = [0] ∧
          s.acquires 1 ≠ .returned true ∧ t.acquires 1 = .returned true :=
    ⟨_, _, rfl, rfl, rfl, by decide, rfl⟩
  refine ⟨s, t, ⟨{}, apart, ⟨none, rfl, nofun⟩, System.run_of_foldlM hrun⟩, hstep, ?_⟩
  intro hlawful
  have hnone := hlawful.exclusive 1 hs ht
  rw [hheld] at hnone
  cases hnone

theorem calm_of_idle (hs : ¬ s.Succeeding a) (ha : ∀ r fate, a ≠ .delete r fate) : Calm s a where
  clear h := absurd h hs
  spares r fate _ _ h := absurd h (ha r fate)

/-- An acquisition that fell back is released, and Redis grants the next one. -/
def handedOn : List Act := [.tryAcquire 0 true, .set 0 .raised, .resume 0,
  .release 0 false (some 0), .tryAcquire 1 true, .set 1 .answered]

theorem handedOn_calm : ∃ s, ((dedup "4711:boot").restrict Calm).Run ({} : State) handedOn s ∧
    s.running = false ∧ (∀ r, ¬ (s.releases r).UnderWay) ∧ s.acquired = [0] ∧
      s.acquires 1 = .answered (some "4711:boot") := by
  refine ⟨(handedOn.foldlM (step "4711:boot") {}).getD {}, ?_, rfl, fun r hunder => ?_, rfl, rfl⟩
  · apply System.run_restrict_cons (calm_of_idle (by nofun) (by nofun)) rfl
    apply System.run_restrict_cons (calm_of_idle (by nofun) (by nofun)) rfl
    apply System.run_restrict_cons ⟨fun _ => ⟨rfl, fun _ hunder => hunder.1 rfl⟩, nofun⟩ rfl
    apply System.run_restrict_cons (calm_of_idle (by nofun) (by nofun)) rfl
    apply System.run_restrict_cons (calm_of_idle (by nofun) (by nofun)) rfl
    apply System.run_restrict_cons (calm_of_idle (by nofun) (by nofun)) rfl
    exact .nil _
  by_cases hr : r = 0
  · subst hr
    exact hunder.2 rfl
  · apply hunder.1
    exact congrArg Release.phase ((discard_of_ne hr).trans (setRelease_of_ne hr))

theorem granted_alone : ∃ s t : State, s.acquired = [0] ∧ t.acquires 1 = .returned true ∧
    Lawful s (.resume 1) t := by
  obtain ⟨s, hrun, hr, hidle, hacquired, hgranted⟩ := handedOn_calm
  have hstep : step "4711:boot" s (.resume 1) =
      some ({ s with owner := some "4711:boot" }.succeed 1) := by
    show s.resume 1 = _
    unfold State.resume
    rw [hgranted]
  refine ⟨s, _, hacquired, ?_, dedup_excludes_where_calm "4711:boot"
    ⟨{}, handedOn, ⟨none, rfl, nofun⟩, hrun⟩ ⟨⟨fun _ => ⟨hr, hidle⟩, nofun⟩, hstep⟩⟩
  exact Function.update_self 1 (Acquiring.returned true) s.acquires

end GenusOs.Engine.Dedup
