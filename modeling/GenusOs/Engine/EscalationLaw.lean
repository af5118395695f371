import GenusOs.Engine.Escalation
import Mathlib

/-!
# Escalation answers are honoured

* `Inv`: a request that `resolve` has settled is on its way to that answer.
* `step_inv`: what every calm step keeps.
* `only_a_person_approves`: nothing is approved without a person, and answers are honoured.
-/

namespace GenusOs.Engine.Escalation

variable {m n : Manager} {a : Act} {q : Request} {r : Nat}

/-! ## Frames -/

@[simp] theorem update_self : (m.update r q).requests r = q := Function.update_self ..

theorem update_of_ne {r' : Nat} (h : r' ≠ r) : (m.update r q).requests r' = m.requests r' :=
  Function.update_of_ne h ..

/-! ## On the way to the answer -/

/-- The request has the answer `decided`, and its call has not left the way to returning it. -/
structure Request.Decided (q : Request) (decided : Bool) : Prop where
  isSet : q.isSet = true
  approved : (∀ answer, q.phase ≠ .returned answer) → q.approved = some decided
  phase : q.phase = .announcing ∨ q.phase = .sending ∨ q.phase = .waiting false ∨
    q.phase = .returned decided ∨ q.phase = .cancelled

/-- What a call that returned True goes back to. -/
def Manager.Backed (m : Manager) (q : Request) (r : Nat) : Prop :=
  q.phase = .returned true → r ∈ m.approvals ∨ q.subject ∈ m.sessionApprovals

structure Inv (m : Manager) : Prop where
  grants : ∀ g ∈ m.sessionGrants, ∃ agentId guardrailName,
    grantKey agentId guardrailName = g.1 ∧ (agentId, guardrailName, g.2) ∈ m.sessionApprovals
  decided : ∀ r decided, (r, decided) ∈ m.settled → (m.requests r).Decided decided
  once : (m.settled.map Prod.fst).Nodup
  approved : ∀ r, (m.requests r).approved = some true → r ∈ m.approvals
  backed : ∀ r, m.Backed (m.requests r) r

theorem Inv.lawful (h : Inv m) : m.Lawful where
  approved := h.backed
  once := h.once
  honoured r decided answer hmem hphase := by
    rcases (h.decided r decided hmem).phase with hp | hp | hp | hp | hp
    all_goals
      rw [hphase] at hp
      cases hp
    rfl

/-- A request changes: the others are not concerned. -/
theorem Inv.update (h : Inv m) (hdecided : ∀ decided, (r, decided) ∈ m.settled → q.Decided decided)
    (happroved : q.approved = some true → r ∈ m.approvals) (hbacked : m.Backed q r) :
    Inv (m.update r q) where
  grants := h.grants
  decided r' decided hmem := by
    by_cases hr : r' = r
    · subst hr
      rw [update_self]
      exact hdecided decided hmem
    · rw [update_of_ne hr]
      exact h.decided r' decided hmem
  once := h.once
  approved r' hr' := by
    by_cases hr : r' = r
    · subst hr
      rw [update_self] at hr'
      exact happroved hr'
    · rw [update_of_ne hr] at hr'
      exact h.approved r' hr'
  backed r' := by
    by_cases hr : r' = r
    · subst hr
      rw [update_self]
      exact hbacked
    · rw [update_of_ne hr]
      exact h.backed r'

/-- What is pending, and the surfaces, do not matter. -/
theorem Inv.same (h : Inv m) {hasBot hasChannel : Bool} {pending : List Nat} :
    Inv { m with hasBot := hasBot, hasChannel := hasChannel, pending := pending } :=
  ⟨h.grants, h.decided, h.once, h.approved, h.backed⟩

/-! ## The parts of the steps -/

/-- A call goes on to a phase in which it is still on the way. -/
theorem Inv.setPhase (h : Inv m) {phase : Phase}
    (hphase : phase = .announcing ∨ phase = .sending ∨ phase = .waiting false ∨
      phase = .cancelled ∨ m.Unsettled r)
    (hopen : ∀ answer, phase ≠ .returned answer)
    (hwas : ∀ answer, (m.requests r).phase ≠ .returned answer) :
    Inv (m.update r { m.requests r with phase := phase }) := by
  apply h.update
  · intro decided hmem
    have hold := h.decided r decided hmem
    refine ⟨hold.isSet, fun _ => hold.approved hwas, ?_⟩
    rcases hphase with hp | hp | hp | hp | hp
    · exact .inl hp
    · exact .inr (.inl hp)
    · exact .inr (.inr (.inl hp))
    · exact .inr (.inr (.inr (.inr hp)))
    · exact absurd hmem (hp decided)
  · exact h.approved r
  · exact fun hreturned => absurd hreturned (hopen true)

/-- A call returns `approved`: with the answer that was given, and after a person if it is True. -/
theorem Inv.answer (h : Inv m) {approved : Bool}
    (hdecided : ∀ decided, (r, decided) ∈ m.settled → approved = decided)
    (hbacked : approved = true → r ∈ m.approvals) : Inv (m.answer r approved) := by
  have hupdate : Inv (m.update r { m.requests r with phase := .returned approved }) := by
    apply h.update
    · intro decided hmem
      obtain rfl := hdecided decided hmem
      exact ⟨(h.decided r _ hmem).isSet, fun hopen => absurd rfl (hopen _),
        .inr (.inr (.inr (.inl rfl)))⟩
    · exact h.approved r
    · intro hphase
      exact .inl (hbacked (Phase.returned.inj hphase))
  exact hupdate.same

theorem Inv.approve (h : Inv m) {session : Bool} : Inv (m.approve r session) := by
  have hmono : ∀ s ∈ m.sessionApprovals, s ∈ (m.approve r session).sessionApprovals := by
    intro s hs
    unfold Manager.approve
    dsimp only
    split
    · exact List.mem_cons_of_mem _ hs
    · exact hs
  constructor
  case grants =>
    intro g hg
    obtain ⟨agentId, guardrailName, hkey, hmem⟩ := h.grants g hg
    exact ⟨agentId, guardrailName, hkey, hmono _ hmem⟩
  case decided => exact h.decided
  case once => exact h.once
  case approved => exact fun r' hr' => List.mem_cons_of_mem _ (h.approved r' hr')
  case backed =>
    intro r' hr'
    exact (h.backed r' hr').imp (List.mem_cons_of_mem _) (hmono _)

/-- A grant is saved together with the approval for the session. -/
theorem Inv.saveGrant (h : Inv (m.approve r true)) : Inv ((m.saveGrant r).approve r true) where
  grants g hg := by
    rcases List.mem_cons.mp hg with rfl | hg
    · exact ⟨_, _, rfl, List.mem_cons_self⟩
    · exact h.grants g hg
  decided := h.decided
  once := h.once
  approved := h.approved
  backed := h.backed

theorem Inv.askOverChannel (h : Inv m) {telegram : Bool} (hfree : m.Unsettled r)
    (hwas : ∀ answer, (m.requests r).phase ≠ .returned answer) :
    Inv (m.askOverChannel r telegram) := by
  unfold Manager.askOverChannel
  dsimp only
  split
  · exact Inv.setPhase h.same (.inr (.inr (.inr (.inr hfree)))) nofun hwas
  · exact Inv.answer h.same (fun decided hmem => absurd hmem (hfree decided)) nofun

/-- A request that was settled, and whose call is about to return, has the answer. -/
theorem Inv.answer_of_set (h : Inv m) (hwas : ∀ answer, (m.requests r).phase ≠ .returned answer) :
    Inv (m.answer r ((m.requests r).approved = some true)) := by
  apply h.answer
  · intro decided hmem
    rw [(h.decided r decided hmem).approved hwas]
    cases decided with
    | _ => rfl
  · intro happroved
    exact h.approved r (of_decide_eq_true happroved)

/-! ## Pending requests -/

/-- The call is under way, or was cancelled. -/
def Request.Open (q : Request) : Prop :=
  q.phase ≠ .fresh ∧ ∀ answer, q.phase ≠ .returned answer

def Manager.PendingOpen (m : Manager) : Prop := ∀ r ∈ m.pending, (m.requests r).Open

theorem pendingOpen_update (h : m.PendingOpen) (hq : r ∈ m.pending → q.Open) :
    (m.update r q).PendingOpen := by
  intro r' hr'
  by_cases hr : r' = r
  · subst hr
    rw [update_self]
    exact hq hr'
  · rw [update_of_ne hr]
    exact h r' hr'

theorem pendingOpen_answer (h : m.PendingOpen) {approved : Bool} :
    (m.answer r approved).PendingOpen := by
  intro r' hr'
  obtain ⟨hmem, hr⟩ := List.mem_filter.mp hr'
  have hr : r' ≠ r := of_decide_eq_true hr
  rw [show (m.answer r approved).requests r' = m.requests r' from Function.update_of_ne hr _ _]
  exact h r' hmem

theorem pendingOpen_setPhase (h : m.PendingOpen) {phase : Phase} (hfresh : phase ≠ .fresh)
    (hopen : ∀ answer, phase ≠ .returned answer) :
    (m.update r { m.requests r with phase := phase }).PendingOpen :=
  pendingOpen_update h fun _ => ⟨hfresh, hopen⟩

theorem pendingOpen_askOverChannel (h : m.PendingOpen) {telegram : Bool} :
    (m.askOverChannel r telegram).PendingOpen := by
  unfold Manager.askOverChannel
  dsimp only
  split
  · exact pendingOpen_setPhase h nofun nofun
  · exact pendingOpen_answer h

theorem pendingOpen_wait (h : m.PendingOpen) : (m.wait r).PendingOpen := by
  unfold Manager.wait
  dsimp only
  split
  · exact pendingOpen_setPhase h nofun nofun
  · split
    · exact pendingOpen_answer h
    · exact pendingOpen_setPhase h nofun nofun

theorem pendingOpen_resolve (h : m.PendingOpen) {approved rememberSession : Bool} :
    (m.resolve r approved rememberSession).2.PendingOpen := by
  unfold Manager.resolve
  split
  · exact h
  · split
    · exact h
    · have hupdate : (m.update r { m.requests r with
          approved := some approved, isSet := true }).PendingOpen :=
        pendingOpen_update h fun hr => h r hr
      cases approved with
      | _ => cases rememberSession with
        | _ => exact hupdate

theorem pendingOpen_cleanupExpired (h : m.PendingOpen) {now maxAge : Rat} :
    (m.cleanupExpired now maxAge).2.PendingOpen := by
  intro r' hr'
  have hopen := h r' (List.mem_filter.mp hr').1
  unfold Manager.cleanupExpired
  dsimp only
  split
  · exact hopen
  · exact hopen

theorem step_open (h : m.PendingOpen) (hstep : step m a = some n) : n.PendingOpen := by
  unfold step at hstep
  cases a with
  | request r agentId guardrailName toolName timeoutSeconds now =>
    obtain ⟨hphase, hstep⟩ := Option.ite_none_right_eq_some.mp hstep
    cases hstep
    unfold Manager.requestApproval
    dsimp only
    split
    · exact pendingOpen_update h fun hr => absurd hphase (h r hr).1
    · intro r' hr'
      by_cases hr : r' = r
      · subst hr
        refine ⟨?_, ?_⟩
        all_goals simp [Manager.update]
      · rcases List.mem_append.mp hr' with hmem | hmem
        · rw [show Manager.requests _ r' = m.requests r' from Function.update_of_ne hr _ _]
          exact h r' hmem
        · exact absurd (List.mem_singleton.mp hmem) hr
  | announced r telegram =>
    obtain ⟨-, hstep⟩ := Option.ite_none_right_eq_some.mp hstep
    cases hstep
    unfold Manager.announced
    split
    · exact pendingOpen_setPhase h nofun nofun
    · exact pendingOpen_askOverChannel h
  | sent r prompted telegram =>
    obtain ⟨-, hstep⟩ := Option.ite_none_right_eq_some.mp hstep
    cases hstep
    unfold Manager.sent
    split
    · exact pendingOpen_wait h
    · exact pendingOpen_askOverChannel h
  | channelAnswered r reply =>
    obtain ⟨-, hstep⟩ := Option.ite_none_right_eq_some.mp hstep
    cases hstep
    unfold Manager.channelAnswered
    split
    · split
      · exact pendingOpen_answer (m := (m.saveGrant r).approve r true) h
      · split
        · exact pendingOpen_answer (m := m.approve r false) h
        · exact pendingOpen_answer h
    · exact pendingOpen_answer h
  | timer r =>
    obtain ⟨-, hstep⟩ := Option.ite_none_right_eq_some.mp hstep
    cases hstep
    exact pendingOpen_setPhase h nofun nofun
  | wake r =>
    dsimp only at hstep
    split at hstep
    · next timedOut hphase =>
      obtain ⟨-, hstep⟩ := Option.ite_none_right_eq_some.mp hstep
      cases hstep
      unfold Manager.wake
      split
      · have hdenied : (m.update r { m.requests r with approved := some false }).PendingOpen :=
          pendingOpen_update h fun hr => h r hr
        exact pendingOpen_answer hdenied
      · exact pendingOpen_answer h
    · cases hstep
  | resolve r approved rememberSession =>
    cases hstep
    exact pendingOpen_resolve h
  | cleanupExpired now maxAge =>
    cases hstep
    exact pendingOpen_cleanupExpired h
  | cancel r =>
    dsimp only at hstep
    split at hstep
    · cases hstep
    · cases hstep
    · cases hstep
    · cases hstep
      exact pendingOpen_setPhase h nofun nofun

/-! ## The steps -/

theorem Inv.requestApproval (h : Inv m) {agentId guardrailName toolName : String}
    {timeoutSeconds now : Rat} (hphase : (m.requests r).phase = .fresh)
    (hcalm : Calm m (.request r agentId guardrailName toolName timeoutSeconds now)) :
    Inv (m.requestApproval r agentId guardrailName toolName timeoutSeconds now) := by
  have hfree : m.Unsettled r := by
    intro decided hmem
    rcases (h.decided r decided hmem).phase with hp | hp | hp | hp | hp
    all_goals
      rw [hphase] at hp
      cases hp
  unfold Manager.requestApproval
  dsimp only
  split
  · next hgrant =>
    apply h.update
    · exact fun decided hmem => absurd hmem (hfree decided)
    · exact nofun
    · intro _
      -- the grant under the key was given for this agent and guardrail
      obtain ⟨a, g, hkey, hmem⟩ := h.grants _ hgrant
      obtain ⟨rfl, rfl⟩ := hcalm a g hmem hkey
      exact .inr hmem
  · have hupdate := h.update (q := ⟨agentId, guardrailName, toolName, timeoutSeconds, now,
        some (now + max 1 timeoutSeconds), false, none, .announcing⟩)
      (fun decided hmem => absurd hmem (hfree decided)) nofun nofun
    exact hupdate.same

theorem Inv.wait (h : Inv m) (hphase : (m.requests r).phase = .sending)
    (hcalm : 0 < (m.requests r).timeoutSeconds ∨ m.Unsettled r) : Inv (m.wait r) := by
  have hwas : ∀ answer, (m.requests r).phase ≠ .returned answer := fun _ => hphase.trans_ne nofun
  unfold Manager.wait
  dsimp only
  split
  · next htimeout =>
    have hfree := hcalm.resolve_left (not_lt.mpr htimeout)
    exact h.setPhase (.inr (.inr (.inr (.inr hfree)))) nofun hwas
  · split
    · exact h.answer_of_set hwas
    · exact h.setPhase (.inr (.inr (.inl rfl))) nofun hwas

theorem Inv.wake (h : Inv m) {timedOut : Bool} (hphase : (m.requests r).phase = .waiting timedOut) :
    Inv (m.wake r timedOut) := by
  have hwas : ∀ answer, (m.requests r).phase ≠ .returned answer := fun _ => hphase.trans_ne nofun
  unfold Manager.wake
  split
  · next htimedOut =>
    subst htimedOut
    have hfree : m.Unsettled r := by
      intro decided hmem
      rcases (h.decided r decided hmem).phase with hp | hp | hp | hp | hp
      all_goals
        rw [hphase] at hp
        cases hp
    have hdenied : Inv (m.update r { m.requests r with approved := some false }) :=
      h.update (fun decided hmem => absurd hmem (hfree decided)) nofun
        (fun hreturned => absurd hreturned (hwas true))
    exact hdenied.answer (fun decided hmem => absurd hmem (hfree decided)) nofun
  · exact h.answer_of_set hwas

theorem Inv.channelAnswered (h : Inv m) {reply : Manager.Reply}
    (hphase : (m.requests r).phase = .asking) : Inv (m.channelAnswered r reply) := by
  have hfree : m.Unsettled r := by
    intro decided hmem
    rcases (h.decided r decided hmem).phase with hp | hp | hp | hp | hp
    all_goals
      rw [hphase] at hp
      cases hp
  have hdeny : Inv (m.answer r false) :=
    h.answer (fun decided hmem => absurd hmem (hfree decided)) nofun
  unfold Manager.channelAnswered
  split
  · split
    · exact (h.approve.saveGrant).answer (fun decided hmem => absurd hmem (hfree decided))
        (fun _ => List.mem_cons_self)
    · split
      · exact h.approve.answer (fun decided hmem => absurd hmem (hfree decided))
          (fun _ => List.mem_cons_self)
      · exact hdeny
  · exact hdeny

theorem approve_update {session : Bool} (hq : q.subject = (m.requests r).subject) :
    (m.update r q).approve r session = (m.approve r session).update r q := by
  unfold Manager.approve
  rw [update_self, hq]
  rfl

theorem saveGrant_update (hq : q.grant = (m.requests r).grant) :
    (m.update r q).saveGrant r = (m.saveGrant r).update r q := by
  unfold Manager.saveGrant
  rw [update_self, hq]
  rfl

/-- A call of `resolve` returns True. -/
theorem Inv.settle (h : Inv m) {approved : Bool} (hfree : m.Unsettled r)
    (hdecided : (m.requests r).Decided approved) :
    Inv { m with settled := (r, approved) :: m.settled } where
  grants := h.grants
  decided r' decided hmem := by
    rcases List.mem_cons.mp hmem with heq | hmem
    · cases heq
      exact hdecided
    · exact h.decided r' decided hmem
  once := by
    refine List.nodup_cons.mpr ⟨fun hmem => ?_, h.once⟩
    obtain ⟨⟨r', decided⟩, hsettled, rfl⟩ := List.mem_map.mp hmem
    exact hfree decided hsettled
  approved := h.approved
  backed := h.backed

/-- A settling `resolve` finds the request announced, sent or waited for, or its call cancelled. -/
theorem Inv.resolve (h : Inv m) (hopen : m.PendingOpen) {approved rememberSession : Bool}
    (hcalm : Calm m (.resolve r approved rememberSession)) :
    Inv (m.resolve r approved rememberSession).2 := by
  unfold Manager.resolve
  split
  · exact h
  · next hmem =>
    have hmem : r ∈ m.pending := not_not.mp hmem
    split
    · exact h
    · next hset =>
      have hset : (m.requests r).isSet = false := by simpa using hset
      obtain ⟨hremember, hasking, htimedOut⟩ := hcalm hmem hset
      have hfree : m.Unsettled r := by
        intro decided hsettled
        rw [(h.decided r decided hsettled).isSet] at hset
        cases hset
      obtain ⟨hfresh, hreturned⟩ := hopen r hmem
      have hphase : (m.requests r).phase = .announcing ∨ (m.requests r).phase = .sending ∨
          (m.requests r).phase = .waiting false ∨ (m.requests r).phase = .returned approved ∨
            (m.requests r).phase = .cancelled := by
        cases hp : (m.requests r).phase with
        | fresh => exact absurd hp hfresh
        | announcing => simp
        | sending => simp
        | asking => exact absurd hp hasking
        | waiting timedOut =>
          cases timedOut with
          | false => simp
          | true => exact absurd hp htimedOut
        | returned answer => exact absurd hp (hreturned answer)
        | cancelled => simp
      generalize hq : ({ m.requests r with approved := some approved, isSet := true } : Request) = q
      have hdecided : q.Decided approved := by
        subst hq
        exact ⟨rfl, fun _ => rfl, hphase⟩
      have happroved : q.approved = some approved := hq ▸ rfl
      have hsubject : q.subject = (m.requests r).subject := hq ▸ rfl
      have hgrant : q.grant = (m.requests r).grant := hq ▸ rfl
      have hopen' : q.phase ≠ .returned true := hq ▸ hreturned true
      have hdone : ∀ m' : Manager, Inv m' → m'.settled = m.settled →
          (approved = true → r ∈ m'.approvals) →
          Inv { m'.update r q with settled := (r, approved) :: m'.settled } := by
        intro m' hm' hsettled happrovals
        have hfree' : m'.Unsettled r := by
          intro decided
          rw [hsettled]
          exact hfree decided
        have hset : Inv (m'.update r q) :=
          hm'.update (fun decided hsettled => absurd hsettled (hfree' decided))
            (fun htrue => happrovals (Option.some.inj (happroved.symm.trans htrue)))
            (fun hphase => absurd hphase hopen')
        refine hset.settle hfree' ?_
        rw [update_self]
        exact hdecided
      cases approved with
      | false =>
        have hforget : rememberSession = false := by
          rw [← Bool.not_eq_true]
          exact fun hr => Bool.false_ne_true (hremember hr)
        subst hforget
        exact hdone m h rfl nofun
      | true =>
        cases rememberSession with
        | false =>
          have heq : (m.update r q).approve r false = (m.approve r false).update r q :=
            approve_update hsubject
          have hinv := hdone (m.approve r false) h.approve rfl fun _ => List.mem_cons_self
          rw [← heq] at hinv
          exact hinv
        | true =>
          have heq : ((m.update r q).saveGrant r).approve r true =
              ((m.saveGrant r).approve r true).update r q := by
            rw [saveGrant_update hgrant]
            exact approve_update hsubject
          have hinv := hdone ((m.saveGrant r).approve r true) h.approve.saveGrant rfl
            fun _ => List.mem_cons_self
          rw [← heq] at hinv
          exact hinv

/-- A sweep leaves a request alone that was settled. -/
theorem Inv.cleanupExpired (h : Inv m) {now maxAge : Rat} :
    Inv (m.cleanupExpired now maxAge).2 := by
  have hphase : ∀ r, ((m.cleanupExpired now maxAge).2.requests r).phase = (m.requests r).phase ∧
      ((m.cleanupExpired now maxAge).2.requests r).subject = (m.requests r).subject := by
    intro r
    unfold Manager.cleanupExpired
    dsimp only
    split
    · exact ⟨rfl, rfl⟩
    · exact ⟨rfl, rfl⟩
  constructor
  case grants => exact h.grants
  case decided =>
    intro r decided hmem
    have hold := h.decided r decided hmem
    unfold Manager.cleanupExpired
    dsimp only
    rw [if_neg (fun hreaped => by rw [hold.isSet] at hreaped; cases hreaped.2)]
    exact hold
  case once => exact h.once
  case approved =>
    intro r hr
    unfold Manager.cleanupExpired at hr
    dsimp only at hr
    split at hr
    · cases hr
    · exact h.approved r hr
  case backed =>
    intro r hr
    rw [(hphase r).1] at hr
    rw [(hphase r).2]
    exact h.backed r hr

/-- **What every calm step keeps.** -/
theorem step_inv (h : Inv m) (hopen : m.PendingOpen)
    (hcalm : Calm m a) (hstep : step m a = some n) :
    Inv n := by
  unfold step at hstep
  cases a with
  | request r agentId guardrailName toolName timeoutSeconds now =>
    obtain ⟨hphase, hstep⟩ := Option.ite_none_right_eq_some.mp hstep
    cases hstep
    exact h.requestApproval hphase hcalm
  | announced r telegram =>
    obtain ⟨hphase, hstep⟩ := Option.ite_none_right_eq_some.mp hstep
    cases hstep
    have hwas : ∀ answer, (m.requests r).phase ≠ .returned answer := fun _ => hphase.trans_ne nofun
    unfold Manager.announced
    split
    · exact h.setPhase (.inr (.inl rfl)) nofun hwas
    · next hbot => exact h.askOverChannel (hcalm.resolve_left hbot) hwas
  | sent r prompted telegram =>
    obtain ⟨hphase, hstep⟩ := Option.ite_none_right_eq_some.mp hstep
    cases hstep
    unfold Manager.sent
    split
    · exact h.wait hphase (hcalm.imp_left And.right)
    · next hprompted =>
      have hfree := hcalm.resolve_left fun hc => hprompted hc.1
      exact h.askOverChannel hfree fun _ => hphase.trans_ne nofun
  | channelAnswered r reply =>
    obtain ⟨hphase, hstep⟩ := Option.ite_none_right_eq_some.mp hstep
    cases hstep
    exact h.channelAnswered hphase
  | timer r =>
    obtain ⟨hphase, hstep⟩ := Option.ite_none_right_eq_some.mp hstep
    cases hstep
    exact h.setPhase (.inr (.inr (.inr (.inr hcalm)))) nofun fun _ => hphase.trans_ne nofun
  | wake r =>
    dsimp only at hstep
    split at hstep
    · next timedOut hphase =>
      obtain ⟨-, hstep⟩ := Option.ite_none_right_eq_some.mp hstep
      cases hstep
      exact h.wake hphase
    · cases hstep
  | resolve r approved rememberSession =>
    cases hstep
    exact h.resolve hopen hcalm
  | cleanupExpired now maxAge =>
    cases hstep
    exact h.cleanupExpired
  | cancel r =>
    dsimp only at hstep
    split at hstep
    · cases hstep
    · cases hstep
    · cases hstep
    · next hreturned _ =>
      cases hstep
      exact h.setPhase (.inr (.inr (.inr (.inl rfl)))) nofun hreturned

/-! ## The law -/

/-- **Nothing is approved without a person, one call of `resolve` at most returns True for a
request, and its answer is the one returned, wherever the answer can still reach the call.** -/
theorem only_a_person_approves (h : (escalation.restrict Calm).Reachable m) : m.Lawful := by
  have hinv : Inv m ∧ m.PendingOpen := by
    refine h.invariant (I := fun m => Inv m ∧ m.PendingOpen) ?_ ?_
    · rintro _ ⟨hasBot, hasChannel, rfl⟩
      exact ⟨⟨nofun, nofun, List.nodup_nil, nofun, nofun⟩, nofun⟩
    · rintro m a n ⟨hi, hopen⟩ ⟨hcalm, hstep⟩
      exact ⟨step_inv hi hopen hcalm hstep, step_open hopen hstep⟩
  exact hinv.1.lawful

/-! ## An answer that a channel overrules -/

/-- There is no bot. The question is asked over the channel while the web answers it. -/
def overruled : List Act :=
  [.request 0 "main" "exec_allowlist" "exec" 300 0, .announced 0 false, .resolve 0 true false,
    .channelAnswered 0 (.answered none)]

theorem settled_answer_denied : ∃ m : Manager, escalation.Reachable m ∧ ¬ m.Lawful := by
  obtain ⟨m, hrun, hsettled, hphase⟩ :
      ∃ m, overruled.foldlM step { hasBot := false, hasChannel := true } = some m ∧
        (0, true) ∈ m.settled ∧ (m.requests 0).phase = .returned false :=
    ⟨_, rfl, by decide, rfl⟩
  refine ⟨m, ⟨_, overruled, ⟨false, true, rfl⟩, System.run_of_foldlM hrun⟩, fun hlawful => ?_⟩
  cases hlawful.honoured 0 true false hsettled hphase

/-- A tap approves a kind of call for the session, and the next call of the kind is not asked. -/
def tapped : List Act :=
  [.request 0 "main" "exec_allowlist" "exec" 300 0, .announced 0 false, .sent 0 true false,
    .resolve 0 true true, .wake 0, .request 1 "main" "exec_allowlist" "exec" 300 9]

theorem tap_is_honoured : ∃ m : Manager, m.Lawful ∧ m.settled = [(0, true)] ∧
    (m.requests 0).phase = .returned true ∧ (m.requests 1).phase = .returned true := by
  have hrun : ∃ m, (escalation.restrict Calm).Run { hasBot := true, hasChannel := false } tapped m ∧
      m.settled = [(0, true)] ∧ (m.requests 0).phase = .returned true ∧
        (m.requests 1).phase = .returned true := by
    refine ⟨(tapped.foldlM step { hasBot := true, hasChannel := false }).getD
      { hasBot := true, hasChannel := false }, ?_, rfl, rfl, rfl⟩
    apply System.run_restrict_cons (by exact fun _ _ hmem => absurd hmem List.not_mem_nil) rfl
    apply System.run_restrict_cons (by exact .inl rfl) rfl
    apply System.run_restrict_cons (by exact .inl ⟨rfl, by decide⟩) rfl
    apply System.run_restrict_cons (by exact fun _ _ => ⟨fun _ => rfl, by decide, by decide⟩) rfl
    apply System.run_restrict_cons (by exact trivial) rfl
    apply System.run_restrict_cons (by
      intro a g hmem _
      cases List.mem_singleton.mp hmem
      exact ⟨rfl, rfl⟩) rfl
    exact .nil _
  obtain ⟨m, hrun, hrest⟩ := hrun
  exact ⟨m, only_a_person_approves ⟨_, tapped, ⟨true, false, rfl⟩, hrun⟩, hrest⟩

end GenusOs.Engine.Escalation
