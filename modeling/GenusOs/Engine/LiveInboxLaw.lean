import GenusOs.Engine.LiveInbox
import Mathlib

/-!
# No message to a working run is lost

* `absorbOperatorSteer_steers`, `absorbFollowups_follows`: what the two mailboxes give to the
  conversation, and that neither touches the other.
* `answer_leaves_none`: a final-answer guard with a late extension left leaves no steer pending.
* `messages_kept_iff`: a run that ended with an answer has each message once and in order, exactly
  where no steer was pending when it returned.
-/

namespace GenusOs.Engine.Live

open GenusOs.Python Session

variable {protect : String → String} {record : String → String → String} {s : Session}
  {r t : LiveRun} {a : Act} {text : String} {p : Message → Bool}

/-! ## Edits of the conversation that no turn of the operator sees -/

theorem isSteering_role {m : Message} (h : m.role ≠ "user") : isSteering m = false := by
  simp [isSteering, h]

theorem isFollowUps_role {m : Message} (h : m.role ≠ "user") : isFollowUps m = false := by
  simp [isFollowUps, h]

theorem filter_recordSteering (hp : ∀ m : Message, m.role ≠ "user" → p m = false)
    (messages : List Message) (text : String) :
    (recordSteering record messages text).filter p = messages.filter p := by
  cases messages with
  | nil => rfl
  | cons m messages =>
    unfold recordSteering
    rw [List.modifyHead_cons]
    split
    · next hrole =>
      have hne : m.role ≠ "user" := hrole.trans_ne (by decide)
      have hsystem : p { m with content := record m.content text } = false := hp _ hne
      rw [List.filter_cons_of_neg (by simp [hsystem]), List.filter_cons_of_neg (by simp [hp m hne])]
    · rfl

theorem filter_foldl_recordSteering (hp : ∀ m : Message, m.role ≠ "user" → p m = false)
    (texts : List String) (messages : List Message) :
    (texts.foldl (recordSteering record) messages).filter p = messages.filter p := by
  induction texts generalizing messages with
  | nil => rfl
  | cons text texts ih => rw [List.foldl_cons, ih, filter_recordSteering hp]

theorem filter_supersede (hp : ∀ m : Message, m.role ≠ "user" → p m = false)
    (messages : List Message) : (supersede messages).filter p = messages.filter p := by
  induction messages with
  | nil => rfl
  | cons m messages ih =>
    unfold supersede
    split
    · rw [List.filter_cons, List.filter_cons, ih]
    · split
      · next hrole =>
        have hne : m.role ≠ "user" := hrole.trans_ne (by decide)
        have hmarked : p { m with superseded := true } = false := hp _ hne
        rw [List.filter_cons_of_neg (by simp [hmarked]),
          List.filter_cons_of_neg (by simp [hp m hne])]
      · rfl

theorem isSteering_steeringTurn (text : String) : isSteering (steeringTurn text) = true := by
  simp [isSteering, steeringTurn, startsWith, String.toList_append]

theorem isFollowUps_steeringTurn (text : String) : isFollowUps (steeringTurn text) = false := by
  simp [isFollowUps, steeringTurn]

theorem isFollowUps_followUpTurn (texts : List String) :
    isFollowUps (followUpTurn texts) = true := by
  simp [isFollowUps, followUpTurn]

theorem isSteering_followUpTurn (texts : List String) :
    isSteering (followUpTurn texts) = false := by
  simp [isSteering, followUpTurn]

/-! ## What each mailbox does -/

/-- The pending follow-ups. -/
def Session.items (s : Session) : List FollowUp := (s.liveInbox.map (·.items)).getD []

/-- What the follow-ups of a run depend on. -/
def Session.followView (s : Session) : List Message × Option (List FollowUp × Bool) :=
  (s.messages.filter isFollowUps, s.liveInbox.map fun inbox => (inbox.items, inbox.isOpen))

/-- What the steers of a run depend on. -/
def Session.steerView (s : Session) : List Message × Option String :=
  (s.messages.filter isSteering, s.pendingSteer)

variable (record) in
/-- **The pending steer becomes a turn**, and nothing is pending. -/
theorem absorbOperatorSteer_steers (s : Session) :
    (absorbOperatorSteer record s).steerView =
      (s.messages.filter isSteering ++ (present s.pendingSteer).toList.map steeringTurn, none) := by
  unfold absorbOperatorSteer consumePendingSteer
  cases h : present s.pendingSteer with
  | none => simp [Session.steerView]
  | some text =>
    show (List.filter isSteering (recordSteering record s.messages text ++ [steeringTurn text]),
      none) = _
    rw [List.filter_append, filter_recordSteering fun _ => isSteering_role]
    simp [isSteering_steeringTurn]

variable (record) in
theorem absorbOperatorSteer_follows (s : Session) :
    (absorbOperatorSteer record s).followView = s.followView := by
  unfold absorbOperatorSteer consumePendingSteer
  cases h : present s.pendingSteer with
  | none => rfl
  | some text =>
    show (List.filter isFollowUps (recordSteering record s.messages text ++ [steeringTurn text]),
      Option.map _ (Option.map _ s.liveInbox)) = _
    rw [List.filter_append, filter_recordSteering fun _ => isFollowUps_role, Option.map_map]
    simp [isFollowUps_steeringTurn, Session.followView, Function.comp_def]

variable (protect record) in
theorem absorbFollowups_steers (s : Session) :
    (absorbFollowups protect record s).2.steerView = s.steerView := by
  unfold absorbFollowups
  cases hbox : s.liveInbox with
  | none => rfl
  | some inbox =>
    dsimp only
    split
    · rfl
    · split
      · rfl
      · show (List.filter isSteering (List.foldl _ _ _), _) = _
        rw [filter_foldl_recordSteering fun _ => isSteering_role, List.filter_append]
        simp [isSteering_followUpTurn, Session.steerView]

variable (protect record) in
/-- **The pending follow-ups become a turn**, unless there are none or a routine operation is on. -/
theorem absorbFollowups_follows (s : Session) :
    (absorbFollowups protect record s).2.followView = s.followView ∨
      ∃ inbox, s.liveInbox = some inbox ∧ inbox.items ≠ [] ∧
        (absorbFollowups protect record s).2.followView =
          (s.messages.filter isFollowUps ++
            [followUpTurn (inbox.items.map fun item => protect item.text)],
            some ([], inbox.isOpen)) := by
  unfold absorbFollowups
  cases hbox : s.liveInbox with
  | none => exact .inl rfl
  | some inbox =>
    dsimp only
    split
    · exact .inl rfl
    · split
      · next hnone =>
        refine .inl ?_
        have hitems : inbox.items = [] := hnone
        simp [Session.followView, hbox, LiveInbox.take, hitems]
      · next hitems =>
        refine .inr ⟨inbox, rfl, hitems, ?_⟩
        show (List.filter isFollowUps (List.foldl _ _ _), _) = _
        rw [filter_foldl_recordSteering fun _ => isFollowUps_role, List.filter_append]
        simp [isFollowUps_followUpTurn, LiveInbox.take]

/-! ## The invariant -/

variable (protect) in
/-- The pending steer that texts are joined to. -/
def joined (texts : List String) : Option String :=
  if texts = [] then none else some ("\n\n".intercalate (texts.map protect))

variable (protect) in
def steersTurn (texts : List String) : Message :=
  steeringTurn ("\n\n".intercalate (texts.map protect))

variable (protect) in
def followsTurn (items : List FollowUp) : Message :=
  followUpTurn (items.map fun item => protect item.text)

variable (protect) in
/-- The steers are in the turns of the conversation, and what is left of them is pending. -/
def SteersAt (initial : List Message) (steered : List String)
    (view : List Message × Option String) : Prop :=
  ∃ blocks left, Drained steered blocks left ∧
    view = (initial.filter isSteering ++ blocks.map (steersTurn protect), joined protect left)

variable (protect) in
/-- The follow-ups are in the turns of the conversation, in what `close` gave back, or in the inbox,
which is empty once it is closed. -/
def FollowsAt (initial : List Message) (pushed closed : List FollowUp)
    (view : List Message × Option (List FollowUp × Bool)) : Prop :=
  ∃ blocks, Drained pushed blocks (closed ++ (view.2.map Prod.fst).getD []) ∧
    view.1 = initial.filter isFollowUps ++ blocks.map (followsTurn protect) ∧
    ∀ box ∈ view.2, (box.2 = true → closed = []) ∧ (box.2 = false → box.1 = [])

variable (protect) in
structure Inv (r : LiveRun) : Prop where
  follows : FollowsAt protect r.initial r.pushed r.closed r.session.followView
  texts : ∀ text ∈ r.steered, text ≠ ""
  steers : r.phase ≠ .returned → SteersAt protect r.initial r.steered r.session.steerView

section

variable {initial : List Message} {steered texts : List String} {pushed closed : List FollowUp}
  (hprotect : ∀ text, text ≠ "" → protect text ≠ "")

include hprotect

theorem present_joined (h : ∀ text ∈ texts, text ≠ "") :
    present (joined protect texts) = joined protect texts := by
  unfold joined present
  split
  · rfl
  · next hne =>
    obtain ⟨text, texts, rfl⟩ := List.exists_cons_of_ne_nil hne
    have hfirst := hprotect text (h text List.mem_cons_self)
    refine Option.filter_some_pos (decide_eq_true fun hempty => hfirst ?_)
    rw [List.map_cons] at hempty
    cases texts with
    | nil => rwa [List.map_nil, String.intercalate_singleton] at hempty
    | cons other texts =>
      rw [List.map_cons, String.intercalate_cons_cons] at hempty
      have hlen := congrArg String.length hempty
      simp at hlen

/-- **A steer joins what is pending.** -/
theorem steer_steers (h : SteersAt protect initial steered s.steerView) (ht : ∀ t ∈ steered, t ≠ "")
    (hne : text ≠ "") :
    SteersAt protect initial (steered ++ [text]) (s.steer protect text).steerView := by
  obtain ⟨blocks, left, hdrained, hview⟩ := h
  obtain ⟨hmessages, hpending⟩ := Prod.mk.inj hview
  refine ⟨blocks, left ++ [text], hdrained.push text, ?_⟩
  have hleft : ∀ t ∈ left, t ≠ "" := fun t hmem =>
    ht t (hdrained.split ▸ List.mem_append_right _ hmem)
  have hjoin : (s.steer protect text).pendingSteer = joined protect (left ++ [text]) := by
    unfold Session.steer
    rw [if_neg hne, hpending, present_joined hprotect hleft]
    unfold joined
    rw [if_neg (by simp : left ++ [text] ≠ [])]
    by_cases hnil : left = []
    · subst hnil
      simp
    · rw [if_neg hnil, List.map_append,
        String.intercalate_append_of_ne_nil (by simpa using hnil) (by simp)]
      simp
  have hsame : (s.steer protect text).messages = s.messages := by
    unfold Session.steer
    rw [if_neg hne]
    split
    · rfl
    · rfl
  rw [Session.steerView, hsame, hjoin, hmessages]

variable (record) in
theorem absorb_steers (h : SteersAt protect initial steered s.steerView)
    (ht : ∀ t ∈ steered, t ≠ "") :
    SteersAt protect initial steered (absorbOperatorSteer record s).steerView := by
  obtain ⟨blocks, left, hdrained, hview⟩ := h
  obtain ⟨hmessages, hpending⟩ := Prod.mk.inj hview
  have hleft : ∀ t ∈ left, t ≠ "" := fun t hmem =>
    ht t (hdrained.split ▸ List.mem_append_right _ hmem)
  rw [absorbOperatorSteer_steers, hpending, present_joined hprotect hleft, hmessages]
  by_cases hnil : left = []
  · subst hnil
    exact ⟨blocks, [], hdrained, by simp [joined]⟩
  · refine ⟨blocks ++ [left], [], hdrained.drain hnil, ?_⟩
    simp [joined, hnil, steersTurn]

end

section

variable {initial : List Message} {steered : List String} {pushed closed : List FollowUp}

variable (record) in
theorem absorb_follows (h : FollowsAt protect initial pushed closed s.followView) :
    FollowsAt protect initial pushed closed (absorbFollowups protect record s).2.followView := by
  rcases absorbFollowups_follows protect record s with
    hsame | ⟨inbox, hinbox, hitems, hview⟩
  · rw [hsame]
    exact h
  · obtain ⟨blocks, hdrained, hmessages, hbox⟩ := h
    have hopen := hbox (inbox.items, inbox.isOpen) (by simp [Session.followView, hinbox])
    have hclosed : closed = [] := by
      cases hisOpen : inbox.isOpen with
      | true => exact hopen.1 hisOpen
      | false => exact absurd (hopen.2 hisOpen) hitems
    rw [hview]
    refine ⟨blocks ++ [inbox.items], ?_, ?_, ?_⟩
    · subst hclosed
      have hdrain : Drained pushed blocks inbox.items := by
        simpa [Session.followView, hinbox] using hdrained
      exact hdrain.drain hitems
    · have hturns : s.messages.filter isFollowUps =
          initial.filter isFollowUps ++ blocks.map (followsTurn protect) := hmessages
      simp [hturns, followsTurn]
    · intro box hmem
      obtain rfl := Option.some.inj hmem
      exact ⟨fun _ => hclosed, fun _ => rfl⟩

theorem push_follows (h : FollowsAt protect initial pushed closed s.followView) {inbox : LiveInbox}
    (hinbox : s.liveInbox = some inbox) (text : String) (info : Dict) :
    FollowsAt protect initial (if (inbox.push text info).1 then
      pushed ++ [⟨text, info⟩] else pushed)
      closed { s with liveInbox := some (inbox.push text info).2 }.followView := by
  obtain ⟨blocks, hdrained, hmessages, hbox⟩ := h
  have hopen := hbox (inbox.items, inbox.isOpen) (by simp [Session.followView, hinbox])
  have hitems : Drained pushed blocks (closed ++ inbox.items) := by
    simpa [Session.followView, hinbox] using hdrained
  unfold LiveInbox.push
  split
  · refine ⟨blocks, ?_, hmessages, ?_⟩
    · simpa [Session.followView] using hitems
    · intro box hmem
      obtain rfl := Option.some.inj hmem
      exact hopen
  · next hpushed =>
    have hisOpen : inbox.isOpen = true := by
      rw [not_or, Bool.not_eq_false] at hpushed
      exact hpushed.1
    refine ⟨blocks, ?_, hmessages, ?_⟩
    · have := hitems.push ⟨text, info⟩
      simpa [Session.followView, List.append_assoc] using this
    · intro box hmem
      obtain rfl := Option.some.inj hmem
      refine ⟨hopen.1, fun hclosed => ?_⟩
      rw [show inbox.isOpen = false from hclosed] at hisOpen
      cases hisOpen

theorem close_follows (h : FollowsAt protect initial pushed closed s.followView) {inbox : LiveInbox}
    (hinbox : s.liveInbox = some inbox) :
    FollowsAt protect initial pushed (closed ++ inbox.close.1)
      { s with liveInbox := some inbox.close.2 }.followView := by
  obtain ⟨blocks, hdrained, hmessages, -⟩ := h
  refine ⟨blocks, ?_, hmessages, ?_⟩
  · simpa [Session.followView, hinbox, LiveInbox.close] using hdrained
  · intro box hmem
    obtain rfl := Option.some.inj hmem
    exact ⟨nofun, fun _ => rfl⟩

end

/-! ## The steps -/

theorem Inv.withSession (h : Inv protect r) {s : Session} {phase : Phase}
    (hfollows : FollowsAt protect r.initial r.pushed r.closed s.followView)
    (hsteers : SteersAt protect r.initial r.steered s.steerView) :
    Inv protect (r.withSession s phase) :=
  ⟨hfollows, h.texts, fun _ => hsteers⟩

theorem Inv.work (h : Inv protect r) (hphase : r.phase ≠ .returned) {messages : List Message}
    (hordinary : Ordinary messages) {phase : Phase} : Inv protect (r.work messages phase) := by
  have hnone : messages.filter isFollowUps = [] ∧ messages.filter isSteering = [] :=
    ⟨List.filter_eq_nil_iff.mpr fun m hm => by simp [(hordinary m hm).2],
      List.filter_eq_nil_iff.mpr fun m hm => by simp [(hordinary m hm).1]⟩
  have hfollows : (r.session.messages ++ messages).filter isFollowUps =
      r.session.messages.filter isFollowUps := by
    rw [List.filter_append, hnone.1, List.append_nil]
  have hsteers : (r.session.messages ++ messages).filter isSteering =
      r.session.messages.filter isSteering := by
    rw [List.filter_append, hnone.2, List.append_nil]
  apply h.withSession
  · rw [Session.followView, hfollows]
    exact h.follows
  · rw [Session.steerView, hsteers]
    exact h.steers hphase

theorem push_inv (h : Inv protect r) {info : Dict} : Inv protect (r.push text info) := by
  unfold LiveRun.push
  split
  · exact h
  · next inbox hinbox => exact ⟨push_follows h.follows hinbox text info, h.texts, h.steers⟩

theorem close_inv (h : Inv protect r) : Inv protect r.close := by
  unfold LiveRun.close
  split
  · exact h
  · next inbox hinbox => exact ⟨close_follows h.follows hinbox, h.texts, h.steers⟩

section

variable (hprotect : ∀ text, text ≠ "" → protect text ≠ "")

include hprotect

theorem late_inv (h : Inv protect r) (hphase : r.phase ≠ .returned) {phase : Phase} :
    Inv protect (r.withSession (absorbLateFollowups protect record r.session).2 phase) := by
  have hsteers := absorb_steers record hprotect (h.steers hphase) h.texts
  have hfollows := h.follows
  rw [← absorbOperatorSteer_follows record] at hfollows
  have hboth := absorb_follows record hfollows
  rw [← absorbFollowups_steers protect record] at hsteers
  unfold absorbLateFollowups
  split
  · exact h.withSession h.follows (h.steers hphase)
  · dsimp only
    split
    · exact h.withSession hboth hsteers
    · exact h.withSession hboth hsteers

theorem guards_inv (h : Inv protect r) (hphase : r.phase ≠ .returned) {expired halted : Bool} :
    Inv protect (r.guards protect record expired halted) := by
  have hsteers := absorb_steers record hprotect (h.steers hphase) h.texts
  have hfollows := h.follows
  rw [← absorbOperatorSteer_follows record] at hfollows
  have hboth := absorb_follows record hfollows
  unfold LiveRun.guards
  split
  · exact h.withSession h.follows (h.steers hphase)
  · dsimp only
    split
    · exact h.withSession hfollows hsteers
    · rw [← absorbFollowups_steers protect record] at hsteers
      exact h.withSession hboth hsteers

theorem steer_inv (h : Inv protect r) : Inv protect (r.steer protect text) := by
  have hfollows : (r.session.steer protect text).followView = r.session.followView := by
    unfold Session.steer
    split
    · rfl
    · split
      · rfl
      · rfl
  unfold LiveRun.steer
  by_cases hempty : text = ""
  · have hsame : r.session.steer protect text = r.session := by
      rw [Session.steer, if_pos hempty]
    rw [hsame, if_pos (.inl hempty)]
    exact h
  · by_cases hphase : r.phase = .returned
    · rw [if_pos (.inr hphase)]
      exact ⟨hfollows ▸ h.follows, h.texts, fun hopen => absurd hphase hopen⟩
    · rw [if_neg (by simp [hempty, hphase])]
      refine ⟨hfollows ▸ h.follows, ?_, fun _ => ?_⟩
      · intro t ht
        rcases List.mem_append.mp ht with ht | ht
        · exact h.texts t ht
        · exact List.mem_singleton.mp ht ▸ hempty
      · exact steer_steers hprotect (h.steers hphase) h.texts hempty

/-- **The steps keep the invariant.** -/
theorem step_inv (h : Inv protect r) (hstep : step protect record r a = some t) :
    Inv protect t := by
  have hsame (hphase : r.phase ≠ .returned) (phase : Phase) :
      Inv protect (r.withSession r.session phase) := h.withSession h.follows (h.steers hphase)
  unfold step at hstep
  cases a with
  | push text info =>
    cases hstep
    exact push_inv h
  | steer text =>
    cases hstep
    exact steer_inv hprotect h
  | close =>
    cases hstep
    exact close_inv h
  | interrupt =>
    cases hstep
    exact ⟨h.follows, h.texts, h.steers⟩
  | guards expired halted =>
    obtain ⟨hphase, hstep⟩ := Option.ite_none_right_eq_some.mp hstep
    cases hstep
    exact guards_inv hprotect h (by simp [hphase])
  | work messages =>
    obtain ⟨⟨hphase, hordinary⟩, hstep⟩ := Option.ite_none_right_eq_some.mp hstep
    cases hstep
    exact h.work (by rcases hphase with hp | hp <;> simp [hp]) hordinary
  | next =>
    obtain ⟨hphase, hstep⟩ := Option.ite_none_right_eq_some.mp hstep
    cases hstep
    exact hsame (by simp [hphase]) _
  | answer sentBack =>
    obtain ⟨hphase, hstep⟩ := Option.ite_none_right_eq_some.mp hstep
    cases hstep
    have hopen : r.phase ≠ .returned := by simp [hphase]
    unfold LiveRun.answer
    split
    · exact hsame hopen _
    · dsimp only
      split
      · exact late_inv hprotect h hopen
      · exact late_inv hprotect h hopen
  | delivered shown =>
    obtain ⟨hphase, hstep⟩ := Option.ite_none_right_eq_some.mp hstep
    cases hstep
    have hopen : r.phase ≠ .returned := by simp [hphase]
    unfold LiveRun.delivered
    split
    · apply h.withSession
      · rw [Session.followView, filter_supersede fun _ => isFollowUps_role]
        exact h.follows
      · rw [Session.steerView, filter_supersede fun _ => isSteering_role]
        exact h.steers hopen
    · exact hsame hopen _
  | report message =>
    obtain ⟨⟨hphase, hordinary, -⟩, hstep⟩ := Option.ite_none_right_eq_some.mp hstep
    cases hstep
    exact h.work (by simp [hphase]) hordinary
  | finish message =>
    obtain ⟨⟨hphase, hordinary⟩, hstep⟩ := Option.ite_none_right_eq_some.mp hstep
    cases hstep
    exact h.work (by simp [hphase]) hordinary
  | retry feedback =>
    obtain ⟨⟨hphase, hordinary⟩, hstep⟩ := Option.ite_none_right_eq_some.mp hstep
    cases hstep
    exact h.work (by simp [hphase]) hordinary
  | ret =>
    obtain ⟨hphase, hstep⟩ := Option.ite_none_right_eq_some.mp hstep
    cases hstep
    exact hsame (by simp [hphase]) _
  | stop =>
    dsimp only at hstep
    split at hstep
    · cases hstep
    · next hphase =>
      cases hstep
      exact hsame hphase _

end

variable (protect) in
theorem begins_inv (h : Begins r) : Inv protect r where
  follows := by
    refine ⟨[], ?_, ?_, ?_⟩
    · rw [h.pushed, h.closed]
      cases hbox : r.session.liveInbox with
      | none => simpa [Session.followView, hbox] using Drained.nil
      | some inbox =>
        have hitems := (h.inbox inbox hbox).1
        simpa [Session.followView, hbox, hitems] using Drained.nil
    · show List.filter isFollowUps r.session.messages = _
      simp [h.initial]
    · intro box hmem
      obtain ⟨inbox, hinbox, rfl⟩ := Option.map_eq_some_iff.mp hmem
      exact ⟨fun _ => h.closed, fun _ => (h.inbox inbox hinbox).1⟩
  texts := by
    rw [h.steered]
    exact fun text hmem => (List.not_mem_nil hmem).elim
  steers _ := by
    refine ⟨[], [], h.steered ▸ Drained.nil, ?_⟩
    simp [Session.steerView, h.initial, h.pendingSteer, joined]

/-! ## Nothing is lost -/

/-- The run has returned with an answer, and the channel has closed the inbox. -/
def Ended (r : LiveRun) : Prop :=
  r.phase = .returned ∧ ∀ inbox ∈ r.session.liveInbox, inbox.isOpen = false

variable (protect) in
/-- The steers that were accepted are in the turns of the conversation, each once and in order. -/
def SteersKept (r : LiveRun) : Prop :=
  ∃ blocks, Drained r.steered blocks [] ∧ r.session.messages.filter isSteering =
    r.initial.filter isSteering ++ blocks.map (steersTurn protect)

variable (protect) in
/-- The follow-ups that were accepted are in the turns of the conversation and then in what `close`
gave back, each once and in order. -/
def FollowUpsKept (r : LiveRun) : Prop :=
  ∃ blocks, Drained r.pushed blocks r.closed ∧ r.session.messages.filter isFollowUps =
    r.initial.filter isFollowUps ++ blocks.map (followsTurn protect)

/-- Where the run returns, no steer is pending. -/
def Lawful (r : LiveRun) : Act → Prop
  | .ret => present r.session.pendingSteer = none
  | _ => True

instance (r : LiveRun) : (a : Act) → Decidable (Lawful r a)
  | .ret => inferInstanceAs (Decidable (present r.session.pendingSteer = none))
  | .push _ _ | .steer _ | .close | .interrupt | .guards _ _ | .work _ | .next | .answer _
  | .delivered _ | .report _ | .finish _ | .retry _ | .stop => .isTrue trivial

theorem lawful_of_ne (h : a ≠ .ret) : Lawful r a := by
  cases a with
  | ret => exact absurd rfl h
  | _ => trivial

theorem followUpsKept_of_inv (h : Inv protect r) (hend : Ended r) : FollowUpsKept protect r := by
  obtain ⟨blocks, hdrained, hmessages, hbox⟩ := h.follows
  refine ⟨blocks, ?_, hmessages⟩
  cases hinbox : r.session.liveInbox with
  | none => simpa [Session.followView, hinbox] using hdrained
  | some inbox =>
    have hempty := (hbox (inbox.items, inbox.isOpen) (by simp [Session.followView, hinbox])).2
      (hend.2 inbox hinbox)
    have hitems : inbox.items = [] := hempty
    simpa [Session.followView, hinbox, hitems] using hdrained

/-- What a turn weighs: its texts, each with the blank line behind it. -/
def weight (m : Message) : Nat := m.content.length - STEERING_HEAD.length + 2

theorem weight_steersTurn {texts : List String} (hne : texts ≠ []) :
    weight (steersTurn protect texts) = (texts.map fun text => (protect text).length + 2).sum := by
  have hjoin : ∀ texts : List String, texts ≠ [] →
      ("\n\n".intercalate (texts.map protect)).length + 2 =
        (texts.map fun text => (protect text).length + 2).sum := by
    intro texts hne
    induction texts with
    | nil => exact absurd rfl hne
    | cons text texts ih =>
      cases texts with
      | nil => simp
      | cons other texts =>
        have hrest := ih (List.cons_ne_nil other texts)
        have hlen : ("\n\n".intercalate ((text :: other :: texts).map protect)).length =
            (protect text).length + 2 +
              ("\n\n".intercalate ((other :: texts).map protect)).length := by
          rw [List.map_cons, List.map_cons, String.intercalate_cons_cons, String.length_append,
            String.length_append]
          rfl
        rw [hlen, List.map_cons (l := other :: texts), List.sum_cons, ← hrest]
        omega
  rw [← hjoin texts hne]
  unfold weight steersTurn steeringTurn
  dsimp only
  rw [String.length_append, Nat.add_sub_cancel_left]

/-- **Where a run returns with a steer pending, that steer is lost**, and only there one is. -/
theorem steersKept_ret_iff (hprotect : ∀ text, text ≠ "" → protect text ≠ "") (h : Inv protect r)
    (hphase : r.phase ≠ .returned) :
    SteersKept protect (r.withSession r.session .returned) ↔
      present r.session.pendingSteer = none := by
  obtain ⟨blocks, left, hdrained, hview⟩ := h.steers hphase
  obtain ⟨hmessages, hpending⟩ := Prod.mk.inj hview
  have hleft : ∀ t ∈ left, t ≠ "" := fun t hmem =>
    h.texts t (hdrained.split ▸ List.mem_append_right _ hmem)
  have hnone : present r.session.pendingSteer = none ↔ left = [] := by
    rw [hpending, present_joined hprotect hleft, joined]
    split
    · next hnil => simp [hnil]
    · next hne => simp [hne]
  rw [hnone]
  constructor
  · rintro ⟨others, hothers, hturns⟩
    have hsame : blocks.map (steersTurn protect) = others.map (steersTurn protect) :=
      List.append_cancel_left (hmessages.symm.trans hturns)
    have hweights (blocks : List (List String)) (hne : ∀ block ∈ blocks, block ≠ []) :
        (blocks.map fun block => (block.map fun text => (protect text).length + 2).sum) =
          (blocks.map (steersTurn protect)).map weight := by
      rw [List.map_map]
      exact List.map_congr_left fun block hmem => (weight_steersTurn (hne block hmem)).symm
    refine hdrained.pending_eq_nil hothers (fun text => (protect text).length + 2)
      (fun _ => Nat.succ_pos _) ?_
    rw [hweights blocks hdrained.nonempty, hweights others hothers.nonempty, hsame]
  · rintro rfl
    exact ⟨blocks, hdrained, hmessages⟩

/-- Nothing that was said in a run changes behind its return. -/
theorem step_returned (hphase : r.phase = .returned) (hstep : step protect record r a = some t) :
    t.phase = .returned ∧ a ≠ .ret ∧ (SteersKept protect r ↔ SteersKept protect t) := by
  unfold step at hstep
  cases a with
  | push text info =>
    cases hstep
    unfold LiveRun.push
    split
    · exact ⟨hphase, nofun, Iff.rfl⟩
    · exact ⟨hphase, nofun, Iff.rfl⟩
  | steer text =>
    cases hstep
    have hsame : (r.session.steer protect text).messages = r.session.messages := by
      unfold Session.steer
      split
      · rfl
      · split
        · rfl
        · rfl
    refine ⟨hphase, nofun, ?_⟩
    unfold SteersKept LiveRun.steer
    rw [if_pos (.inr hphase), hsame]
  | close =>
    cases hstep
    unfold LiveRun.close
    split
    · exact ⟨hphase, nofun, Iff.rfl⟩
    · exact ⟨hphase, nofun, Iff.rfl⟩
  | interrupt =>
    cases hstep
    exact ⟨hphase, nofun, Iff.rfl⟩
  | _ => simp [hphase] at hstep

/-- Only the return makes a run a returned one. -/
theorem step_open (hphase : r.phase ≠ .returned) (hstep : step protect record r a = some t)
    (ha : a ≠ .ret) : t.phase ≠ .returned := by
  unfold step at hstep
  cases a with
  | push text info =>
    cases hstep
    unfold LiveRun.push
    split
    · exact hphase
    · exact hphase
  | steer text =>
    cases hstep
    exact hphase
  | close =>
    cases hstep
    unfold LiveRun.close
    split
    · exact hphase
    · exact hphase
  | interrupt =>
    cases hstep
    exact hphase
  | guards expired halted =>
    obtain ⟨-, hstep⟩ := Option.ite_none_right_eq_some.mp hstep
    cases hstep
    unfold LiveRun.guards
    split
    · exact nofun
    · dsimp only
      split
      · exact nofun
      · exact nofun
  | work messages =>
    obtain ⟨-, hstep⟩ := Option.ite_none_right_eq_some.mp hstep
    cases hstep
    exact hphase
  | answer sentBack =>
    obtain ⟨-, hstep⟩ := Option.ite_none_right_eq_some.mp hstep
    cases hstep
    unfold LiveRun.answer
    split
    · exact nofun
    · dsimp only
      split
      · exact nofun
      · exact nofun
  | delivered shown =>
    obtain ⟨-, hstep⟩ := Option.ite_none_right_eq_some.mp hstep
    cases hstep
    unfold LiveRun.delivered
    split
    · exact nofun
    · exact nofun
  | ret => exact absurd rfl ha
  | stop =>
    dsimp only at hstep
    split at hstep
    · cases hstep
    · cases hstep
      exact nofun
  | _ =>
    obtain ⟨-, hstep⟩ := Option.ite_none_right_eq_some.mp hstep
    cases hstep
    exact nofun

/-- The steers of a run that has returned are kept exactly where its return was lawful. -/
theorem steersKept_run_iff (hprotect : ∀ text, text ≠ "" → protect text ≠ "") {as : List Act}
    (h : (system protect record).Run r as t) (hinv : Inv protect r) (hend : t.phase = .returned) :
    (r.phase = .returned → (SteersKept protect r ↔ SteersKept protect t) ∧
      ((system protect record).restrict Lawful).Run r as t) ∧
    (r.phase ≠ .returned →
      (SteersKept protect t ↔ ((system protect record).restrict Lawful).Run r as t)) := by
  induction h with
  | nil r => exact ⟨fun _ => ⟨Iff.rfl, .nil r⟩, fun hopen => absurd hend hopen⟩
  | @cons r u t a as hstep hrun ih =>
    obtain ⟨hdone, hopen⟩ := ih (step_inv hprotect hinv hstep) hend
    constructor
    · intro hphase
      obtain ⟨hu, ha, hsame⟩ := step_returned hphase hstep
      obtain ⟨hkept, hlawful⟩ := hdone hu
      exact ⟨hsame.trans hkept, .cons ⟨lawful_of_ne ha, hstep⟩ hlawful⟩
    · intro hphase
      by_cases ha : a = .ret
      · subst ha
        obtain ⟨-, hret⟩ := Option.ite_none_right_eq_some.mp hstep
        cases hret
        obtain ⟨hkept, hlawful⟩ := hdone rfl
        rw [← hkept, steersKept_ret_iff hprotect hinv hphase]
        constructor
        · exact fun hnone => .cons ⟨hnone, hstep⟩ hlawful
        · intro hall
          cases hall with
          | cons hfirst _ => exact hfirst.1
      · rw [hopen (step_open hphase hstep ha)]
        constructor
        · exact fun hrest => .cons ⟨lawful_of_ne ha, hstep⟩ hrest
        · intro hall
          cases hall with
          | cons hfirst hrest =>
            obtain rfl := Option.some.inj (hstep.symm.trans hfirst.2)
            exact hrest

/-- A final-answer guard with a late extension left leaves no steer pending. -/
theorem answer_leaves_none (hlate : s.lateExtensions < MAX_LATE_EXTENSIONS) :
    (absorbLateFollowups protect record s).2.pendingSteer = none := by
  have hsteers := congrArg Prod.snd (absorbOperatorSteer_steers record s)
  rw [← absorbFollowups_steers protect record] at hsteers
  unfold absorbLateFollowups
  rw [if_neg (Nat.not_le.mpr hlate)]
  dsimp only
  split
  · exact hsteers
  · exact hsteers

/-- **No message to a working run is lost or doubled**, exactly where no steer is pending when the
run returns. The follow-ups are kept in any case. -/
theorem messages_kept_iff (hprotect : ∀ text, text ≠ "" → protect text ≠ "") {as : List Act}
    (hbegins : Begins r) (h : (system protect record).Run r as t) (hend : Ended t) :
    FollowUpsKept protect t ∧
      (SteersKept protect t ↔ ((system protect record).restrict Lawful).Run r as t) := by
  have hinv := begins_inv protect hbegins
  have hopen : r.phase ≠ .returned := by simp [hbegins.phase]
  refine ⟨followUpsKept_of_inv (h.preserves (fun _ _ _ => step_inv hprotect) hinv) hend, ?_⟩
  exact (steersKept_run_iff hprotect h hinv hend.1).2 hopen

/-- A run that begins, without an inbox. -/
def fresh : LiveRun :=
  ⟨⟨[], none, none, none, [], 0, 0, false, false⟩, .top, [], [], [], []⟩

theorem begins_fresh : Begins fresh := ⟨rfl, rfl, nofun, rfl, rfl, rfl, rfl⟩

/-- The way to an answer that a steer comes late for, and on into the next iteration. -/
def lateRound (text : String) : List Act :=
  [.steer text, .answer false, .delivered false, .guards false false]

/-- A steer that is pending at a final answer when the late extensions are used up is lost. -/
theorem capped_steer_lost : ¬ ∀ (protect : String → String) (record : String → String → String)
    (r t : LiveRun) (as : List Act), (∀ text, text ≠ "" → protect text ≠ "") → Begins r →
    (system protect record).Run r as t → Ended t →
      FollowUpsKept protect t ∧ SteersKept protect t := by
  intro h
  let acts := .guards false false :: (lateRound "a" ++ lateRound "b" ++ lateRound "c" ++
    [.steer "stop", .answer false])
  have hlast : (acts.foldlM (step id fun content _ => content) fresh).map (fun u => (u.phase,
      (present u.session.pendingSteer).isSome, u.session.liveInbox.isNone)) =
      some (.answered, true, true) := by
    decide +kernel
  obtain ⟨u, hu, hfacts⟩ := Option.map_eq_some_iff.mp hlast
  obtain ⟨hphase, hpending, hinbox⟩ : u.phase = .answered ∧
      (present u.session.pendingSteer).isSome = true ∧ u.session.liveInbox.isNone = true := by
    simpa using hfacts
  have hrun : (system id fun content _ => content).Run fresh acts u := System.run_of_foldlM hu
  have hopen : u.phase ≠ .returned := hphase.trans_ne nofun
  have hinv : Inv id u :=
    hrun.preserves (fun _ _ _ => step_inv fun _ hne => hne) (begins_inv _ begins_fresh)
  have hret : (system id fun content _ => content).step u .ret
      (u.withSession u.session .returned) :=
    if_pos hphase
  have hend : Ended (u.withSession u.session .returned) := by
    refine ⟨rfl, fun inbox hmem => ?_⟩
    rw [show (u.withSession u.session .returned).session.liveInbox = none from
      Option.isNone_iff_eq_none.mp hinbox] at hmem
    cases hmem
  have hkept := (h id _ fresh _ _ (fun _ hne => hne) begins_fresh
    (hrun.append (System.Run.single hret)) hend).2
  rw [(steersKept_ret_iff (fun _ hne => hne) hinv hopen).mp hkept] at hpending
  cases hpending

/-- A run that begins, with the inbox of its channel. -/
def begun : LiveRun :=
  { fresh with session := { fresh.session with liveInbox := some ⟨[], true, false, []⟩ } }

theorem begins_begun : Begins begun := by
  refine ⟨rfl, rfl, fun inbox hmem => ?_, rfl, rfl, rfl, rfl⟩
  obtain rfl := Option.some.inj hmem
  exact ⟨rfl, rfl⟩

/-- What comes during the last call is answered, and a follow-up behind it is given back. -/
theorem late_messages_kept : ∃ t : LiveRun, t.pushed.length = 2 ∧ t.closed.length = 1 ∧
    t.steered.length = 1 ∧ FollowUpsKept id t ∧ SteersKept id t := by
  let acts := .guards false false :: .push "and Y" [] ::
    (lateRound "shorter" ++ [.answer false, .push "thanks" [], .ret, .close])
  have hlast : (acts.foldlM (fun r a => if Lawful r a then
      step id (fun content _ => content) r a else none) begun).map (fun t => (t.phase,
        t.pushed.length, t.closed.length, t.steered.length,
        t.session.liveInbox.all fun inbox => !inbox.isOpen)) = some (.returned, 2, 1, 1, true) := by
    decide +kernel
  obtain ⟨t, ht, hfacts⟩ := Option.map_eq_some_iff.mp hlast
  obtain ⟨hphase, hpushed, hclosed, hsteered, hinbox⟩ : t.phase = .returned ∧ t.pushed.length = 2 ∧
      t.closed.length = 1 ∧ t.steered.length = 1 ∧
        (t.session.liveInbox.all fun inbox => !inbox.isOpen) = true := by
    simpa using hfacts
  have hend : Ended t := by
    refine ⟨hphase, fun inbox hmem => ?_⟩
    rw [Option.mem_def.mp hmem] at hinbox
    simpa using hinbox
  have hlawful : ((system id fun content _ => content).restrict Lawful).Run begun acts t :=
    System.run_restrict_of_foldlM ht
  obtain ⟨hfollows, hsteers⟩ :=
    messages_kept_iff (fun _ hne => hne) begins_begun hlawful.of_restrict hend
  exact ⟨t, hpushed, hclosed, hsteered, hfollows, hsteers.mpr hlawful⟩

end GenusOs.Engine.Live
