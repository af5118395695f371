import GenusOs.Operations.Actions
import GenusOs.Library.History
import Mathlib

/-!
# Actions are executed as approved

Proposers, operators, policies and executors interleave their calls in any order. What an executor
is given is bound to what was proposed and to what was approved by one digest, which a claim takes
of what the column gives back.

* `action_step`: one call.
* `executed_as_approved`: what is executed has been approved as it was proposed, and is executed
  once.
-/

namespace GenusOs.Operations

open GenusOs.Python Rows History

/-! ## Histories -/

/-- What the history of the actions keeps: every change of an action, with who made it and when. -/
inductive ActionEvent
  | proposed (action : Uuid) (kind key : String) (payload : Json) (proposer : Option String)
    (expiry : Instant)
  | decided (action : Uuid) (approved : Bool) (actor hash : String) (time : Instant)
  | lost (action : Uuid) (time : Instant)
  /-- An executor is given the payload. -/
  | claimed (action token : Uuid) (payload : Json) (time expiry : Instant)
  | cancelled (action : Uuid)
  | finished (action token : Uuid) (status : ActionStatus) (receipt : Json) (time : Instant)

/-- The action that an entry is about. -/
def ActionEvent.action : ActionEvent → Uuid
  | .proposed action .. | .decided action .. | .lost action _
      | .claimed action .. | .cancelled action
  | .finished action .. => action

/-- The entries that hand a payload to an executor. -/
def ActionEvent.isClaim : ActionEvent → Bool
  | .claimed .. => true
  | _ => false

/-- What has become of an action, as far as its history tells. There is no way back from `closed`,
and none from `executing` to `approved`, which is why an action is claimed once. -/
inductive Phase
  | absent
  | review
  | approved
  | executing (token : Uuid) (expiry : Instant)
  | closed (status : ActionStatus)

/-- Where an entry leaves its action. -/
def ActionEvent.phase : ActionEvent → Phase
  | .proposed .. => .review
  | .decided _ approved .. => if approved then .approved else .closed .rejected
  | .lost .. => .closed .unknown
  | .claimed _ token _ _ expiry => .executing token expiry
  | .cancelled _ => .closed .cancelled
  | .finished _ _ status .. => .closed status

/-- The phase of an action is the one of its last entry. -/
def phaseOf (log : List ActionEvent) (action : Uuid) : Phase :=
  log.foldl (fun phase e => if e.action = action then e.phase else phase) .absent

/-- An operator, or the policy of the proposer: the actor `policy:<plugin>:<version>` decides on the
drafts of its plugin only, and any other actor has to be named `operator:…`. -/
def MayDecide (actor : String) (proposer : Option String) : Prop :=
  match policyOf actor with
  | some (plugin, _) => proposer = some plugin
  | none => startsWith actor "operator:" = true

/-- **When an entry may follow.** There is one action for a kind and a key. A draft is decided
before it expires, by somebody who may, and under the digest of what was proposed. An executor is
given what the column gives back of a payload that was proposed, under the digest that was approved
and that it was proposed with. A claim that has run out is lost, and only a claim that goes on is
completed. -/
def ActionEvent.Allowed (env : Env) (front : List ActionEvent) : ActionEvent → Prop
  | .proposed action kind key _ _ _ => phaseOf front action = .absent ∧
      ∀ action' payload proposer expiry,
        .proposed action' kind key payload proposer expiry ∉ front
  | .decided action _ actor hash time => phaseOf front action = .review ∧
      ∃ kind key payload proposer expiry,
        .proposed action kind key payload proposer expiry ∈ front ∧
        time < expiry ∧ hash = digest env payload ∧ MayDecide actor proposer
  | .claimed action _ payload time _ => phaseOf front action = .approved ∧
      ∃ kind key proposed proposer expiry actor decidedAt,
        .proposed action kind key proposed proposer expiry ∈ front ∧ time < expiry ∧
        payload = env.jsonb proposed ∧ digest env payload = digest env proposed ∧
        .decided action true actor (digest env payload) decidedAt ∈ front ∧ MayDecide actor proposer
  | .lost action time =>
      ∃ token expiry, phaseOf front action = .executing token expiry ∧ expiry < time
  | .cancelled action => phaseOf front action = .review ∨ phaseOf front action = .approved
  | .finished action token status receipt time =>
      ∃ expiry, phaseOf front action = .executing token expiry ∧
        (status = .completed → acknowledged receipt = true ∧ time < expiry)

variable {env : Env} {actions actions' : List DraftAction} {log new : List ActionEvent}
  {a : DraftAction} {e : ActionEvent} {f : DraftAction → DraftAction}
      {action token : Uuid} {now : Instant}

theorem phaseOf_concat (log : List ActionEvent) (e : ActionEvent) (action : Uuid) :
    phaseOf (log ++ [e]) action = if e.action = action then e.phase else phaseOf log action := by
  unfold phaseOf
  rw [List.foldl_append]
  rfl

/-- An action without an entry is absent. -/
theorem phaseOf_of_unknown (h : ∀ e ∈ log, e.action ≠ action) : phaseOf log action = .absent := by
  induction log using List.reverseRecOn with
  | nil => rfl
  | append_singleton log e ih =>
    rw [phaseOf_concat, if_neg (h e (List.mem_append_right _ (List.mem_singleton_self e)))]
    exact ih fun e' he' => h e' (List.mem_append_left _ he')

/-- Nothing leads back in front of a claim. -/
theorem phaseOf_of_claimed (h : Lawful (ActionEvent.Allowed env) log)
    (hclaimed : ∃ e ∈ log, e.action = action ∧ e.isClaim = true) :
    (∃ token expiry, phaseOf log action = .executing token expiry) ∨
      ∃ status, phaseOf log action = .closed status := by
  induction log using List.reverseRecOn with
  | nil =>
    obtain ⟨e, he, -⟩ := hclaimed
    cases he
  | append_singleton log e ih =>
    rw [phaseOf_concat]
    by_cases haction : e.action = action
    · rw [if_pos haction]
      have hallowed := h log e [] rfl
      -- an entry that is no claim leaves the claim in front of it
      have hbefore (hnot : e.isClaim = false) :
          ∃ e ∈ log, e.action = action ∧ e.isClaim = true := by
        obtain ⟨e', he', hboth⟩ := hclaimed
        refine ⟨e', (List.mem_append.mp he').resolve_right fun hsame => ?_, hboth⟩
        rw [List.mem_singleton.mp hsame, hnot] at hboth
        cases hboth.2
      cases e with
      | claimed _ token _ _ expiry => exact .inl ⟨token, expiry, rfl⟩
      | lost => exact .inr ⟨_, rfl⟩
      | cancelled => exact .inr ⟨_, rfl⟩
      | finished => exact .inr ⟨_, rfl⟩
      | proposed action' =>
        -- a proposal needs an absent action, and a claimed one is not
        obtain rfl : action' = action := haction
        rcases ih h.front (hbefore rfl) with ⟨_, _, hphase⟩ | ⟨_, hphase⟩ <;>
        · rw [hallowed.1] at hphase
          cases hphase
      | decided action' =>
        -- a decision needs a draft in review
        obtain rfl : action' = action := haction
        rcases ih h.front (hbefore rfl) with ⟨_, _, hphase⟩ | ⟨_, hphase⟩ <;>
        · rw [hallowed.1] at hphase
          cases hphase
    · rw [if_neg haction]
      refine ih h.front ?_
      obtain ⟨e', he', hboth⟩ := hclaimed
      refine ⟨e', (List.mem_append.mp he').resolve_right fun hsame => haction ?_, hboth⟩
      rw [← List.mem_singleton.mp hsame]
      exact hboth.1

/-- **An action is claimed once.** -/
theorem claims_nodup (h : Lawful (ActionEvent.Allowed env) log) :
    ((log.filter ActionEvent.isClaim).map ActionEvent.action).Nodup := by
  refine h.nodup fun front e hfront hallowed hclaim e' he' hclaim' heq => ?_
  cases e with
  | claimed action token payload time expiry =>
    rcases phaseOf_of_claimed hfront ⟨e', he', heq, hclaim'⟩ with ⟨_, _, hphase⟩ | ⟨_, hphase⟩ <;>
    · have happroved : phaseOf front action = .approved := hallowed.1
      exact absurd (happroved.symm.trans hphase) (by simp)
  | _ => cases hclaim

/-! ## The rows -/

/-- The phase of a row, and how it was approved. An approved row shows the hash that it was approved
under, which is the one that it was proposed with, and the history has the decision; one that is
being executed shows the token and the expiry of its claim. -/
def DraftAction.Shows (log : List ActionEvent) (a : DraftAction) : Prop :=
  match a.status with
  | .review => phaseOf log a.id = .review
  | .approved => phaseOf log a.id = .approved ∧ a.approvedHash = some a.payloadHash ∧
    ∃ actor time, .decided a.id true actor a.payloadHash time ∈ log ∧ MayDecide actor a.proposedBy
  | .executing => ∃ token expiry, a.leaseToken = some token ∧ a.leaseUntil = some expiry ∧
    phaseOf log a.id = .executing token expiry
  | status => phaseOf log a.id = .closed status

/-- **A row is what its history says.** The history has its proposal, of its kind and key, with its
proposer and its expiry, and no other; the row has what the column gives back of the payload that
was proposed, and the digest of that payload; and its status is the phase of its last entry. -/
structure Drawn (env : Env) (log : List ActionEvent) (a : DraftAction) : Prop where
  proposed : ∃ payload, .proposed a.id a.kind a.dedupKey payload a.proposedBy a.expiresAt ∈ log ∧
    a.payload = env.jsonb payload ∧ a.payloadHash = digest env payload
  named : ∀ kind key payload proposer expiry,
    .proposed a.id kind key payload proposer expiry ∈ log → kind = a.kind ∧ key = a.dedupKey
  shows : a.Shows log

/-- The invariant: the history is lawful and about rows that are there, and every row is what it
says. -/
structure ActionSound (env : Env) (actions : List DraftAction) (log : List ActionEvent) : Prop where
  ids : KeyUnique DraftAction.id actions
  lawful : Lawful (ActionEvent.Allowed env) log
  known : ∀ e ∈ log, ∃ a ∈ actions, a.id = e.action
  drawn : ∀ a ∈ actions, Drawn env log a

/-- The calls that any number of proposers, operators, policies and executors make. -/
inductive ActionCall
  | propose (newId : Uuid) (kind key : String) (payload : Json) (expiresSeconds : Int)
    (proposedBy : Option String)
  | decide (action : Uuid) (approved : Bool) (actor : String)
  | claim (wanted : Wanted) (token : Uuid) (leaseSeconds : Int)
  | cancel (action : Uuid) (reason : String) (proposedBy actor : Option String)
  | finish (action token : Uuid) (status : ActionStatus) (receipt : Json)

/-- The claims that have run out, as entries: `_expire_leases` writes all of them in one
statement. -/
def losses (now : Instant) (actions : List DraftAction) : List ActionEvent :=
  (actions.filter (·.overdue now)).map fun a => .lost a.id now

/-- A call, and what it adds to the history. -/
def ActionCall.run (env : Env) (now : Instant) (actions : List DraftAction) :
    ActionCall → Except Raised (List ActionEvent × List DraftAction)
  | .propose newId kind key payload expiresSeconds proposedBy =>
    (Operations.propose env now actions newId kind key payload expiresSeconds proposedBy).map
      fun answer =>
        (if actions.any fun a => a.kind = kind ∧ a.dedupKey = key then []
          else [.proposed answer.1 kind key payload proposedBy (now + seconds expiresSeconds)],
          answer.2)
  | .decide action approved actor =>
    (decideAction now actions action approved actor).map fun rows =>
      ((actions.filter (·.undecided now action)).map fun a =>
        .decided a.id approved actor a.payloadHash now, rows)
  | .claim wanted token leaseSeconds =>
    (claimAction env now actions wanted token leaseSeconds).map fun answer =>
      (losses now actions ++
        (answer.1.map fun a =>
          .claimed a.id token a.payload now (now + seconds leaseSeconds)).toList, answer.2)
  | .cancel action reason proposedBy actor =>
    (cancelAction actions action reason proposedBy actor).map fun rows =>
      ([.cancelled action], rows)
  | .finish action token status receipt =>
    (finishAction env now actions action token status receipt).map fun rows =>
      ([.finished action token status receipt now], rows)

/-- The calls on the actions of one tenant, from an empty table. -/
def actionSystem (env : Env) : System (List DraftAction × List ActionEvent)
    (Instant × ActionCall) where
  init p := p = ([], [])
  step p a q := ∃ new, a.2.run env a.1 p.1 = .ok (new, q.1) ∧ q.2 = p.2 ++ new

/-! ## Rows whose history goes on -/

/-- Entries of other actions. -/
theorem Drawn.frames (env : Env) : Frames ActionEvent.action DraftAction.id (Drawn env) := by
  intro log e a he h
  have hphase : phaseOf (log ++ [e]) a.id = phaseOf log a.id := by rw [phaseOf_concat, if_neg he]
  obtain ⟨payload, hproposed, hcolumns⟩ := h.proposed
  refine ⟨⟨payload, List.mem_append_left _ hproposed, hcolumns⟩,
    fun kind key payload proposer expiry hmem => ?_, ?_⟩
  · refine h.named kind key payload proposer expiry
      ((List.mem_append.mp hmem).resolve_right fun hsame => he ?_)
    rw [← List.mem_singleton.mp hsame]
    rfl
  · have hshows := h.shows
    unfold DraftAction.Shows at hshows ⊢
    rw [hphase]
    split at hshows <;> try exact hshows
    obtain ⟨happroved, hhash, actor, time, hmem, hmay⟩ := hshows
    exact ⟨happroved, hhash, actor, time, List.mem_append_left _ hmem, hmay⟩

/-- One entry more. -/
theorem Drawn.next (h : Drawn env log a)
    (hsame : (f a).id = a.id ∧ (f a).kind = a.kind ∧ (f a).dedupKey = a.dedupKey ∧
      (f a).payload = a.payload ∧ (f a).payloadHash = a.payloadHash ∧
      (f a).proposedBy = a.proposedBy ∧ (f a).expiresAt = a.expiresAt)
    (hold : ∀ kind key payload proposer expiry, e ≠ .proposed a.id kind key payload proposer expiry)
    (hshows : (f a).Shows (log ++ [e])) : Drawn env (log ++ [e]) (f a) := by
  obtain ⟨hid, hkind, hkey, hpayload, hhash, hproposer, hexpiry⟩ := hsame
  refine ⟨?_, fun kind key payload proposer expiry hmem => ?_, hshows⟩
  · rw [hid, hkind, hkey, hpayload, hproposer, hexpiry, hhash]
    obtain ⟨payload, hproposed, hcolumns⟩ := h.proposed
    exact ⟨payload, List.mem_append_left _ hproposed, hcolumns⟩
  · rw [hid] at hmem
    rw [hkind, hkey]
    refine h.named kind key payload proposer expiry
      ((List.mem_append.mp hmem).resolve_right fun hmem => ?_)
    exact hold kind key payload proposer expiry (List.mem_singleton.mp hmem).symm

/-- One entry more, and the write that it records. All calls but `propose` come to this. -/
theorem ActionSound.move (h : ActionSound env actions log) (ha : a ∈ actions) (he : e.action = a.id)
    (hid : ∀ r, (f r).id = r.id) (hallowed : ActionEvent.Allowed env log e)
    (hdrawn : Drawn env (log ++ [e]) (f a)) :
    ActionSound env (updateWhere (fun b => b.id = a.id) f actions) (log ++ [e]) := by
  refine ⟨h.ids.updateWhere fun r _ => hid r, h.lawful.concat hallowed,
    fun e' he' => ?_, fun b hb =>
    says_updateOne (Drawn.frames env) h.ids ha he h.drawn hdrawn hb⟩
  have hkeep {r : DraftAction} (hr : r ∈ actions) :
      ∃ b ∈ updateWhere (fun b => b.id = a.id) f actions, b.id = r.id := by
    refine ⟨_, mem_updateWhere.mpr ⟨r, hr, rfl⟩, ?_⟩
    split
    · exact hid r
    · rfl
  rcases List.mem_append.mp he' with he' | he'
  · obtain ⟨r, hr, hsame⟩ := h.known e' he'
    obtain ⟨b, hb, hbid⟩ := hkeep hr
    exact ⟨b, hb, hbid.trans hsame⟩
  · obtain ⟨b, hb, hbid⟩ := hkeep ha
    exact ⟨b, hb, hbid.trans (List.mem_singleton.mp he' ▸ he.symm)⟩

/-! ## The calls -/

/-- A proposal adds a row with an entry, or finds the row of its kind and key and adds nothing. -/
theorem propose_sound {newId id : Uuid} {kind key : String} {payload : Json} {expiresSeconds : Int}
    {proposedBy : Option String} (h : ActionSound env actions log)
    (hcall : propose env now actions newId kind key payload expiresSeconds proposedBy =
      .ok (id, actions')) :
    ActionSound env actions' (log ++ if actions.any fun a => a.kind = kind ∧
      a.dedupKey = key then []
      else [.proposed id kind key payload proposedBy (now + seconds expiresSeconds)]) := by
  unfold propose at hcall
  split at hcall
  · cases hcall
  split at hcall
  · next row hfind =>
      -- the key is proposed already, with the same payload: no row and no entry
    split at hcall
    · cases hcall
    split at hcall
    · cases hcall
    cases hcall
    have hsame := List.find?_some hfind
    rw [if_pos (List.any_eq_true.mpr ⟨row, List.mem_of_find?_eq_some hfind, hsame⟩),
      List.append_nil]
    exact h
  · next hnone =>
      -- a new row: no entry has its id yet, so that the action is absent
    split at hcall
    · cases hcall
    next hfree =>
    cases hcall
    have hkey : ∀ a ∈ actions, ¬ (a.kind = kind ∧ a.dedupKey = key) := fun a ha hsame =>
      List.find?_eq_none.mp hnone a ha (decide_eq_true hsame)
    have hid : ∀ a ∈ actions, a.id ≠ newId := fun a ha heq =>
      hfree (List.any_eq_true.mpr ⟨a, ha, decide_eq_true heq⟩)
    have hunknown : ∀ e ∈ log, e.action ≠ newId := fun e he heq => by
      obtain ⟨a, ha, hsame⟩ := h.known e he
      exact hid a ha (hsame.trans heq)
    rw [if_neg]
    swap
    · intro hany
      obtain ⟨a, ha, hsame⟩ := List.any_eq_true.mp hany
      exact hkey a ha (of_decide_eq_true hsame)
    refine ⟨h.ids.insert fun a ha => hid a ha,
      h.lawful.concat ⟨phaseOf_of_unknown hunknown, fun action' payload' proposer expiry he => ?_⟩,
      fun e he => ?_, fun a ha => ?_⟩
    · -- an earlier proposal of the same kind and key would have its row
      obtain ⟨a, ha, rfl⟩ := h.known _ he
      obtain ⟨rfl, rfl⟩ := (h.drawn a ha).named _ _ _ _ _ he
      exact hkey a ha ⟨rfl, rfl⟩
    · rcases List.mem_append.mp he with he | he
      · obtain ⟨a, ha, hsame⟩ := h.known e he
        exact ⟨a, List.mem_append_left _ ha, hsame⟩
      · rw [List.mem_singleton.mp he]
        exact ⟨_, List.mem_append_right _ (List.mem_singleton_self _), rfl⟩
    · rcases List.mem_append.mp ha with ha | ha
      · exact Drawn.frames env log _ a (hid a ha).symm (h.drawn a ha)
      · rw [List.mem_singleton.mp ha]
        refine ⟨⟨payload, by simp, rfl, rfl⟩, fun kind' key' payload' proposer expiry he => ?_, ?_⟩
        · rcases List.mem_append.mp he with he | he
          · exact absurd rfl (hunknown _ he)
          · cases List.mem_singleton.mp he
            exact ⟨rfl, rfl⟩
        · show phaseOf _ newId = .review
          rw [phaseOf_concat]
          exact if_pos rfl

/-- The two checks of `decide` come to `MayDecide`. -/
theorem MayDecide.of_checks {actor : String} {proposer : Option String}
    (hactor : ¬ (policyOf actor = none ∧ ¬ startsWith actor "operator:"))
    (hpolicy : ¬ (policyOf actor).any fun p => proposer ≠ some p.1) : MayDecide actor proposer := by
  unfold MayDecide
  rcases hread : policyOf actor with _ | policy
  · by_contra hnot
    exact hactor ⟨hread, hnot⟩
  · rw [hread, Option.any_some, decide_eq_true_eq, not_not] at hpolicy
    exact hpolicy

/-- A decision is made on the row that was read. -/
theorem decideAction_eq_ok {approved : Bool} {actor : String}
    (hcall : decideAction now actions action approved actor = .ok actions') :
    ∃ row, actions.find? (·.undecided now action) = some row ∧ MayDecide actor row.proposedBy ∧
      updateOne (·.undecided now action) (DraftAction.decided approved actor) actions =
        some actions' := by
  unfold decideAction at hcall
  dsimp only at hcall
  -- each check of the source that fails raises, which is not this answer
  by_cases hactor : policyOf actor = none ∧ ¬ startsWith actor "operator:"
  · rw [if_pos hactor] at hcall
    cases hcall
  rw [if_neg hactor] at hcall
  rcases hfind : actions.find? (·.undecided now action) with _ | row
  · rw [hfind] at hcall
    cases hcall
  rw [hfind] at hcall
  dsimp only at hcall
  by_cases hpolicy : (policyOf actor).any fun p => row.proposedBy ≠ some p.1
  · rw [if_pos hpolicy] at hcall
    cases hcall
  rw [if_neg hpolicy] at hcall
  rcases hone : updateOne (·.undecided now action)
    (DraftAction.decided approved actor) actions with _ | rows
  · rw [hone] at hcall
    cases hcall
  rw [hone] at hcall
  cases hcall
  exact ⟨row, hfind, .of_checks hactor hpolicy, hone⟩

/-- `decide` raises unless it has written one row, so that the row it wrote is the one it read. -/
theorem undecided_alone {a : DraftAction}
    (hone : updateOne (·.undecided now action) f actions = some actions')
    (ha : a ∈ actions) (hundecided : a.undecided now action) :
    actions.filter (·.undecided now action) = [a] := by
  unfold updateOne at hone
  split at hone
  · next hcount =>
    rw [rowcount, List.countP_eq_length_filter, List.length_eq_one_iff] at hcount
    obtain ⟨r, hr⟩ := hcount
    have hmem : a ∈ actions.filter (·.undecided now action) := List.mem_filter.mpr ⟨ha, hundecided⟩
    rw [hr] at hmem ⊢
    rw [List.mem_singleton.mp hmem]
  · cases hone

/-- A decision is made on the draft that was read, under the hash of that draft. -/
theorem decide_sound {approved : Bool} {actor : String} (h : ActionSound env actions log)
    (hcall : decideAction now actions action approved actor = .ok actions') :
    ActionSound env actions' (log ++
      (actions.filter (·.undecided now action)).map fun a =>
        .decided a.id approved actor a.payloadHash now) := by
  obtain ⟨row, hfind, hmay, hone⟩ := decideAction_eq_ok hcall
  obtain ⟨a, ha, hundecided, rfl⟩ := updateOne_spec h.ids hone
  -- the row that was read is the one that is updated
  have hrow := List.mem_of_find?_eq_some hfind
  have hread := List.find?_some hfind
  have hstatus : a.id = action ∧ a.status = .review ∧ now < a.expiresAt := by
    simpa [DraftAction.undecided, and_assoc] using hundecided
  have hreadStatus : row.id = action ∧ row.status = .review ∧ now < row.expiresAt := by
    simpa [DraftAction.undecided, and_assoc] using hread
  obtain rfl : row = a := h.ids.eq hrow ha (hreadStatus.1.trans hstatus.1.symm)
  obtain ⟨rfl, hreview, hexpiry⟩ := hstatus
  rw [undecided_alone hone ha hundecided, List.map_singleton]
  have hdrawn := h.drawn row ha
  have hshows := hdrawn.shows
  unfold DraftAction.Shows at hshows
  rw [hreview] at hshows
  obtain ⟨payload, hproposed, -, hhash⟩ := hdrawn.proposed
  refine h.move ha rfl (fun _ => rfl) ⟨hshows, _, _, _, _, _, hproposed, hexpiry, hhash, hmay⟩ ?_
  refine hdrawn.next ⟨rfl, rfl, rfl, rfl, rfl, rfl, rfl⟩ nofun ?_
  have hphase : phaseOf (log ++ [.decided row.id approved actor row.payloadHash now]) row.id =
      if approved then .approved else .closed .rejected := by
    rw [phaseOf_concat]
    exact if_pos rfl
  cases approved with
  | true =>
    exact ⟨hphase, rfl, actor, now, List.mem_append_right _ (List.mem_singleton_self _), hmay⟩
  | false => exact hphase

/-- A draft is withdrawn, or an approval that nobody has claimed; one that is executing is not. -/
theorem cancel_sound {reason : String} {proposedBy actor : Option String}
    (h : ActionSound env actions log)
    (hcall : cancelAction actions action reason proposedBy actor = .ok actions') :
    ActionSound env actions' (log ++ [.cancelled action]) := by
  unfold cancelAction at hcall
  split at hcall
  · cases hcall
  split at hcall
  · cases hcall
  next row hfind =>
  split at hcall
  · cases hcall
  split at hcall
  · cases hcall
  split at hcall
  · cases hcall
  next hstatus =>
  cases hcall
  have hrow := List.mem_of_find?_eq_some hfind
  have hid := List.find?_some hfind
  obtain rfl : row.id = action := of_decide_eq_true hid
  have hdrawn := h.drawn row hrow
  have hshows := hdrawn.shows
  unfold DraftAction.Shows at hshows
  -- only a draft in review or an approval passes the check on the status
  have hphase : phaseOf log row.id = .review ∨ phaseOf log row.id = .approved := by
    rw [not_and_or, not_not, not_not] at hstatus
    rcases hstatus with hreview | happroved
    · rw [hreview] at hshows
      exact .inl hshows
    · rw [happroved] at hshows
      exact .inr hshows.1
  refine h.move hrow rfl (fun _ => rfl) hphase
    (hdrawn.next ⟨rfl, rfl, rfl, rfl, rfl, rfl, rfl⟩ nofun ?_)
  show phaseOf _ row.id = .closed .cancelled
  rw [phaseOf_concat]
  exact if_pos rfl

/-- The executor that holds the action closes it, and completes it with an acknowledged receipt
only. -/
theorem finish_sound {status : ActionStatus} {receipt : Json} (h : ActionSound env actions log)
    (hcall : finishAction env now actions action token status receipt = .ok actions') :
    ActionSound env actions' (log ++ [.finished action token status receipt now]) := by
  unfold finishAction at hcall
  split at hcall
  · cases hcall
  next houtcome =>
  split at hcall
  · cases hcall
  next hreceipt =>
  split at hcall
  swap
  · cases hcall
  next rows hone =>
  cases hcall
  obtain ⟨a, ha, hheld, rfl⟩ := updateOne_spec h.ids hone
  have hheld : a.id = action ∧ a.leaseToken = some token ∧ a.status = .executing ∧
      (status = .completed → ∃ expiry, a.leaseUntil = some expiry ∧ now < expiry) := by
    simpa [DraftAction.heldBy, and_assoc, Option.any_eq_true, imp_iff_not_or] using hheld
  obtain ⟨rfl, htoken, hexecuting, hlease⟩ := hheld
  have hdrawn := h.drawn a ha
  have hshows := hdrawn.shows
  unfold DraftAction.Shows at hshows
  rw [hexecuting] at hshows
  obtain ⟨token', expiry, htoken', hexpiry, hphase⟩ := hshows
  -- the token of the row is that of the claim in the log
  obtain rfl : token = token' := Option.some.inj (htoken.symm.trans htoken')
  refine h.move ha rfl (fun _ => rfl) ⟨expiry, hphase, fun hcompleted => ?_⟩
    (hdrawn.next ⟨rfl, rfl, rfl, rfl, rfl, rfl, rfl⟩ nofun ?_)
  · -- completion asks for a lease that has not run out, and for an acknowledgement
    obtain ⟨expiry', hexpiry', hlt⟩ := hlease hcompleted
    obtain rfl : expiry = expiry' := Option.some.inj (hexpiry.symm.trans hexpiry')
    refine ⟨?_, hlt⟩
    by_contra hnot
    exact hreceipt ⟨hcompleted, by simpa using hnot⟩
  · have hclosed : phaseOf (log ++ [.finished a.id token status receipt now]) a.id =
      .closed status := by
      rw [phaseOf_concat]
      exact if_pos rfl
    rw [not_not] at houtcome
    rcases houtcome with rfl | rfl | rfl | rfl <;> exact hclosed

/-! ## Claims -/

/-- The claims that have run out become unknown, one entry for each. -/
theorem expire_sound (h : ActionSound env actions log) (now : Instant) :
    ActionSound env (expireLeases now actions) (log ++ losses now actions) := by
  have hid (a : DraftAction) : a.lost.id = a.id := rfl
  -- a row that has run out is executing in the log, under the lease of its claim
  have hexecuting {log : List ActionEvent} {a : DraftAction} (hoverdue : a.overdue now = true)
      (hdrawn : Drawn env log a) :
      ∃ token expiry, phaseOf log a.id = .executing token expiry ∧ expiry < now := by
    have hboth : a.status = .executing ∧ ∃ expiry, a.leaseUntil = some expiry ∧ expiry < now := by
      simpa [DraftAction.overdue, Option.any_eq_true] using hoverdue
    obtain ⟨hstatus, expiry, hexpiry, hlt⟩ := hboth
    have hshows := hdrawn.shows
    unfold DraftAction.Shows at hshows
    rw [hstatus] at hshows
    obtain ⟨token, expiry', -, hexpiry', hphase⟩ := hshows
    obtain rfl : expiry = expiry' := Option.some.inj (hexpiry.symm.trans hexpiry')
    exact ⟨token, expiry, hphase, hlt⟩
  refine ⟨h.ids.updateWhere fun r _ => hid r,
    lawful_updateWhere (Drawn.frames env) h.ids (fun _ => rfl) h.drawn h.lawful
      fun log a => hexecuting,
    fun e he => ?_, fun b hb => ?_⟩
  · have hkeep {r : DraftAction} (hr : r ∈ actions) :
      ∃ b ∈ expireLeases now actions, b.id = r.id := by
      refine ⟨_, mem_updateWhere.mpr ⟨r, hr, rfl⟩, ?_⟩
      split <;> rfl
    rcases List.mem_append.mp he with he | he
    · obtain ⟨r, hr, hsame⟩ := h.known e he
      obtain ⟨b, hb, hbid⟩ := hkeep hr
      exact ⟨b, hb, hbid.trans hsame⟩
    · obtain ⟨r, hr, rfl⟩ := List.mem_map.mp he
      exact hkeep (List.mem_filter.mp hr).1
  · -- every row that is written off is closed by its own entry
    refine says_updateWhere (Drawn.frames env) h.ids (fun _ => rfl) hid h.drawn
      (fun log a hoverdue hdrawn => ?_) hb
    refine hdrawn.next ⟨rfl, rfl, rfl, rfl, rfl, rfl, rfl⟩ nofun ?_
    show phaseOf _ a.id = .closed .unknown
    rw [phaseOf_concat]
    exact if_pos rfl

/-- A claim takes an approved action that has not expired. -/
theorem nextAction_spec {w : Wanted} (h : nextAction now actions w = some a) :
    a ∈ actions ∧ a.status = .approved ∧ now < a.expiresAt := by
  have hmem := (List.mem_insertionSort _).mp (List.mem_of_head? h)
  obtain ⟨ha, htakes⟩ := List.mem_filter.mp hmem
  unfold Wanted.takes DraftAction.claimable at htakes
  simp only [Bool.and_eq_true, decide_eq_true_eq] at htakes
  exact ⟨ha, htakes.1.1.1⟩

/-- A claim of an approved action compares what the column gives back of its payload with what was
proposed. -/
theorem lease_approved (h : ActionSound env actions log) (ha : a ∈ actions)
    (happroved : a.status = .approved) (leaseSeconds : Int) :
    lease env now actions token leaseSeconds a =
      if digest env a.payload = a.payloadHash then
        .ok (a.leased now token leaseSeconds,
          updateWhere (·.id = a.id) (DraftAction.leased now token leaseSeconds) actions)
      else .error (.conflict "Approved payload changed") := by
  have hshows := (h.drawn a ha).shows
  unfold DraftAction.Shows at hshows
  rw [happroved] at hshows
  unfold lease
  rw [hshows.2.1]
  by_cases hsame : digest env a.payload = a.payloadHash
  · rw [if_pos hsame, if_neg (not_not.mpr (congrArg some hsame))]
  · rw [if_neg hsame, if_pos fun heq => hsame (Option.some.inj heq)]

/-- A claim first writes off what has run out and then leases one action; each of the two is
recorded. -/
theorem claim_actions_sound {w : Wanted} {leaseSeconds : Int} {answer : Option DraftAction}
    (h : ActionSound env actions log)
    (hcall : claimAction env now actions w token leaseSeconds = .ok (answer, actions')) :
    ActionSound env actions' (log ++ (losses now actions ++
      (answer.map fun a => .claimed a.id token a.payload now
        (now + seconds leaseSeconds)).toList)) := by
  have hexpired := expire_sound h now
  rw [← List.append_assoc]
  unfold claimAction at hcall
  dsimp only at hcall
  split at hcall
  · cases hcall
    rw [Option.map_none, Option.toList_none, List.append_nil]
    -- nothing is left to claim
    exact hexpired
  · next a hnext =>
    obtain ⟨ha, happroved, hexpiry⟩ := nextAction_spec hnext
    rw [lease_approved hexpired ha happroved] at hcall
    by_cases hsame : digest env a.payload = a.payloadHash
    swap
    · rw [if_neg hsame] at hcall
      cases hcall
    rw [if_pos hsame] at hcall
    cases hcall
    -- the digest agrees, so what is handed out is what was proposed and decided on
    have hdrawn := hexpired.drawn a ha
    have hshows := hdrawn.shows
    unfold DraftAction.Shows at hshows
    rw [happroved] at hshows
    obtain ⟨hphase, -, actor, time, hdecided, hmay⟩ := hshows
    rw [← hsame] at hdecided
    obtain ⟨payload, hproposed, hpayload, hhash⟩ := hdrawn.proposed
    refine hexpired.move ha rfl (fun _ => rfl)
      ⟨hphase, _, _, payload, _, _, actor, time, hproposed, hexpiry, hpayload, hsame.trans hhash,
        hdecided, hmay⟩
      (hdrawn.next ⟨rfl, rfl, rfl, rfl, rfl, rfl, rfl⟩ nofun ⟨token, _, rfl, rfl, ?_⟩)
    rw [phaseOf_concat]
    exact if_pos rfl

/-- A claim takes the next action, unless its column gives back another digest than the payload was
proposed with. -/
theorem claim_tells (h : ActionSound env actions log) (now : Instant) (w : Wanted) (token : Uuid)
    (leaseSeconds : Int) (hnext : nextAction now (expireLeases now actions) w = some a) :
    ∃ payload, .proposed a.id a.kind a.dedupKey payload a.proposedBy a.expiresAt ∈ log ∧
      (digest env (env.jsonb payload) = digest env payload → ∃ actions',
        claimAction env now actions w token leaseSeconds =
          .ok (some (a.leased now token leaseSeconds), actions')) ∧
      (digest env (env.jsonb payload) ≠ digest env payload →
        claimAction env now actions w token leaseSeconds =
          .error (.conflict "Approved payload changed")) := by
  have hexpired := expire_sound h now
  obtain ⟨ha, happroved, -⟩ := nextAction_spec hnext
  obtain ⟨payload, hproposed, hpayload, hhash⟩ := (hexpired.drawn a ha).proposed
  have hbefore : .proposed a.id a.kind a.dedupKey payload a.proposedBy a.expiresAt ∈ log := by
    refine (List.mem_append.mp hproposed).resolve_right fun hlost => ?_
    obtain ⟨b, -, heq⟩ := List.mem_map.mp hlost
    cases heq
  have hclaim : claimAction env now actions w token leaseSeconds =
      (lease env now (expireLeases now actions) token leaseSeconds a).map
        fun answer => (some answer.1, answer.2) := by
    unfold claimAction
    simp only
    rw [hnext]
  rw [hclaim, lease_approved hexpired ha happroved, hpayload, hhash]
  refine ⟨payload, hbefore, fun hsame => ?_, fun hne => ?_⟩
  · rw [if_pos hsame]
    exact ⟨_, rfl⟩
  · rw [if_neg hne]
    rfl

/-- **Step lemma.** One case for each call: the call is an entry, or several, that may follow. -/
theorem action_step {p q : List DraftAction × List ActionEvent} {call : Instant × ActionCall}
    (h : ActionSound env p.1 p.2) (hstep : (actionSystem env).step p call q) :
    ActionSound env q.1 q.2 := by
  obtain ⟨actions, log⟩ := p
  obtain ⟨actions', log'⟩ := q
  obtain ⟨now, call⟩ := call
  obtain ⟨new, hrun, rfl⟩ := hstep
  cases call with
  | propose newId kind key payload expiresSeconds proposedBy =>
    obtain ⟨⟨id, rows⟩, hcall, heq⟩ := map_eq_ok hrun
    cases heq
    exact propose_sound h hcall
  | decide action approved actor =>
    obtain ⟨rows, hcall, heq⟩ := map_eq_ok hrun
    cases heq
    exact decide_sound h hcall
  | claim wanted token leaseSeconds =>
    obtain ⟨⟨answer, rows⟩, hcall, heq⟩ := map_eq_ok hrun
    cases heq
    exact claim_actions_sound h hcall
  | cancel action reason proposedBy actor =>
    obtain ⟨rows, hcall, heq⟩ := map_eq_ok hrun
    cases heq
    exact cancel_sound h hcall
  | finish action token status receipt =>
    obtain ⟨rows, hcall, heq⟩ := map_eq_ok hrun
    cases heq
    exact finish_sound h hcall

/-- **Actions are executed as approved, and once.** In every interleaving of the calls, what an
executor is given is what the column gives back of the payload that was proposed, under the digest
that an operator, or the policy of its proposer, has approved; and it is given once. A claim takes
the next action, and raises where the column gives its payload back under another digest. -/
theorem executed_as_approved (env : Env) (h : (actionSystem env).Reachable (actions, log)) :
    Lawful (ActionEvent.Allowed env) log ∧
    ((log.filter ActionEvent.isClaim).map ActionEvent.action).Nodup ∧
    (∀ a ∈ actions, Drawn env log a) ∧
    ∀ now wanted token leaseSeconds,
      (nextAction now (expireLeases now actions) wanted = none →
        claimAction env now actions wanted token leaseSeconds =
          .ok (none, expireLeases now actions)) ∧
      ∀ a, nextAction now (expireLeases now actions) wanted = some a →
        ∃ payload, .proposed a.id a.kind a.dedupKey payload a.proposedBy a.expiresAt ∈ log ∧
          (digest env (env.jsonb payload) = digest env payload → ∃ actions',
            claimAction env now actions wanted token leaseSeconds =
              .ok (some (a.leased now token leaseSeconds), actions')) ∧
          (digest env (env.jsonb payload) ≠ digest env payload →
            claimAction env now actions wanted token leaseSeconds =
              .error (.conflict "Approved payload changed")) := by
  have hsound : ActionSound env actions log := by
    refine h.invariant (I := fun p => ActionSound env p.1 p.2) ?_
      fun p a q hp hstep => action_step hp hstep
    rintro p rfl
    exact ⟨List.nodup_nil, .nil, fun e he => absurd he List.not_mem_nil,
      fun a ha => absurd ha List.not_mem_nil⟩
  refine ⟨hsound.lawful, claims_nodup hsound.lawful, hsound.drawn,
    fun now wanted token leaseSeconds => ⟨fun hnone => ?_, fun a hnext => ?_⟩⟩
  · unfold claimAction
    simp only
    rw [hnone]
  · exact claim_tells hsound now wanted token leaseSeconds hnext

/-! ### A draft of a plugin, and one whose payload does not keep its digest -/

/-- A payload that its column gives back as it was. -/
def samplePayload : Json := .obj [("amount", .int 20)]

/-- A payload that its column gives back with an integer in the place of the float. -/
def largePayload : Json := .obj [("amount", .float 10000000000000000)]

def sampleDraft : DraftAction :=
  { id := 1, kind := "email", dedupKey := "a", payload := samplePayload
    payloadHash := digest plainEnv samplePayload, expiresAt := seconds 60, createdAt := 0
    proposedBy := some "mail" }

def largeDraft : DraftAction :=
  { id := 2, kind := "transfer", dedupKey := "b", payload := plainEnv.jsonb largePayload
    payloadHash := digest plainEnv largePayload, expiresAt := seconds 60, createdAt := 0 }

def approvedDraft : DraftAction := sampleDraft.decided true "policy:mail:1"

def approvedLarge : DraftAction := largeDraft.decided true "operator:ada"

/-- The plugin's draft is approved by its policy and claimed; the operator approves the other one.
-/
def claimedLog : List ActionEvent :=
  [.proposed 1 "email" "a" samplePayload (some "mail") (seconds 60),
    .proposed 2 "transfer" "b" largePayload none (seconds 60),
    .decided 1 true "policy:mail:1" sampleDraft.payloadHash 0,
    .decided 2 true "operator:ada" largeDraft.payloadHash 0,
    .claimed 1 10 samplePayload 0 (seconds 1)]

theorem claimed_reachable : (actionSystem plainEnv).Reachable
    ([approvedDraft.leased 0 10 1, approvedLarge], claimedLog) := by
  refine ⟨([], []), [(0, .propose 1 "email" "a" samplePayload 60 (some "mail")),
    (0, .propose 2 "transfer" "b" largePayload 60 none), (0, .decide 1 true "policy:mail:1"),
    (0, .decide 2 true "operator:ada"), (0, .claim {} 10 1)], rfl, ?_⟩
  refine .cons (t := ([sampleDraft], claimedLog.take 1)) ⟨_, rfl, rfl⟩ ?_
  refine .cons (t := ([sampleDraft, largeDraft], claimedLog.take 2)) ⟨_, rfl, rfl⟩ ?_
  refine .cons (t := ([approvedDraft, largeDraft], claimedLog.take 3)) ⟨_, rfl, rfl⟩ ?_
  exact .cons (t := ([approvedDraft, approvedLarge], claimedLog.take 4)) ⟨_, rfl, rfl⟩
    (.single ⟨_, rfl, rfl⟩)

/-- The digest is taken of a text, and the two texts differ. -/
theorem largePayload_changes :
    digest plainEnv (plainEnv.jsonb largePayload) ≠ digest plainEnv largePayload := by
  decide +kernel

/-- The executor is gone: the next claim finds the action unknown and takes nothing. The amount of
the other action comes back as an integer, and so it is never claimed. -/
theorem executed_once :
    claimAction plainEnv (seconds 5) [approvedDraft.leased 0 10 1, approvedLarge]
        { kind := some "email" } 11 1 =
      .ok (none, [(approvedDraft.leased 0 10 1).lost, approvedLarge]) ∧
    claimAction plainEnv (seconds 5) [approvedDraft.leased 0 10 1, approvedLarge]
        { kind := some "transfer" } 11 1 = .error (.conflict "Approved payload changed") ∧
    Lawful (ActionEvent.Allowed plainEnv) claimedLog ∧
    ((claimedLog.filter ActionEvent.isClaim).map ActionEvent.action).Nodup := by
  have hlaw := executed_as_approved plainEnv claimed_reachable
  refine ⟨(hlaw.2.2.2 (seconds 5) { kind := some "email" } 11 1).1 rfl, ?_, hlaw.1, hlaw.2.1⟩
  obtain ⟨payload, hproposed, -, hraises⟩ :=
    (hlaw.2.2.2 (seconds 5) { kind := some "transfer" } 11 1).2 approvedLarge rfl
  have hpayload : payload = largePayload := by
    simpa [claimedLog, approvedLarge, largeDraft, DraftAction.decided] using hproposed
  exact hraises (hpayload ▸ largePayload_changes)

end GenusOs.Operations
