import GenusOs.Library.Rows
import GenusOs.Library.Run
import Mathlib

/-!
# Durable approvals

A gate of a workflow run asks its question in a row of `workflow_approvals`, and somebody answers
it, or the clock does. Requests, decisions by either key and expiry sweeps are calls of any number
of processes; a call is one statement with its commit, except that a request reads the row back in
a second one.

* `Settling`: what a call makes of a row.
* `first_decision_wins`: one row for a question, and one answer to it.
-/

namespace GenusOs.Engine.Workflow

open GenusOs.Rows (Rowwise)

/-- The name of a run or of a row. -/
abbrev Uuid := Nat

def DEFAULT_TENANT : String := "default"

/-- `tenant_id or DEFAULT_TENANT`. -/
def tenantOr (tenantId : String) : String := if tenantId = "" then DEFAULT_TENANT else tenantId

inductive ApprovalStatus | pending | approved | rejected | expired
  deriving DecidableEq, Repr

/-- `ApprovalDecision`: `pending` is nothing anyone decides. -/
inductive ApprovalDecision | approved | rejected | expired
  deriving DecidableEq, Repr

def ApprovalDecision.value : ApprovalDecision → ApprovalStatus
  | .approved => .approved
  | .rejected => .rejected
  | .expired => .expired

/-- A row of `workflow_approvals`, with its times in seconds. -/
structure ApprovalRequest where
  id : Uuid
  tenantId : String
  runId : Uuid
  workflowId : String
  stepId : String
  prompt : String
  detail : String
  status : ApprovalStatus := .pending
  expiresAt : Nat
  createdAt : Nat
  decidedBy : Option String := none
  decidedAt : Option Nat := none
  decisionNote : Option String := none
  deriving DecidableEq, Repr

/-- `UNIQUE (run_id, step_id)`. -/
def ApprovalRequest.key (a : ApprovalRequest) : Uuid × String := (a.runId, a.stepId)

/-! ## The statements -/

/-- What `request_approval` is asked with. -/
structure Ask where
  runId : Uuid
  workflowId : String
  stepId : String
  prompt : String
  detail : String := ""
  timeoutHours : Int := 24
  tenantId : String := DEFAULT_TENANT
  deriving DecidableEq, Repr

/-- `datetime.max` in seconds. -/
def MAX_SECONDS : Nat := 253402300799

/-- `datetime.now(UTC) + timedelta(hours=max(1, timeout_hours))`, an `OverflowError` beyond the last
date. -/
def Ask.expiresAt (ask : Ask) (clock : Nat) : Option Nat :=
  let deadline := clock + (max 1 ask.timeoutHours).toNat * 3600
  if deadline ≤ MAX_SECONDS then some deadline else none

/-- `INSERT … ON CONFLICT (run_id, step_id) DO NOTHING` with the identity the database draws: the
table after it, and whether a row was created. A deadline that overflows or an identity that is
taken raises. -/
def insertApproval (ask : Ask) (id : Uuid) (clock now : Nat) (rows : List ApprovalRequest) :
    Option (List ApprovalRequest × Bool) :=
  match ask.expiresAt clock with
  | none => none
  | some expiresAt =>
    if rows.any (·.key = (ask.runId, ask.stepId)) then some (rows, false)
    else if rows.any (·.id = id) then none
    else
      some (rows ++
        [{ id, tenantId := tenantOr ask.tenantId, runId := ask.runId,
           workflowId := ask.workflowId, stepId := ask.stepId, prompt := ask.prompt,
           detail := ask.detail, expiresAt, createdAt := now }], true)

/-- The `SELECT` of `request_approval`. -/
def selectApproval (runId : Uuid) (stepId : String) (rows : List ApprovalRequest) :
    Option ApprovalRequest :=
  rows.find? (·.key = (runId, stepId))

/-- What a decision writes. -/
def ApprovalRequest.decide (decision : ApprovalDecision) (decidedBy note : String) (now : Nat)
    (a : ApprovalRequest) : ApprovalRequest :=
  { a with
    status := decision.value, decidedBy := some decidedBy, decidedAt := some now
    decisionNote := some note }

/-- The `WHERE` of `decide_approval`. -/
def asksFor (runId : Uuid) (stepId tenantId : String) (a : ApprovalRequest) : Bool :=
  a.runId = runId && a.stepId = stepId && a.tenantId = tenantOr tenantId && a.status = .pending

/-- The `WHERE` of `decide_approval_by_id`. -/
def asksById (id : Uuid) (tenantId : String) (a : ApprovalRequest) : Bool :=
  a.id = id && a.tenantId = tenantOr tenantId && a.status = .pending

/-- The `WHERE` of `expire_overdue_approvals`. -/
def overdue (tenantId : String) (now : Nat) (a : ApprovalRequest) : Bool :=
  a.tenantId = tenantOr tenantId && a.status = .pending && a.expiresAt ≤ now

/-- What the expiry writes. -/
def ApprovalRequest.expire (now : Nat) (a : ApprovalRequest) : ApprovalRequest :=
  { a with
    status := .expired, decidedAt := some now, decidedBy := a.decidedBy <|> some "timeout" }

/-- `expire_overdue_approvals`, without its answer. -/
def expireOverdueApprovals (tenantId : String) (now : Nat) (rows : List ApprovalRequest) :
    List ApprovalRequest :=
  Rows.updateWhere (overdue tenantId now) (·.expire now) rows

/-! ## Calls in any order -/

/-- The table, the requests between their two statements, and the rows that calls were told they
settled: one entry for a decider's `True` and for each row an expiry returned. -/
structure Board where
  rows : List ApprovalRequest := []
  asking : List (Ask × Bool) := []
  told : List Uuid := []
  deriving DecidableEq, Repr

inductive Call
  | insert (ask : Ask) (id : Uuid) (clock now : Nat)
  | select (ask : Ask) (created : Bool)
  | decide (runId : Uuid) (stepId : String) (decision : ApprovalDecision)
      (decidedBy note tenantId : String) (now : Nat)
  | decideById (id : Uuid) (decision : ApprovalDecision) (decidedBy note tenantId : String)
      (now : Nat)
  | expireOverdue (tenantId : String) (now : Nat)
  deriving DecidableEq, Repr

/-- `UPDATE … WHERE p`, and the caller is told of what it has changed. -/
def Board.settle (b : Board) (p : ApprovalRequest → Bool) (f : ApprovalRequest → ApprovalRequest) :
    Board :=
  { b with
    rows := Rows.updateWhere p f b.rows
    told := b.told ++ (b.rows.filter p).map (·.id) }

/-- One statement with its commit: a row lock is held to the commit, and whoever waits for it reads
the row again. A request that raises changes nothing. -/
def Board.step (b : Board) : Call → Option Board
  | .insert ask id clock now =>
    match insertApproval ask id clock now b.rows with
    | none => some b
    | some (rows, created) => some { b with rows, asking := b.asking ++ [(ask, created)] }
  | .select ask created =>
    if (ask, created) ∈ b.asking then some { b with asking := b.asking.erase (ask, created) }
    else none
  | .decide runId stepId decision decidedBy note tenantId now =>
    some (b.settle (asksFor runId stepId tenantId) (·.decide decision decidedBy note now))
  | .decideById id decision decidedBy note tenantId now =>
    some (b.settle (asksById id tenantId) (·.decide decision decidedBy note now))
  | .expireOverdue tenantId now => some (b.settle (overdue tenantId now) (·.expire now))

def approvals : System Board Call := .ofStep (· = {}) Board.step

variable {b c d : Board} {call : Call} {rows : List ApprovalRequest}

/-! ## What a call makes of a row -/

/-- A row stays, or a pending one is settled; nothing else of the question changes. -/
inductive Settling (a : ApprovalRequest) : ApprovalRequest → Prop
  | stays : Settling a a
  | settled {status : ApprovalStatus} {decidedBy note : Option String} {decidedAt : Option Nat}
      (hpending : a.status = .pending) (hstatus : status ≠ .pending) :
      Settling a { a with status, decidedBy, decidedAt, decisionNote := note }

/-- The question of a row. -/
def ApprovalRequest.question (a : ApprovalRequest) :
    Uuid × String × Uuid × String × String × String × String × Nat × Nat :=
  (a.id, a.tenantId, a.runId, a.workflowId, a.stepId, a.prompt, a.detail, a.expiresAt, a.createdAt)

theorem Settling.question {a a' : ApprovalRequest} (h : Settling a a') :
    a'.question = a.question := by
  cases h <;> rfl

theorem Settling.id {a a' : ApprovalRequest} (h : Settling a a') : a'.id = a.id := by
  cases h <;> rfl

theorem Settling.key {a a' : ApprovalRequest} (h : Settling a a') : a'.key = a.key := by
  cases h <;> rfl

/-- Settled rows stay as they are. -/
theorem Settling.eq {a a' : ApprovalRequest} (h : Settling a a') (hs : a.status ≠ .pending) :
    a' = a := by
  cases h with
  | stays => rfl
  | settled hpending => exact absurd hpending hs

theorem Settling.trans {a a' a'' : ApprovalRequest} (h : Settling a a') (h' : Settling a' a'') :
    Settling a a'' := by
  cases h with
  | stays => exact h'
  | settled hpending hstatus =>
    rw [h'.eq hstatus]
    exact .settled hpending hstatus

/-- A statement that settles pending rows, and says whether one was pending. -/
structure Settles (p : ApprovalRequest → Bool) (f : ApprovalRequest → ApprovalRequest) : Prop where
  pending : ∀ a, p a = true → a.status = .pending
  settled : ∀ a, p a = true → Settling a (f a)
  done : ∀ a, (f a).status ≠ .pending

theorem settles_decide {p : ApprovalRequest → Bool} (hp : ∀ a, p a = true → a.status = .pending)
    (decision : ApprovalDecision) (decidedBy note : String) (now : Nat) :
    Settles p (·.decide decision decidedBy note now) where
  pending := hp
  settled a ha := .settled (hp a ha) (by cases decision <;> simp [ApprovalDecision.value])
  done a := by cases decision <;> simp [ApprovalRequest.decide, ApprovalDecision.value]

theorem asksFor_pending {runId : Uuid} {stepId tenantId : String} (a : ApprovalRequest)
    (h : asksFor runId stepId tenantId a = true) : a.status = .pending := by
  unfold asksFor at h
  simp only [Bool.and_eq_true, decide_eq_true_eq] at h
  exact h.2

theorem asksById_pending {id : Uuid} {tenantId : String} (a : ApprovalRequest)
    (h : asksById id tenantId a = true) : a.status = .pending := by
  unfold asksById at h
  simp only [Bool.and_eq_true, decide_eq_true_eq] at h
  exact h.2

theorem overdue_pending {tenantId : String} {now : Nat} (a : ApprovalRequest)
    (h : overdue tenantId now a = true) : a.status = .pending := by
  unfold overdue at h
  simp only [Bool.and_eq_true, decide_eq_true_eq] at h
  exact h.1.2

theorem settles_expire (tenantId : String) (now : Nat) :
    Settles (overdue tenantId now) (·.expire now) where
  pending := overdue_pending
  settled a ha := .settled (overdue_pending a ha) (by simp)
  done a := by simp [ApprovalRequest.expire]

/-- What a call comes to. -/
inductive CallCase (b : Board) : Board → Prop
  | reads {asking : List (Ask × Bool)} : CallCase b { b with asking }
  | asked {row : ApprovalRequest} {asking : List (Ask × Bool)}
      (hkey : ∀ a ∈ b.rows, a.key ≠ row.key) (hid : ∀ a ∈ b.rows, a.id ≠ row.id)
      (hpending : row.status = .pending) :
      CallCase b { b with rows := b.rows ++ [row], asking }
  | settled {p : ApprovalRequest → Bool} {f : ApprovalRequest → ApprovalRequest}
      (h : Settles p f) : CallCase b (b.settle p f)

theorem insertApproval_some {ask : Ask} {id : Uuid} {clock now : Nat} {created : Bool}
    {rows' : List ApprovalRequest}
    (h : insertApproval ask id clock now rows = some (rows', created)) :
    rows' = rows ∨ ∃ row : ApprovalRequest, (∀ a ∈ rows, a.key ≠ row.key) ∧
      (∀ a ∈ rows, a.id ≠ row.id) ∧ row.status = .pending ∧ row.key = (ask.runId, ask.stepId) ∧
      rows' = rows ++ [row] := by
  unfold insertApproval at h
  split at h
  · cases h
  · split at h
    · cases h
      exact .inl rfl
    · next hkey =>
      split at h
      · cases h
      · next hid =>
        cases h
        simp only [List.any_eq_true, decide_eq_true_eq, not_exists, not_and] at hkey hid
        refine .inr ⟨_, ?_, ?_, ?_, ?_, rfl⟩
        · exact hkey
        · exact hid
        · rfl
        · rfl

/-- **Step lemma.** A call reads, asks a new question, or settles pending ones. -/
theorem step_cases (h : b.step call = some c) : CallCase b c := by
  cases call with
  | insert ask id clock now =>
    simp only [Board.step] at h
    split at h
    · cases h
      exact @CallCase.reads b b.asking
    · next rows created hinsert =>
      cases h
      rcases insertApproval_some hinsert with rfl | ⟨row, hkey, hid, hpending, -, rfl⟩
      · exact .reads
      · exact .asked hkey hid hpending
  | select ask created =>
    simp only [Board.step] at h
    split at h
    · cases h
      exact .reads
    · cases h
  | decide runId stepId decision decidedBy note tenantId now =>
    cases h
    exact .settled (settles_decide asksFor_pending decision decidedBy note now)
  | decideById id decision decidedBy note tenantId now =>
    cases h
    exact .settled (settles_decide asksById_pending decision decidedBy note now)
  | expireOverdue tenantId now =>
    cases h
    exact .settled (settles_expire tenantId now)

theorem Settles.rowwise {p : ApprovalRequest → Bool} {f : ApprovalRequest → ApprovalRequest}
    (h : Settles p f) : Rowwise Settling rows (Rows.updateWhere p f rows) :=
  .updateWhere (fun _ => .stays) fun a _ ha => h.settled a ha

/-- What became of a row. -/
theorem CallCase.kept (h : CallCase b c) {a : ApprovalRequest} (ha : a ∈ b.rows) :
    ∃ a' ∈ c.rows, Settling a a' := by
  cases h with
  | reads => exact ⟨a, ha, .stays⟩
  | asked => exact ⟨a, List.mem_append_left _ ha, .stays⟩
  | settled h => exact h.rowwise.kept ha

/-! ## The invariant -/

structure Fair (b : Board) : Prop where
  keys : Rows.KeyUnique ApprovalRequest.key b.rows
  ids : Rows.KeyUnique ApprovalRequest.id b.rows
  told : ∀ a ∈ b.rows, b.told.count a.id = if a.status = .pending then 0 else 1
  known : ∀ id ∈ b.told, ∃ a ∈ b.rows, a.id = id

theorem settle_unique {κ : Type} {key : ApprovalRequest → κ} {p : ApprovalRequest → Bool}
    {f : ApprovalRequest → ApprovalRequest} (h : Settles p f)
    (hkey : ∀ a a', Settling a a' → key a' = key a) (hu : Rows.KeyUnique key rows) :
    Rows.KeyUnique key (Rows.updateWhere p f rows) :=
  hu.updateWhere fun a ha => hkey a (f a) (h.settled a ha)

/-- A statement tells of a row once, where it changes it. -/
theorem count_told {p : ApprovalRequest → Bool} (hids : Rows.KeyUnique ApprovalRequest.id rows)
    {a : ApprovalRequest} (ha : a ∈ rows) :
    ((rows.filter p).map (·.id)).count a.id = if p a then 1 else 0 := by
  have hnodup : ((rows.filter p).map (·.id)).Nodup :=
    hids.sublist (List.filter_sublist.map _)
  split
  · next hp =>
    exact List.count_eq_one_of_mem hnodup
      (List.mem_map_of_mem (List.mem_filter.mpr ⟨ha, hp⟩))
  · next hp =>
    rw [List.count_eq_zero]
    intro hmem
    obtain ⟨a', ha', hid⟩ := List.mem_map.mp hmem
    obtain ⟨hmem', hp'⟩ := List.mem_filter.mp ha'
    rw [hids.eq hmem' ha hid] at hp'
    exact hp hp'

theorem fair_step (hb : Fair b) (h : CallCase b c) : Fair c := by
  cases h with
  | reads => exact ⟨hb.keys, hb.ids, hb.told, hb.known⟩
  | @asked row asking hkey hid hpending =>
    refine ⟨hb.keys.insert hkey, hb.ids.insert hid, fun a ha => ?_, fun id hmem => ?_⟩
    · rcases List.mem_append.mp ha with ha | ha
      · exact hb.told a ha
      · rw [List.mem_singleton.mp ha, if_pos hpending, List.count_eq_zero]
        intro hmem
        obtain ⟨a', ha', heq⟩ := hb.known _ hmem
        exact hid a' ha' heq
    · obtain ⟨a, ha, heq⟩ := hb.known id hmem
      exact ⟨a, List.mem_append_left _ ha, heq⟩
  | @settled p f h =>
    refine ⟨settle_unique h (fun _ _ hs => hs.key) hb.keys,
      settle_unique h (fun _ _ hs => hs.id) hb.ids, fun a' ha' => ?_, fun id hmem => ?_⟩
    · obtain ⟨a, ha, rfl⟩ := Rows.mem_updateWhere.mp ha'
      show (b.told ++ (b.rows.filter p).map (·.id)).count _ = _
      have hcount := hb.told a ha
      rw [List.count_append]
      by_cases hp : p a = true
      · -- the row was pending, so nobody had been told
        rw [if_pos (h.pending a hp)] at hcount
        rw [if_pos hp, (h.settled a hp).id, hcount, count_told hb.ids ha, if_pos hp,
          if_neg (h.done a)]
      · rw [if_neg hp, hcount, count_told hb.ids ha, if_neg hp, Nat.add_zero]
    · have hold : ∃ a ∈ b.rows, a.id = id := by
        rcases List.mem_append.mp hmem with hmem | hmem
        · exact hb.known id hmem
        · obtain ⟨a, ha, heq⟩ := List.mem_map.mp hmem
          exact ⟨a, (List.mem_filter.mp ha).1, heq⟩
      obtain ⟨a, ha, rfl⟩ := hold
      obtain ⟨a', ha', hs⟩ := h.rowwise.kept ha
      exact ⟨a', ha', hs.id⟩

theorem reachable_fair (h : approvals.Reachable b) : Fair b :=
  h.invariant (I := Fair)
    (fun b h₀ => by
      rw [show b = {} from h₀]
      exact ⟨List.nodup_nil, List.nodup_nil, by simp, by simp⟩)
    fun _ _ _ hb hs => fair_step hb (step_cases hs)

/-- **Run lemma.** Over a run a row stays, or is settled once. -/
theorem run_settling {calls : List Call} (h : approvals.Run b calls c) {a : ApprovalRequest}
    (ha : a ∈ b.rows) : ∃ a' ∈ c.rows, Settling a a' := by
  induction h generalizing a with
  | nil => exact ⟨a, ha, .stays⟩
  | cons hstep _ ih =>
    obtain ⟨a₁, ha₁, hs₁⟩ := (step_cases hstep).kept ha
    obtain ⟨a₂, ha₂, hs₂⟩ := ih ha₁
    exact ⟨a₂, ha₂, hs₁.trans hs₂⟩

/-- Every request between its statements has its row. -/
def Answerable (b : Board) : Prop :=
  ∀ q ∈ b.asking, ∃ a ∈ b.rows, a.key = (q.1.runId, q.1.stepId)

theorem answerable_step (hb : Answerable b) (h : b.step call = some c) : Answerable c := by
  have hkept : ∀ q ∈ b.asking, ∃ a ∈ c.rows, a.key = (q.1.runId, q.1.stepId) := by
    intro q hq
    obtain ⟨a, ha, hkey⟩ := hb q hq
    obtain ⟨a', ha', hs⟩ := (step_cases h).kept ha
    exact ⟨a', ha', hs.key.trans hkey⟩
  cases call with
  | insert ask id clock now =>
    simp only [Board.step] at h
    split at h
    · cases h
      exact hb
    · next rows created hinsert =>
      cases h
      intro q hq
      rcases List.mem_append.mp hq with hq | hq
      · exact hkept q hq
      · rw [List.mem_singleton.mp hq]
        unfold insertApproval at hinsert
        split at hinsert
        · cases hinsert
        · split at hinsert
          · next hkey =>
            cases hinsert
            obtain ⟨a, ha, heq⟩ := List.any_eq_true.mp hkey
            exact ⟨a, ha, of_decide_eq_true heq⟩
          · split at hinsert
            · cases hinsert
            · cases hinsert
              exact ⟨_, List.mem_append_right _ (List.mem_singleton_self _), rfl⟩
  | select ask created =>
    simp only [Board.step] at h
    split at h
    · cases h
      exact fun q hq => hb q (List.mem_of_mem_erase hq)
    · cases h
  | decide | decideById | expireOverdue =>
    cases h
    exact hkept

/-- The row of a request never vanishes before it is read back. -/
theorem request_reads (hb : approvals.Reachable b) {ask : Ask} {created : Bool}
    (h : (ask, created) ∈ b.asking) : (selectApproval ask.runId ask.stepId b.rows).isSome := by
  have hI : Answerable b := hb.invariant (I := Answerable)
    (fun b h₀ => by
      rw [show b = {} from h₀]
      simp [Answerable])
    fun _ _ _ hb hs => answerable_step hb hs
  obtain ⟨a, ha, hkey⟩ := hI _ h
  unfold selectApproval
  rw [List.find?_isSome]
  exact ⟨a, ha, decide_eq_true hkey⟩

/-- A repeated request changes no row that is there. -/
theorem insert_keeps {ask : Ask} {id : Uuid} {clock now : Nat}
    (h : b.step (.insert ask id clock now) = some c) {a : ApprovalRequest} (ha : a ∈ b.rows) :
    a ∈ c.rows := by
  simp only [Board.step] at h
  split at h
  · cases h
    exact ha
  · next rows created hinsert =>
    cases h
    rcases insertApproval_some hinsert with rfl | ⟨row, -, -, -, -, rfl⟩
    · exact ha
    · exact List.mem_append_left _ ha

/-- **First decision wins.** There is one row for a question; who settled it was told, and nobody
else; a settled row never changes, of a pending one only its status and its decision, and a request
changes no row. -/
theorem first_decision_wins (hb : approvals.Reachable b) :
    Rows.KeyUnique ApprovalRequest.key b.rows ∧
    (∀ a ∈ b.rows, b.told.count a.id = if a.status = .pending then 0 else 1) ∧
    (∀ calls c, approvals.Run b calls c → ∀ a ∈ b.rows,
      ∃ a' ∈ c.rows, a'.question = a.question ∧ (a.status ≠ .pending → a' = a)) ∧
    ∀ ask id clock now c, approvals.step b (.insert ask id clock now) c →
      ∀ a ∈ b.rows, a ∈ c.rows := by
  have hfair := reachable_fair hb
  refine ⟨hfair.keys, hfair.told, fun calls c hrun a ha => ?_, fun _ _ _ _ _ h a ha => ?_⟩
  · obtain ⟨a', ha', hs⟩ := run_settling hrun ha
    exact ⟨a', ha', hs.question, hs.eq⟩
  · exact insert_keeps h ha

def sampleAsk : Ask where
  runId := 1
  workflowId := "board-pack"
  stepId := "confirm-send"
  prompt := "Send this to the board?"

/-- Two requests for one gate; the operator rejects it, a second operator approves it by its row,
and the clock runs out. -/
def sampleCalls : List Call :=
  [.insert sampleAsk 7 0 0, .insert { sampleAsk with prompt := "Send it?" } 8 60 60,
   .select sampleAsk true,
   .decide 1 "confirm-send" .rejected "operator" "not yet" "" 120,
   .decideById 7 .approved "second" "" DEFAULT_TENANT 180,
   .expireOverdue "" 90000]

theorem first_rejection_stands : ∃ b, approvals.Reachable b ∧ b.told = [7] ∧
    (∀ a ∈ b.rows, a.status = .rejected ∧ a.prompt = "Send this to the board?") ∧
    ∀ a ∈ b.rows, b.told.count a.id = if a.status = .pending then 0 else 1 := by
  have hruns : (sampleCalls.foldlM Board.step {}).any (fun b => b.told = [7] &&
      b.rows.all fun a => a.status = .rejected && a.prompt = "Send this to the board?") = true := by
    decide +kernel
  obtain ⟨b, hb, hdone⟩ := (Option.any_eq_true _ _).mp hruns
  have hreach : approvals.Reachable b := ⟨_, _, rfl, System.run_of_foldlM hb⟩
  simp only [Bool.and_eq_true, decide_eq_true_eq, List.all_eq_true] at hdone
  exact ⟨b, hreach, hdone.1, hdone.2, (first_decision_wins hreach).2.1⟩

end GenusOs.Engine.Workflow
