import GenusOs.Operations.Jobs
import GenusOs.Library.History
import Mathlib

/-!
# The history of the jobs

What the calls have written, in order, and what has become of a job by then. `WorkEvent.Allowed`
says when an entry may follow.
-/

namespace GenusOs.Operations

open GenusOs.Python Rows History

/-- What the calls have written. Each entry of a worker has the token and the time that it wrote
under. -/
inductive WorkEvent
  | enqueued (job : Uuid) (kind key : String) (payload : Json)
  | retired (job : Uuid) (time : Instant)
  | claimed (job token : Uuid) (time expiry : Instant)
  | checkpointed (job token : Uuid) (payload : Json) (time : Instant)
  | deferred (job token : Uuid) (busy : Bool) (time : Instant)
  | completed (job token : Uuid) (result : Json) (time : Instant)
  | saved (job token : Uuid) (key inputHash : String) (payload : Json) (time : Instant)

/-- The job that an entry is about. -/
def WorkEvent.job : WorkEvent → Uuid
  | .enqueued job .. | .retired job _ | .claimed job .. | .checkpointed job .. | .deferred job ..
  | .completed job .. | .saved job .. => job

/-- The entries that use an attempt. -/
def WorkEvent.isClaim : WorkEvent → Bool
  | .claimed .. => true
  | _ => false

/-- A claim that was given back unused. -/
def WorkEvent.isBusy : WorkEvent → Bool
  | .deferred _ _ busy _ => busy
  | _ => false

/-- The end of a job. -/
def WorkEvent.closes : WorkEvent → Bool
  | .retired .. | .completed .. => true
  | _ => false

/-- The entries that complete a job. -/
def WorkEvent.completes : WorkEvent → Bool
  | .completed .. => true
  | _ => false

/-- The tokens that claims have given out. -/
def WorkEvent.token? : WorkEvent → Option Uuid
  | .claimed _ token _ _ => some token
  | _ => none

/-- Who holds the job of an entry after it, and until when. -/
def WorkEvent.lease (holder : Option (Uuid × Instant)) : WorkEvent → Option (Uuid × Instant)
  | .claimed _ token _ expiry => some (token, expiry)
  | .retired .. | .deferred .. | .completed .. => none
  | _ => holder

/-- An entry moves the lease of its job only. -/
def holderStep (job : Uuid) (holder : Option (Uuid × Instant)) (e : WorkEvent) :
    Option (Uuid × Instant) :=
  if e.job = job then e.lease holder else holder

/-- Who holds a job, and until when: the lease of its last claim, unless it was given back since. -/
def holderOf (log : List WorkEvent) (job : Uuid) : Option (Uuid × Instant) :=
  log.foldl (holderStep job) none

/-- The attempts that a job has used: its claims, less those that were given back as busy. -/
def attemptsOf (log : List WorkEvent) (job : Uuid) : Int :=
  (log.countP fun e => e.job = job && e.isClaim : Nat) -
    (log.countP fun e => e.job = job && e.isBusy : Nat)

/-- A job is closed once it has been completed or retired. -/
def Closed (log : List WorkEvent) (job : Uuid) : Prop := ∃ e ∈ log, e.job = job ∧ e.closes = true

/-- The lease of the last claim, which has not run out. -/
def Held (log : List WorkEvent) (job token : Uuid) (time : Instant) : Prop :=
  ∃ expiry, holderOf log job = some (token, expiry) ∧ time < expiry

/-- The last lease has run out. -/
def Lapsed (log : List WorkEvent) (job : Uuid) (time : Instant) : Prop :=
  ∀ token expiry, holderOf log job = some (token, expiry) → expiry < time

/-- **When an entry may follow.** There is one job for a kind and a key. Only a job that is open and
that nobody holds is claimed or retired, and a claim has a token of its own. Everything else is
written under the lease of the last claim, before it runs out: a checkpoint repeats what was saved
before, and a fragment is saved once and of the one input of its job. -/
def WorkEvent.Allowed (env : Env) (front : List WorkEvent) : WorkEvent → Prop
  -- one job for a kind and a key
  | .enqueued job kind key _ =>
      ∀ job' kind' key' payload', .enqueued job' kind' key' payload' ∈ front →
      (job' = job ↔ kind' = kind ∧ key' = key)
  | .retired job time => ¬ Closed front job ∧ Lapsed front job time
  -- a token of its own, for an open job that nobody holds
  | .claimed job token time _ => ¬ Closed front job ∧
      Lapsed front job time ∧ some token ∉ front.map WorkEvent.token?
  | .checkpointed job token payload time => Held front job token time ∧
      ∀ token' payload' time', .checkpointed job token' payload' time' ∈ front →
        env.jsonbEq payload' payload = true
  | .deferred job token _ time | .completed job token _ time => Held front job token time
  -- a fragment is saved once, and all of a job are of one input
  | .saved job token key inputHash _ time => Held front job token time ∧
      ∀ token' key' inputHash' payload' time',
        .saved job token' key' inputHash' payload' time' ∈ front →
        key' ≠ key ∧ inputHash' = inputHash

variable {env : Env} {log new : List WorkEvent} {job : Uuid} {e : WorkEvent}

/-- Entries of other jobs move no lease. -/
theorem holderOf_append_of_ne (hne : ∀ e ∈ new, e.job ≠ job) :
    holderOf (log ++ new) job = holderOf log job := by
  induction new generalizing log with
  | nil => rw [List.append_nil]
  | cons e new ih =>
    obtain ⟨he, hnew⟩ := List.forall_mem_cons.mp hne
    rw [List.append_cons, ih hnew]
    unfold holderOf
    rw [List.foldl_append, List.foldl_cons, List.foldl_nil, holderStep, if_neg he]

/-- An entry of the job moves its lease. -/
theorem holderOf_concat (hjob : e.job = job) :
    holderOf (log ++ [e]) job = e.lease (holderOf log job) := by
  unfold holderOf
  rw [List.foldl_append, List.foldl_cons, List.foldl_nil, holderStep, if_pos hjob]

/-- A closed job stays closed. -/
theorem closed_append : Closed (log ++ new) job ↔ Closed log job ∨ Closed new job := by
  unfold Closed
  simp only [List.mem_append, or_and_right, exists_or]

theorem closed_singleton : Closed [e] job ↔ e.job = job ∧ e.closes = true := by
  unfold Closed
  simp

/-- Entries that are no claims and no deferrals of the job use no attempt of it. -/
theorem attemptsOf_append_of_ne
    (hne : ∀ e ∈ new, e.job = job → e.isClaim = false ∧ e.isBusy = false) :
    attemptsOf (log ++ new) job = attemptsOf log job := by
  have hnone {p : WorkEvent → Bool} (hp : ∀ e ∈ new, e.job = job → p e = false) :
      new.countP (fun e => e.job = job && p e) = 0 := by
    refine List.countP_eq_zero.mpr fun e he hboth => ?_
    obtain ⟨hjob, hpe⟩ := Bool.and_eq_true_iff.mp hboth
    rw [hp e he (of_decide_eq_true hjob)] at hpe
    cases hpe
  unfold attemptsOf
  rw [List.countP_append, List.countP_append, hnone fun e he hjob => (hne e he hjob).1,
    hnone fun e he hjob => (hne e he hjob).2]
  rfl

/-- One entry more, and the attempts. -/
theorem attemptsOf_concat (hjob : e.job = job) : attemptsOf (log ++ [e]) job =
    attemptsOf log job + (if e.isClaim then 1 else 0) - if e.isBusy then 1 else 0 := by
  unfold attemptsOf
  rw [List.countP_append, List.countP_append, List.countP_singleton, List.countP_singleton]
  simp only [hjob, decide_true, Bool.true_and, Nat.cast_add,
    Nat.cast_ite, Nat.cast_one, Nat.cast_zero]
  ring

/-! ## Lawful histories -/

/-- Nobody holds a job after its end. -/
theorem holderOf_of_closed (h : Lawful (WorkEvent.Allowed env) log) (hclosed : Closed log job) :
    holderOf log job = none := by
  induction log using List.reverseRecOn with
  | nil => rfl
  | append_singleton log e ih =>
    have hallowed := h log e [] rfl
    rw [closed_append, closed_singleton] at hclosed
    by_cases hjob : e.job = job
    · rw [holderOf_concat hjob]
      cases e with
      | retired | deferred | completed => rfl
      | claimed job' token time expiry =>
        obtain rfl : job' = job := hjob
        rcases hclosed with hclosed | ⟨-, hcloses⟩
        · exact absurd hclosed hallowed.1
        · cases hcloses
      | enqueued | checkpointed | saved =>
        rcases hclosed with hclosed | ⟨-, hcloses⟩
        · exact ih h.front hclosed
        · cases hcloses
    · rw [holderOf_append_of_ne fun e' he' => List.mem_singleton.mp he' ▸ hjob]
      exact ih h.front (hclosed.resolve_right fun hboth => hjob hboth.1)

/-- **A job is completed once.** -/
theorem completions_nodup (h : Lawful (WorkEvent.Allowed env) log) :
    ((log.filter WorkEvent.completes).map WorkEvent.job).Nodup := by
  refine h.nodup fun front e hfront hallowed hcompletes e' he' hcompletes' heq => ?_
  cases e with
  | completed job token result time =>
    obtain ⟨expiry, hholder, -⟩ := hallowed
    have hcloses : e'.closes = true := by
      cases e' with
      | completed => rfl
      | _ => cases hcompletes'
    have hnone : holderOf front job = none := holderOf_of_closed hfront ⟨e', he', heq, hcloses⟩
    rw [hnone] at hholder
    cases hholder
  | _ => cases hcompletes

end GenusOs.Operations
