import GenusOs.Memory.WriteJobsSettle
import Mathlib

/-!
# Deferred writes are taken up again

A sweep passes a stale job over only where it takes as many that are at least as stale, and each
claim of one of them moves that one behind.

* `mem_selectStale_of_ahead`, `ahead_step`: what a sweep selects, and what stands in front of a job.
* `done_jobs_stay_and_stale_jobs_selected`: the runs.
-/

namespace GenusOs.Memory.WriteJobs

open Rows

variable {s t : State} {act : Act} {M : Int} {job other : Job} {jobId pid : Nat} {now : Int}
  {staleAfterMinutes maxAttempts : Int} {limit : Nat} {tie : Job → Nat} {jobs : List Job}

/-! ## The selection -/

/-- `other` may be selected in the place of a job. -/
def Job.inFront (maxAttempts : Int) (job other : Job) : Bool :=
  (other.status = .pending ∨ other.status = .running) ∧ other.attempts < maxAttempts ∧
    other.updatedAt ≤ job.updatedAt

/-- A job that is open counts itself. -/
def ahead (maxAttempts : Int) (job : Job) (jobs : List Job) : Nat :=
  jobs.countP (job.inFront maxAttempts)

/-- **A stale job is selected**, unless `limit` others stand in front of it. -/
theorem mem_selectStale_of_ahead (hjob : job ∈ jobs)
    (hstale : job.stale now staleAfterMinutes maxAttempts = true)
    (hfew : ahead maxAttempts job jobs ≤ limit) :
    job ∈ selectStale now staleAfterMinutes maxAttempts limit tie jobs := by
  obtain ⟨hstatus, hattempts, hage⟩ := of_decide_eq_true hstale
  refine mem_take_of_countP (q := fun other => decide (other.updatedAt ≤ job.updatedAt))
    (List.pairwise_insertionSort _ _) ?_ ?_ (decide_eq_true le_rfl) ?_
  · intro other hle
    refine decide_eq_true ?_
    exact (Prod.Lex.toLex_le_toLex.mp hle).elim le_of_lt fun heq => heq.1.le
  · exact (List.mem_insertionSort _).mpr (List.mem_filter.mpr ⟨hjob, hstale⟩)
  · rw [(List.perm_insertionSort _ _).countP_eq, List.countP_filter]
    refine le_trans (List.countP_mono_left fun other _ hother => ?_) hfew
    rw [Bool.and_eq_true] at hother
    obtain ⟨hstatus', hattempts', -⟩ := of_decide_eq_true hother.2
    exact decide_eq_true ⟨hstatus', hattempts', of_decide_eq_true hother.1⟩

/-! ## What stands in front of a job -/

/-- The statement writes after an instant. -/
def Act.After (instant : Int) : Act → Prop
  | .enqueue _ now | .claim _ now | .finish _ now => instant < now
  | _ => True

/-- The claims of jobs that stand in front. -/
def overtaken (maxAttempts : Int) (job : Job) (s : State) : Act → List Job
  | .claim pid _ =>
    match s.procs pid with
    | .claiming jobId _ => s.jobs.filter fun other =>
        other.id = jobId && job.inFront maxAttempts other
    | _ => []
  | _ => []

theorem inFront_of_after (h : job.updatedAt < now) (hnow : other.updatedAt = now) :
    job.inFront maxAttempts other = false := by
  refine decide_eq_false fun hfront => ?_
  rw [hnow] at hfront
  exact absurd hfront.2.2 (not_le.mpr h)

theorem overtaken_claim {rest : List Nat} (hphase : s.procs pid = .claiming jobId rest) :
    overtaken maxAttempts job s (.claim pid now) =
      s.jobs.filter fun other => other.id = jobId && job.inFront maxAttempts other := by
  simp only [overtaken, hphase]

/-- **Step lemma.** -/
theorem ahead_step (hafter : act.After job.updatedAt) (h : Moves s act t) :
    ahead maxAttempts job t.jobs + (overtaken maxAttempts job s act).length ≤
      ahead maxAttempts job s.jobs := by
  cases h with
  | enqueue new now _ =>
    have hlater : job.updatedAt < now := hafter
    unfold ahead
    rw [List.countP_append, List.countP_singleton, inFront_of_after hlater rfl]
    exact le_rfl
  | claim pid now jobId rest hphase _ =>
    have hlater : job.updatedAt < now := hafter
    rw [overtaken_claim hphase]
    exact (countP_updateWhere_of_leaves fun _ _ => inFront_of_after hlater rfl).le
  | vanished pid now jobId rest hphase hnone =>
    rw [overtaken_claim hphase, List.filter_eq_nil_iff.mpr]
    · exact le_rfl
    · intro other hother
      rw [Bool.and_eq_true, not_and]
      exact fun hid => absurd (of_decide_eq_true hid) (hnone other hother)
  | finish pid now jobId outcome rest _ =>
    have hlater : job.updatedAt < now := hafter
    have hleaves : ∀ r : Job, decide (r.id = jobId) = true →
        job.inFront maxAttempts (r.finished now outcome) = false := by
      intro r _
      refine inFront_of_after hlater ?_
      cases outcome <;> rfl
    exact le_trans (Nat.le_add_right _ _) (countP_updateWhere_of_leaves hleaves).le
  | _ => exact le_rfl

/-- **Run lemma.** -/
theorem ahead_run {s t : State × List Job} {acts : List Act}
    (hafter : ∀ act ∈ acts, act.After job.updatedAt)
    (h : (queue.record (overtaken maxAttempts job)).Run s acts t) :
    ahead maxAttempts job t.1.jobs + t.2.length ≤ ahead maxAttempts job s.1.jobs + s.2.length := by
  refine h.preserves_of_labels (I := fun u => ahead maxAttempts job u.1.jobs + u.2.length ≤
    ahead maxAttempts job s.1.jobs + s.2.length) ?_ hafter le_rfl
  rintro u act v hact hu ⟨hstep, hnotes⟩
  have hone : ahead maxAttempts job v.1.jobs + (overtaken maxAttempts job u.1 act).length ≤
      ahead maxAttempts job u.1.jobs := ahead_step hact (step_moves hstep)
  rw [hnotes, List.length_append]
  omega

/-! ## Runs -/

theorem settled_of_reachable (hM : 0 ≤ M) (h : (queue.restrict (ClaimsFree M)).Reachable s) :
    Settled M s := by
  refine h.invariant (I := Settled M) ?_ ?_
  · rintro s rfl
    exact settled_init
  · rintro s act t hs ⟨hfree, hstep⟩
    exact settled_step hM hs hfree (step_moves hstep)

/-- **Run lemma.** -/
theorem done_run {acts : List Act} (hM : 0 ≤ M) (hs : Settled M s)
    (h : (queue.restrict (ClaimsFree M)).Run s acts t) (hjob : job ∈ s.jobs)
    (hdone : job.status = .done) : job ∈ t.jobs := by
  refine (h.preserves (I := fun u => Settled M u ∧ job ∈ u.jobs) ?_ ⟨hs, hjob⟩).2
  rintro u act v ⟨hu, hmem⟩ ⟨hfree, hstep⟩
  have hmoves := step_moves hstep
  exact ⟨settled_step hM hu hfree hmoves, done_step hu hfree hmoves hmem hdone⟩

/-- In the runs that take jobs up alone every claim is free. -/
theorem claimsFree_run {acts : List Act} (hM : 0 < M) (ha : Apart M s)
    (h : (queue.restrict (TakesUpAlone M)).Run s acts t) :
    (queue.restrict (ClaimsFree M)).Run s acts t := by
  induction h with
  | nil s => exact .nil s
  | cons hs _ ih =>
    obtain ⟨halone, hstep⟩ := hs
    have hnext := apart_step hM ha halone (step_moves hstep)
    exact .cons ⟨claimsFree_of_apart ha _, hstep⟩ (ih hnext)

/-- **A deferred write settles once where its claims are free.** In the runs whose claims each find
their job open, with attempts left and with nobody at work on it, a job that is done stays as it is
and no job has more than `M` attempts; so in those where no job is taken up while another process
has it. In all runs a stale job is selected by the sweep after at most as many claims of jobs in
front of it as its limit falls short of them. -/
theorem done_jobs_stay_and_stale_jobs_selected (M : Int) :
    (0 ≤ M → ∀ s, (queue.restrict (ClaimsFree M)).Reachable s →
      KeyUnique Job.id s.jobs ∧ (∀ job ∈ s.jobs, job.attempts ≤ M) ∧
      ∀ acts t, (queue.restrict (ClaimsFree M)).Run s acts t →
        ∀ job ∈ s.jobs, job.status = .done → job ∈ t.jobs) ∧
    (0 < M → ∀ s, (queue.restrict (TakesUpAlone M)).Reachable s →
      (queue.restrict (ClaimsFree M)).Reachable s) ∧
    ∀ s t acts job maxAttempts claims,
      (queue.record (overtaken maxAttempts job)).Run (s, []) acts (t, claims) →
      (∀ act ∈ acts, act.After job.updatedAt) →
      job ∈ t.jobs → job.status ≠ .done → job.status ≠ .failed → job.attempts < maxAttempts →
      ∀ limit, ahead maxAttempts job s.jobs ≤ limit + claims.length →
      ∀ now staleAfterMinutes tie, job.updatedAt < now - staleAfterMinutes * 60000000 →
        job ∈ selectStale now staleAfterMinutes maxAttempts limit tie t.jobs := by
  refine ⟨?_, ?_, ?_⟩
  · intro hM s hs
    have hsettled := settled_of_reachable hM hs
    exact ⟨hsettled.keys, hsettled.attempts, fun acts t hrun job hjob hdone =>
      done_run hM hsettled hrun hjob hdone⟩
  · rintro hM s ⟨_, acts, rfl, hrun⟩
    exact ⟨{}, acts, rfl, claimsFree_run hM apart_init hrun⟩
  · intro s t acts job maxAttempts claims hrun hafter hjob hdone hfailed hattempts limit hahead now
      staleAfterMinutes tie hage
    have hopen : job.status = .pending ∨ job.status = .running := by
      cases hstatus : job.status with
      | pending => exact .inl rfl
      | running => exact .inr rfl
      | done => exact absurd hstatus hdone
      | failed => exact absurd hstatus hfailed
    have hfew : ahead maxAttempts job t.jobs + claims.length ≤ ahead maxAttempts job s.jobs :=
      ahead_run hafter hrun
    exact mem_selectStale_of_ahead hjob (decide_eq_true ⟨hopen, hattempts, hage⟩) (by omega)

/-- Two jobs that wait, in front of one whose worker has died. -/
def threeJobs : State where
  jobs := [⟨1, "default", "note", "conversation", .pending, 0, none, none, 0⟩,
    ⟨2, "default", "note", "conversation", .pending, 0, none, none, 0⟩,
    ⟨3, "default", "note", "conversation", .running, 1, none, none, 1⟩]

/-- A job is done after its worker, which takes it up alone, has claimed it and stored a fact, and
the next sweep leaves it so. One whose worker has died is passed over by a sweep of two jobs in
front of it, which it claims, the second without an outcome; the next sweep takes the job, though it
takes one only. -/
theorem worker_settles :
    (∃ s acts t, (queue.restrict (TakesUpAlone 3)).Reachable s ∧
      (queue.restrict (ClaimsFree 3)).Reachable s ∧
      (queue.restrict (ClaimsFree 3)).Run s acts t ∧
      acts = [.sweep 2 15 3 20, .select 2 1000000000 Job.id] ∧
      (∀ job ∈ s.jobs, job.attempts ≤ 3) ∧
      ∃ job ∈ s.jobs, job.status = .done ∧ job.factIds = some [7] ∧ job ∈ t.jobs) ∧
    ∃ t, queue.Run threeJobs
        [.sweep 5 15 3 2, .select 5 1000000000 Job.id, .claim 5 1000000001, .extract 5 (.done [7]),
          .finish 5 1000000002, .claim 5 1000000003, .crash 5] t ∧
      t.jobs.map (fun job => (job.id, job.status, job.attempts)) =
        [(1, .done, 1), (2, .running, 1), (3, .running, 1)] ∧
      (⟨3, "default", "note", "conversation", .running, 1, none, none, 1⟩ : Job) ∈
        selectStale 2000000000 15 3 1 Job.id t.jobs := by
  obtain ⟨hsettles, halone, hselects⟩ := done_jobs_stay_and_stale_jobs_selected 3
  constructor
  · obtain ⟨s, t, hfirst, hnext, hjobs⟩ : ∃ s t,
        (queue.restrict (TakesUpAlone 3)).Run {}
          [.enqueue { id := 1, content := "note", updatedAt := 0 } 0, .spawn 1 1, .claim 1 1,
            .extract 1 (.done [7]), .finish 1 2] s ∧
        (queue.restrict (ClaimsFree 3)).Run s [.sweep 2 15 3 20, .select 2 1000000000 Job.id] t ∧
        s.jobs = [⟨1, "default", "note", "conversation", .done, 1, some [7], none, 2⟩] :=
      ⟨_, _, System.run_restrict_cons trivial rfl <|
          System.run_restrict_cons
            ⟨fun _ => List.not_mem_nil, fun job hjob _ => by rw [List.mem_singleton.mp hjob]⟩ rfl <|
          System.run_restrict_cons trivial rfl <| System.run_restrict_cons trivial rfl <|
            System.run_restrict_cons trivial rfl (.nil _),
        System.run_restrict_cons trivial rfl <| System.run_restrict_cons trivial rfl (.nil _),
        by decide⟩
    have hfree := halone (by decide) s ⟨{}, _, rfl, hfirst⟩
    obtain ⟨-, hattempts, hdone⟩ := hsettles (by decide) s hfree
    have hjob := hjobs ▸ List.mem_cons_self
    exact ⟨s, _, t, ⟨{}, _, rfl, hfirst⟩, hfree, hnext, rfl, hattempts, _, hjob, rfl, rfl,
      hdone _ t hnext _ hjob rfl⟩
  · obtain ⟨t, claims, hran, hclaims, hjobs, hmem⟩ : ∃ t claims,
        (queue.record (overtaken 3
          ⟨3, "default", "note", "conversation", .running, 1, none, none, 1⟩)).Run (threeJobs, [])
          [.sweep 5 15 3 2, .select 5 1000000000 Job.id,
            .claim 5 1000000001, .extract 5 (.done [7]),
            .finish 5 1000000002, .claim 5 1000000003, .crash 5] (t, claims) ∧
        claims.map Job.id = [1, 2] ∧
        t.jobs.map (fun job => (job.id, job.status, job.attempts)) =
          [(1, .done, 1), (2, .running, 1), (3, .running, 1)] ∧
        (⟨3, "default", "note", "conversation", .running, 1, none, none, 1⟩ : Job) ∈ t.jobs :=
      ⟨_, _, System.run_record_of_foldlM rfl, by decide, by decide, by decide⟩
    have hlength : claims.length = 2 := by rw [← List.length_map Job.id, hclaims]; rfl
    refine ⟨t, hran.of_record, hjobs, ?_⟩
    refine hselects _ _ _ _ _ _ hran ?_ hmem nofun nofun (by decide) 1 ?_ 2000000000 15 Job.id
      (by decide)
    · simp [Act.After]
    · rw [hlength]
      decide

/-- The claim of a sweep takes a slow worker for a dead one, and fails the job that it has done. -/
theorem slow_worker_overwritten :
    ¬ ∀ s acts t, queue.Reachable s → queue.Run s acts t → ∀ job ∈ s.jobs, job.status = .done →
      ∃ later ∈ t.jobs, later.id = job.id ∧ later.status = .done ∧ later.factIds = job.factIds := by
  intro hstays
  obtain ⟨s, t, hfirst, hnext, hjobs, hlater⟩ : ∃ s t,
      queue.Run {}
        [.enqueue { id := 1, content := "note", updatedAt := 0 } 0, .spawn 1 1, .claim 1 1,
          .sweep 2 15 3 20, .select 2 1000000000 Job.id, .claim 2 1000000000,
          .extract 1 (.done [7]), .finish 1 1000000001] s ∧
      queue.Run s [.extract 2 (.failed "timeout"), .finish 2 1000000002] t ∧
      s.jobs = [⟨1, "default", "note", "conversation", .done, 2, some [7], none, 1000000001⟩] ∧
      t.jobs =
        [⟨1, "default", "note", "conversation", .failed, 2, none, some "timeout", 1000000002⟩] :=
    ⟨_, _, System.run_of_foldlM rfl, System.run_of_foldlM rfl, by decide, by decide⟩
  obtain ⟨later, hmem, -, hstatus, -⟩ :=
    hstays s _ t ⟨{}, _, rfl, hfirst⟩ hnext _ (hjobs ▸ List.mem_cons_self) rfl
  rw [hlater, List.mem_singleton] at hmem
  rw [hmem] at hstatus
  cases hstatus

end GenusOs.Memory.WriteJobs
