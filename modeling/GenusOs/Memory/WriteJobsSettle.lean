import GenusOs.Memory.WriteJobs
import Mathlib

/-!
# Deferred writes settle once

The claim of a job looks neither at its status nor at its attempts, and a slow worker is not told
from a dead one. A job settles once where each claim finds it open, with attempts left and with
nobody at work on it.

* `step_moves`: what a step does, from the phase of its process.
* `settled_step`, `done_step`: one statement, in a run whose claims are free.
* `apart_step`, `claimsFree_of_apart`: claims are free where no job is taken up while another
  process has it.
-/

namespace GenusOs.Memory.WriteJobs

open Rows

variable {s t : State} {act : Act} {M : Int} {job other : Job} {jobId pid pid' : Nat} {now : Int}
  {phase : Phase} {rest : List Nat} {outcome : Outcome}

/-- The process has claimed the job and not written its outcome. -/
def Phase.worksOn (jobId : Nat) : Phase → Bool
  | .extracting id _ | .finishing id _ _ => id = jobId
  | _ => false

def Working (s : State) (pid jobId : Nat) : Prop := (s.procs pid).worksOn jobId = true

/-- A claim finds the job open, with attempts left and with nobody at work on it. -/
def ClaimsFree (M : Int) (s : State) : Act → Prop
  | .claim pid _ => ∀ jobId rest, s.procs pid = .claiming jobId rest →
      ∀ job ∈ s.jobs, job.id = jobId →
        job.status ≠ .done ∧ job.attempts < M ∧ ∀ other, ¬ Working s other jobId
  | _ => True

/-! ## What a step does -/

theorem worksOn_next : (Phase.next rest).worksOn jobId = false := by
  cases rest <;> rfl

theorem write_procs {f : Job → Job} : (s.write jobId f).procs = s.procs := rfl

theorem setPhase_self : (s.setPhase pid phase).procs pid = phase := Function.update_self ..

theorem setPhase_of_ne (h : pid' ≠ pid) : (s.setPhase pid phase).procs pid' = s.procs pid' :=
  Function.update_of_ne h ..

/-- A process in another phase works on what it did. -/
theorem working_setPhase (h : Working (s.setPhase pid phase) pid' jobId) :
    (pid' = pid ∧ phase.worksOn jobId = true) ∨ (pid' ≠ pid ∧ Working s pid' jobId) := by
  unfold Working at h
  by_cases hpid : pid' = pid
  · subst hpid
    rw [setPhase_self] at h
    exact .inl ⟨rfl, h⟩
  · rw [setPhase_of_ne hpid] at h
    exact .inr ⟨hpid, h⟩

/-- The steps, from the phase of their process. -/
inductive Moves (s : State) : Act → State → Prop
  | enqueue (job : Job) (now : Int) (hnew : ∀ r ∈ s.jobs, r.id ≠ job.id) :
      Moves s (.enqueue job now) { s with jobs := s.jobs ++ [{ job with
        status := .pending, attempts := 0, factIds := none, error := none, updatedAt := now }] }
  | spawn (pid jobId : Nat) (hphase : s.procs pid = .idle) :
      Moves s (.spawn pid jobId) (s.setPhase pid (.claiming jobId []))
  | sweep (pid : Nat) (staleAfterMinutes maxAttempts : Int) (limit : Nat)
      (hphase : s.procs pid = .idle) :
      Moves s (.sweep pid staleAfterMinutes maxAttempts limit)
        (s.setPhase pid (.selecting staleAfterMinutes maxAttempts limit))
  | select (pid : Nat) (now : Int) (tie : Job → Nat) (staleAfterMinutes maxAttempts : Int)
      (limit : Nat) (hphase : s.procs pid = .selecting staleAfterMinutes maxAttempts limit) :
      Moves s (.select pid now tie) (s.setPhase pid
        (.next ((selectStale now staleAfterMinutes maxAttempts limit tie s.jobs).map Job.id)))
  | claim (pid : Nat) (now : Int) (jobId : Nat) (rest : List Nat)
      (hphase : s.procs pid = .claiming jobId rest) (hjob : ∃ job ∈ s.jobs, job.id = jobId) :
      Moves s (.claim pid now)
        ((s.write jobId (Job.claimed now)).setPhase pid (.extracting jobId rest))
  | vanished (pid : Nat) (now : Int) (jobId : Nat) (rest : List Nat)
      (hphase : s.procs pid = .claiming jobId rest) (hnone : ∀ job ∈ s.jobs, job.id ≠ jobId) :
      Moves s (.claim pid now) (s.setPhase pid (.next rest))
  | extract (pid : Nat) (outcome : Outcome) (jobId : Nat) (rest : List Nat)
      (hphase : s.procs pid = .extracting jobId rest) :
      Moves s (.extract pid outcome) (s.setPhase pid (.finishing jobId outcome rest))
  | finish (pid : Nat) (now : Int) (jobId : Nat) (outcome : Outcome) (rest : List Nat)
      (hphase : s.procs pid = .finishing jobId outcome rest) :
      Moves s (.finish pid now)
        ((s.write jobId fun job => job.finished now outcome).setPhase pid (.next rest))
  | crash (pid : Nat) : Moves s (.crash pid) (s.setPhase pid .idle)

theorem step_moves (h : step s act = some t) : Moves s act t := by
  cases act with
  | enqueue job now =>
    simp only [step] at h
    split at h
    · cases h
    · next hnew =>
      cases h
      exact .enqueue job now (by simpa using hnew)
  | spawn pid jobId =>
    simp only [step] at h
    split at h
    · next hphase =>
      cases h
      exact .spawn pid jobId hphase
    · cases h
  | sweep pid staleAfterMinutes maxAttempts limit =>
    simp only [step] at h
    split at h
    · next hphase =>
      cases h
      exact .sweep pid staleAfterMinutes maxAttempts limit hphase
    · cases h
  | select pid now tie =>
    simp only [step] at h
    split at h
    · next staleAfterMinutes maxAttempts limit hphase =>
      cases h
      exact .select pid now tie staleAfterMinutes maxAttempts limit hphase
    · cases h
  | claim pid now =>
    simp only [step] at h
    split at h
    · next jobId rest hphase =>
      split at h
      · next hjob =>
        cases h
        exact .claim pid now jobId rest hphase (by simpa using hjob)
      · next hnone =>
        cases h
        exact .vanished pid now jobId rest hphase (by simpa using hnone)
    · cases h
  | extract pid outcome =>
    simp only [step] at h
    split at h
    · next jobId rest hphase =>
      cases h
      exact .extract pid outcome jobId rest hphase
    · cases h
  | finish pid now =>
    simp only [step] at h
    split at h
    · next jobId outcome rest hphase =>
      cases h
      exact .finish pid now jobId outcome rest hphase
    · cases h
  | crash pid =>
    simp only [step] at h
    cases h
    exact .crash pid

/-! ## The invariant -/

/-- One process at most works on a job, and none on a job that is done. -/
structure Settled (M : Int) (s : State) : Prop where
  keys : KeyUnique Job.id s.jobs
  alone : ∀ pid pid' jobId, Working s pid jobId → Working s pid' jobId → pid = pid'
  closed : ∀ job ∈ s.jobs, job.status = .done → ∀ pid, ¬ Working s pid job.id
  attempts : ∀ job ∈ s.jobs, job.attempts ≤ M

theorem mem_write {f : Job → Job} (h : other ∈ (s.write jobId f).jobs) :
    (∃ job ∈ s.jobs, job.id = jobId ∧ other = f job) ∨ (other ∈ s.jobs ∧ other.id ≠ jobId) := by
  obtain ⟨job, hjob, heq⟩ := mem_updateWhere.mp h
  by_cases hid : job.id = jobId
  · rw [if_pos (decide_eq_true hid)] at heq
    exact .inl ⟨job, hjob, hid, heq⟩
  · rw [if_neg (by simpa using hid)] at heq
    exact .inr ⟨heq ▸ hjob, heq ▸ hid⟩

theorem finished_id : (job.finished now outcome).id = job.id ∧
    (job.finished now outcome).attempts = job.attempts := by
  cases outcome <;> exact ⟨rfl, rfl⟩

theorem settled_init : Settled M {} where
  keys := List.nodup_nil
  alone := fun _ _ _ h => by cases h
  closed := fun _ h => absurd h List.not_mem_nil
  attempts := fun _ h => absurd h List.not_mem_nil

/-- Nothing is written, and nobody starts on a job. -/
theorem settled_setPhase (hs : Settled M s)
    (hphase : ∀ jobId, phase.worksOn jobId = true → Working s pid jobId) :
    Settled M (s.setPhase pid phase) := by
  have hback : ∀ pid' jobId, Working (s.setPhase pid phase) pid' jobId → Working s pid' jobId := by
    intro pid' jobId hworks
    rcases working_setPhase hworks with ⟨rfl, hphase'⟩ | ⟨-, hbefore⟩
    · exact hphase jobId hphase'
    · exact hbefore
  exact ⟨hs.keys, fun p p' id hp hp' => hs.alone p p' id (hback p id hp) (hback p' id hp'),
    fun r hr hdone p hp => hs.closed r hr hdone p (hback p r.id hp), hs.attempts⟩

theorem settled_setPhase_next (hs : Settled M s) : Settled M (s.setPhase pid (.next rest)) := by
  refine settled_setPhase hs fun id hworks => ?_
  rw [worksOn_next] at hworks
  cases hworks

/-- **Step lemma.** -/
theorem settled_step (hM : 0 ≤ M) (hs : Settled M s) (hfree : ClaimsFree M s act)
    (h : Moves s act t) : Settled M t := by
  cases h with
  | enqueue job now hnew =>
    refine ⟨hs.keys.insert hnew, hs.alone, ?_, ?_⟩
    · intro r hr hdone
      rcases List.mem_append.mp hr with hr | hr
      · exact hs.closed r hr hdone
      · rw [List.mem_singleton.mp hr] at hdone
        cases hdone
    · intro r hr
      rcases List.mem_append.mp hr with hr | hr
      · exact hs.attempts r hr
      · rw [List.mem_singleton.mp hr]
        exact hM
  | spawn pid jobId _ => exact settled_setPhase hs fun _ hworks => by cases hworks
  | sweep pid _ _ _ _ => exact settled_setPhase hs fun _ hworks => by cases hworks
  | select pid now tie _ _ _ _ => exact settled_setPhase_next hs
  | claim pid now jobId rest hphase hjob =>
    obtain ⟨job, hjob, rfl⟩ := hjob
    obtain ⟨-, hleft, hnobody⟩ := hfree job.id rest hphase job hjob rfl
    have hback : ∀ pid' id, Working
        ((s.write job.id (Job.claimed now)).setPhase pid (.extracting job.id rest)) pid' id →
        (pid' = pid ∧ id = job.id) ∨ Working s pid' id := by
      intro pid' id hworks
      rcases working_setPhase hworks with ⟨rfl, hphase'⟩ | ⟨-, hbefore⟩
      · exact .inl ⟨rfl, (of_decide_eq_true hphase').symm⟩
      · exact .inr hbefore
    refine ⟨hs.keys.updateWhere fun _ _ => rfl, ?_, ?_, ?_⟩
    · intro p p' id hp hp'
      rcases hback p id hp with ⟨hpid, hid⟩ | hq
      · rcases hback p' id hp' with ⟨hpid', -⟩ | hq'
        · exact hpid.trans hpid'.symm
        · exact absurd (hid ▸ hq') (hnobody p')
      · rcases hback p' id hp' with ⟨-, hid⟩ | hq'
        · exact absurd (hid ▸ hq) (hnobody p)
        · exact hs.alone p p' id hq hq'
    · intro r hr hdone p hp
      rcases mem_write hr with ⟨r', -, -, rfl⟩ | ⟨hr, hid⟩
      · cases hdone
      · rcases hback p r.id hp with ⟨-, heq⟩ | hp
        · exact hid heq
        · exact hs.closed r hr hdone p hp
    · intro r hr
      rcases mem_write hr with ⟨r', hr', hid, rfl⟩ | ⟨hr, -⟩
      · have hsame : r' = job := hs.keys.eq hr' hjob hid
        rw [hsame]
        exact hleft
      · exact hs.attempts r hr
  | vanished pid now jobId rest _ _ => exact settled_setPhase_next hs
  | extract pid outcome jobId rest hphase =>
    refine settled_setPhase hs fun id hworks => ?_
    unfold Working
    rw [hphase]
    exact hworks
  | finish pid now jobId outcome rest hphase =>
    have hworking : Working s pid jobId := by
      unfold Working
      rw [hphase]
      exact decide_eq_true rfl
    have hback :
        ∀ pid' id, Working ((s.write jobId fun job => job.finished now outcome).setPhase pid
        (.next rest)) pid' id → pid' ≠ pid ∧ Working s pid' id := by
      intro pid' id hworks
      rcases working_setPhase hworks with ⟨-, hworks⟩ | hworks
      · rw [worksOn_next] at hworks
        cases hworks
      · exact hworks
    refine ⟨hs.keys.updateWhere fun _ _ => finished_id.1, ?_, ?_, ?_⟩
    · exact fun p p' id hp hp' => hs.alone p p' id (hback p id hp).2 (hback p' id hp').2
    · intro r hr hdone p hp
      obtain ⟨hne, hp⟩ := hback p r.id hp
      rcases mem_write hr with ⟨r', -, hid, rfl⟩ | ⟨hr, -⟩
      · rw [finished_id.1, hid] at hp
        exact hne (hs.alone p pid jobId hp hworking)
      · exact hs.closed r hr hdone p hp
    · intro r hr
      rcases mem_write hr with ⟨r', hr', -, rfl⟩ | ⟨hr, -⟩
      · rw [finished_id.2]
        exact hs.attempts r' hr'
      · exact hs.attempts r hr
  | crash pid => exact settled_setPhase hs fun _ hworks => by cases hworks

/-- A job that is done is not written. -/
theorem done_step (hs : Settled M s) (hfree : ClaimsFree M s act) (h : Moves s act t)
    (hjob : job ∈ s.jobs) (hdone : job.status = .done) : job ∈ t.jobs := by
  cases h with
  | enqueue _ _ _ => exact List.mem_append_left _ hjob
  | claim pid now jobId rest hphase _ =>
    refine mem_updateWhere_of_not hjob (decide_eq_false fun hid => ?_)
    exact (hfree jobId rest hphase job hjob hid).1 hdone
  | finish pid now jobId outcome rest hphase =>
    refine mem_updateWhere_of_not hjob (decide_eq_false fun hid => ?_)
    refine hs.closed job hjob hdone pid ?_
    unfold Working
    rw [hphase]
    exact decide_eq_true hid.symm
  | _ => exact hjob

/-! ## Jobs taken up by one process at a time -/

/-- The jobs a process has on its list or in its hands. -/
def Phase.held : Phase → List Nat
  | .claiming jobId rest | .extracting jobId rest | .finishing jobId _ rest => jobId :: rest
  | _ => []

/-- Those it is still to claim. -/
def Phase.queued : Phase → List Nat
  | .claiming jobId rest => jobId :: rest
  | .extracting _ rest | .finishing _ _ rest => rest
  | _ => []

/-- A worker is spawned for a job that nobody has claimed yet, a sweep selects with at most `M`
attempts, and neither takes up a job that another process has. -/
def TakesUpAlone (M : Int) (s : State) : Act → Prop
  | .spawn _ jobId => (∀ other, jobId ∉ (s.procs other).held) ∧
      ∀ job ∈ s.jobs, job.id = jobId → job.status = .pending
  | .sweep _ _ maxAttempts _ => maxAttempts ≤ M
  | .select pid now tie => ∀ staleAfterMinutes maxAttempts limit,
      s.procs pid = .selecting staleAfterMinutes maxAttempts limit →
      ∀ job ∈ selectStale now staleAfterMinutes maxAttempts limit tie s.jobs,
        ∀ other, job.id ∉ (s.procs other).held
  | _ => True

theorem held_next : (Phase.next rest).held = rest := by
  cases rest <;> rfl

theorem queued_next : (Phase.next rest).queued = rest := by
  cases rest <;> rfl

theorem mem_held_of_worksOn (h : phase.worksOn jobId = true) : jobId ∈ phase.held := by
  cases phase with
  | extracting id rest => exact List.mem_cons.mpr (.inl (of_decide_eq_true h).symm)
  | finishing id outcome rest => exact List.mem_cons.mpr (.inl (of_decide_eq_true h).symm)
  | _ => cases h

theorem mem_held_of_queued (h : jobId ∈ phase.queued) : jobId ∈ phase.held := by
  cases phase with
  | claiming id rest => exact h
  | extracting id rest => exact List.mem_cons_of_mem _ h
  | finishing id outcome rest => exact List.mem_cons_of_mem _ h
  | _ => cases h

/-- The rows of the jobs that are still to be claimed are as they were found. -/
structure Apart (M : Int) (s : State) : Prop where
  keys : KeyUnique Job.id s.jobs
  single : ∀ pid pid' jobId, jobId ∈ (s.procs pid).held → jobId ∈ (s.procs pid').held → pid = pid'
  distinct : ∀ pid, (s.procs pid).held.Nodup
  sweeps : ∀ pid staleAfterMinutes maxAttempts limit,
    s.procs pid = .selecting staleAfterMinutes maxAttempts limit → maxAttempts ≤ M
  fresh : ∀ job ∈ s.jobs, job.status = .pending → job.attempts = 0
  open' : ∀ pid, ∀ job ∈ s.jobs, job.id ∈ (s.procs pid).queued →
    job.status ≠ .done ∧ job.attempts < M

theorem apart_init : Apart M {} where
  keys := List.nodup_nil
  single := fun _ _ _ h => absurd h List.not_mem_nil
  distinct := fun _ => List.nodup_nil
  sweeps := fun _ _ _ _ h => by cases h
  fresh := fun _ h => absurd h List.not_mem_nil
  open' := fun _ _ h => absurd h List.not_mem_nil

theorem mem_selectStale {staleAfterMinutes maxAttempts : Int} {limit : Nat} {tie : Job → Nat}
    {jobs : List Job} (h : job ∈ selectStale now staleAfterMinutes maxAttempts limit tie jobs) :
    job ∈ jobs ∧ job.stale now staleAfterMinutes maxAttempts = true :=
  List.mem_filter.mp ((List.mem_insertionSort _).mp (List.mem_of_mem_take h))

/-- A process that goes on with jobs it has, or takes up jobs that nobody has and that are open. -/
theorem apart_setPhase (ha : Apart M s) (hdistinct : phase.held.Nodup)
    (hheld : ∀ jobId ∈ phase.held, ∀ other, jobId ∈ (s.procs other).held → other = pid)
    (hsweep : ∀ staleAfterMinutes maxAttempts limit,
      phase = .selecting staleAfterMinutes maxAttempts limit → maxAttempts ≤ M)
    (hopen : ∀ job ∈ s.jobs, job.id ∈ phase.queued → job.status ≠ .done ∧ job.attempts < M) :
    Apart M (s.setPhase pid phase) where
  keys := ha.keys
  single := by
    intro p p' id hp hp'
    by_cases hpid : p = pid <;> by_cases hpid' : p' = pid
    · exact hpid.trans hpid'.symm
    · subst hpid
      rw [setPhase_self] at hp
      rw [setPhase_of_ne hpid'] at hp'
      exact absurd (hheld id hp p' hp') hpid'
    · subst hpid'
      rw [setPhase_of_ne hpid] at hp
      rw [setPhase_self] at hp'
      exact absurd (hheld id hp' p hp) hpid
    · rw [setPhase_of_ne hpid] at hp
      rw [setPhase_of_ne hpid'] at hp'
      exact ha.single p p' id hp hp'
  distinct := by
    intro p
    by_cases hpid : p = pid
    · subst hpid
      rw [setPhase_self]
      exact hdistinct
    · rw [setPhase_of_ne hpid]
      exact ha.distinct p
  sweeps := by
    intro p staleAfterMinutes maxAttempts limit hp
    by_cases hpid : p = pid
    · subst hpid
      rw [setPhase_self] at hp
      exact hsweep staleAfterMinutes maxAttempts limit hp
    · rw [setPhase_of_ne hpid] at hp
      exact ha.sweeps p staleAfterMinutes maxAttempts limit hp
  fresh := ha.fresh
  open' := by
    intro p job hjob hp
    by_cases hpid : p = pid
    · subst hpid
      rw [setPhase_self] at hp
      exact hopen job hjob hp
    · rw [setPhase_of_ne hpid] at hp
      exact ha.open' p job hjob hp

/-- The row of a job that nobody is still to claim may be written. -/
theorem apart_write (ha : Apart M s) {f : Job → Job} (hid : ∀ job, (f job).id = job.id)
    (hstatus : ∀ job, (f job).status ≠ .pending) (hnone : ∀ p, jobId ∉ (s.procs p).queued) :
    Apart M (s.write jobId f) where
  keys := ha.keys.updateWhere fun job _ => hid job
  single := ha.single
  distinct := ha.distinct
  sweeps := ha.sweeps
  fresh := by
    intro r hr hpending
    rcases mem_write hr with ⟨r', -, -, rfl⟩ | ⟨hr, -⟩
    · exact absurd hpending (hstatus r')
    · exact ha.fresh r hr hpending
  open' := by
    intro p r hr hp
    rcases mem_write hr with ⟨r', -, rfl, rfl⟩ | ⟨hr, -⟩
    · rw [hid] at hp
      exact absurd hp (hnone p)
    · exact ha.open' p r hr hp

/-- A job in the hands of a process is not to be claimed any more. -/
theorem not_queued_of_worksOn (ha : Apart M s) (hworks : Working s pid jobId) (p : Nat) :
    jobId ∉ (s.procs p).queued := by
  intro hp
  have hsame : p = pid := ha.single p pid jobId (mem_held_of_queued hp) (mem_held_of_worksOn hworks)
  subst hsame
  have hdistinct : (s.procs p).held.Nodup := ha.distinct p
  unfold Working at hworks
  generalize s.procs p = phase at hp hworks hdistinct
  cases phase with
  | extracting id rest =>
    rw [of_decide_eq_true hworks] at hdistinct
    exact (List.nodup_cons.mp hdistinct).1 hp
  | finishing id outcome rest =>
    rw [of_decide_eq_true hworks] at hdistinct
    exact (List.nodup_cons.mp hdistinct).1 hp
  | _ => cases hworks

/-- A process goes on with the rest of its list. -/
theorem apart_setPhase_of_subset (ha : Apart M s) (hheld : phase.held.Sublist (s.procs pid).held)
    (hqueued : phase.queued ⊆ (s.procs pid).queued)
    (hsweep : ∀ staleAfterMinutes maxAttempts limit,
      phase = .selecting staleAfterMinutes maxAttempts limit → maxAttempts ≤ M) :
    Apart M (s.setPhase pid phase) :=
  apart_setPhase ha (hheld.nodup (ha.distinct pid))
    (fun id hid other hother => ha.single other pid id hother (hheld.subset hid)) hsweep
    fun job hjob hid => ha.open' pid job hjob (hqueued hid)

/-- **Step lemma.** -/
theorem apart_step (hM : 0 < M) (ha : Apart M s) (hact : TakesUpAlone M s act) (h : Moves s act t) :
    Apart M t := by
  cases h with
  | enqueue job now hnew =>
    refine ⟨ha.keys.insert hnew, ha.single, ha.distinct, ha.sweeps, ?_, ?_⟩
    · intro r hr hpending
      rcases List.mem_append.mp hr with hr | hr
      · exact ha.fresh r hr hpending
      · rw [List.mem_singleton.mp hr]
    · intro p r hr hp
      rcases List.mem_append.mp hr with hr | hr
      · exact ha.open' p r hr hp
      · rw [List.mem_singleton.mp hr]
        exact ⟨nofun, hM⟩
  | spawn pid jobId hphase =>
    obtain ⟨hnobody, hpending⟩ := hact
    refine apart_setPhase ha (List.nodup_singleton jobId) ?_ (fun _ _ _ h => by cases h) ?_
    · intro id hid other hother
      rw [List.mem_singleton.mp hid] at hother
      exact absurd hother (hnobody other)
    · intro job hjob hid
      have hnew : job.status = .pending := hpending job hjob (List.mem_singleton.mp hid)
      rw [ha.fresh job hjob hnew, hnew]
      exact ⟨by decide, hM⟩
  | sweep pid staleAfterMinutes maxAttempts limit hphase =>
    refine apart_setPhase ha List.nodup_nil (fun _ h => absurd h List.not_mem_nil) ?_
      fun _ _ h => absurd h List.not_mem_nil
    intro staleAfter m l heq
    cases heq
    exact hact
  | select pid now tie staleAfterMinutes maxAttempts limit hphase =>
    refine apart_setPhase ha ?_ ?_ ?_ ?_
    · rw [held_next]
      refine (((List.take_sublist limit _).map Job.id).nodup ?_)
      refine ((List.perm_insertionSort _ _).map Job.id).nodup_iff.mpr ?_
      exact ((List.filter_sublist.map Job.id).nodup ha.keys)
    · intro id hid other hother
      rw [held_next] at hid
      obtain ⟨job, hjob, rfl⟩ := List.mem_map.mp hid
      exact absurd hother (hact staleAfterMinutes maxAttempts limit hphase job hjob other)
    · intro _ _ _ heq
      cases hids : (selectStale now staleAfterMinutes maxAttempts limit tie s.jobs).map Job.id with
      | nil => rw [hids] at heq; cases heq
      | cons id rest => rw [hids] at heq; cases heq
    · intro job hjob hid
      rw [queued_next] at hid
      obtain ⟨found, hfound, hsame⟩ := List.mem_map.mp hid
      obtain ⟨hmem, hstale⟩ := mem_selectStale hfound
      rw [← ha.keys.eq hmem hjob hsame]
      obtain ⟨hstatus, hattempts, -⟩ := of_decide_eq_true hstale
      refine ⟨?_, hattempts.trans_le (ha.sweeps pid _ _ _ hphase)⟩
      rcases hstatus with hstatus | hstatus <;> rw [hstatus] <;> decide
  | claim pid now jobId rest hphase hjob =>
    have hgoes : Apart M (s.setPhase pid (.extracting jobId rest)) := by
      refine apart_setPhase_of_subset ha ?_ ?_ fun _ _ _ h => by cases h
      · rw [hphase]
        exact List.Sublist.refl _
      · rw [hphase]
        exact List.subset_cons_self jobId rest
    have hworks : Working (s.setPhase pid (.extracting jobId rest)) pid jobId := by
      unfold Working
      rw [setPhase_self]
      exact decide_eq_true rfl
    exact apart_write hgoes (fun _ => rfl) (fun _ => nofun) (not_queued_of_worksOn hgoes hworks)
  | vanished pid now jobId rest hphase _ =>
    refine apart_setPhase_of_subset ha ?_ ?_ ?_
    · rw [held_next, hphase]
      exact List.sublist_cons_self jobId rest
    · rw [queued_next, hphase]
      exact List.subset_cons_self jobId rest
    · cases rest <;> intro _ _ _ heq <;> cases heq
  | extract pid outcome jobId rest hphase =>
    refine apart_setPhase_of_subset ha ?_ ?_ fun _ _ _ h => by cases h
    · rw [hphase]
      exact List.Sublist.refl _
    · rw [hphase]
      exact List.Subset.refl _
  | finish pid now jobId outcome rest hphase =>
    have hworks : Working s pid jobId := by
      unfold Working
      rw [hphase]
      exact decide_eq_true rfl
    have hwritten : Apart M (s.write jobId fun job => job.finished now outcome) :=
      apart_write ha (fun _ => finished_id.1) (fun _ => by cases outcome <;> nofun)
        (not_queued_of_worksOn ha hworks)
    refine apart_setPhase_of_subset hwritten ?_ ?_ ?_
    · rw [held_next, write_procs, hphase]
      exact List.sublist_cons_self jobId rest
    · rw [queued_next, write_procs, hphase]
      exact List.Subset.refl _
    · cases rest <;> intro _ _ _ heq <;> cases heq
  | crash pid =>
    exact apart_setPhase_of_subset ha (List.nil_sublist _) (List.nil_subset _)
      fun _ _ _ h => by cases h

/-- **Jobs that are taken up alone are claimed free.** -/
theorem claimsFree_of_apart (ha : Apart M s) (act : Act) : ClaimsFree M s act := by
  cases act with
  | claim pid now =>
    intro jobId rest hphase job hjob hid
    have hqueued : jobId ∈ (s.procs pid).queued := by
      rw [hphase]
      exact List.mem_cons_self
    obtain ⟨hopen, hleft⟩ := ha.open' pid job hjob (hid.symm ▸ hqueued)
    refine ⟨hopen, hleft, fun other hworks => ?_⟩
    exact not_queued_of_worksOn ha hworks pid hqueued
  | _ => trivial

end GenusOs.Memory.WriteJobs
