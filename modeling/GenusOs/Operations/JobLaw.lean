import GenusOs.Operations.JobHistory
import Mathlib

/-!
# The law of the jobs

Workers, producers and replacements interleave their calls in any order, with clocks of their own.

* `job_step`: one call.
* `jobs_follow_last_claim`: every history is lawful, and each row is what its history says.
-/

namespace GenusOs.Operations

open GenusOs.Python Rows History

/-- The calls that any number of producers and workers make. -/
inductive JobCall
  | enqueue (newId : Uuid) (kind key : String) (payload : Json) (maxAttempts deadlineSeconds : Int)
  | claim (kind : String) (leaseSeconds : Int) (token : Uuid)
      (locked : Uuid → Bool) (tie : Job → Nat)
  | complete (job token : Uuid) (result : Json)
  | checkpoint (job token : Uuid) (payload : Json)
  | defer (job token : Uuid) (reason : String) (delaySeconds : Int) (busy : Bool)
  | put (job token : Uuid) (key inputHash : String) (payload : Dict) (readings : Readings)

/-- What a claim retires, as entries. -/
def retirements (now : Instant) (kind : String) (jobs : List Job) : List WorkEvent :=
  (jobs.filter (·.exhausted now kind)).map fun j => .retired j.id now

/-- A call, and what it adds to the history. A call that raises adds nothing, and a fragment that is
there already is not saved again. -/
def JobCall.run (env : Env) (now clock : Instant) (s : Work) :
    JobCall → Except Raised (List WorkEvent × Work)
  | .enqueue newId kind key payload maxAttempts deadlineSeconds =>
    (Operations.enqueue now s newId kind key payload maxAttempts deadlineSeconds).map fun answer =>
      ([.enqueued answer.1 kind key payload], answer.2)
  | .claim kind leaseSeconds token locked tie =>
    (Operations.claim now s kind leaseSeconds token locked tie).map fun answer =>
      (retirements now kind s.jobs ++
        (answer.1.map fun j => .claimed j.id token now (now + seconds leaseSeconds)).toList,
        answer.2)
  | .complete job token result =>
    (Operations.complete clock s job token result).map fun t =>
      ([.completed job token result clock], t)
  | .checkpoint job token payload =>
    (Operations.checkpoint env clock s job token payload).map fun t =>
      ([.checkpointed job token payload clock], t)
  | .defer job token reason delaySeconds busy =>
    (Operations.defer now s job token reason delaySeconds busy).map fun t =>
      ([.deferred job token busy now], t)
  | .put job token key inputHash payload readings =>
    (Operations.put env s job token key inputHash payload readings).map fun t =>
      (if s.fragments.any fun f => f.jobId = job && f.fragmentKey = key then []
        else [.saved job token key inputHash (.obj payload) readings.acquire], t)

/-- The token of a claim is a new one, as a `uuid4` is. -/
def JobCall.Fresh (log : List WorkEvent) : JobCall → Prop
  | .claim _ _ token _ _ => some token ∉ log.map WorkEvent.token?
  | _ => True

/-- The calls on the jobs of one tenant, from empty tables. -/
def jobSystem (env : Env) : System (Work × List WorkEvent) (Instant × Instant × JobCall) where
  init p := p = ({}, [])
  step p a q := a.2.2.Fresh p.2 ∧ ∃ new, a.2.2.run env a.1 a.2.1 p.1 = .ok (new, q.1) ∧
    q.2 = p.2 ++ new

/-- **A row is what its history says.** It has been enqueued under its kind and its key, with its
payload. Its attempts are its claims less its deferrals as busy, between 0 and the maximum. It is
running just while a claim of the history holds it, with the token and the expiry of that claim. It
is completed or failed just where the history has closed it, and then has the result it was
completed with; until then it has what was last saved of it. -/
structure Accounted (env : Env) (log : List WorkEvent) (j : Job) : Prop where
  enqueued : .enqueued j.id j.kind j.dedupKey j.payload ∈ log
  named : ∀ kind key payload, .enqueued j.id kind key payload ∈ log →
    kind = j.kind ∧ key = j.dedupKey
  attempts : j.attempts = attemptsOf log j.id
  nonneg : 0 ≤ j.attempts
  bounded : j.attempts ≤ j.maxAttempts
  held : j.status = .running → 0 < j.attempts ∧ ∃ token expiry, j.leaseToken = some token ∧
    j.leaseUntil = some expiry ∧ holderOf log j.id = some (token, expiry)
  idle : j.status ≠ .running → holderOf log j.id = none
  closed : Closed log j.id ↔ j.status = .completed ∨ j.status = .failed
  completed : j.status = .completed → ∃ token result time, .completed j.id token result time ∈ log ∧
    j.result = some result
  checkpointed : j.status ≠ .completed →
    ∀ token payload time, .checkpointed j.id token payload time ∈ log →
    ∃ result, j.result = some result ∧ env.jsonbEq result payload = true

/-- The fragments are those that have been saved, with the input that they are of, and all of
those. -/
structure Saved (env : Env) (fragments : List Fragment) (log : List WorkEvent) : Prop where
  rows : ∀ f ∈ fragments, f.payloadHash = digest env f.payload ∧
    ∃ token time, .saved f.jobId token f.fragmentKey f.inputHash f.payload time ∈ log
  kept : ∀ job token key inputHash payload time, .saved job token key inputHash payload time ∈ log →
    ∃ f ∈ fragments, f.jobId = job ∧ f.fragmentKey = key ∧
      f.inputHash = inputHash ∧ f.payload = payload

/-- The invariant: the history is lawful and about jobs that are there, the rows and the fragments
are what it says, and a kind and a key have one job. -/
structure WorkSound (env : Env) (s : Work) (log : List WorkEvent) : Prop where
  ids : KeyUnique Job.id s.jobs
  keys : ∀ i ∈ s.jobs, ∀ j ∈ s.jobs, i.kind = j.kind → i.dedupKey = j.dedupKey → i.id = j.id
  lawful : Lawful (WorkEvent.Allowed env) log
  known : ∀ e ∈ log, ∃ j ∈ s.jobs, j.id = e.job
  accounted : ∀ j ∈ s.jobs, Accounted env log j
  saved : Saved env s.fragments log

variable {env : Env} {s t : Work} {log new : List WorkEvent}
    {j : Job} {e : WorkEvent} {f : Job → Job}
  {job token : Uuid} {time now clock : Instant}

/-- A lease holds while its token is the one of the row and its time has not run out. -/
theorem holds_iff : j.holds job token time = true ↔ j.id = job ∧ j.leaseToken = some token ∧
    j.status = .running ∧ ∃ expiry, j.leaseUntil = some expiry ∧ time < expiry := by
  unfold Job.holds
  simp [Option.any_eq_true, and_assoc]

/-- A job is free while nobody has a lease of it that holds. -/
theorem free_iff : j.free now = true ↔ j.status = .pending ∨
    j.status = .running ∧ ∃ expiry, j.leaseUntil = some expiry ∧ expiry < now := by
  unfold Job.free
  simp [Option.any_eq_true]

/-! ## Rows whose history goes on -/

namespace Accounted

/-- Entries of other jobs. -/
theorem frames (env : Env) : Frames WorkEvent.job Job.id (Accounted env) := by
  intro log e j he h
  have hne : ∀ e' ∈ [e], e'.job ≠ j.id := fun e' he' => List.mem_singleton.mp he' ▸ he
  have hold {e' : WorkEvent} (he' : e' ∈ log ++ [e]) (hjob : e'.job = j.id) : e' ∈ log :=
    (List.mem_append.mp he').resolve_right fun hmem => hne e' hmem hjob
  have hholder : holderOf (log ++ [e]) j.id = holderOf log j.id := holderOf_append_of_ne hne
  refine ⟨List.mem_append_left _ h.enqueued,
    fun kind key payload he' => h.named kind key payload (hold he' rfl),
    ?_, h.nonneg, h.bounded, hholder ▸ h.held, hholder ▸ h.idle, ?_, fun hstatus => ?_,
    fun hstatus token payload time he' => h.checkpointed hstatus token payload time (hold he' rfl)⟩
  · rw [h.attempts, attemptsOf_append_of_ne fun e' he' hjob => absurd hjob (hne e' he')]
  · rw [closed_append, or_iff_left_of_imp fun ⟨e', he', hjob, _⟩ => absurd hjob (hne e' he')]
    exact h.closed
  · obtain ⟨token, result, time, he', hresult⟩ := h.completed hstatus
    exact ⟨token, result, time, List.mem_append_left _ he', hresult⟩

/-- A lease that holds is the one of the history. -/
theorem held_of_holds (h : Accounted env log j) (hholds : j.holds job token time = true) :
    Held log job token time := by
  obtain ⟨rfl, htoken, hrunning, expiry, hexpiry, hlt⟩ := holds_iff.mp hholds
  obtain ⟨-, token', expiry', htoken', hexpiry', hholder⟩ := h.held hrunning
  rw [htoken] at htoken'
  rw [hexpiry] at hexpiry'
  cases htoken'
  cases hexpiry'
  exact ⟨expiry, hholder, hlt⟩

/-- A job that is free is open, and the last lease has run out. -/
theorem free (h : Accounted env log j) (hfree : j.free now = true) :
    ¬ Closed log j.id ∧ Lapsed log j.id now := by
  rw [h.closed]
  rcases free_iff.mp hfree with hpending | ⟨hrunning, expiry, hexpiry, hlt⟩
  · refine ⟨by rw [hpending]; simp, fun token expiry hholder => ?_⟩
    rw [h.idle (by rw [hpending]; simp)] at hholder
    cases hholder
  · refine ⟨by rw [hrunning]; simp, fun token expiry' hholder => ?_⟩
    obtain ⟨-, _, _, -, hexpiry', hholder'⟩ := h.held hrunning
    rw [hholder] at hholder'
    rw [hexpiry] at hexpiry'
    cases hholder'
    cases hexpiry'
    exact hlt

/-- One entry more. -/
theorem next {j' : Job} (h : Accounted env log j) (hjob : e.job = j.id) (hid : j'.id = j.id)
    (hnames : j'.kind = j.kind ∧ j'.dedupKey = j.dedupKey ∧ j'.payload = j.payload)
    (hold : ∀ kind key payload, e = .enqueued j.id kind key payload →
      kind = j.kind ∧ key = j.dedupKey)
    (hattempts : j'.attempts = j.attempts +
      (if e.isClaim then 1 else 0) - if e.isBusy then 1 else 0)
    (hbounds : 0 ≤ j'.attempts ∧ j'.attempts ≤ j'.maxAttempts)
    (hheld : j'.status = .running → 0 < j'.attempts ∧ ∃ token expiry, j'.leaseToken = some token ∧
      j'.leaseUntil = some expiry ∧ e.lease (holderOf log j.id) = some (token, expiry))
    (hidle : j'.status ≠ .running → e.lease (holderOf log j.id) = none)
    (hclosed : (Closed log j.id ∨ e.closes = true) ↔ j'.status = .completed ∨ j'.status = .failed)
    (hcompleted : j'.status = .completed → ∃ token result time,
      .completed j.id token result time ∈ log ++ [e] ∧ j'.result = some result)
    (hcheckpointed : j'.status ≠ .completed → ∀ token payload time,
      .checkpointed j.id token payload time ∈ log ++ [e] →
        ∃ result, j'.result = some result ∧ env.jsonbEq result payload = true) :
    Accounted env (log ++ [e]) j' := by
  obtain ⟨hkind, hkey, hpayload⟩ := hnames
  refine ⟨?_, ?_, ?_, hbounds.1, hbounds.2, ?_, ?_, ?_, ?_, ?_⟩ <;> rw [hid]
  · rw [hkind, hkey, hpayload]
    exact List.mem_append_left _ h.enqueued
  · intro kind key payload he
    rw [hkind, hkey]
    rcases List.mem_append.mp he with he | he
    · exact h.named kind key payload he
    · exact hold kind key payload (List.mem_singleton.mp he).symm
  · rw [attemptsOf_concat hjob, ← h.attempts]
    exact hattempts
  · rw [holderOf_concat hjob]
    exact hheld
  · rw [holderOf_concat hjob]
    exact hidle
  · rw [closed_append, closed_singleton, and_iff_right hjob]
    exact hclosed
  · exact hcompleted
  · exact hcheckpointed

end Accounted

/-- Entries that save no fragment. -/
theorem Saved.frame {fragments : List Fragment} (h : Saved env fragments log)
    (hne : ∀ e ∈ new, ∀ job token key inputHash payload time,
      e ≠ .saved job token key inputHash payload time) :
    Saved env fragments (log ++ new) := by
  refine ⟨fun f hf => ?_, fun job token key inputHash payload time he => ?_⟩
  · obtain ⟨hhash, token, time, he⟩ := h.rows f hf
    exact ⟨hhash, token, time, List.mem_append_left _ he⟩
  · rcases List.mem_append.mp he with he | he
    · exact h.kept job token key inputHash payload time he
    · exact absurd rfl (hne _ he job token key inputHash payload time)

/-- One row moves, and its entry says how. -/
theorem WorkSound.move {fragments : List Fragment}
    (h : WorkSound env s log) (hj : j ∈ s.jobs) (hjob : e.job = j.id)
    (hf : ∀ r, (f r).id = r.id ∧ (f r).kind = r.kind ∧ (f r).dedupKey = r.dedupKey)
    (hallowed : WorkEvent.Allowed env log e) (haccounted : Accounted env (log ++ [e]) (f j))
    (hsaved : Saved env fragments (log ++ [e])) :
    WorkSound env { jobs := updateWhere (fun k => k.id = j.id) f s.jobs, fragments }
      (log ++ [e]) := by
  have hrows {k : Job} (hk : k ∈ updateWhere (fun k => k.id = j.id) f s.jobs) :
      ∃ r ∈ s.jobs, k.id = r.id ∧ k.kind = r.kind ∧ k.dedupKey = r.dedupKey := by
    obtain ⟨r, hr, rfl⟩ := mem_updateWhere.mp hk
    refine ⟨r, hr, ?_⟩
    split
    · exact hf r
    · exact ⟨rfl, rfl, rfl⟩
  refine ⟨h.ids.updateWhere fun r _ => (hf r).1, fun i hi k hk hkind hkey => ?_,
    h.lawful.concat hallowed,
    fun e' he' => ?_, fun k hk => ?_, hsaved⟩
  · obtain ⟨i', hi', hid, hikind, hikey⟩ := hrows hi
    obtain ⟨k', hk', hkid, hkkind, hkkey⟩ := hrows hk
    rw [hid, hkid]
    exact h.keys i' hi' k' hk' (hikind ▸ hkkind ▸ hkind) (hikey ▸ hkkey ▸ hkey)
  · -- no row is lost, so every entry still has its job
    have hkeep {r : Job} (hr : r ∈ s.jobs) :
      ∃ k ∈ updateWhere (fun k => k.id = j.id) f s.jobs, k.id = r.id := by
      refine ⟨_, mem_updateWhere.mpr ⟨r, hr, rfl⟩, ?_⟩
      split
      · exact (hf r).1
      · rfl
    rcases List.mem_append.mp he' with he' | he'
    · obtain ⟨r, hr, hid⟩ := h.known e' he'
      obtain ⟨k, hk, hkid⟩ := hkeep hr
      exact ⟨k, hk, hkid.trans hid⟩
    · obtain ⟨k, hk, hkid⟩ := hkeep hj
      exact ⟨k, hk, hkid.trans (List.mem_singleton.mp he' ▸ hjob.symm)⟩
  · exact says_updateOne (Accounted.frames env) h.ids hj hjob h.accounted haccounted hk

/-! ## The calls -/

/-- A worker writes the result under its lease, and closes the job. -/
theorem complete_sound {result : Json} (h : WorkSound env s log)
    (hcall : complete clock s job token result = .ok t) :
    WorkSound env t (log ++ [.completed job token result clock]) := by
  unfold complete at hcall
  split at hcall
  · next jobs hone =>
    cases hcall
    obtain ⟨j, hj, hholds, rfl⟩ := updateOne_spec h.ids hone
    have hrow := h.accounted j hj
    have hheld := hrow.held_of_holds hholds
    obtain ⟨rfl, -, -, -⟩ := holds_iff.mp hholds
    refine h.move hj rfl (fun r => ⟨rfl, rfl, rfl⟩) hheld ?_ (h.saved.frame (by simp))
    refine hrow.next rfl rfl ⟨rfl, rfl, rfl⟩ nofun ?_
      ⟨hrow.nonneg, hrow.bounded⟩ nofun (fun _ => rfl) ?_
      (fun _ => ⟨token, result, clock, by simp, rfl⟩) fun hne => absurd rfl hne
    · simp [WorkEvent.isClaim, WorkEvent.isBusy, Job.completed]
    · simp [WorkEvent.closes, Job.completed]
  · cases hcall

/-- A worker saves its work, which is what was saved before if anything was. -/
theorem checkpoint_sound {payload : Json} (h : WorkSound env s log)
    (hcall : checkpoint env clock s job token payload = .ok t) :
    WorkSound env t (log ++ [.checkpointed job token payload clock]) := by
  unfold checkpoint at hcall
  split at hcall
  · next jobs hone =>
    cases hcall
    obtain ⟨j, hj, hboth, rfl⟩ := updateOne_spec h.ids hone
    obtain ⟨hholds, hsame⟩ := Bool.and_eq_true_iff.mp hboth
    have hrow := h.accounted j hj
    have hheld := hrow.held_of_holds hholds
    obtain ⟨rfl, -, hrunning, -⟩ := holds_iff.mp hholds
    have hopen : j.status ≠ .completed := by rw [hrunning]; simp
    -- the earlier ones are equal to the one that is stored, and so is this one
    have hearlier : ∀ token' payload' time', .checkpointed j.id token' payload' time' ∈ log →
        env.jsonbEq payload' payload = true := by
      intro token' payload' time' he
      obtain ⟨result, hresult, heq⟩ := hrow.checkpointed hopen token' payload' time' he
      rw [hresult, Option.all_some] at hsame
      exact env.jsonbEq_equivalence.trans (env.jsonbEq_equivalence.symm heq) hsame
    refine h.move hj rfl (fun r => ⟨rfl, rfl, rfl⟩) ⟨hheld, hearlier⟩ ?_ (h.saved.frame (by simp))
    refine hrow.next rfl rfl ⟨rfl, rfl, rfl⟩ nofun ?_
      ⟨hrow.nonneg, hrow.bounded⟩ hrow.held hrow.idle ?_
      (fun hstatus => absurd hstatus hopen) fun _ token' payload' time' he => ⟨payload, rfl, ?_⟩
    · simp [WorkEvent.isClaim, WorkEvent.isBusy, Job.checkpointed]
    · simpa [WorkEvent.closes, Job.checkpointed] using hrow.closed
    · rcases List.mem_append.mp he with he | he
      · exact env.jsonbEq_equivalence.symm (hearlier token' payload' time' he)
      · cases List.mem_singleton.mp he
        exact env.jsonbEq_equivalence.refl payload
  · cases hcall

/-- A worker gives its job back. -/
theorem defer_sound {reason : String} {delaySeconds : Int} {busy : Bool} (h : WorkSound env s log)
    (hcall : defer now s job token reason delaySeconds busy = .ok t) :
    WorkSound env t (log ++ [.deferred job token busy now]) := by
  unfold defer at hcall
  split at hcall
  · next jobs hone =>
    cases hcall
    obtain ⟨j, hj, hholds, rfl⟩ := updateOne_spec h.ids hone
    have hrow := h.accounted j hj
    have hheld := hrow.held_of_holds hholds
    obtain ⟨rfl, -, hrunning, -⟩ := holds_iff.mp hholds
    have hopen : j.status ≠ .completed := by rw [hrunning]; simp
    have hpositive := (hrow.held hrunning).1
    have hbounded := hrow.bounded
    have hattempts : (Job.deferred now reason delaySeconds busy j).attempts =
        j.attempts - if busy then 1 else 0 := rfl
    refine h.move hj rfl (fun r => ⟨rfl, rfl, rfl⟩) hheld ?_ (h.saved.frame (by simp))
    -- a busy worker gets its attempt back, and every deferral gives up the lease
    refine hrow.next rfl rfl ⟨rfl, rfl, rfl⟩ nofun ?_ ?_ nofun (fun _ => rfl) ?_ nofun
      fun _ token' payload' time' he => ?_
    · cases busy <;> simp [WorkEvent.isClaim, WorkEvent.isBusy, hattempts]
    · rw [hattempts]
      show _ ∧ _ ≤ j.maxAttempts
      split <;> omega
    · have hclosed := hrow.closed
      simpa [WorkEvent.closes, hrunning, Job.deferred] using hclosed
    · exact hrow.checkpointed hopen token' payload' time' (by simpa using he)
  · cases hcall

theorem readFragments_spec {inputHash : String} {r : Readings} {rows : List Fragment}
    (h : readFragments env s job token inputHash r = .ok rows) :
    (∃ j ∈ s.jobs, j.holds job token r.acquire = true) ∧ rows = s.fragments.filter (·.jobId = job) ∧
      ∀ f ∈ rows, f.inputHash = inputHash := by
  unfold readFragments at h
  split at h
  · cases h
  split at h
  · cases h
  next hheld =>
  split at h
  · cases h
  dsimp only at h
  split at h
  · cases h
  next hsame =>
  cases h
  rw [Bool.not_eq_true', Bool.not_eq_false, List.any_eq_true] at hheld
  -- the checks that have passed are read off one after the other
  obtain ⟨j, hj, hboth⟩ := hheld
  refine ⟨⟨j, hj, (Bool.and_eq_true_iff.mp hboth).1⟩, rfl, fun f hf => ?_⟩
  by_contra hne
  exact hsame (List.any_eq_true.mpr ⟨f, hf, by simp [hne]⟩)

theorem put_sound {key inputHash : String} {payload : Dict} {readings : Readings}
    (h : WorkSound env s log)
    (hcall : put env s job token key inputHash payload readings = .ok t) :
    WorkSound env t (log ++ if s.fragments.any fun f => f.jobId = job && f.fragmentKey = key then []
      else [.saved job token key inputHash (.obj payload) readings.acquire]) := by
  unfold put at hcall
  split at hcall
  · cases hcall
  split at hcall
  · cases hcall
  next rows hread =>
  obtain ⟨⟨j, hj, hholds⟩, rfl, hinput⟩ := readFragments_spec hread
  split at hcall
  · next f hfind =>
      -- the fragment is there with the same payload: nothing is written
    split at hcall
    · cases hcall
    · cases hcall
      have hf := List.mem_filter.mp (List.mem_of_find?_eq_some hfind)
      have hkey := List.find?_some hfind
      rw [if_pos (List.any_eq_true.mpr ⟨f, hf.1, Bool.and_eq_true_iff.mpr ⟨hf.2, hkey⟩⟩),
        List.append_nil]
      exact h
  · next hnone =>
      -- a new fragment, under the lease of the job
    split at hcall
    · cases hcall
      have hrow := h.accounted j hj
      have hheld := hrow.held_of_holds hholds
      obtain ⟨rfl, -, hrunning, -⟩ := holds_iff.mp hholds
      have hfree {f : Fragment} (hf : f ∈ s.fragments) (hjob : f.jobId = j.id) :
          f.fragmentKey ≠ key := fun hkey =>
        List.find?_eq_none.mp hnone f (List.mem_filter.mpr ⟨hf, decide_eq_true hjob⟩)
          (decide_eq_true hkey)
      rw [if_neg]
      swap
      · intro hany
        obtain ⟨f, hf, hboth⟩ := List.any_eq_true.mp hany
        obtain ⟨hjob, hkey⟩ := Bool.and_eq_true_iff.mp hboth
        exact hfree hf (of_decide_eq_true hjob) (of_decide_eq_true hkey)
      -- the job itself does not change: it moves by the identity
      have hstays : updateWhere (fun k => k.id = j.id) id s.jobs = s.jobs := by
        unfold updateWhere
        simp
      rw [← hstays]
      refine h.move hj rfl (fun r => ⟨rfl, rfl, rfl⟩)
        ⟨hheld, fun token' key' inputHash' payload' time' he => ?_⟩ ?_
        ⟨fun f hf => ?_, fun job' token' key' inputHash' payload' time' he => ?_⟩
      · -- an earlier entry of the key would have its fragment, and the inputs agree
        obtain ⟨f, hf, hjob, rfl, rfl, -⟩ := h.saved.kept _ _ _ _ _ _ he
        exact ⟨hfree hf hjob, hinput f (List.mem_filter.mpr ⟨hf, decide_eq_true hjob⟩)⟩
      · refine hrow.next rfl rfl ⟨rfl, rfl, rfl⟩ nofun ?_
          ⟨hrow.nonneg, hrow.bounded⟩ hrow.held hrow.idle ?_ ?_ ?_
        · simp [WorkEvent.isClaim, WorkEvent.isBusy]
        · simpa [WorkEvent.closes] using hrow.closed
        · intro hstatus
          rw [id_eq, hrunning] at hstatus
          cases hstatus
        · intro hstatus token' payload' time' he
          exact hrow.checkpointed hstatus token' payload' time' (by simpa using he)
      · rcases List.mem_append.mp hf with hf | hf
        · obtain ⟨hhash, token', time', he⟩ := h.saved.rows f hf
          exact ⟨hhash, token', time', List.mem_append_left _ he⟩
        · rw [List.mem_singleton.mp hf]
          exact ⟨rfl, token, readings.acquire, by simp⟩
      · rcases List.mem_append.mp he with he | he
        · obtain ⟨f, hf, hsame⟩ := h.saved.kept _ _ _ _ _ _ he
          exact ⟨f, List.mem_append_left _ hf, hsame⟩
        · cases List.mem_singleton.mp he
          exact ⟨_, List.mem_append_right _ (List.mem_singleton_self _), rfl, rfl, rfl, rfl⟩
    · cases hcall

/-! ## What a claim retires -/

theorem free_of_exhausted {kind : String} (h : j.exhausted now kind = true) :
    j.free now = true := by
  unfold Job.exhausted at h
  simp only [Bool.and_eq_true] at h
  exact h.1.2

theorem retire_sound (h : WorkSound env s log) (kind : String) :
    WorkSound env { s with jobs := updateWhere (·.exhausted now kind) Job.retired s.jobs }
      (log ++ retirements now kind s.jobs) := by
  have hrows {k : Job} (hk : k ∈ updateWhere (·.exhausted now kind) Job.retired s.jobs) :
      ∃ r ∈ s.jobs,
      k.id = r.id ∧ k.kind = r.kind ∧ k.dedupKey = r.dedupKey := by
    obtain ⟨r, hr, rfl⟩ := mem_updateWhere.mp hk
    refine ⟨r, hr, ?_⟩
    split <;> exact ⟨rfl, rfl, rfl⟩
  refine ⟨h.ids.updateWhere fun _ _ => rfl, fun i hi k hk hkind hkey => ?_,
    lawful_updateWhere (Accounted.frames env) h.ids (fun _ => rfl) h.accounted h.lawful
      fun log j hexhausted hrow =>
      hrow.free (free_of_exhausted hexhausted),
    fun e he => ?_, fun k hk => ?_, h.saved.frame fun e he => ?_⟩
  · obtain ⟨i', hi', hid, hikind, hikey⟩ := hrows hi
    obtain ⟨k', hk', hkid, hkkind, hkkey⟩ := hrows hk
    rw [hid, hkid]
    exact h.keys i' hi' k' hk' (hikind ▸ hkkind ▸ hkind) (hikey ▸ hkkey ▸ hkey)
  · have hkeep {r : Job} (hr : r ∈ s.jobs) :
        ∃ k ∈ updateWhere (·.exhausted now kind) Job.retired s.jobs, k.id = r.id := by
      refine ⟨_, mem_updateWhere.mpr ⟨r, hr, rfl⟩, ?_⟩
      split <;> rfl
    rcases List.mem_append.mp he with he | he
    · obtain ⟨r, hr, hid⟩ := h.known e he
      obtain ⟨k, hk, hkid⟩ := hkeep hr
      exact ⟨k, hk, hkid.trans hid⟩
    · obtain ⟨r, hr, rfl⟩ := List.mem_map.mp he
      exact hkeep (List.mem_filter.mp hr).1
  · have hid (r : Job) : r.retired.id = r.id := rfl
    refine says_updateWhere (Accounted.frames env) h.ids (fun _ => rfl) hid h.accounted ?_ hk
    intro log r hexhausted hrow
    -- a job that is retired was free, and so not closed
    have hopen : r.status ≠ .completed := fun hstatus =>
      (hrow.free (free_of_exhausted hexhausted)).1 (hrow.closed.mpr (.inl hstatus))
    refine hrow.next rfl rfl ⟨rfl, rfl, rfl⟩ nofun ?_ ⟨hrow.nonneg, hrow.bounded⟩ nofun
      (fun _ => rfl) ?_ nofun ?_
    · simp [WorkEvent.isClaim, WorkEvent.isBusy, Job.retired]
    · simp [WorkEvent.closes, Job.retired]
    · intro _ token' payload' time' he
      exact hrow.checkpointed hopen token' payload' time' (by simpa using he)
  · obtain ⟨r, -, rfl⟩ := List.mem_map.mp he
    nofun

theorem nextJob_spec {kind : String} {locked : Uuid → Bool} {tie : Job → Nat} {jobs : List Job}
    (h : nextJob now kind locked tie jobs = some j) : j ∈ jobs ∧ j.ready now kind = true := by
  have hmem := (List.mem_insertionSort _).mp (List.mem_of_head? h)
  obtain ⟨hj, hboth⟩ := List.mem_filter.mp hmem
  exact ⟨hj, (Bool.and_eq_true_iff.mp hboth).1⟩

theorem claim_sound {kind : String} {leaseSeconds : Int}
    {locked : Uuid → Bool} {tie : Job → Nat} {answer : Option Job}
    (h : WorkSound env s log) (hfresh : some token ∉ log.map WorkEvent.token?)
    (hcall : claim now s kind leaseSeconds token locked tie = .ok (answer, t)) :
    WorkSound env t (log ++ (retirements now kind s.jobs ++
      (answer.map fun j => .claimed j.id token now (now + seconds leaseSeconds)).toList)) := by
  have hretired :
      WorkSound env { s with jobs := updateWhere (·.exhausted now kind) Job.retired s.jobs }
      (log ++ retirements now kind s.jobs) := retire_sound h kind
  rw [← List.append_assoc]
  unfold claim at hcall
  split at hcall
  · cases hcall
  dsimp only at hcall
  split at hcall
  · cases hcall
    rw [Option.map_none, Option.toList_none, List.append_nil]
    -- nothing is ready
    exact hretired
  · next j hnext =>
    cases hcall
    -- the job is free: no lease of it is running, and it has an attempt left
    obtain ⟨hj, hready⟩ := nextJob_spec hnext
    unfold Job.ready at hready
    simp only [Bool.and_eq_true, decide_eq_true_eq] at hready
    obtain ⟨⟨-, hfew⟩, hfree⟩ := hready
    have hrow := hretired.accounted j hj
    have hnonneg := hrow.nonneg
    obtain ⟨hopen, hlapsed⟩ := hrow.free hfree
    obtain ⟨hcompleted, hfailed⟩ := not_or.mp (mt hrow.closed.mpr hopen)
    -- the retirements carry no token of their own
    have hnew : some token ∉ (log ++ retirements now kind s.jobs).map WorkEvent.token? := by
      rw [List.map_append, List.mem_append, not_or]
      refine ⟨hfresh, fun hmem => ?_⟩
      obtain ⟨e, he, htoken⟩ := List.mem_map.mp hmem
      obtain ⟨r, -, rfl⟩ := List.mem_map.mp he
      cases htoken
    refine hretired.move hj rfl (fun r => ⟨rfl, rfl, rfl⟩) ⟨hopen, hlapsed, hnew⟩ ?_
      (hretired.saved.frame (by simp))
    · refine hrow.next rfl rfl ⟨rfl, rfl, rfl⟩ nofun ?_ ?_ (fun _ => ⟨?_, token, _, rfl, rfl, rfl⟩)
        (fun hne => absurd rfl hne) ?_ nofun ?_
      · simp [WorkEvent.isClaim, WorkEvent.isBusy, Job.claimed]
      · show 0 ≤ j.attempts + 1 ∧ j.attempts + 1 ≤ j.maxAttempts
        omega
      · show 0 < j.attempts + 1
        omega
      · simpa [WorkEvent.closes, Job.claimed] using hopen
      · intro _ token' payload' time' he
        exact hrow.checkpointed hcompleted token' payload' time' (by simpa using he)

theorem enqueue_sound {newId id : Uuid} {kind key : String}
    {payload : Json} {maxAttempts deadlineSeconds : Int}
    (h : WorkSound env s log)
    (hcall : enqueue now s newId kind key payload maxAttempts deadlineSeconds = .ok (id, t)) :
    WorkSound env t (log ++ [.enqueued id kind key payload]) := by
  unfold enqueue at hcall
  split at hcall
  · cases hcall
  next hpositive =>
  split at hcall
  · next row hfind =>
      -- the work of this kind and key is enqueued already: its row stays, and the entry names it
    split at hcall
    · cases hcall
      have hrow := List.mem_of_find?_eq_some hfind
      have hsame := List.find?_some hfind
      obtain ⟨rfl, rfl⟩ := of_decide_eq_true hsame
      refine ⟨h.ids, h.keys, h.lawful.concat ?_, fun e he => ?_,
        fun j hj => ?_, h.saved.frame (by simp)⟩
      · intro job' kind' key' payload' he
        obtain ⟨j, hj, rfl⟩ := h.known _ he
        obtain ⟨rfl, rfl⟩ := (h.accounted j hj).named _ _ _ he
        constructor
        · intro hid
          rw [h.ids.eq hj hrow hid]
          exact ⟨rfl, rfl⟩
        · exact fun hsame => h.keys j hj row hrow hsame.1 hsame.2
      · rcases List.mem_append.mp he with he | he
        · exact h.known e he
        · rw [List.mem_singleton.mp he]
          exact ⟨row, hrow, rfl⟩
      · have haccounted := h.accounted j hj
        by_cases hid : j.id = row.id
        · obtain rfl := h.ids.eq hj hrow hid
          refine haccounted.next rfl rfl ⟨rfl, rfl, rfl⟩ ?_ ?_
            ⟨haccounted.nonneg, haccounted.bounded⟩
            haccounted.held haccounted.idle ?_ ?_ ?_
          · rintro _ _ _ ⟨⟩
            exact ⟨rfl, rfl⟩
          · simp [WorkEvent.isClaim, WorkEvent.isBusy]
          · simpa [WorkEvent.closes] using haccounted.closed
          · intro hstatus
            obtain ⟨token, result, time, he, hresult⟩ := haccounted.completed hstatus
            exact ⟨token, result, time, List.mem_append_left _ he, hresult⟩
          · intro hstatus token payload' time he
            exact haccounted.checkpointed hstatus token payload' time (by simpa using he)
        · exact Accounted.frames env log _ j (Ne.symm hid) haccounted
    · cases hcall
  · next hnone =>
      -- new work: neither a row nor an entry has its id, so it starts without attempts or a holder
    split at hcall
    · cases hcall
    next hfree =>
    cases hcall
    have hid : ∀ j ∈ s.jobs, j.id ≠ newId := fun j hj heq =>
      hfree (List.any_eq_true.mpr ⟨j, hj, decide_eq_true heq⟩)
    have hkey : ∀ j ∈ s.jobs, ¬ (j.kind = kind ∧ j.dedupKey = key) := fun j hj heq =>
      List.find?_eq_none.mp hnone j hj (decide_eq_true heq)
    have hunknown : ∀ e ∈ log, e.job ≠ newId := fun e he heq => by
      obtain ⟨j, hj, hsame⟩ := h.known e he
      exact hid j hj (hsame.trans heq)
    refine ⟨h.ids.insert fun j hj => hid j hj, ?_,
      h.lawful.concat ?_, fun e he => ?_, fun j hj => ?_,
      h.saved.frame (by simp)⟩
    · intro i hi k hk hkind hkey'
      rcases List.mem_append.mp hi with hi | hi <;> rcases List.mem_append.mp hk with hk | hk
      · exact h.keys i hi k hk hkind hkey'
      · rw [List.mem_singleton.mp hk] at hkind hkey'
        exact absurd ⟨hkind, hkey'⟩ (hkey i hi)
      · rw [List.mem_singleton.mp hi] at hkind hkey'
        exact absurd ⟨hkind.symm, hkey'.symm⟩ (hkey k hk)
      · rw [List.mem_singleton.mp hi, List.mem_singleton.mp hk]
    · intro job' kind' key' payload' he
      obtain ⟨j, hj, rfl⟩ := h.known _ he
      obtain ⟨rfl, rfl⟩ := (h.accounted j hj).named _ _ _ he
      exact iff_of_false (hid j hj) (hkey j hj)
    · rcases List.mem_append.mp he with he | he
      · obtain ⟨j, hj, hsame⟩ := h.known e he
        exact ⟨j, List.mem_append_left _ hj, hsame⟩
      · rw [List.mem_singleton.mp he]
        exact ⟨_, List.mem_append_right _ (List.mem_singleton_self _), rfl⟩
    · rcases List.mem_append.mp hj with hj | hj
      · exact Accounted.frames env log _ j (hid j hj).symm (h.accounted j hj)
      · rw [List.mem_singleton.mp hj]
        -- the new row's only entry is its own
        have hone {e : WorkEvent} (he : e ∈ log ++ [.enqueued newId kind key payload])
            (hjob : e.job = newId) :
            e = .enqueued newId kind key payload :=
          List.mem_singleton.mp ((List.mem_append.mp he).resolve_left fun he => hunknown e he hjob)
        have hjob : (WorkEvent.enqueued newId kind key payload).job = newId := rfl
        have hholder : holderOf (log ++ [.enqueued newId kind key payload]) newId = none := by
          rw [holderOf_concat hjob]
          exact show holderOf ([] ++ log) newId = none from holderOf_append_of_ne hunknown
        have hattempts : attemptsOf (log ++ [.enqueued newId kind key payload]) newId = 0 := by
          have hlog : attemptsOf ([] ++ log) newId = 0 :=
            attemptsOf_append_of_ne fun e he hsame => absurd hsame (hunknown e he)
          rw [attemptsOf_concat hjob]
          simpa [WorkEvent.isClaim, WorkEvent.isBusy] using hlog
        refine ⟨by simp, fun _ _ _ he => ?_, hattempts.symm,
          le_rfl, ?_, nofun, fun _ => hholder, ?_, nofun, ?_⟩
        · cases hone he rfl
          exact ⟨rfl, rfl⟩
        · show (0 : Int) ≤ maxAttempts
          omega
        · refine iff_of_false ?_ (by simp)
          rintro ⟨e, he, hjob, hcloses⟩
          cases hone he hjob
          cases hcloses
        · intro _ token payload' time he
          cases hone he rfl

/-- **Step lemma.** -/
theorem job_step {p q : Work × List WorkEvent} {a : Instant × Instant × JobCall}
    (h : WorkSound env p.1 p.2)
    (hstep : (jobSystem env).step p a q) : WorkSound env q.1 q.2 := by
  obtain ⟨s, log⟩ := p
  obtain ⟨t, log'⟩ := q
  obtain ⟨now, clock, call⟩ := a
  obtain ⟨hfresh, new, hrun, rfl⟩ := hstep
  cases call with
  | enqueue newId kind key payload maxAttempts deadlineSeconds =>
    obtain ⟨⟨id, t'⟩, hcall, heq⟩ := map_eq_ok hrun
    cases heq
    exact enqueue_sound h hcall
  | claim kind leaseSeconds token locked tie =>
    obtain ⟨⟨answer, t'⟩, hcall, heq⟩ := map_eq_ok hrun
    cases heq
    exact claim_sound h hfresh hcall
  | complete job token result =>
    obtain ⟨t', hcall, heq⟩ := map_eq_ok hrun
    cases heq
    exact complete_sound h hcall
  | checkpoint job token payload =>
    obtain ⟨t', hcall, heq⟩ := map_eq_ok hrun
    cases heq
    exact checkpoint_sound h hcall
  | defer job token reason delaySeconds busy =>
    obtain ⟨t', hcall, heq⟩ := map_eq_ok hrun
    cases heq
    exact defer_sound h hcall
  | put job token key inputHash payload readings =>
    obtain ⟨t', hcall, heq⟩ := map_eq_ok hrun
    cases heq
    exact put_sound h hcall

/-- **The law of the jobs**: in every interleaving of the calls, a job is written under the lease of
its last claim only and completed once, and its row and its fragments are what the history says. -/
theorem jobs_follow_last_claim (env : Env) (h : (jobSystem env).Reachable (s, log)) :
    Lawful (WorkEvent.Allowed env) log ∧
      ((log.filter WorkEvent.completes).map WorkEvent.job).Nodup ∧
      (∀ j ∈ s.jobs, Accounted env log j) ∧ Saved env s.fragments log := by
  have hsound : WorkSound env s log := by
    refine h.invariant (I := fun p => WorkSound env p.1 p.2) ?_ fun p a q hp hstep =>
      job_step hp hstep
    rintro p rfl
    have hnone {P : Job → Prop} : ∀ j ∈ ([] : List Job), P j :=
      fun j hj => absurd hj List.not_mem_nil
    exact ⟨List.nodup_nil, hnone, .nil, fun e he => absurd he List.not_mem_nil, hnone,
      fun f hf => absurd hf List.not_mem_nil, fun _ _ _ _ _ _ he => absurd he List.not_mem_nil⟩
  exact ⟨hsound.lawful, completions_nodup hsound.lawful, hsound.accounted, hsound.saved⟩

/-! ### A worker that is replaced -/

def sampleJob : Job :=
  { id := 1, kind := "read", dedupKey := "a", payload := .null, maxAttempts := 2, availableAt := 0
    deadline := seconds 60, createdAt := 0 }

/-- The first worker's lease of a second is over, and the second one has the job. -/
def replacedJob : Job :=
  ((sampleJob.claimed 0 10 1).checkpointed (.str "paid")).claimed (seconds 5) 11 30

def replacedLog : List WorkEvent :=
  [.enqueued 1 "read" "a" .null, .claimed 1 10 0 (seconds 1), .checkpointed 1 10 (.str "paid") 5,
    .claimed 1 11 (seconds 5) (seconds 5 + seconds 30)]

theorem replaced_reachable : (jobSystem plainEnv).Reachable
    ({ jobs := [replacedJob.completed (.str "done")] },
      replacedLog ++ [.completed 1 11 (.str "done") (seconds 6)]) := by
  have hfresh : some 10 ∉ (replacedLog.take 1).map WorkEvent.token? := by decide
  have hagain : some 11 ∉ (replacedLog.take 3).map WorkEvent.token? := by decide
  refine ⟨({}, []),
    [(0, 0, .enqueue 1 "read" "a" .null 2 60), (0, 0, .claim "read" 1 10 (fun _ => false) Job.id),
    (5, 5, .checkpoint 1 10 (.str "paid")),
    (seconds 5, seconds 5, .claim "read" 30 11 (fun _ => false) Job.id),
    (seconds 6, seconds 6, .complete 1 11 (.str "done"))], rfl, ?_⟩
  refine .cons (t := ({ jobs := [sampleJob] }, replacedLog.take 1)) ⟨trivial, _, rfl, rfl⟩ ?_
  refine .cons (t := ({ jobs := [sampleJob.claimed 0 10 1] }, replacedLog.take 2))
    ⟨hfresh, _, rfl, rfl⟩ ?_
  refine .cons (t :=
    ({ jobs := [(sampleJob.claimed 0 10 1).checkpointed (.str "paid")] }, replacedLog.take 3))
    ⟨trivial, _, rfl, rfl⟩ ?_
  refine .cons (t := ({ jobs := [replacedJob] }, replacedLog)) ⟨hagain, _, rfl, rfl⟩ ?_
  exact .single ⟨trivial, _, rfl, rfl⟩

/-- The first worker cannot complete the job, and the second one does. -/
theorem replaced_worker :
    complete (seconds 6) { jobs := [replacedJob] } 1 10 (.str "late") =
      .error (.conflict "Work lease expired or replaced") ∧
    Lawful (WorkEvent.Allowed plainEnv)
      (replacedLog ++ [.completed 1 11 (.str "done") (seconds 6)]) :=
  ⟨rfl, (jobs_follow_last_claim plainEnv replaced_reachable).1⟩

end GenusOs.Operations
