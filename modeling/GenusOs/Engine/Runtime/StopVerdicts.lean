import GenusOs.Engine.Runtime.StopControls
import Mathlib

/-!
# Stop verdicts are never stale in their own process

A read that began before an issue may come back after it, and its answer must then not be cached.
The generation sees to that: what is cached, and what is about to be cached under the current
generation, was read after every stop the cache was emptied for.

* `covers_record`: recording a run changes no verdict that was asked for.
* `reachable_inv`: the cache invariant.
* `stops_are_honoured`: every interleaving; and a cancel stays a cancel.
-/

namespace GenusOs.Engine.Runtime.Controls

/-- A stop is in the tables. -/
def Stop.isRecorded (db : Database) : Stop → Bool
  | .run tenant runId => db.controls.any (Control.isFor tenant runId)
  | .request tenant requestId =>
    db.requestStops.any fun c => c.tenant = tenant && c.requestId = requestId

/-- The key is of a run of the family that was stopped. -/
def Stop.covers (runs : List RunRow) (key : Key) : Stop → Bool
  | .run tenant runId =>
    tenant = key.tenant && (family runs key.tenant key.runId).any (·.id = runId)
  | .request tenant requestId =>
    tenant = key.tenant && (key.requestId = some requestId ||
      (family runs key.tenant key.runId).any (·.requestId = some requestId))

/-- No one of these stops is of the key's family. -/
def Clear (stops : List Stop) (runs : List RunRow) (key : Key) : Prop :=
  ∀ stop ∈ stops, stop.covers runs key = false

variable {db db' : Database} {stop : Stop} {key : Key} {s t : State} {id : Nat}

/-! ## The query -/

/-- The query finds a recorded stop of the family. -/
theorem stopped_of_covers (hrecorded : stop.isRecorded db = true)
    (hcovers : stop.covers db.runs key = true) : db.stopped key = true := by
  unfold Database.stopped
  rw [Bool.or_eq_true]
  cases stop with
  | run tenant runId =>
    simp only [Stop.covers, Bool.and_eq_true, decide_eq_true_eq] at hcovers
    obtain ⟨c, hc, hfor⟩ := List.any_eq_true.mp hrecorded
    simp only [Control.isFor, Bool.and_eq_true, decide_eq_true_eq] at hfor
    left
    apply List.any_eq_true.mpr
    refine ⟨c, hc, ?_⟩
    rw [Bool.and_eq_true, decide_eq_true_eq, hfor.1, hfor.2]
    exact hcovers
  | request tenant requestId =>
    simp only [Stop.covers, Bool.and_eq_true, decide_eq_true_eq] at hcovers
    obtain ⟨c, hc, hfor⟩ := List.any_eq_true.mp hrecorded
    simp only [Bool.and_eq_true, decide_eq_true_eq] at hfor
    right
    apply List.any_eq_true.mpr
    refine ⟨c, hc, ?_⟩
    rw [Bool.and_eq_true, decide_eq_true_eq, hfor.1, hfor.2]
    exact hcovers

theorem clear_of_not_stopped {stops : List Stop}
    (hrecorded : ∀ stop ∈ stops, stop.isRecorded db = true)
    (h : db.stopped key = false) : Clear stops db.runs key := by
  intro stop hstop
  by_contra hcovers
  have := stopped_of_covers (hrecorded stop hstop) (by simpa using hcovers)
  rw [h] at this
  cases this

/-! ## Recording a run -/

/-- A run nobody asked about, and to which no recorded run refers, is in no family asked for. -/
theorem mem_family_record {runs : List RunRow} {row r : RunRow} {tenant : String}
    {runId : Option String} (hfree : ∀ r ∈ runs, r.links row = false) (hid : runId ≠ some row.id) :
    r ∈ family (runs ++ [row]) tenant runId ↔ r ∈ family runs tenant runId := by
  unfold family
  by_cases htenant : row.tenant = tenant
  · have hown : (runs ++ [row]).filter (·.tenant = tenant) =
        runs.filter (·.tenant = tenant) ++ [row] := by simp [htenant]
    simp only [hown]
    have hstart : (runs.filter (·.tenant = tenant) ++ [row]).filter (fun r => runId = some r.id) =
        (runs.filter (·.tenant = tenant)).filter fun r => runId = some r.id := by
      rw [List.filter_append, List.filter_singleton]
      simp [hid]
    rw [hstart]
    apply closure_append_unlinked
    · exact List.filter_subset_self _
    · intro r hr
      exact hfree r (List.mem_filter.mp hr).1
  · have hown : (runs ++ [row]).filter (·.tenant = tenant) = runs.filter (·.tenant = tenant) := by
      simp [htenant]
    simp only [hown]

theorem any_congr_mem {α : Type*} {l l' : List α} {p : α → Bool} (h : ∀ a, a ∈ l ↔ a ∈ l') :
    l.any p = l'.any p := by
  rw [Bool.eq_iff_iff, List.any_eq_true, List.any_eq_true]
  exact exists_congr fun a => and_congr_left fun _ => h a

theorem covers_record {row : RunRow} (h : s.records row = true) (hkey : key ∈ s.asked)
    (stop : Stop) : stop.covers (s.db.runs ++ [row]) key = stop.covers s.db.runs key := by
  simp only [State.records, Bool.and_eq_true, List.all_eq_true, decide_eq_true_eq,
    Bool.not_eq_true'] at h
  have hfamily : ∀ r, r ∈ family (s.db.runs ++ [row]) key.tenant key.runId ↔
      r ∈ family s.db.runs key.tenant key.runId := fun r =>
    mem_family_record (fun r hr => (h.1 r hr).2) (h.2 key hkey)
  cases stop with
  | run tenant runId => simp only [Stop.covers, any_congr_mem hfamily]
  | request tenant requestId => simp only [Stop.covers, any_congr_mem hfamily]

/-! ## The transactions -/

/-- What the transaction of a call does. -/
inductive Committed (db : Database) : StopCall → Database → Prop
  | reissued {tenant runId : String} {action : StopAction} {note : String} :
    db.controls.any (Control.isFor tenant runId) = true →
      Committed db (.run tenant runId action note)
        { db with
          controls := Rows.updateWhere (Control.isFor tenant runId) (Control.reissued action note)
            db.controls }
  | issued {tenant runId : String} {action : StopAction} {note : String} :
    Committed db (.run tenant runId action note)
      { db with controls := db.controls ++ [{ tenant, runId, action, note }] }
  | already {tenant requestId note : String} :
    (db.requestStops.any fun c => c.tenant = tenant && c.requestId = requestId) = true →
      Committed db (.request tenant requestId note) db
  | requested {tenant requestId note : String} :
    Committed db (.request tenant requestId note)
      { db with requestStops := db.requestStops ++ [{ tenant, requestId, note }] }

theorem committed {call : StopCall} (h : db.commit call = some db') : Committed db call db' := by
  cases call with
  | run tenant runId action note =>
    simp only [Database.commit] at h
    split at h
    · cases h
    · split at h
      · next hany =>
        cases h
        exact .reissued hany
      · cases h
        exact .issued
  | request tenant requestId note =>
    simp only [Database.commit] at h
    split at h
    · cases h
    · split at h
      · next hany =>
        cases h
        exact .already hany
      · cases h
        exact .requested

theorem Committed.runs {call : StopCall} (h : Committed db call db') : db'.runs = db.runs := by
  cases h with
  | reissued | issued | already | requested => rfl

theorem isFor_reissued {tenant runId : String} {action : StopAction} {note : String} (c : Control) :
    (c.reissued action note).isFor tenant runId = c.isFor tenant runId := rfl

/-- An update of some controls keeps whose controls there are. -/
theorem any_isFor_update {tenant runId tenant' runId' : String} {action : StopAction}
    {note : String} {controls : List Control} :
    (Rows.updateWhere (Control.isFor tenant' runId') (Control.reissued action note) controls).any
      (Control.isFor tenant runId) = controls.any (Control.isFor tenant runId) := by
  unfold Rows.updateWhere
  rw [List.any_map]
  congr 1
  funext c
  by_cases hc : c.isFor tenant' runId' = true
  · simp [hc, isFor_reissued]
  · simp [hc]

/-- Stops are never withdrawn. -/
theorem Committed.isRecorded {call : StopCall} (h : Committed db call db')
    (hstop : stop.isRecorded db = true) : stop.isRecorded db' = true := by
  cases stop with
  | run =>
    cases h with
    | reissued => exact any_isFor_update.trans hstop
    | issued =>
      simp only [Stop.isRecorded, List.any_append, Bool.or_eq_true]
      exact .inl hstop
    | already | requested => exact hstop
  | request =>
    cases h with
    | requested =>
      simp only [Stop.isRecorded, List.any_append, Bool.or_eq_true]
      exact .inl hstop
    | reissued | issued | already => exact hstop

/-- A committed call has its stop in the tables. -/
theorem Committed.records {call : StopCall} (h : Committed db call db') :
    call.stop.isRecorded db' = true := by
  cases h with
  | reissued hany => exact any_isFor_update.trans hany
  | issued => simp [StopCall.stop, Stop.isRecorded, Control.isFor]
  | already hany => exact hany
  | requested => simp [StopCall.stop, Stop.isRecorded]

/-- A recorded cancel stays. -/
theorem Committed.cancel {call : StopCall} {tenant runId : String} (h : Committed db call db')
    (hcancel : db.action tenant runId = some .cancel) : db'.action tenant runId = some .cancel := by
  obtain ⟨c, hc, haction⟩ := Option.map_eq_some_iff.mp hcancel
  cases h with
  | @reissued tenant' runId' action note hany =>
    have hfind := @Rows.find?_updateWhere _ (Control.isFor tenant' runId')
      (Control.isFor tenant runId)
      (Control.reissued action note) db.controls
      (fun c _ => isFor_reissued c)
    simp only [Database.action, hfind, hc, Option.map_some]
    by_cases hfor : c.isFor tenant' runId' = true
    · simp [hfor, Control.reissued, haction]
    · simp [hfor, haction]
  | issued => simp [Database.action, List.find?_append, hc, haction]
  | already | requested => exact hcancel

/-! ## The invariant -/

/-- A call in flight. What a read that came back with `false` says of the stops known then. -/
def CallOk (s : State) : Call → Prop
  | .committed stop => stop.isRecorded s.db = true
  | .signalling stop => stop ∈ s.settled
  | .reading key generation before =>
    generation ≤ s.generation ∧ key ∈ s.asked ∧ before ⊆ s.settled
  | .storing key generation verdict before =>
    generation ≤ s.generation ∧ key ∈ s.asked ∧ (verdict = false →
      Clear before s.db.runs key ∧
        (generation = s.generation → Clear s.settled s.db.runs key))

/-- A cached verdict. -/
def EntryOk (s : State) (key : Key) (e : Entry) : Prop :=
  e.generation ≤ s.generation ∧ key ∈ s.asked ∧
    (e.generation = s.generation → e.stopped = false → Clear s.settled s.db.runs key)

/-- An answer. -/
def AnswerOk (s : State) (a : Answer) : Prop :=
  a.key ∈ s.asked ∧ (a.verdict = false → Clear a.before s.db.runs a.key)

/-- **The cache invariant.** -/
structure Inv (s : State) : Prop where
  settled : ∀ stop ∈ s.settled, stop.isRecorded s.db = true
  issued : s.issued ⊆ s.settled
  calls : ∀ id call, s.calls id = some call → CallOk s call
  cache : ∀ key e, s.cache.lookup key = some e → EntryOk s key e
  answers : ∀ a ∈ s.answers, AnswerOk s a

/-- The tables have grown, and no family asked for has changed. -/
structure Grown (s : State) (db : Database) : Prop where
  recorded : ∀ stop : Stop, stop.isRecorded s.db = true → stop.isRecorded db = true
  covers : ∀ key ∈ s.asked, ∀ stop : Stop, stop.covers db.runs key = stop.covers s.db.runs key

theorem Grown.clear (h : Grown s db) {stops : List Stop} (hkey : key ∈ s.asked)
    (hclear : Clear stops s.db.runs key) : Clear stops db.runs key := by
  intro stop hstop
  rw [h.covers key hkey]
  exact hclear stop hstop

theorem Committed.grown {call : StopCall} (h : Committed s.db call db) : Grown s db where
  recorded _ hstop := h.isRecorded hstop
  covers _ _ _ := by rw [h.runs]

theorem grown_record {row : RunRow} (h : s.records row = true) :
    Grown s { s.db with runs := s.db.runs ++ [row] } where
  recorded stop hstop := by cases stop <;> exact hstop
  covers _ hkey stop := covers_record h hkey stop

theorem Inv.grow (hi : Inv s) (h : Grown s db) : Inv { s with db } where
  settled stop hstop := h.recorded stop (hi.settled stop hstop)
  issued := hi.issued
  calls id call hcall := by
    have hok := hi.calls id call hcall
    cases call with
    | committed stop => exact h.recorded stop hok
    | signalling | reading => exact hok
    | storing key generation verdict before =>
      obtain ⟨hle, hkey, hclear⟩ := hok
      refine ⟨hle, hkey, fun hv => ⟨h.clear hkey (hclear hv).1, fun hg => ?_⟩⟩
      exact h.clear hkey ((hclear hv).2 hg)
  cache key e he := by
    obtain ⟨hle, hkey, hclear⟩ := hi.cache key e he
    exact ⟨hle, hkey, fun hg hv => h.clear hkey (hclear hg hv)⟩
  answers a ha := by
    obtain ⟨hkey, hclear⟩ := hi.answers a ha
    exact ⟨hkey, fun hv => h.clear hkey (hclear hv)⟩

theorem Inv.setCall (hi : Inv s) {call : Option Call} (h : ∀ c, call = some c → CallOk s c) :
    Inv (s.setCall id call) where
  settled := hi.settled
  issued := hi.issued
  calls id' c hc := by
    simp only [State.setCall, Function.update_apply] at hc
    split at hc
    · exact h c hc
    · exact hi.calls id' c hc
  cache := hi.cache
  answers := hi.answers

theorem Inv.answer (hi : Inv s) {before : List Stop} {verdict : Bool} (hkey : key ∈ s.asked)
    (h : verdict = false → Clear before s.db.runs key) : Inv (s.answer key before verdict) where
  settled := hi.settled
  issued := hi.issued
  calls := hi.calls
  cache := hi.cache
  answers a ha := by
    rcases List.mem_append.mp ha with ha | ha
    · exact hi.answers a ha
    · rw [List.mem_singleton.mp ha]
      exact ⟨hkey, h⟩

theorem Inv.ask (hi : Inv s) : Inv { s with asked := key :: s.asked } where
  settled := hi.settled
  issued := hi.issued
  calls id call hcall := by
    have hok := hi.calls id call hcall
    cases call with
    | committed | signalling => exact hok
    | reading | storing => exact ⟨hok.1, List.mem_cons_of_mem _ hok.2.1, hok.2.2⟩
  cache key e he := by
    obtain ⟨hle, hkey, hclear⟩ := hi.cache key e he
    exact ⟨hle, List.mem_cons_of_mem _ hkey, hclear⟩
  answers a ha := by
    obtain ⟨hkey, hclear⟩ := hi.answers a ha
    exact ⟨List.mem_cons_of_mem _ hkey, hclear⟩

/-- The cache is emptied and the generation bumped: what is still being read is out of date. -/
theorem Inv.invalidate (hi : Inv s) (hstop : stop.isRecorded s.db = true) :
    Inv { s with generation := s.generation + 1, cache := ∅, settled := stop :: s.settled } where
  settled := by
    intro stop' hstop'
    rcases List.mem_cons.mp hstop' with rfl | hstop'
    · exact hstop
    · exact hi.settled stop' hstop'
  issued _ hstop := List.mem_cons_of_mem _ (hi.issued hstop)
  calls id call hcall := by
    have hok := hi.calls id call hcall
    cases call with
    | committed => exact hok
    | signalling => exact List.mem_cons_of_mem _ hok
    | reading =>
      obtain ⟨hle, hkey, hbefore⟩ := hok
      exact ⟨Nat.le_succ_of_le hle, hkey, fun _ h => List.mem_cons_of_mem _ (hbefore h)⟩
    | storing =>
      obtain ⟨hle, hkey, hclear⟩ := hok
      refine ⟨Nat.le_succ_of_le hle, hkey, fun hv => ⟨(hclear hv).1, fun hg => ?_⟩⟩
      exact absurd hg (Nat.ne_of_lt (Nat.lt_succ_of_le hle))
  cache key e he := by simp at he
  answers := hi.answers

theorem Inv.cached (hi : Inv s) {e : Entry} (h : EntryOk s key e) : Inv (s.cached key e) where
  settled := hi.settled
  issued := hi.issued
  calls := hi.calls
  cache key' e' he' := by
    simp only [State.cached] at he'
    by_cases hk : key' = key
    · subst hk
      rw [AList.lookup_insert] at he'
      cases he'
      exact h
    · rw [AList.lookup_insert_ne hk] at he'
      split at he'
      · simp at he'
      · exact hi.cache key' e' he'
  answers := hi.answers

/-- **Step lemma.** -/
theorem Inv.step {a : Action} (hi : Inv s) (h : step s a = some t) : Inv t := by
  cases a with
  | record row =>
    simp only [Controls.step] at h
    split at h
    · next hrecords =>
      cases h
      exact hi.grow (grown_record hrecords)
    · cases h
  | elsewhere call =>
    obtain ⟨db, hdb, rfl⟩ := Option.map_eq_some_iff.mp h
    exact hi.grow (committed hdb).grown
  | commit id call =>
    simp only [Controls.step] at h
    split at h
    · cases h
    · obtain ⟨db, hdb, rfl⟩ := Option.map_eq_some_iff.mp h
      apply (hi.grow (committed hdb).grown).setCall
      rintro c ⟨rfl⟩
      exact (committed hdb).records
  | invalidate id =>
    simp only [Controls.step] at h
    split at h
    · next stop hcall =>
      cases h
      apply (hi.invalidate (hi.calls id _ hcall)).setCall
      rintro c ⟨rfl⟩
      exact List.mem_cons_self
    · cases h
  | finish id =>
    simp only [Controls.step] at h
    split at h
    · next stop hcall =>
      cases h
      have hsettled : stop ∈ s.settled := hi.calls id _ hcall
      have hi' : Inv { s with issued := stop :: s.issued } :=
        { hi with issued := List.cons_subset.mpr ⟨hsettled, hi.issued⟩ }
      exact hi'.setCall (by rintro c ⟨⟩)
    · cases h
  | ask id key refresh now =>
    simp only [Controls.step] at h
    split at h
    · cases h
    · have hi' : Inv { s with asked := key :: s.asked } := hi.ask
      split at h
      · next hit hhit =>
        cases h
        obtain ⟨hlookup, hcond⟩ := Option.filter_eq_some_iff.mp hhit
        simp only [Bool.and_eq_true, decide_eq_true_eq] at hcond
        obtain ⟨-, -, hclear⟩ := hi'.cache key hit hlookup
        refine hi'.answer List.mem_cons_self fun hv => ?_
        -- the entry is of the current generation, and every returned issue is settled
        exact fun stop hstop => hclear hcond.1.2 hv stop (hi.issued hstop)
      · cases h
        apply hi'.setCall
        rintro c ⟨rfl⟩
        exact ⟨Nat.le_refl _, List.mem_cons_self, hi.issued⟩
  | read id =>
    simp only [Controls.step] at h
    split at h
    · next key generation before hcall =>
      cases h
      obtain ⟨hle, hkey, hbefore⟩ := hi.calls id _ hcall
      apply hi.setCall
      rintro c ⟨rfl⟩
      refine ⟨hle, hkey, fun hv => ?_⟩
      have hclear : Clear s.settled s.db.runs key := clear_of_not_stopped hi.settled hv
      exact ⟨fun stop hstop => hclear stop (hbefore hstop), fun _ => hclear⟩
    · cases h
  | store id now =>
    simp only [Controls.step] at h
    split at h
    · next key generation verdict before hcall =>
      cases h
      obtain ⟨hle, hkey, hclear⟩ := hi.calls id _ hcall
      have hi' : Inv ((s.setCall id none).answer key before verdict) :=
        (hi.setCall (by rintro c ⟨⟩)).answer hkey fun hv => (hclear hv).1
      split
      · exact hi'.cached ⟨hle, hkey, fun hg hv => (hclear hv).2 hg⟩
      · exact hi'
    · cases h

theorem Inv.initial (h : stopSystem.init s) : Inv s := by
  obtain ⟨db, rfl⟩ := h
  constructor
  · intro stop hstop
    cases hstop
  · exact List.Subset.refl _
  · intro id call hcall
    cases hcall
  · intro key e he
    simp at he
  · intro a ha
    cases ha

theorem reachable_inv (h : stopSystem.Reachable s) : Inv s :=
  h.invariant (fun _ => Inv.initial) fun _ _ _ hi hstep => hi.step hstep

/-! ## Cancels -/

theorem step_cancel {a : Action} {tenant runId : String} (h : step s a = some t)
    (hcancel : s.db.action tenant runId = some .cancel) :
    t.db.action tenant runId = some .cancel := by
  cases a with
  | record row =>
    simp only [Controls.step] at h
    split at h
    all_goals cases h
    exact hcancel
  | elsewhere call =>
    obtain ⟨db, hdb, rfl⟩ := Option.map_eq_some_iff.mp h
    exact (committed hdb).cancel hcancel
  | commit id call =>
    simp only [Controls.step] at h
    split at h
    · cases h
    · obtain ⟨db, hdb, rfl⟩ := Option.map_eq_some_iff.mp h
      exact (committed hdb).cancel hcancel
  | invalidate | finish | read =>
    simp only [Controls.step] at h
    split at h
    all_goals cases h
    exact hcancel
  | ask =>
    simp only [Controls.step] at h
    split at h
    · cases h
    · split at h
      all_goals
        cases h
        exact hcancel
  | store =>
    simp only [Controls.step] at h
    split at h
    · cases h
      split
      all_goals exact hcancel
    · cases h

/-! ## Honoured stops -/

/-- **Stops are honoured.** Every call about a run of the family that is made after an issue
returned answers yes, whatever was in flight then, and a recorded cancel is never replaced. -/
theorem stops_are_honoured (h : stopSystem.Reachable s) :
    (∀ a ∈ s.answers, ∀ stop ∈ a.before, stop.covers s.db.runs a.key = true → a.verdict = true) ∧
      ∀ as t, stopSystem.Run s as t → ∀ tenant runId,
        s.db.action tenant runId = some .cancel → t.db.action tenant runId = some .cancel := by
  constructor
  · intro a ha stop hstop hcovers
    by_contra hv
    obtain ⟨-, hclear⟩ := (reachable_inv h).answers a ha
    have hfree := hclear (by simpa using hv) stop hstop
    rw [hcovers] at hfree
    cases hfree
  · intro as t hrun tenant runId hcancel
    exact hrun.preserves (I := fun s => s.db.action tenant runId = some .cancel)
      (fun _ _ _ hc hstep => step_cancel hstep hc) hcancel

/-! A verdict on a child run is read before its parent is cancelled and comes back after it; the
next tool call of the child is denied. -/

def childKey : Key := { tenant := "default", runId := some "child", requestId := none }

def raceStart : State where
  db := { runs := [{ tenant := "default", id := "parent" },
    { tenant := "default", id := "child", parentRunId := some "parent" }] }

def raceActions : List Action :=
  [.ask 1 childKey true 0, .read 1, .commit 2 (.run "default" "parent" .cancel "stop"),
    .invalidate 2, .store 1 1, .finish 2, .ask 3 childKey false 2, .read 3, .store 3 3]

theorem raced_stop_honoured : ∃ s, stopSystem.Reachable s ∧
    ∃ a ∈ s.answers, a.before = [.run "default" "parent"] ∧ a.verdict = true := by
  have hrace : (raceActions.foldlM step raceStart).map (fun s =>
      (s.answers.map fun a => (a.key, a.before),
        (Stop.run "default" "parent").covers s.db.runs childKey)) =
      some ([(childKey, []), (childKey, [.run "default" "parent"])], true) := by decide +kernel
  obtain ⟨s, hs, hsame⟩ := Option.map_eq_some_iff.mp hrace
  obtain ⟨hanswers, hcovers⟩ := Prod.mk.inj hsame
  have hreachable : stopSystem.Reachable s :=
    ⟨raceStart, raceActions, ⟨raceStart.db, rfl⟩, System.run_of_foldlM hs⟩
  obtain ⟨a, ha, hkey⟩ := List.mem_map.mp (hanswers ▸ List.mem_cons_of_mem _ List.mem_cons_self :
    (childKey, [Stop.run "default" "parent"]) ∈ s.answers.map fun a => (a.key, a.before))
  obtain ⟨hkey, hbefore⟩ := Prod.mk.inj hkey
  refine ⟨s, hreachable, a, ha, hbefore, ?_⟩
  apply (stops_are_honoured hreachable).1 a ha (.run "default" "parent")
  · rw [hbefore]
    exact List.mem_cons_self
  · rw [hkey]
    exact hcovers

end GenusOs.Engine.Runtime.Controls
