import GenusOs.Engine.Runtime.Effects

/-!
# Effects happen at most once

* `step_rows`: a step inserts a row no other one conflicts with, moves unresolved rows on under a
  new version, or rotates uncertain rows.
* `Reachable.inv`: so keys stay unique, and so does the unresolved record of an intent.
* `run_terminal`: a record that is no longer unresolved never changes again.
* `LaterBegins`: once a result is stored, every later `begin` of it in its request is answered
  from the store.
-/

namespace GenusOs.Engine.Runtime

open GenusOs.Python

/-! ## What a step does to the rows -/

/-- An unresolved record moves on: its identity stays, its version rises. -/
structure Moves (e e' : Effect) : Prop where
  unresolved : e.unresolved = true
  id : e'.id = e.id
  intent : e'.intent = e.intent
  version : e'.version = e.version + 1

/-- An uncertain record is rotated: its `updated_at` alone changes. -/
structure Rotates (e e' : Effect) : Prop where
  uncertain : e.state = .uncertain
  rest : e' = { e with updatedAt := e'.updatedAt }

def Action.isRotate : Action → Bool
  | .rotate .. => true
  | _ => false

/-- The rows after an action. -/
inductive RowsStep (rows : List Effect) : Action → List Effect → Prop
  | same (a : Action) : RowsStep rows a rows
  | insert {a : Action} {row : Effect} (h : violatesUnique rows row = false) :
      RowsStep rows a (rows ++ [row])
  | move {a : Action} {p : Effect → Bool} {f : Effect → Effect}
      (h : ∀ e, p e = true → Moves e (f e)) : RowsStep rows a (Rows.updateWhere p f rows)
  | rotate {tenantId effectId : String} {now : Int} {p : Effect → Bool} {f : Effect → Effect}
      (h : ∀ e, p e = true → Rotates e (f e)) :
      RowsStep rows (.rotate tenantId effectId now) (Rows.updateWhere p f rows)

theorem EffectState.unresolved_of_active {st : EffectState} (h : st.active = true) :
    st.unresolved = true := by
  cases st <;> simp_all [active, unresolved]

theorem Moves.moveTo {e : Effect} (h : e.state.unresolved = true) (state : EffectState)
    (now : Int) (resolution : Option Json) :
    Moves e { e.moveTo state now with resolution := resolution } :=
  { unresolved := h, id := rfl, intent := rfl, version := rfl }

theorem Moves.withdraw {e : Effect} (h : e.state.active = true) (now : Int) :
    Moves e (e.withdraw now) :=
  { unresolved := EffectState.unresolved_of_active h, id := rfl, intent := rfl, version := rfl }

namespace Rotates

variable {e e' : Effect} (h : Rotates e e')

include h

theorem unresolved : e.unresolved = true := by
  simp [Effect.unresolved, h.uncertain, EffectState.unresolved]

theorem id : e'.id = e.id := by rw [h.rest]

theorem intent : e'.intent = e.intent := by
  rw [h.rest]
  rfl

end Rotates

theorem release_rows {rows rows' : List Effect} {scope : Scope} {effectId src actor note : String}
    {now : Int} (a : Action)
    (h : (release scope effectId src actor note now rows).map (·.1) = .ok rows') :
    RowsStep rows a rows' := by
  unfold release at h
  split at h
  · cases h
  · simp only [Except.map, Except.ok.injEq] at h
    subst h
    refine .move fun e he => Moves.moveTo ?_ _ _ _
    simp only [Bool.and_eq_true, decide_eq_true_eq] at he
    simp [he.2, EffectState.unresolved]

theorem reconcileFamily_rows {rows rows' : List Effect} {tenantId : String} {family : List String}
    {actor note : String} {operator : Bool} {now : Int} (a : Action)
    (h : reconcileFamily tenantId family actor note operator now rows = .ok rows') :
    RowsStep rows a rows' := by
  unfold reconcileFamily at h
  dsimp only at h
  split at h
  · cases h
    exact .same a
  · split at h
    · cases h
    · split at h
      · cases h
      · cases h
        refine .move fun e he => Moves.moveTo ?_ _ _ _
        simp only [Bool.and_eq_true, decide_eq_true_eq] at he
        simp [he.2, EffectState.unresolved]

namespace Ledger

variable {env : Platform} {s t : Ledger} {a : Action}

theorem orUnchanged_rows {rows : Except String (List Effect)}
    (h : ∀ rows', rows = .ok rows' → RowsStep s.rows a rows') :
    RowsStep s.rows a (s.orUnchanged rows).rows := by
  cases rows with
  | ok rows' => exact h rows' rfl
  | error _ => exact .same a

theorem beginInsert_rows {scope : Scope} {id : String} {now : Int} (a : Action)
    (h : s.beginInsert scope id now = some t) : RowsStep s.rows a t.rows := by
  obtain ⟨adm, -, rfl⟩ := Option.map_eq_some_iff.mp h
  dsimp only
  split
  · exact .same a
  · next hv => exact .insert (by simpa using hv)

/-- **Row step lemma.** -/
theorem step_rows (h : s.step env a = some t) : RowsStep s.rows a t.rows := by
  cases a with
  | lock context runId agentId toolName arguments =>
    simp only [step, beginLock] at h
    split at h
    · cases h
    · cases h
      exact .same _
  | find scope =>
    obtain ⟨adm, -, rfl⟩ := Option.map_eq_some_iff.mp h
    split <;> exact .same _
  | fence scope now =>
    obtain ⟨adm, -, rfl⟩ := Option.map_eq_some_iff.mp h
    split <;> exact .same _
  | insert scope id now => exact beginInsert_rows _ h
  | crash scope =>
    cases h
    exact .same _
  | markDispatched context effectId runId now =>
    cases h
    refine .move fun e he => Moves.moveTo ?_ _ _ _
    simp only [Bool.and_eq_true, decide_eq_true_eq] at he
    simp [he.2, EffectState.unresolved]
  | record context effectId runId result now =>
    cases h
    refine .move fun e he => Moves.moveTo ?_ _ _ _
    simp only [Bool.and_eq_true, decide_eq_true_eq] at he
    simp [he.2, EffectState.unresolved]
  | finish context effectId runId uncertain now =>
    cases h
    refine .move fun e he => Moves.moveTo ?_ _ _ _
    simp only [Bool.and_eq_true] at he
    exact EffectState.unresolved_of_active he.2
  | abandonRun context runId now =>
    cases h
    refine .move fun e he => Moves.withdraw ?_ _
    simp only [Bool.and_eq_true] at he
    exact he.2
  | read scope effectId =>
    cases h
    unfold resolveRead
    split
    · split <;> exact .same _
    · exact .same _
  | verdict i v now =>
    obtain ⟨⟨scope, was⟩, -, rfl⟩ := Option.map_eq_some_iff.mp h
    dsimp only
    split
    · refine .move fun e he => Moves.moveTo ?_ _ _ _
      simp only [Bool.and_eq_true, decide_eq_true_eq] at he
      simp [he.2, EffectState.unresolved]
    · exact .same _
    · exact .same _
  | attest scope effectId actor note now =>
    cases h
    exact orUnchanged_rows fun _ => release_rows _
  | expire scope effectId actor note now =>
    cases h
    exact orUnchanged_rows fun _ => release_rows _
  | sweepTerminal tenantId endedRuns chosen now =>
    cases h
    refine .move fun e he => Moves.withdraw ?_ _
    simp only [Bool.and_eq_true] at he
    exact he.1.1.2
  | rotate tenantId effectId now =>
    cases h
    refine .rotate fun e he => ⟨?_, rfl⟩
    simp only [Bool.and_eq_true, decide_eq_true_eq] at he
    exact he.2
  | revokeAdmission scope effectId endedRuns now =>
    cases h
    refine .move fun e he => Moves.withdraw ?_ _
    simp only [Bool.and_eq_true] at he
    exact he.1.2
  | bindReceipt effectId runId scope taskId now =>
    cases h
    refine .move fun e he => Moves.moveTo ?_ _ _ _
    simp only [Bool.and_eq_true, decide_eq_true_eq] at he
    simp [he.1.1.2, EffectState.unresolved]
  | reconcileFamily tenantId family actor note operator now =>
    cases h
    exact orUnchanged_rows fun _ => reconcileFamily_rows _

end Ledger

/-! ## The invariant -/

variable {rows rows' : List Effect} {a : Action}

/-- Keys are unique, and so is the unresolved record of an intent. -/
structure RowsInv (rows : List Effect) : Prop where
  key : Rows.KeyUnique Effect.id rows
  single : Rows.IndexUnique Effect.id Effect.unresolved Effect.intent rows

theorem RowsInv.step (hi : RowsInv rows)
    (h : RowsStep rows a rows') : RowsInv rows' := by
  cases h with
  | same => exact hi
  | @insert _ row hv =>
    have hnone : ∀ e ∈ rows, e.id ≠ row.id ∧ (e.unresolved = true → e.intent ≠ row.intent) := by
      intro e he
      have := List.any_eq_false.mp hv e he
      simp only [Bool.or_eq_true, Bool.and_eq_true, decide_eq_true_eq, not_or, not_and] at this
      exact this
    exact ⟨hi.key.insert fun e he => (hnone e he).1,
      hi.single.insert fun e he hu => (hnone e he).2 hu⟩
  | move hm =>
    exact ⟨hi.key.updateWhere fun e he => (hm e he).id,
      hi.single.updateWhere (fun e he => (hm e he).id) (fun e he => (hm e he).intent)
        fun e he _ => (hm e he).unresolved⟩
  | rotate hr =>
    exact ⟨hi.key.updateWhere fun e he => (hr e he).id,
      hi.single.updateWhere (fun e he => (hr e he).id) (fun e he => (hr e he).intent)
        fun e he _ => (hr e he).unresolved⟩

/-! ## Records that are settled, and their versions -/

/-- A settled record is left as it is. -/
theorem RowsStep.settled (h : RowsStep rows a rows') {e : Effect}
    (he : e ∈ rows) (hu : e.unresolved = false) : e ∈ rows' := by
  cases h with
  | same => exact he
  | insert => exact List.mem_append_left _ he
  | @move _ p f hm =>
    refine Rows.mem_updateWhere_of_not he ?_
    by_contra hp
    rw [(hm e (by simpa using hp)).unresolved] at hu
    cases hu
  | @rotate _ _ _ p f hr =>
    refine Rows.mem_updateWhere_of_not he ?_
    by_contra hp
    rw [(hr e (by simpa using hp)).unresolved] at hu
    cases hu

/-- A step that changes a record raises its version, or only rotates it. -/
theorem RowsStep.version (h : RowsStep rows a rows') (hi : RowsInv rows)
    {e e' : Effect} (he : e ∈ rows) (he' : e' ∈ rows') (hid : e'.id = e.id) (hne : e' ≠ e) :
    e.version < e'.version ∨ a.isRotate = true ∧ Rotates e e' := by
  have hone : ∀ {r : Effect}, r ∈ rows → r.id = e.id → r = e := fun hr hk => hi.key.eq hr he hk
  cases h with
  | same => exact absurd (hone he' hid) hne
  | @insert _ row hv =>
    rcases List.mem_append.mp he' with he' | he'
    · exact absurd (hone he' hid) hne
    · have := List.any_eq_false.mp hv e he
      rw [List.mem_singleton.mp he'] at hid
      simp [hid] at this
  | @move _ p f hm =>
    obtain ⟨r, hr, rfl⟩ := Rows.mem_updateWhere.mp he'
    by_cases hp : p r = true
    · simp only [hp, ↓reduceIte] at hid ⊢
      have hre : r = e := hone hr ((hm r hp).id.symm.trans hid)
      subst hre
      refine Or.inl ?_
      rw [(hm r hp).version]
      exact Nat.lt_succ_self _
    · simp only [hp, Bool.false_eq_true, ↓reduceIte] at hid hne
      exact absurd (hone hr hid) hne
  | @rotate _ _ _ p f hr' =>
    obtain ⟨r, hr, rfl⟩ := Rows.mem_updateWhere.mp he'
    by_cases hp : p r = true
    · simp only [hp, ↓reduceIte] at hid ⊢
      have hre : r = e := hone hr ((hr' r hp).id.symm.trans hid)
      subst hre
      exact Or.inr ⟨rfl, hr' r hp⟩
    · simp only [hp, Bool.false_eq_true, ↓reduceIte] at hid hne
      exact absurd (hone hr hid) hne

/-! ## Runs of the ledger -/

namespace Ledger

variable {env : Platform} {s t : Ledger}

theorem rows_inv (h : (effectSystem env).Reachable s) : RowsInv s.rows :=
  h.invariant (I := fun s => RowsInv s.rows)
    (fun _ h₀ => h₀ ▸ ⟨List.nodup_nil, fun _ hr => by cases hr⟩)
    fun _ _ _ hi hs => hi.step (step_rows hs)

/-- **A settled record never changes again.** -/
theorem run_settled {as : List Action} (h : (effectSystem env).Run s as t) {e : Effect}
    (he : e ∈ s.rows) (hu : e.unresolved = false) : e ∈ t.rows :=
  h.preserves (I := fun s => e ∈ s.rows) (fun _ _ _ hi hs => (step_rows hs).settled hi hu) he

/-! ## The `begin` calls after a stored result -/

/-- The first `SELECT` returns a stored result of the call's own key. -/
theorem findStored_some {call : BeginCall} {e : Effect} (h : findStored s.rows call = some e) :
    e ∈ s.rows ∧ e.stored = true ∧ e.key = call.key := by
  have hmem := List.argmax_mem h
  simp only [List.mem_filter, Bool.and_eq_true, decide_eq_true_eq] at hmem
  obtain ⟨he, ⟨⟨hscope, hrequest⟩, hfp⟩, hstored⟩ := hmem
  exact ⟨he, hstored, by simp [Effect.key, BeginCall.key, hscope, hrequest, hfp]⟩

/-- With a stored result of the call's key the first `SELECT` finds one. -/
theorem findStored_ne_none {call : BeginCall} {e : Effect} (he : e ∈ s.rows)
    (hstored : e.stored = true) (hkey : call.key = e.key) : findStored s.rows call ≠ none := by
  intro hnone
  have hempty := List.argmax_eq_none.mp hnone
  simp only [Effect.key, BeginCall.key, Prod.mk.injEq] at hkey
  have hmem : e ∈ s.rows.filter fun e => e.scope = call.context.scope &&
      e.requestId = call.context.requestId && e.fingerprint = call.digest && e.stored := by
    simp only [List.mem_filter, Bool.and_eq_true, decide_eq_true_eq]
    exact ⟨he, ⟨⟨hkey.1.symm, hkey.2.1.symm⟩, hkey.2.2.symm⟩, hstored⟩
  rw [hempty] at hmem
  cases hmem

/-- Tickets are given in order, and an admission holds the lock of its own scope. -/
structure Tickets (s : Ledger) : Prop where
  locks : ∀ scope adm, s.locks scope = some adm →
    adm.ticket < s.ticket ∧ adm.call.context.scope = scope
  answers : ∀ o ∈ s.answers, o.ticket < s.ticket

/-- Of the `begin` calls given a ticket from `n` on, those of the key of the stored record `e` have
not passed the first `SELECT`, or were answered by it. -/
structure LaterBegins (n : Nat) (e : Effect) (s : Ledger) : Prop where
  row : e ∈ s.rows
  ticket : n ≤ s.ticket
  locks : ∀ scope adm, s.locks scope = some adm → n ≤ adm.ticket → adm.call.key = e.key →
    adm.phase = .find
  answers : ∀ o ∈ s.answers, n ≤ o.ticket → o.call.key = e.key →
    ∃ e', o.result = .stored e' ∧ e'.stored = true ∧ e'.key = e.key

/-- What a step does to the admissions and the answers. -/
inductive BeginStep (s : Ledger) : Ledger → Prop
  | other {t : Ledger} (hl : t.locks = s.locks) (ht : t.ticket = s.ticket)
      (ha : t.answers = s.answers) : BeginStep s t
  | lock {t : Ledger} (call : BeginCall) (hl : t.locks = Function.update s.locks call.context.scope
        (some { ticket := s.ticket, call := call, phase := .find }))
      (ht : t.ticket = s.ticket + 1) (ha : t.answers = s.answers) : BeginStep s t
  | answer {t : Ledger} {scope : Scope} {adm : Admission} {result : BeginResult}
      (hadm : s.locks scope = some adm)
      (hl : t.locks = Function.update s.locks adm.call.context.scope none)
      (ht : t.ticket = s.ticket)
      (ha : t.answers = s.answers ++ [⟨adm.ticket, adm.call, result⟩])
      (hr : adm.phase = .find → ∃ e, findStored s.rows adm.call = some e ∧ result = .stored e) :
      BeginStep s t
  | goOn {t : Ledger} {scope : Scope} {adm : Admission} {phase : BeginPhase}
      (hadm : s.locks scope = some adm)
      (hl : t.locks = Function.update s.locks adm.call.context.scope
        (some { adm with phase := phase }))
      (ht : t.ticket = s.ticket) (ha : t.answers = s.answers)
      (hf : adm.phase = .find → findStored s.rows adm.call = none) : BeginStep s t
  | crash {t : Ledger} {scope : Scope} (hl : t.locks = Function.update s.locks scope none)
      (ht : t.ticket = s.ticket) (ha : t.answers = s.answers) : BeginStep s t

theorem admission_some {scope : Scope} {phase : BeginPhase} {adm : Admission}
    (h : s.admission scope phase = some adm) : s.locks scope = some adm ∧ adm.phase = phase := by
  simpa [admission, Option.filter_eq_some_iff] using h

theorem orUnchanged_begin (rows : Except String (List Effect)) :
    BeginStep s (s.orUnchanged rows) := by
  cases rows <;> exact .other rfl rfl rfl

/-- **Admission step lemma.** -/
theorem step_begin {a : Action} (h : s.step env a = some t) : BeginStep s t := by
  cases a with
  | lock context runId agentId toolName arguments =>
    simp only [step, beginLock] at h
    split at h
    · cases h
    · cases h
      exact .lock (.of env context runId agentId toolName arguments) rfl rfl rfl
  | find scope =>
    obtain ⟨adm, hadm, rfl⟩ := Option.map_eq_some_iff.mp h
    obtain ⟨hlock, hphase⟩ := admission_some hadm
    split
    · next e he => exact .answer hlock rfl rfl rfl fun _ => ⟨e, he, rfl⟩
    · next hnone => exact .goOn hlock rfl rfl rfl fun _ => hnone
  | fence scope now =>
    obtain ⟨adm, hadm, rfl⟩ := Option.map_eq_some_iff.mp h
    obtain ⟨hlock, hphase⟩ := admission_some hadm
    have hnot : ¬ adm.phase = .find := by simp [hphase]
    split
    · exact .answer hlock rfl rfl rfl fun hf => absurd hf hnot
    · exact .goOn hlock rfl rfl rfl fun hf => absurd hf hnot
  | insert scope id now =>
    obtain ⟨adm, hadm, rfl⟩ := Option.map_eq_some_iff.mp h
    obtain ⟨hlock, hphase⟩ := admission_some hadm
    have hnot : ¬ adm.phase = .find := by simp [hphase]
    dsimp only
    split
    · exact .answer hlock rfl rfl rfl fun hf => absurd hf hnot
    · exact .answer hlock rfl rfl rfl fun hf => absurd hf hnot
  | crash scope =>
    cases h
    exact .crash rfl rfl rfl
  | read scope effectId =>
    cases h
    unfold resolveRead
    split
    · split <;> exact .other rfl rfl rfl
    · exact .other rfl rfl rfl
  | verdict i v now =>
    obtain ⟨⟨scope, was⟩, -, rfl⟩ := Option.map_eq_some_iff.mp h
    dsimp only
    split <;> exact .other rfl rfl rfl
  | attest | expire | reconcileFamily =>
    cases h
    exact orUnchanged_begin _
  | markDispatched | record | finish | abandonRun | sweepTerminal | rotate | revokeAdmission
  | bindReceipt =>
    cases h
    exact .other rfl rfl rfl

theorem Tickets.step (h : s.Tickets) (hs : BeginStep s t) : t.Tickets := by
  cases hs with
  | other hl ht ha => exact ⟨by rw [hl, ht]; exact h.locks, by rw [ha, ht]; exact h.answers⟩
  | lock call hl ht ha =>
    refine ⟨fun scope adm hadm => ?_, fun o ho => ?_⟩
    · rw [hl, Function.update_apply] at hadm
      split at hadm
      · next hscope =>
        cases hadm
        exact ⟨by rw [ht]; exact Nat.lt_succ_self _, hscope.symm⟩
      · have := h.locks scope adm hadm
        exact ⟨by omega, this.2⟩
    · rw [ha] at ho
      have := h.answers o ho
      omega
  | answer hadm' hl ht ha hr =>
    refine ⟨fun scope adm hadm => ?_, fun o ho => ?_⟩
    · rw [hl, Function.update_apply] at hadm
      split at hadm
      · cases hadm
      · rw [ht]
        exact h.locks scope adm hadm
    · rw [ha] at ho
      rw [ht]
      rcases List.mem_append.mp ho with ho | ho
      · exact h.answers o ho
      · rw [List.mem_singleton.mp ho]
        exact (h.locks _ _ hadm').1
  | goOn hadm' hl ht ha hf =>
    refine ⟨fun scope adm hadm => ?_, by rw [ha, ht]; exact h.answers⟩
    rw [ht]
    rw [hl, Function.update_apply] at hadm
    split at hadm
    · next hscope =>
      cases hadm
      exact ⟨(h.locks _ _ hadm').1, hscope.symm⟩
    · exact h.locks scope adm hadm
  | crash hl ht ha =>
    refine ⟨fun scope adm hadm => ?_, by rw [ha, ht]; exact h.answers⟩
    rw [hl, Function.update_apply] at hadm
    split at hadm
    · cases hadm
    · rw [ht]
      exact h.locks scope adm hadm

theorem Tickets.reachable (h : (effectSystem env).Reachable s) : s.Tickets :=
  h.invariant (I := Tickets)
    (fun _ h₀ => by
      cases h₀
      exact ⟨fun _ _ hl => (by cases hl), fun _ ho => (by cases ho)⟩)
    fun _ _ _ hi hs => hi.step (step_begin hs)

/-- **Step lemma of the stored result.** -/
theorem LaterBegins.step {n : Nat} {e : Effect} (hu : e.unresolved = false)
    (hstored : e.stored = true) (h : LaterBegins n e s) {a : Action}
    (hs : s.step env a = some t) : LaterBegins n e t := by
  have hrow : e ∈ t.rows := (step_rows hs).settled h.row hu
  cases step_begin hs with
  | other hl ht ha =>
    exact ⟨hrow, by rw [ht]; exact h.ticket, by rw [hl]; exact h.locks, by rw [ha]; exact h.answers⟩
  | lock call hl ht ha =>
    refine ⟨hrow, by have := h.ticket; omega, fun scope adm hadm hn hkey => ?_, by
      rw [ha]; exact h.answers⟩
    rw [hl, Function.update_apply] at hadm
    split at hadm
    · cases hadm
      rfl
    · exact h.locks scope adm hadm hn hkey
  | answer hadm' hl ht ha hr =>
    refine ⟨hrow, by rw [ht]; exact h.ticket, fun scope adm hadm hn hkey => ?_,
      fun o ho hn hkey => ?_⟩
    · rw [hl, Function.update_apply] at hadm
      split at hadm
      · cases hadm
      · exact h.locks scope adm hadm hn hkey
    · rw [ha] at ho
      rcases List.mem_append.mp ho with ho | ho
      · exact h.answers o ho hn hkey
      · -- the call has not passed the first `SELECT`, so that is what answered it
        rw [List.mem_singleton.mp ho] at hn hkey ⊢
        obtain ⟨e', he', hres⟩ := hr (h.locks _ _ hadm' hn hkey)
        obtain ⟨-, hst, hk⟩ := findStored_some he'
        exact ⟨e', hres, hst, hk.trans hkey⟩
  | goOn hadm' hl ht ha hf =>
    refine ⟨hrow, by rw [ht]; exact h.ticket, fun scope adm hadm hn hkey => ?_, by
      rw [ha]; exact h.answers⟩
    rw [hl, Function.update_apply] at hadm
    split at hadm
    · cases hadm
      have hfind := h.locks _ _ hadm' hn hkey
      exact absurd (hf hfind) (findStored_ne_none h.row hstored hkey)
    · exact h.locks scope adm hadm hn hkey
  | crash hl ht ha =>
    refine ⟨hrow, by rw [ht]; exact h.ticket, fun scope adm hadm hn hkey => ?_, by
      rw [ha]; exact h.answers⟩
    rw [hl, Function.update_apply] at hadm
    split at hadm
    · cases hadm
    · exact h.locks scope adm hadm hn hkey

theorem unresolved_of_stored {e : Effect} (h : e.stored = true) :
    e.unresolved = false := by
  simp only [Effect.stored, Bool.or_eq_true, Bool.and_eq_true, decide_eq_true_eq] at h
  rcases h with h | ⟨h, -⟩ <;> simp [Effect.unresolved, h, EffectState.unresolved]

/-- From a stored result on, every later `begin` of its key is answered with a stored result. -/
theorem run_laterBegins {as : List Action} {e : Effect} (h : (effectSystem env).Reachable s)
    (he : e ∈ s.rows) (hstored : e.stored = true) (hr : (effectSystem env).Run s as t) :
    LaterBegins s.ticket e t := by
  have htickets := Tickets.reachable h
  have hstart : LaterBegins s.ticket e s :=
    { row := he
      ticket := le_refl _
      locks := fun scope adm hadm hn => absurd (htickets.locks scope adm hadm).1 (not_lt.mpr hn)
      answers := fun o ho hn => absurd (htickets.answers o ho) (not_lt.mpr hn) }
  exact hr.preserves
    (fun _ _ _ hi hs => hi.step (unresolved_of_stored hstored) hstored hs) hstart

/-- **Effects happen at most once**, under any interleaving of the ledger's writers. -/
theorem effect_ledger_exactly_once (h : (effectSystem env).Reachable s) :
    -- one unresolved record of an intent
    (∀ e ∈ s.rows, ∀ e' ∈ s.rows, e.unresolved = true → e'.unresolved = true →
      e.intent = e'.intent → e = e') ∧
    -- a settled record never changes again
    (∀ as t, (effectSystem env).Run s as t → ∀ e ∈ s.rows, e.unresolved = false →
      e ∈ t.rows ∧ ∀ e' ∈ t.rows, e'.id = e.id → e' = e) ∧
    -- the version rises at each change but a rotation
    (∀ a t, s.step env a = some t → ∀ e ∈ s.rows, ∀ e' ∈ t.rows, e'.id = e.id → e' ≠ e →
      e.version < e'.version ∨ a.isRotate = true ∧ Rotates e e') ∧
    -- a stored result answers every later `begin` of its key
    (∀ e ∈ s.rows, e.stored = true → ∀ as t, (effectSystem env).Run s as t →
      ∀ o ∈ t.answers, s.ticket ≤ o.ticket → o.call.key = e.key →
        ∃ e', o.result = .stored e' ∧ e'.stored = true ∧ e'.key = e.key) := by
  have hinv := rows_inv h
  refine ⟨fun e he e' he' hu hu' hi => hinv.key.eq he he' (hinv.single e he e' he' hu hu' hi), ?_,
    fun a t hs e he e' he' => (step_rows hs).version hinv he he',
    fun e he hst as t hr => (run_laterBegins h he hst hr).answers⟩
  intro as t hr e he hu
  have het := run_settled hr he hu
  exact ⟨het, fun e' he' hid => (rows_inv (h.run hr)).key.eq he' het hid⟩

/-! ## A rotation keeps the version -/

/-- A platform to run the ledger on. -/
def plainPlatform : Platform where
  digest toolName _ := toolName
  redact result := result

def noteContext : ExecutionContext where
  tenantId := "tenant-1"
  principalId := "user-1"
  requestId := "request-1"

/-- A note whose creation is left uncertain. -/
def uncertainNote : List Action :=
  [.lock noteContext "run-1" "agent-1" "create_note" (.obj []), .find noteContext.scope,
    .fence noteContext.scope 1, .insert noteContext.scope "effect-1" 1,
    .markDispatched noteContext "effect-1" "run-1" 2, .finish noteContext "effect-1" "run-1" true 3]

def noteLedger : Ledger := (uncertainNote.foldlM (step plainPlatform) {}).getD {}

theorem noteLedger_reachable : (effectSystem plainPlatform).Reachable noteLedger := by
  have h : uncertainNote.foldlM (step plainPlatform) {} = some noteLedger := rfl
  exact ⟨_, _, rfl, System.run_of_foldlM h⟩

/-- The one record of the ledger after its actions. -/
def noteEffect : Effect where
  id := "effect-1"
  tenantId := "tenant-1"
  principalId := "user-1"
  requestId := "request-1"
  runId := "run-1"
  agentId := "agent-1"
  goalId := none
  budgetId := none
  toolName := "create_note"
  fingerprint := "create_note"
  state := .uncertain
  version := 3
  createdAt := 1
  updatedAt := 3

theorem noteLedger_rows : noteLedger.rows = [noteEffect] := rfl

/-- The sweep rotates the note, and its version stays. -/
theorem rotation_keeps_version :
    ¬ ∀ (env : Platform) (s t : Ledger) (a : Action), (effectSystem env).Reachable s →
      s.step env a = some t → ∀ e ∈ s.rows, ∀ e' ∈ t.rows, e'.id = e.id → e' ≠ e →
        e.version < e'.version := by
  intro h
  have hlt := h plainPlatform noteLedger _ (.rotate "tenant-1" "effect-1" 9) noteLedger_reachable
    rfl noteEffect (by rw [noteLedger_rows]; exact List.mem_singleton_self _)
    { noteEffect with updatedAt := 9 } (List.mem_singleton_self _) rfl
    (fun heq => absurd (congrArg Effect.updatedAt heq) (by decide))
  exact absurd hlt (by decide)

/-- A note whose creation is answered, and a later run of the same request. -/
def answeredNote : List Action :=
  [.lock noteContext "run-1" "agent-1" "create_note" (.obj []), .find noteContext.scope,
    .fence noteContext.scope 1, .insert noteContext.scope "effect-1" 1,
    .markDispatched noteContext "effect-1" "run-1" 2,
    .record noteContext "effect-1" "run-1" (.obj [("note_id", .str "note-1")]) 3]

def noteAgain : List Action :=
  [.lock noteContext "run-2" "agent-1" "create_note" (.obj []), .find noteContext.scope]

def answeredLedger : Ledger := (answeredNote.foldlM (step plainPlatform) {}).getD {}

def repeatedLedger : Ledger := (noteAgain.foldlM (step plainPlatform) answeredLedger).getD {}

theorem answeredLedger_reachable : (effectSystem plainPlatform).Reachable answeredLedger := by
  have h : answeredNote.foldlM (step plainPlatform) {} = some answeredLedger := rfl
  exact ⟨_, _, rfl, System.run_of_foldlM h⟩

/-- The uncertain note is not dispatched twice, and the note that was created answers the second run
of its request. -/
theorem notes_happen_once :
    (∀ e ∈ noteLedger.rows, ∀ e' ∈ noteLedger.rows, e.unresolved = true → e'.unresolved = true →
      e.intent = e'.intent → e = e') ∧
    (∃ e, answeredLedger.rows = [e] ∧ e.stored = true ∧ ∃ o ∈ repeatedLedger.answers,
      o.call.runId = "run-2" ∧
        ∃ e', o.result = .stored e' ∧ e'.stored = true ∧ e'.key = e.key) := by
  refine ⟨(effect_ledger_exactly_once noteLedger_reachable).1, ?_⟩
  obtain ⟨e, hrows, hstored⟩ : ∃ e, answeredLedger.rows = [e] ∧ e.stored = true := ⟨_, rfl, rfl⟩
  obtain ⟨-, -, -, hanswers⟩ := effect_ledger_exactly_once answeredLedger_reachable
  have hagain : noteAgain.foldlM (step plainPlatform) answeredLedger = some repeatedLedger := rfl
  obtain ⟨o, ho, hrun, hticket, hkey⟩ : ∃ o ∈ repeatedLedger.answers, o.call.runId = "run-2" ∧
      answeredLedger.ticket ≤ o.ticket ∧ ∀ e ∈ answeredLedger.rows, o.call.key = e.key := by
    refine ⟨_, List.mem_cons_of_mem _ (List.mem_singleton_self _), rfl, by decide, fun e he => ?_⟩
    rw [List.mem_singleton.mp he]
    rfl
  have he : e ∈ answeredLedger.rows := by
    rw [hrows]
    exact List.mem_singleton_self e
  exact ⟨e, hrows, hstored, o, ho, hrun, hanswers e he hstored noteAgain repeatedLedger
    (System.run_of_foldlM hagain) o ho hticket (hkey e he)⟩

end Ledger

end GenusOs.Engine.Runtime
