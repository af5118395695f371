import GenusOs.Plugins.Grants
import Mathlib

/-!
# Plugin grants fail closed

* `Inv`: what the caches are from, and what a call that falls back may count on.
* `step_inv`: what every calm step keeps.
* `failed_reads_keep_refusals`: refusals outlive a failed read where no older read comes late.
-/

namespace GenusOs.Plugins.RootGrants

variable {s t : State} {a : Act} {c d i j : Nat} {g h : Grants} {read : Read} {plugin : String}

/-! ## Refusals -/

theorem Grants.Covers.refl (g : Grants) : g.Covers g := fun _ hoff => hoff

theorem Grants.Covers.trans {k : Grants} (hgh : g.Covers h) (hhk : h.Covers k) : g.Covers k :=
  fun plugin hoff => hgh plugin (hhk plugin hoff)

/-- Only refusals are kept, and all of them. -/
theorem kept_off (hoff : g.off plugin) : g.kept.off plugin := by
  unfold Grants.off at *
  unfold Grants.kept
  induction g with
  | nil => cases hoff
  | cons e g ih =>
    rw [List.lookup_cons] at hoff
    by_cases hname : plugin = e.1
    · rw [hname, beq_self_eq_true] at hoff
      have he : e.2 = .off := Option.some.inj hoff
      rw [List.filter_cons_of_pos (by simpa using he),
        List.lookup_cons, hname, beq_self_eq_true, he]
    · rw [beq_eq_false_iff_ne.mpr hname] at hoff
      by_cases he : e.2 = .off
      · rw [List.filter_cons_of_pos (by simpa using he), List.lookup_cons,
          beq_eq_false_iff_ne.mpr hname]
        exact ih hoff
      · rw [List.filter_cons_of_neg (by simpa using he)]
        exact ih hoff

theorem kept_covers (g : Grants) : g.kept.Covers g := fun _ hoff => kept_off hoff

theorem kept_not_on (g : Grants) : ¬ g.kept.on plugin := by
  unfold Grants.on Grants.kept
  intro hon
  obtain ⟨before, after, heq, -⟩ := List.lookup_eq_some_iff.mp hon
  have hmem : (plugin, Forced.on) ∈ g.filter (·.2 = .off) := by
    rw [heq]
    exact List.mem_append_right _ List.mem_cons_self
  have hoff : Forced.on = Forced.off := by simpa using (List.mem_filter.mp hmem).2
  cases hoff

/-! ## What a call may count on -/

/-- Every read due to the call is in the base. -/
def State.DueStored (s : State) (c : Nat) : Prop := 0 < s.due c → ∃ j ∈ s.base, s.due c ≤ j + 1

/-- What is remembered has the refusals due to the call, and those of the base. -/
def State.Remembers (s : State) (c : Nat) (remembered : Option Grants) : Prop :=
  (0 < s.due c → (remembered.getD []).Covers (s.dueRead c)) ∧
    ∀ g ∈ remembered, ∃ j ∈ s.base, ∃ h, s.reads[j]? = some h ∧ g.Covers h

def State.PhaseOk (s : State) (c : Nat) : Phase → Prop
  | .succeeded _ read | .reloading read | .storing _ read => s.reads[read.index]? = some read.grants
  | .persisting read =>
    s.reads[read.index]? = some read.grants ∧ ∃ j ∈ s.stored, read.index ≤ j
  | .keeping _ remembered seen =>
    (∀ i ∈ seen, ∃ j ∈ s.stored, i ≤ j) ∧ s.DueStored c ∧
      (s.stored = seen → s.Remembers c remembered)
  | .fellBack _ _ => s.DueStored c
  | _ => True

/-- The call is one of this process. -/
def Phase.Live (phase : Phase) : Prop := phase ≠ .fresh ∧ phase ≠ .killed

structure Inv (s : State) : Prop where
  calls : ∀ c, s.PhaseOk c (s.calls c)
  due : ∀ c, (s.calls c).Live →
    s.due c ≤ s.reads.length ∧ (s.stored = none → ∀ i ∈ s.persisted, i < s.due c)
  lastGood : ∀ j ∈ s.stored, ∃ g, s.reads[j]? = some g ∧ s.lastGood = some g
  forgotten : s.stored = none → s.lastGood = none
  file : ∀ j ∈ s.persisted, s.reads[j]? = some (s.file.getD [])
  noFile : s.persisted = none → s.file = none
  cache : ∀ e ∈ s.cache, ∃ j ∈ s.base, ∃ h, s.reads[j]? = some h ∧ Grants.Covers e.2 h
  covered : ∀ i < s.reads.length, (∃ j ∈ s.base, i ≤ j) ∨
    ∃ c read, (s.calls c).pending = some read ∧ read.index = i
  ordered : ∀ j ∈ s.stored, ∀ i ∈ s.persisted, i ≤ j

/-! ## The parts of the steps -/

/-- A call goes on, and keeps the read it holds or has it in the base. -/
theorem Inv.move (hs : Inv s) {phase : Phase} (hok : s.PhaseOk c phase)
    (hlive : phase.Live → (s.calls c).Live)
    (hpending : ∀ read, (s.calls c).pending = some read →
      phase.pending = some read ∨ ∃ j ∈ s.base, read.index ≤ j)
    (table : Grants) (generation : Nat) (unknown : Bool) :
    Inv { s.setCall c phase with
      table := table, generation := generation, unknownSinceFailure := unknown } where
  calls d := by
    by_cases hd : d = c
    · subst hd
      have hphase : (s.setCall d phase).calls d = phase := Function.update_self ..
      show s.PhaseOk d ((s.setCall d phase).calls d)
      rw [hphase]
      exact hok
    · have hphase : (s.setCall c phase).calls d = s.calls d := Function.update_of_ne hd _ _
      show s.PhaseOk d ((s.setCall c phase).calls d)
      rw [hphase]
      exact hs.calls d
  due d hd := by
    by_cases hdc : d = c
    · subst hdc
      have hphase : (s.setCall d phase).calls d = phase := Function.update_self ..
      exact hs.due d (hlive (hphase ▸ hd))
    · have hphase : (s.setCall c phase).calls d = s.calls d := Function.update_of_ne hdc _ _
      exact hs.due d (hphase ▸ hd)
  lastGood := hs.lastGood
  forgotten := hs.forgotten
  file := hs.file
  noFile := hs.noFile
  cache := hs.cache
  covered i hi := by
    rcases hs.covered i hi with hbase | ⟨d, read, hread, rfl⟩
    · exact .inl hbase
    · by_cases hd : d = c
      · subst hd
        rcases hpending read hread with hphase | hbase
        · refine .inr ⟨d, read, ?_, rfl⟩
          rw [show (s.setCall d phase).calls d = phase from Function.update_self ..]
          exact hphase
        · exact .inl hbase
      · refine .inr ⟨d, read, ?_, rfl⟩
        rw [show (s.setCall c phase).calls d = s.calls d from Function.update_of_ne hd _ _]
        exact hread
  ordered := hs.ordered

/-- A move of a call that holds no read. -/
theorem Inv.moveIdle (hs : Inv s) {phase : Phase} (hok : s.PhaseOk c phase)
    (hlive : (s.calls c).Live) (hidle : (s.calls c).pending = none) :
    Inv (s.setCall c phase) := by
  refine hs.move hok (fun _ => hlive) ?_ s.table s.generation s.unknownSinceFailure
  intro read hread
  rw [hidle] at hread
  cases hread

theorem Inv.setCache (hs : Inv s) {gen : Nat}
    (h : ∃ j ∈ s.base, ∃ h, s.reads[j]? = some h ∧ g.Covers h) :
    Inv { s with cache := some (gen, g) } :=
  ⟨hs.calls, hs.due, hs.lastGood, hs.forgotten, hs.file, hs.noFile,
    fun _ he => Option.some.inj he ▸ h, hs.covered, hs.ordered⟩

theorem Inv.setUnknown (hs : Inv s) (unknown : Bool) :
    Inv { s with unknownSinceFailure := unknown } :=
  ⟨hs.calls, hs.due, hs.lastGood, hs.forgotten, hs.file, hs.noFile, hs.cache, hs.covered,
    hs.ordered⟩

/-- A read due to a call that every pending read comes after is in the base. -/
theorem Inv.dueStored (hs : Inv s) (hlive : (s.calls c).Live)
    (hcalm : ∀ d read, (s.calls d).pending = some read → s.due c ≤ read.index) : s.DueStored c := by
  intro hdue
  have hlength := (hs.due c hlive).1
  rcases hs.covered (s.due c - 1) (by omega) with ⟨j, hj, hle⟩ | ⟨d, read, hread, hindex⟩
  · exact ⟨j, hj, by omega⟩
  · have hafter := hcalm d read hread
    omega

theorem base_of_stored (h : s.stored = some j) : s.base = some j := by
  unfold State.base
  rw [h]
  rfl

theorem base_of_none (h : s.stored = none) : s.base = s.persisted := by
  unfold State.base
  rw [h]
  rfl

theorem dueRead_eq (h : s.reads[s.due c - 1]? = some g) : s.dueRead c = g := by
  unfold State.dueRead
  rw [h]
  rfl

/-- The call looks at `_last_good` after the reads due to it are stored. -/
theorem Inv.remember (hs : Inv s) {gen : Nat} (hphase : s.calls c = .failed gen)
    (hafter : ∀ d read, (s.calls d).pending = some read → s.due c ≤ read.index)
    (hlifts : s.LiftsNone c) : Inv (s.remember c gen) := by
  have hlive : (s.calls c).Live := ⟨hphase.trans_ne nofun, hphase.trans_ne nofun⟩
  have hidle : (s.calls c).pending = none := by rw [hphase]; rfl
  have hdue := hs.dueStored hlive hafter
  unfold State.remember
  split
  · next good hgood =>
    apply hs.moveIdle _ hlive hidle
    refine ⟨fun i hi => ⟨i, hi, le_refl i⟩, hdue, fun _ => ?_⟩
    cases hstored : s.stored with
    | none =>
      rw [hs.forgotten hstored] at hgood
      cases hgood
    | some j =>
      obtain ⟨g, hg, hlast⟩ := hs.lastGood j hstored
      obtain rfl : good = g := Option.some.inj (hgood.symm.trans hlast)
      refine ⟨fun hpos => ?_, fun k hk => ?_⟩
      · obtain ⟨j', hj', hle⟩ := hdue hpos
        obtain rfl : j = j' := Option.some.inj ((base_of_stored hstored).symm.trans hj')
        by_cases hlast : s.due c ≤ j
        · have hcover := hlifts hpos j hj' hlast
          rw [hg] at hcover
          exact hcover
        · obtain rfl : j = s.due c - 1 := by omega
          rw [dueRead_eq hg]
          exact Grants.Covers.refl _
      · obtain rfl := Option.some.inj hk
        exact ⟨j, base_of_stored hstored, good, hg, Grants.Covers.refl _⟩
  · exact hs.moveIdle trivial hlive hidle

/-- A restarted process looks at the file. -/
theorem Inv.load (hs : Inv s) {gen : Nat} (hphase : s.calls c = .loading gen)
    (hafter : ∀ d read, (s.calls d).pending = some read → s.due c ≤ read.index) :
    Inv (s.load c gen) := by
  have hlive : (s.calls c).Live := ⟨hphase.trans_ne nofun, hphase.trans_ne nofun⟩
  have hidle : (s.calls c).pending = none := by rw [hphase]; rfl
  have hdue := hs.dueStored hlive hafter
  apply hs.moveIdle _ hlive hidle
  refine ⟨nofun, hdue, fun hstored => ⟨fun hpos => ?_, fun k hk => ?_⟩⟩
  · obtain ⟨i, hi, hle⟩ := hdue hpos
    rw [base_of_none hstored] at hi
    have hlt := (hs.due c hlive).2 hstored i hi
    obtain rfl : i = s.due c - 1 := by omega
    rw [dueRead_eq (hs.file _ hi)]
    exact Grants.Covers.refl _
  · have hk : s.file = some k := hk
    cases hpersisted : s.persisted with
    | none =>
      rw [hs.noFile hpersisted] at hk
      cases hk
    | some i =>
      have hfile := hs.file i hpersisted
      rw [hk] at hfile
      exact ⟨i, (base_of_none hstored).trans hpersisted, k, hfile, Grants.Covers.refl _⟩

/-- The call answers with what it remembers while nothing else was stored. -/
theorem Inv.keep (hs : Inv s) {gen : Nat} {remembered : Option Grants} {seen : Option Nat}
    (hphase : s.calls c = .keeping gen remembered seen) (hcalm : s.stored = seen) :
    Inv (s.keep c gen remembered) := by
  have hok := hs.calls c
  rw [hphase] at hok
  obtain ⟨-, hdue, hremembers⟩ := hok
  have hlive : (s.calls c).Live := ⟨hphase.trans_ne nofun, hphase.trans_ne nofun⟩
  have hidle : (s.calls c).pending = none := by rw [hphase]; rfl
  have hmove : ∀ k, Inv (s.setCall c (.fellBack gen k)) := fun k => hs.moveIdle hdue hlive hidle
  unfold State.keep
  cases remembered with
  | none => exact (hmove _).setUnknown true
  | some g =>
    obtain ⟨j, hj, h, hread, hcover⟩ := (hremembers hcalm).2 g rfl
    exact (hmove _).setCache ⟨j, hj, h, hread, (kept_covers g).trans hcover⟩

theorem PhaseOk.congr {phase : Phase} (hdue : t.due c = s.due c) (hreads : t.reads = s.reads)
    (hstored : t.stored = s.stored) (hpersisted : t.persisted = s.persisted)
    (h : s.PhaseOk c phase) : t.PhaseOk c phase := by
  cases phase <;>
    simp only [State.PhaseOk, State.DueStored, State.Remembers, State.dueRead, State.base, hdue,
      hreads, hstored, hpersisted] at * <;>
    exact h

/-- The file is from a read that there was when the call begins. -/
theorem Inv.begin (hs : Inv s) (hfresh : s.calls c = .fresh) : Inv (s.begin c) where
  calls d := by
    by_cases hd : d = c
    · subst hd
      rw [show (s.begin d).calls d = .begun s.generation from Function.update_self ..]
      trivial
    · rw [show (s.begin c).calls d = s.calls d from Function.update_of_ne hd _ _]
      exact PhaseOk.congr (Function.update_of_ne hd _ _) rfl rfl rfl (hs.calls d)
  due d hd := by
    by_cases hdc : d = c
    · subst hdc
      rw [show (s.begin d).due d = s.reads.length from Function.update_self ..]
      refine ⟨le_refl _, fun _ i hi => ?_⟩
      exact (List.getElem?_eq_some_iff.mp (hs.file i hi)).1
    · rw [show (s.begin c).due d = s.due d from Function.update_of_ne hdc _ _]
      rw [show (s.begin c).calls d = s.calls d from Function.update_of_ne hdc _ _] at hd
      exact hs.due d hd
  lastGood := hs.lastGood
  forgotten := hs.forgotten
  file := hs.file
  noFile := hs.noFile
  cache := hs.cache
  covered i hi := by
    rcases hs.covered i hi with hbase | ⟨d, read, hread, hindex⟩
    · exact .inl hbase
    · have hd : d ≠ c := by
        rintro rfl
        rw [hfresh] at hread
        cases hread
      refine .inr ⟨d, read, ?_, hindex⟩
      rw [show (s.begin c).calls d = s.calls d from Function.update_of_ne hd _ _]
      exact hread
  ordered := hs.ordered

theorem Inv.check (hs : Inv s) {gen : Nat} (hphase : s.calls c = .begun gen) :
    Inv (s.check c gen) := by
  have hlive : (s.calls c).Live := ⟨hphase.trans_ne nofun, hphase.trans_ne nofun⟩
  have hidle : (s.calls c).pending = none := by rw [hphase]; rfl
  unfold State.check
  split
  · split
    · exact hs.moveIdle trivial hlive hidle
    · exact hs.moveIdle trivial hlive hidle
  · exact hs.moveIdle trivial hlive hidle

/-! ## A read -/

theorem getElem?_snoc {k : Grants} (h : s.reads[i]? = some g) : (s.reads ++ [k])[i]? = some g := by
  rw [List.getElem?_append_left (List.getElem?_eq_some_iff.mp h).1]
  exact h

/-- A further read changes nothing for a call that has begun. -/
theorem PhaseOk.snoc {phase : Phase} {k : Grants} (hreads : t.reads = s.reads ++ [k])
    (hdue : t.due = s.due) (hstored : t.stored = s.stored) (hpersisted : t.persisted = s.persisted)
    (hlength : phase.Live → s.due c ≤ s.reads.length) (h : s.PhaseOk c phase) :
    t.PhaseOk c phase := by
  have hbase : t.base = s.base := by
    unfold State.base
    rw [hstored, hpersisted]
  have hdueStored : s.DueStored c → t.DueStored c := by
    unfold State.DueStored
    rw [hbase, hdue]
    exact id
  cases phase with
  | succeeded gen read => exact (congrArg (·[read.index]?) hreads).trans (getElem?_snoc h)
  | reloading read => exact (congrArg (·[read.index]?) hreads).trans (getElem?_snoc h)
  | storing gen read => exact (congrArg (·[read.index]?) hreads).trans (getElem?_snoc h)
  | persisting read =>
    refine ⟨(congrArg (·[read.index]?) hreads).trans (getElem?_snoc h.1), ?_⟩
    rw [hstored]
    exact h.2
  | keeping gen remembered seen =>
    obtain ⟨hseen, hcall, hremembers⟩ := h
    refine ⟨hstored ▸ hseen, hdueStored hcall, fun heq => ?_⟩
    obtain ⟨hdueCovers, hcovers⟩ := hremembers (hstored ▸ heq)
    refine ⟨fun hpos => ?_, fun g hg => ?_⟩
    · rw [hdue] at hpos
      have hlt := hlength ⟨nofun, nofun⟩
      have hread : t.dueRead c = s.dueRead c := by
        unfold State.dueRead
        rw [hreads, hdue, List.getElem?_append_left (by omega)]
      rw [hread]
      exact hdueCovers hpos
    · obtain ⟨j, hj, h, hread, hcover⟩ := hcovers g hg
      exact ⟨j, hbase ▸ hj, h, (congrArg (·[j]?) hreads).trans (getElem?_snoc hread), hcover⟩
  | fellBack gen grants => exact hdueStored h
  | _ => trivial

/-- The call holds the newest read. -/
theorem Inv.readTable (hs : Inv s) {gen : Nat} (hphase : s.calls c = .asking gen) (ok : Bool) :
    Inv (s.read c gen ok) := by
  have hlive : (s.calls c).Live := ⟨hphase.trans_ne nofun, hphase.trans_ne nofun⟩
  have hidle : (s.calls c).pending = none := by rw [hphase]; rfl
  unfold State.read
  cases ok with
  | false => exact hs.moveIdle trivial hlive hidle
  | true =>
    rw [if_pos rfl]
    have hself : ∀ phase, (s.setCall c phase).calls c = phase := fun _ => Function.update_self ..
    have hother : ∀ phase d, d ≠ c → (s.setCall c phase).calls d = s.calls d :=
      fun _ _ hd => Function.update_of_ne hd _ _
    have hnew : (s.reads ++ [s.table])[s.reads.length]? = some s.table :=
      List.getElem?_concat_length
    refine ⟨fun d => ?_, fun d hd => ?_, fun j hj => ?_, hs.forgotten, fun j hj => ?_, hs.noFile,
      fun e he => ?_, fun i hi => ?_, hs.ordered⟩
    · by_cases hdc : d = c
      · subst hdc
        show State.PhaseOk _ _ ((s.setCall d _).calls d)
        rw [hself]
        exact hnew
      · show State.PhaseOk _ _ ((s.setCall c _).calls d)
        rw [hother _ d hdc]
        exact PhaseOk.snoc rfl rfl rfl rfl (fun hd => (hs.due d hd).1) (hs.calls d)
    · show s.due d ≤ (s.reads ++ [s.table]).length ∧ _
      have hd' : (s.calls d).Live := by
        by_cases hdc : d = c
        · exact hdc ▸ hlive
        · exact hother _ d hdc ▸ hd
      obtain ⟨hle, hpersisted⟩ := hs.due d hd'
      refine ⟨?_, hpersisted⟩
      rw [List.length_append]
      omega
    · obtain ⟨g, hg, hlast⟩ := hs.lastGood j hj
      exact ⟨g, getElem?_snoc hg, hlast⟩
    · exact getElem?_snoc (hs.file j hj)
    · obtain ⟨j, hj, h, hread, hcover⟩ := hs.cache e he
      exact ⟨j, hj, h, getElem?_snoc hread, hcover⟩
    · by_cases hlast : i = s.reads.length
      · exact .inr ⟨c, _, congrArg Phase.pending (hself _), hlast.symm⟩
      · have hi : i < (s.reads ++ [s.table]).length := hi
        rw [List.length_append, List.length_singleton] at hi
        rcases hs.covered i (by omega) with hbase | ⟨d, read, hread, hindex⟩
        · exact .inl hbase
        · have hd : d ≠ c := by
            rintro rfl
            rw [hidle] at hread
            cases hread
          exact .inr ⟨d, read, (congrArg Phase.pending (hother _ d hd)).trans hread, hindex⟩

theorem Inv.recover (hs : Inv s) {gen : Nat} (hphase : s.calls c = .succeeded gen read) :
    Inv (s.recover c gen read) := by
  have hok := hs.calls c
  rw [hphase] at hok
  have hlive : (s.calls c).Live := ⟨hphase.trans_ne nofun, hphase.trans_ne nofun⟩
  have hmove : ∀ phase, s.PhaseOk c phase → phase.pending = some read →
      Inv { s.setCall c phase with unknownSinceFailure := false } := by
    intro phase hphaseOk hread
    refine hs.move hphaseOk (fun _ => hlive)
      (fun read' hread' => .inl ?_) s.table s.generation false
    rw [hphase] at hread'
    exact hread.trans hread'
  unfold State.recover
  dsimp only
  split
  · exact hmove (.reloading read) hok rfl
  · exact hmove (.storing gen read) hok rfl

theorem Inv.reload (hs : Inv s) (hphase : s.calls c = .reloading read) :
    Inv (s.reload c read) := by
  have hok := hs.calls c
  rw [hphase] at hok
  have hstoring : s.PhaseOk c (.storing (s.generation + 1) read) := hok
  refine hs.move hstoring
    (fun _ => ⟨hphase.trans_ne nofun, hphase.trans_ne nofun⟩) (fun read' hread' => .inl ?_)
    s.table (s.generation + 1) s.unknownSinceFailure
  rw [hphase] at hread'
  exact hread'

/-! ## Storing and persisting -/

/-- A newer read in the base does for every call what the older one did. -/
theorem PhaseOk.store {phase : Phase} (hreads : t.reads = s.reads) (hdue : t.due = s.due)
    (hstored : t.stored = some j) (hnewer : ∀ i ∈ s.base, i < j) (h : s.PhaseOk c phase) :
    t.PhaseOk c phase := by
  have hbase : t.base = some j := base_of_stored hstored
  have hnewerStored : ∀ i ∈ s.stored, i < j := fun i hi => hnewer i (base_of_stored hi)
  have hdueStored : s.DueStored c → t.DueStored c := by
    intro h hpos
    rw [hdue] at hpos ⊢
    obtain ⟨i, hi, hle⟩ := h hpos
    have hlt := hnewer i hi
    exact ⟨j, hbase, by omega⟩
  cases phase with
  | succeeded gen read => exact (congrArg (·[read.index]?) hreads).trans h
  | reloading read => exact (congrArg (·[read.index]?) hreads).trans h
  | storing gen read => exact (congrArg (·[read.index]?) hreads).trans h
  | persisting read =>
    obtain ⟨hread, i, hi, hle⟩ := h
    have hlt := hnewerStored i hi
    exact ⟨(congrArg (·[read.index]?) hreads).trans hread, j, hstored, by omega⟩
  | keeping gen remembered seen =>
    obtain ⟨hseen, hcall, -⟩ := h
    refine ⟨fun i hi => ?_, hdueStored hcall, fun heq => ?_⟩
    · obtain ⟨k, hk, hle⟩ := hseen i hi
      have hlt := hnewerStored k hk
      exact ⟨j, hstored, by omega⟩
    · -- Nothing can have been seen that is as new as this read.
      obtain ⟨k, hk, hle⟩ := hseen j (heq ▸ hstored)
      have hlt := hnewerStored k hk
      omega
  | fellBack gen grants => exact hdueStored h
  | _ => trivial

/-- The read is newer than the base. -/
theorem Inv.store (hs : Inv s) {gen : Nat} (hphase : s.calls c = .storing gen read)
    (hnewer : ∀ i ∈ s.base, i < read.index) : Inv (s.store c gen read) := by
  have hread := hs.calls c
  rw [hphase] at hread
  have hself : (s.store c gen read).calls c = .persisting read := Function.update_self ..
  have hother : ∀ d, d ≠ c → (s.store c gen read).calls d = s.calls d :=
    fun _ hd => Function.update_of_ne hd _ _
  have hbase : (s.store c gen read).base = some read.index := rfl
  refine ⟨fun d => ?_, fun d hd => ?_, fun j hj => ?_, nofun, hs.file, hs.noFile, fun e he => ?_,
    fun i hi => ?_, fun j hj i hi => ?_⟩
  · by_cases hdc : d = c
    · subst hdc
      rw [hself]
      exact ⟨hread, read.index, rfl, le_refl _⟩
    · rw [hother d hdc]
      exact PhaseOk.store (s := s) rfl rfl rfl hnewer (hs.calls d)
  · have hd' : (s.calls d).Live := by
      by_cases hdc : d = c
      · rw [hdc]
        exact ⟨hphase.trans_ne nofun, hphase.trans_ne nofun⟩
      · exact hother d hdc ▸ hd
    exact ⟨(hs.due d hd').1, nofun⟩
  · obtain rfl := Option.some.inj hj
    exact ⟨read.grants, hread, rfl⟩
  · obtain rfl := Option.some.inj he
    exact ⟨read.index, hbase, read.grants, hread, Grants.Covers.refl _⟩
  · rcases hs.covered i hi with ⟨j, hj, hle⟩ | ⟨d, read', hread', hindex⟩
    · have hlt := hnewer j hj
      exact .inl ⟨read.index, hbase, by omega⟩
    · by_cases hdc : d = c
      · rw [hdc, hphase] at hread'
        obtain rfl := Option.some.inj hread'
        exact .inl ⟨read.index, hbase, hindex.ge⟩
      · refine .inr ⟨d, read', ?_, hindex⟩
        rw [hother d hdc]
        exact hread'
  · obtain rfl := Option.some.inj hj
    cases hstored : s.stored with
    | none => exact (hnewer i ((base_of_none hstored).trans hi)).le
    | some k => exact (hs.ordered k hstored i hi).trans (hnewer k (base_of_stored hstored)).le

/-- The persisted read is not newer than the stored one. -/
theorem Inv.persist (hs : Inv s) (hphase : s.calls c = .persisting read) :
    Inv (s.persist c read) := by
  have hok := hs.calls c
  rw [hphase] at hok
  obtain ⟨hread, k, hk, hle⟩ := hok
  have hbase : (s.persist c read).base = s.base := by
    rw [base_of_stored hk]
    exact base_of_stored hk
  have hself : (s.persist c read).calls c = .answered read.grants := Function.update_self ..
  have hother : ∀ d, d ≠ c → (s.persist c read).calls d = s.calls d :=
    fun _ hd => Function.update_of_ne hd _ _
  have hphaseOk : ∀ {d phase}, s.PhaseOk d phase → (s.persist c read).PhaseOk d phase := by
    intro d phase h
    cases phase <;>
      simp only [State.PhaseOk, State.DueStored, State.Remembers, State.dueRead, hbase] at * <;>
      exact h
  refine ⟨fun d => ?_, fun d hd => ?_, hs.lastGood, hs.forgotten, fun j hj => ?_, nofun,
    fun e he => ?_, fun i hi => ?_, fun j hj i hi => ?_⟩
  · by_cases hdc : d = c
    · subst hdc
      rw [hself]
      trivial
    · rw [hother d hdc]
      exact hphaseOk (hs.calls d)
  · have hd' : (s.calls d).Live := by
      by_cases hdc : d = c
      · rw [hdc]
        exact ⟨hphase.trans_ne nofun, hphase.trans_ne nofun⟩
      · exact hother d hdc ▸ hd
    refine ⟨(hs.due d hd').1, fun hnone => ?_⟩
    rw [show s.stored = none from hnone] at hk
    cases hk
  · obtain rfl := Option.some.inj hj
    show s.reads[read.index]? = some (Option.getD (if _ then none else some read.grants) [])
    split
    · next hempty => rw [hread, List.isEmpty_iff.mp hempty.1]; rfl
    · exact hread
  · rw [hbase]
    exact hs.cache e he
  · rw [hbase]
    rcases hs.covered i hi with hin | ⟨d, read', hread', hindex⟩
    · exact .inl hin
    · have hd : d ≠ c := by
        rintro rfl
        rw [hphase] at hread'
        cases hread'
      refine .inr ⟨d, read', ?_, hindex⟩
      rw [hother d hd]
      exact hread'
  · obtain rfl := Option.some.inj hi
    obtain rfl := Option.some.inj (hk.symm.trans hj)
    exact hle

theorem Inv.restart (hs : Inv s)
    (hcalm : s.reads = [] ∨ s.persisted = some (s.reads.length - 1)) : Inv s.restart := by
  have hdead : ∀ d, s.restart.calls d = .fresh ∨ s.restart.calls d = .killed := by
    intro d
    by_cases hfresh : s.calls d = .fresh
    · exact .inl (if_pos hfresh)
    · exact .inr (if_neg hfresh)
  refine ⟨fun d => ?_, fun d hd => ?_, nofun, fun _ => rfl, hs.file, hs.noFile, nofun,
    fun i hi => ?_, nofun⟩
  · rcases hdead d with hd | hd
    · rw [hd]
      trivial
    · rw [hd]
      trivial
  · rcases hdead d with hdead | hdead
    · exact absurd hdead hd.1
    · exact absurd hdead hd.2
  · rcases hcalm with hnone | hlast
    · have hi : i < s.reads.length := hi
      rw [hnone] at hi
      cases hi
    · exact .inl ⟨_, hlast, Nat.le_sub_one_of_lt hi⟩

/-! ## Runs -/

theorem next_inv {ok : Bool} (hs : Inv s) (hcalm : Calm s (.next c ok))
    (hstep : s.next c ok = some t) : Inv t := by
  simp only [Calm] at hcalm
  unfold State.next at hstep
  cases hphase : s.calls c with
  | begun gen =>
    rw [hphase] at hstep
    obtain rfl := Option.some.inj hstep
    exact hs.check hphase
  | asking gen =>
    rw [hphase] at hstep
    obtain rfl := Option.some.inj hstep
    exact hs.readTable hphase ok
  | succeeded gen read =>
    rw [hphase] at hstep
    obtain rfl := Option.some.inj hstep
    exact hs.recover hphase
  | reloading read =>
    rw [hphase] at hstep
    obtain rfl := Option.some.inj hstep
    exact hs.reload hphase
  | storing gen read =>
    rw [hphase] at hstep hcalm
    obtain rfl := Option.some.inj hstep
    exact hs.store hphase hcalm
  | persisting read =>
    rw [hphase] at hstep
    obtain rfl := Option.some.inj hstep
    exact hs.persist hphase
  | failed gen =>
    rw [hphase] at hstep hcalm
    obtain rfl := Option.some.inj hstep
    exact hs.remember hphase hcalm.1 hcalm.2
  | loading gen =>
    rw [hphase] at hstep hcalm
    obtain rfl := Option.some.inj hstep
    exact hs.load hphase hcalm.1
  | keeping gen remembered seen =>
    rw [hphase] at hstep hcalm
    obtain rfl := Option.some.inj hstep
    exact hs.keep hphase hcalm
  | _ =>
    rw [hphase] at hstep
    cases hstep

theorem step_inv (hs : Inv s) (hcalm : Calm s a) (hstep : step s a = some t) : Inv t := by
  cases a with
  | begin c =>
    obtain ⟨hfresh, heq⟩ := Option.ite_none_right_eq_some.mp hstep
    obtain rfl := Option.some.inj heq
    exact hs.begin hfresh
  | next c ok => exact next_inv hs hcalm hstep
  | grant table =>
    obtain rfl := Option.some.inj hstep
    exact ⟨hs.calls, hs.due, hs.lastGood, hs.forgotten, hs.file, hs.noFile, hs.cache, hs.covered,
      hs.ordered⟩
  | bump =>
    obtain rfl := Option.some.inj hstep
    exact ⟨hs.calls, hs.due, hs.lastGood, hs.forgotten, hs.file, hs.noFile, hs.cache, hs.covered,
      hs.ordered⟩
  | restart =>
    obtain rfl := Option.some.inj hstep
    exact hs.restart hcalm

theorem inv_init (table : Grants) : Inv { table } where
  calls _ := trivial
  due _ hlive := absurd rfl hlive.1
  lastGood := nofun
  forgotten _ := rfl
  file := nofun
  noFile _ := rfl
  cache := nofun
  covered := nofun
  ordered := nofun

/-- How a call gets to an answer that is not from a read of its own. -/
theorem next_answers {ok : Bool} (hstep : s.next d ok = some t) : ∃ phase,
    t.calls = Function.update s.calls d phase ∧
      (∀ gen g, phase = .fellBack gen g → ∃ remembered seen,
        s.calls d = .keeping gen remembered seen ∧ g = Grants.kept (remembered.getD [])) ∧
      ∀ g, phase = .cached g → ∃ gen, s.calls d = .begun gen ∧ s.cache = some (gen, g) := by
  unfold State.next at hstep
  cases hphase : s.calls d with
  | begun gen =>
    rw [hphase] at hstep
    obtain rfl := Option.some.inj hstep
    unfold State.check
    split
    · next cachedGen grants hcache =>
      split
      · next hgen =>
        refine ⟨_, rfl, nofun, fun g hg => ⟨gen, rfl, ?_⟩⟩
        cases hg
        rw [hcache, hgen]
      · exact ⟨_, rfl, nofun, nofun⟩
    · exact ⟨_, rfl, nofun, nofun⟩
  | asking gen =>
    rw [hphase] at hstep
    obtain rfl := Option.some.inj hstep
    cases ok with
    | true => exact ⟨_, rfl, nofun, nofun⟩
    | false => exact ⟨_, rfl, nofun, nofun⟩
  | succeeded gen read =>
    rw [hphase] at hstep
    obtain rfl := Option.some.inj hstep
    refine ⟨_, rfl, fun _ _ h => ?_, fun _ h => ?_⟩
    · split at h <;> cases h
    · split at h <;> cases h
  | reloading read =>
    rw [hphase] at hstep
    obtain rfl := Option.some.inj hstep
    exact ⟨_, rfl, nofun, nofun⟩
  | storing gen read =>
    rw [hphase] at hstep
    obtain rfl := Option.some.inj hstep
    exact ⟨_, rfl, nofun, nofun⟩
  | persisting read =>
    rw [hphase] at hstep
    obtain rfl := Option.some.inj hstep
    exact ⟨_, rfl, nofun, nofun⟩
  | failed gen =>
    rw [hphase] at hstep
    obtain rfl := Option.some.inj hstep
    unfold State.remember
    split
    · exact ⟨_, rfl, nofun, nofun⟩
    · exact ⟨_, rfl, nofun, nofun⟩
  | loading gen =>
    rw [hphase] at hstep
    obtain rfl := Option.some.inj hstep
    exact ⟨_, rfl, nofun, nofun⟩
  | keeping gen remembered seen =>
    rw [hphase] at hstep
    obtain rfl := Option.some.inj hstep
    refine ⟨.fellBack gen (Grants.kept (remembered.getD [])), ?_, fun _ _ h => ?_, nofun⟩
    · cases remembered <;> rfl
    · cases h
      exact ⟨remembered, seen, rfl, rfl⟩
  | _ =>
    rw [hphase] at hstep
    cases hstep

/-- A step that brings a call to such an answer is one of the call. -/
theorem step_answers {phase : Phase} (hstep : step s a = some t) (hs : s.calls c ≠ phase)
    (ht : t.calls c = phase)
    (hphase : (∃ gen g, phase = .fellBack gen g) ∨ ∃ g, phase = .cached g) :
    ∃ ok, a = .next c ok ∧ s.next c ok = some t := by
  have hne : ∀ other, (∀ gen g, other ≠ .fellBack gen g) → (∀ g, other ≠ .cached g) →
      other ≠ phase := by
    rintro other hfell hcached rfl
    rcases hphase with ⟨gen, g, h⟩ | ⟨g, h⟩
    · exact hfell gen g h
    · exact hcached g h
  cases a with
  | begin d =>
    obtain ⟨-, heq⟩ := Option.ite_none_right_eq_some.mp hstep
    obtain rfl := Option.some.inj heq
    by_cases hc : c = d
    · subst hc
      rw [show (s.begin c).calls c = .begun s.generation from Function.update_self ..] at ht
      exact absurd ht (hne _ nofun nofun)
    · exact absurd ((Function.update_of_ne hc _ _).symm.trans ht) hs
  | next d ok =>
    by_cases hc : c = d
    · subst hc
      exact ⟨ok, rfl, hstep⟩
    · obtain ⟨phase', hcalls, -⟩ := next_answers hstep
      rw [hcalls, Function.update_of_ne hc] at ht
      exact absurd ht hs
  | grant table =>
    obtain rfl := Option.some.inj hstep
    exact absurd ht hs
  | bump =>
    obtain rfl := Option.some.inj hstep
    exact absurd ht hs
  | restart =>
    obtain rfl := Option.some.inj hstep
    have ht : (if s.calls c = .fresh then Phase.fresh else .killed) = phase := ht
    split at ht
    · exact absurd ht (hne _ nofun nofun)
    · exact absurd ht (hne _ nofun nofun)

theorem step_lawful (hs : Inv s) (hcalm : Calm s a) (hstep : step s a = some t) : Lawful s t where
  refuses c gen g hc ht := by
    obtain ⟨ok, rfl, hnext⟩ := step_answers hstep hc ht (.inl ⟨gen, g, rfl⟩)
    obtain ⟨phase, hcalls, hfell, -⟩ := next_answers hnext
    rw [hcalls, Function.update_self] at ht
    obtain ⟨remembered, seen, hphase, rfl⟩ := hfell gen g ht
    have hok := hs.calls c
    rw [hphase] at hok
    simp only [Calm, hphase] at hcalm
    obtain ⟨hdue, -⟩ := hok.2.2 hcalm
    exact ⟨fun hpos => (kept_covers _).trans (hdue hpos), fun _ => kept_not_on _⟩
  serves c g gen d h hc ht hd hpos := by
    have hne : s.calls c ≠ .cached g := by
      rw [hc]
      nofun
    obtain ⟨ok, rfl, hnext⟩ := step_answers hstep hne ht (.inr ⟨g, rfl⟩)
    obtain ⟨phase, hcalls, -, hcached⟩ := next_answers hnext
    rw [hcalls, Function.update_self] at ht
    obtain ⟨gen', hgen', hcache⟩ := hcached g ht
    obtain ⟨j, hj, k, hread, hcover⟩ := hs.cache _ hcache
    have hok := hs.calls d
    rw [hd] at hok
    obtain ⟨j', hj', hle⟩ := hok hpos
    obtain rfl : j = j' := Option.some.inj (hj.symm.trans hj')
    refine hcover.trans ?_
    by_cases hlater : s.due d ≤ j
    · simp only [Calm, hc] at hcalm
      have hlifts := hcalm d h hd hpos j hj hlater
      rw [hread] at hlifts
      exact hlifts
    · obtain rfl : j = s.due d - 1 := by omega
      rw [dueRead_eq hread]
      exact Grants.Covers.refl _

/-- **A failed read loses no refusal, and no later answer from the cache of its generation does,
wherever no older read comes late.** -/
theorem failed_reads_keep_refusals (hs : (forcedStates.restrict Calm).Reachable s)
    (hstep : (forcedStates.restrict Calm).step s a t) : Lawful s t := by
  have hinv : Inv s := by
    refine hs.invariant ?_ ?_
    · rintro _ ⟨table, rfl⟩
      exact inv_init table
    · rintro u b v hu ⟨hcalm, hb⟩
      exact step_inv hu hcalm hb
  exact step_lawful hinv hstep.1 hstep.2

/-! ## A read that comes late -/

/-- A call reads before a plugin is refused, and stores what it has read after the refusal was read,
stored and persisted. -/
def late : List Act :=
  [.begin 0, .next 0 true, .next 0 true, .grant [("acme-tools", .off)],
    .begin 1, .next 1 true, .next 1 true, .next 1 true, .next 1 true, .next 1 true,
    .next 0 true, .next 0 true, .next 0 true,
    .bump, .begin 2, .next 2 true, .next 2 false, .next 2 true]

theorem late_read_lifts_refusal : ∃ s t : State, forcedStates.Reachable s ∧
    forcedStates.step s (.next 2 true) t ∧ ¬ Lawful s t := by
  obtain ⟨s, t, hrun, hstep, hphase, hdue, hread, ht⟩ :
      ∃ s t, late.foldlM step {} = some s ∧ step s (.next 2 true) = some t ∧
        s.calls 2 = .keeping 1 (some []) (some 0) ∧ s.due 2 = 2 ∧
          s.dueRead 2 = [("acme-tools", .off)] ∧ t.calls 2 = .fellBack 1 [] :=
    ⟨_, _, rfl, rfl, rfl, rfl, rfl, rfl⟩
  refine ⟨s, t, ⟨{}, late, ⟨[], rfl⟩, System.run_of_foldlM hrun⟩, hstep, fun hlawful => ?_⟩
  have hcovers := (hlawful.refuses 2 1 [] (hphase.trans_ne nofun) ht).1 (by omega)
  rw [hread] at hcovers
  cases hcovers "acme-tools" rfl

/-- A plugin is refused, the refusal is read, and the next read fails. -/
def outage : List Act :=
  [.grant [("acme-tools", .off), ("beta-tools", .on)],
    .begin 0, .next 0 true, .next 0 true, .next 0 true, .next 0 true, .next 0 true,
    .bump, .begin 1, .next 1 true, .next 1 false, .next 1 true]

theorem outage_calm : ∃ s, (forcedStates.restrict Calm).Run {} outage s ∧
    s.calls 1 = .keeping 1 (some [("acme-tools", .off), ("beta-tools", .on)]) (some 0) ∧
      s.stored = some 0 := by
  refine ⟨(outage.foldlM step {}).getD {}, ?_, rfl, rfl⟩
  apply System.run_restrict_cons (by exact trivial) rfl
  apply System.run_restrict_cons (by exact trivial) rfl
  apply System.run_restrict_cons (by
    intro d h hd
    obtain _ | d := d
    · cases hd
    · cases hd) rfl
  apply System.run_restrict_cons (by exact trivial) rfl
  apply System.run_restrict_cons (by exact trivial) rfl
  apply System.run_restrict_cons (by exact nofun) rfl
  apply System.run_restrict_cons (by exact nofun) rfl
  apply System.run_restrict_cons (by exact trivial) rfl
  apply System.run_restrict_cons (by exact trivial) rfl
  apply System.run_restrict_cons (by
    intro d h hd
    obtain _ | _ | d := d
    · cases hd
    · cases hd
    · cases hd) rfl
  apply System.run_restrict_cons (by exact trivial) rfl
  apply System.run_restrict_cons (by
    refine ⟨fun d read hread => ?_, fun hpos i hi hle => ?_⟩
    · obtain _ | _ | d := d
      · cases hread
      · cases hread
      · cases hread
    · cases hi
      cases hle) rfl
  exact .nil _

theorem refusal_outlives_outage : ∃ s t : State, Lawful s t ∧
    (∃ remembered seen, s.calls 1 = .keeping 1 remembered seen) ∧
      t.calls 1 = .fellBack 1 [("acme-tools", .off)] := by
  obtain ⟨s, hrun, hphase, hstored⟩ := outage_calm
  have hstep : step s (.next 1 true) =
      some (s.keep 1 1 (some [("acme-tools", .off), ("beta-tools", .on)])) := by
    show s.next 1 true = _
    unfold State.next
    rw [hphase]
  have hcalm : Calm s (.next 1 true) := by
    simp only [Calm, hphase]
    exact hstored
  exact ⟨s, _, failed_reads_keep_refusals ⟨{}, outage, ⟨[], rfl⟩, hrun⟩ ⟨hcalm, hstep⟩,
    ⟨_, _, hphase⟩,
    Function.update_self (β := fun _ => Phase) 1 _ s.calls⟩

end GenusOs.Plugins.RootGrants
