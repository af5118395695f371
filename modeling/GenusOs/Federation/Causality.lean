import GenusOs.Federation.Sync
import Mathlib

/-!
# Causality of the hybrid logical clock

Any number of instances with pairwise distinct ids append events and receive each other's, in any
interleaving, each step under a wall clock of its own that may run backward. The log records every
append and every receive with the clock its journal held right after it.

* `HappenedBefore` is causality over the log: program order at an instance, and an event before
  each receive of it.
* `Ordered` is the invariant, re-established by the one lemma `Ordered.extend` that both kinds of
  step go through.
* `hlc_causality` is the result: causality is reflected by the clocks, the clocks are pairwise
  distinct and totally ordered, and a printed clock parses back.
-/

namespace GenusOs.Federation

open GenusOs.Python

/-- The instances of a federation, by their ids. -/
structure Fleet (ι : Type*) where
  ident : ι → String
  distinct : Function.Injective ident

/-- An append, or a receive of the event at log position `source`. -/
structure Entry (ι : Type*) where
  site : ι
  clock : HLC
  source : Option Nat
  event : SyncEvent

structure Network (ι : Type*) where
  journals : ι → EventJournal
  log : List (Entry ι)

inductive Action (ι : Type*)
  | append (site : ι) (connectionId : String) (channel : SyncChannel) (eventType : String)
      (payload : Dict) (nowMs : Int) (createdAt : String)
  | receive (site : ι) (source : Nat) (nowMs : Int) (syncedAt : String)

variable {ι : Type*}

def Fleet.initial (F : Fleet ι) : Network ι :=
  { journals := fun i => EventJournal.new (F.ident i), log := [] }

namespace Network

variable [DecidableEq ι]

/-- Store a journal and log what it did. -/
def record (s : Network ι) (site : ι) (journal : EventJournal) (source : Option Nat)
    (event : SyncEvent) : Network ι :=
  { journals := Function.update s.journals site journal
    log := s.log ++ [{ site, clock := journal.clock, source, event }] }

/-- A receive reads the clock printed in the event, and only appended events travel. -/
def step (s : Network ι) : Action ι → Network ι
  | .append site cid channel eventType payload nowMs createdAt =>
    let (journal, event) :=
      (s.journals site).append cid channel eventType payload nowMs createdAt
    s.record site journal none event
  | .receive site source nowMs syncedAt =>
    match s.log[source]? with
    | some { source := none, event, .. } =>
      match HLC.fromString event.hlcTimestamp with
      | some remoteHlc =>
        let (journal, _) := (s.journals site).receive event remoteHlc nowMs syncedAt
        s.record site journal (some source) event
      | none => s
    | _ => s

end Network

def Fleet.run [DecidableEq ι] (F : Fleet ι) (actions : List (Action ι)) : Network ι :=
  actions.foldl Network.step F.initial

/-! ## Causality over the log -/

/-- Position `b` directly follows position `a`: later at the same instance, or a receive of `a`. -/
def Follows (log : List (Entry ι)) (a b : Nat) : Prop :=
  ∃ x y, log[a]? = some x ∧ log[b]? = some y ∧ (a < b ∧ x.site = y.site ∨ y.source = some a)

def HappenedBefore (log : List (Entry ι)) : Nat → Nat → Prop := Relation.TransGen (Follows log)

/-! ## The invariant -/

/-- Clocks carry their instance's id, no logged clock is ahead of its journal, printed clocks are
the logged ones, and a log position that follows another has the larger clock. -/
structure Ordered (F : Fleet ι) (s : Network ι) : Prop where
  journal_ident : ∀ i, (s.journals i).clock.instanceId = F.ident i
  entry_ident : ∀ e ∈ s.log, e.clock.instanceId = F.ident e.site
  bounded : ∀ e ∈ s.log,
    e.clock = (s.journals e.site).clock ∨ e.clock < (s.journals e.site).clock
  printed : ∀ e ∈ s.log, e.source = none → e.event.hlcTimestamp = e.clock.toString
  earlier : ∀ (a b : Nat) (y : Entry ι), s.log[b]? = some y → y.source = some a → a < b
  follows : ∀ (a b : Nat) (x y : Entry ι), s.log[a]? = some x → s.log[b]? = some y →
    (a < b ∧ x.site = y.site ∨ y.source = some a) → x.clock < y.clock

theorem Ordered.initial (F : Fleet ι) : Ordered F F.initial where
  journal_ident _ := rfl
  entry_ident _ h := by simp [Fleet.initial] at h
  bounded _ h := by simp [Fleet.initial] at h
  printed _ h := by simp [Fleet.initial] at h
  earlier _ _ _ h := by simp [Fleet.initial] at h
  follows _ _ _ _ h := by simp [Fleet.initial] at h

variable [DecidableEq ι] {F : Fleet ι} {s : Network ι}

/-- **The step lemma.** Logging a journal whose clock moved past its own old clock, and past the
clock of the event it received, keeps the log ordered. -/
theorem Ordered.extend (h : Ordered F s) {site : ι} {journal : EventJournal}
    {source : Option Nat} {event : SyncEvent}
    (hident : journal.clock.instanceId = F.ident site)
    (hself : (s.journals site).clock < journal.clock)
    (hremote : ∀ k, source = some k → ∃ e, s.log[k]? = some e ∧ e.clock < journal.clock)
    (hprinted : source = none → event.hlcTimestamp = journal.clock.toString) :
    Ordered F (s.record site journal source event) := by
  have hjournal : ∀ i, (s.journals i).clock =
      ((s.record site journal source event).journals i).clock ∨
      (s.journals i).clock < ((s.record site journal source event).journals i).clock := by
    intro i
    by_cases hi : i = site
    · subst hi; simpa [Network.record] using Or.inr hself
    · simp [Network.record, hi]
  have hold : ∀ {b : Nat} {y : Entry ι},
      (s.record site journal source event).log[b]? = some y → b < s.log.length →
      s.log[b]? = some y := by
    intro b y hy hb
    simpa [Network.record, List.getElem?_append_left hb] using hy
  have hnew : ∀ {b : Nat} {y : Entry ι},
      (s.record site journal source event).log[b]? = some y → ¬ b < s.log.length →
      b = s.log.length ∧ y = { site, clock := journal.clock, source, event } := by
    intro b y hy hb
    rw [Network.record, List.getElem?_append_right (by omega)] at hy
    obtain ⟨hb', rfl⟩ := List.getElem?_eq_some_iff.mp hy
    simp only [List.length_singleton] at hb'
    exact ⟨by omega, by simp⟩
  have hearlier : ∀ (a b : Nat) (y : Entry ι),
      (s.record site journal source event).log[b]? = some y → y.source = some a → a < b := by
    intro a b y hy ha
    by_cases hb : b < s.log.length
    · exact h.earlier a b y (hold hy hb) ha
    · obtain ⟨rfl, rfl⟩ := hnew hy hb
      obtain ⟨e, he, -⟩ := hremote a ha
      exact (List.getElem?_eq_some_iff.mp he).1
  refine ⟨?_, ?_, ?_, ?_, hearlier, ?_⟩
  · intro i
    by_cases hi : i = site
    · subst hi; simpa [Network.record] using hident
    · simpa [Network.record, hi] using h.journal_ident i
  · intro e he
    rcases List.mem_append.mp he with he | he
    · exact h.entry_ident e he
    · obtain rfl := List.mem_singleton.mp he
      exact hident
  · intro e he
    rcases List.mem_append.mp he with he | he
    · rcases h.bounded e he with hb | hb <;> rcases hjournal e.site with hj | hj
      · exact Or.inl (hb.trans hj)
      · exact Or.inr (hb ▸ hj)
      · exact Or.inr (hj ▸ hb)
      · exact Or.inr (HLC.lt_trans hb hj)
    · obtain rfl := List.mem_singleton.mp he
      simp [Network.record]
  · intro e he hs
    rcases List.mem_append.mp he with he | he
    · exact h.printed e he hs
    · obtain rfl := List.mem_singleton.mp he
      exact hprinted hs
  · intro a b x y hx hy hab
    -- either way `a` is logged before `b`, so `x` is an old entry
    have hlt : a < b := hab.elim (·.1) (hearlier a b y hy)
    by_cases hb : b < s.log.length
    · exact h.follows a b x y (hold hx (by omega)) (hold hy hb) hab
    · obtain ⟨rfl, rfl⟩ := hnew hy hb
      have hx' := hold hx hlt
      rcases hab with ⟨-, hsite⟩ | hsource
      · have hxsite : x.site = site := hsite
        rcases h.bounded x (List.mem_of_getElem? hx') with hb' | hb'
        · rw [hb', hxsite]; exact hself
        · exact HLC.lt_trans hb' (hxsite ▸ hself)
      · obtain ⟨e, he, hlt'⟩ := hremote a hsource
        rw [hx'] at he
        cases he
        exact hlt'

theorem Ordered.step (h : Ordered F s) (action : Action ι) : Ordered F (s.step action) := by
  cases action with
  | append site cid channel eventType payload nowMs createdAt =>
    apply h.extend
    · simpa using h.journal_ident site
    · simpa using HLC.lt_tick _ _
    · simp
    · simp
  | receive site source nowMs syncedAt =>
    simp only [Network.step]
    split
    · next site' clock event hlog =>
      have hprinted := h.printed _ (List.mem_of_getElem? hlog) rfl
      simp only at hprinted
      rw [hprinted, HLC.fromString_toString]
      apply h.extend
      · simpa using h.journal_ident site
      · simpa using HLC.lt_merge_self _ _ _
      · rintro k hk
        cases hk
        exact ⟨_, hlog, by simpa using HLC.lt_merge_remote _ _ _⟩
      · simp
    · exact h

theorem Fleet.ordered_run (F : Fleet ι) (actions : List (Action ι)) :
    Ordered F (F.run actions) := by
  have hfold : ∀ (actions : List (Action ι)) (s : Network ι), Ordered F s →
      Ordered F (actions.foldl Network.step s) := by
    intro actions
    induction actions with
    | nil => exact fun _ h => h
    | cons a as ih => exact fun s h => ih (s.step a) (h.step a)
  exact hfold actions F.initial (Ordered.initial F)

/-! ## Results -/

omit [DecidableEq ι] in
/-- What happened before has the smaller clock. -/
theorem Ordered.lt_of_happenedBefore (h : Ordered F s) {a b : Nat}
    (hab : HappenedBefore s.log a b) :
    ∃ x y, s.log[a]? = some x ∧ s.log[b]? = some y ∧ x.clock < y.clock := by
  induction hab with
  | single hab =>
    obtain ⟨x, y, hx, hy, hxy⟩ := hab
    exact ⟨x, y, hx, hy, h.follows _ _ x y hx hy hxy⟩
  | tail _ hbc ih =>
    obtain ⟨x, y, hx, hy, hlt⟩ := ih
    obtain ⟨y', z, hy', hz, hyz⟩ := hbc
    rw [hy] at hy'
    cases hy'
    exact ⟨x, z, hx, hz, HLC.lt_trans hlt (h.follows _ _ y z hy hz hyz)⟩

/-- No two log positions carry the same clock: at one instance the later one is larger, and at
two instances the ids differ. -/
theorem Ordered.clock_ne (h : Ordered F s) {a b : Nat} {x y : Entry ι}
    (hx : s.log[a]? = some x) (hy : s.log[b]? = some y) (hab : a < b) : x.clock ≠ y.clock := by
  intro heq
  by_cases hsite : x.site = y.site
  · have := h.follows a b x y hx hy (Or.inl ⟨hab, hsite⟩)
    exact HLC.lt_irrefl _ (heq ▸ this)
  · have hxi := h.entry_ident x (List.mem_of_getElem? hx)
    have hyi := h.entry_ident y (List.mem_of_getElem? hy)
    exact hsite (F.distinct (by rw [← hxi, ← hyi, heq]))

/-- The clock order is strict, transitive and total. -/
instance : IsStrictTotalOrder HLC (· < ·) where
  trichotomous a b h k := (HLC.trichotomy a b).resolve_left h |>.resolve_right k
  irrefl := HLC.lt_irrefl
  trans _ _ _ := HLC.lt_trans

/-- **Causality and uniqueness of the hybrid logical clock**, over every interleaving. -/
theorem hlc_causality (F : Fleet ι) (actions : List (Action ι)) :
    (∀ a b x y, HappenedBefore (F.run actions).log a b → (F.run actions).log[a]? = some x →
      (F.run actions).log[b]? = some y → x.clock < y.clock) ∧
    (∀ (a b : Nat) (x y : Entry ι), (F.run actions).log[a]? = some x →
      (F.run actions).log[b]? = some y → a ≠ b → x.clock ≠ y.clock) ∧
    (∀ e ∈ (F.run actions).log, e.source = none → e.event.hlcTimestamp = e.clock.toString) ∧
    IsStrictTotalOrder HLC (· < ·) ∧
    (∀ c : HLC, HLC.fromString c.toString = some c) ∧
    (∀ c d c' d' : HLC, HLC.fromString c.toString = some c' →
      HLC.fromString d.toString = some d' → (c' < d' ↔ c < d)) := by
  have h := F.ordered_run actions
  refine ⟨?_, ?_, h.printed, inferInstance, HLC.fromString_toString, ?_⟩
  · intro a b x y hab hx hy
    obtain ⟨x', y', hx', hy', hlt⟩ := h.lt_of_happenedBefore hab
    rw [hx] at hx'
    rw [hy] at hy'
    cases hx'
    cases hy'
    exact hlt
  · intro a b x y hx hy hne
    rcases Nat.lt_or_gt_of_ne hne with hlt | hlt
    · exact h.clock_ne hx hy hlt
    · exact (h.clock_ne hy hx hlt).symm
  · intro c d c' d' hc hd
    rw [HLC.fromString_toString] at hc hd
    cases hc
    cases hd
    rfl

/-- Two instances. -/
def sampleFleet : Fleet Bool where
  ident atHome := if atHome then "home" else "office"
  distinct := by decide

/-- The office appends an event, and home receives it and appends one of its own, under a wall clock
that is three milliseconds behind that of the office. -/
def sampleActions : List (Action Bool) :=
  [.append false "link-1" .critical "task_update" [] 1005 "2026-01-01T00:00:01",
    .receive true 0 1002 "2026-01-01T00:00:02",
    .append true "link-1" .critical "task_update" [] 1002 "2026-01-01T00:00:03"]

theorem answer_follows_question : ∃ x y, (sampleFleet.run sampleActions).log[0]? = some x ∧
    (sampleFleet.run sampleActions).log[2]? = some y ∧ x.clock.instanceId = "office" ∧
      y.clock.instanceId = "home" ∧ x.clock < y.clock ∧
      HLC.fromString x.event.hlcTimestamp = some x.clock := by
  obtain ⟨hcausal, -, hprinted, -, hparse, -⟩ := hlc_causality sampleFleet sampleActions
  have hsources : (sampleFleet.run sampleActions).log.map (fun e => (e.site, e.source)) =
      [(false, none), (true, some 0), (true, none)] := by
    simp [Fleet.run, sampleActions, Fleet.initial,
      Network.step, Network.record, HLC.fromString_toString]
  have hidents : (sampleFleet.run sampleActions).log.map (·.clock.instanceId) =
      ["office", "home", "home"] := by
    simp [Fleet.run, sampleActions, Fleet.initial,
      Network.step, Network.record, HLC.fromString_toString,
      EventJournal.new, sampleFleet]
  match hlog : (sampleFleet.run sampleActions).log with
  | [x, m, y] =>
    rw [hlog] at hsources hidents hprinted
    simp only [List.map_cons, List.map_nil, List.cons.injEq, Prod.mk.injEq, and_true]
      at hsources hidents
    obtain ⟨⟨hx, hxsource⟩, ⟨hm, hmsource⟩, hy, -⟩ := hsources
    obtain ⟨hxident, -, hyident⟩ := hidents
    have hbefore : HappenedBefore (sampleFleet.run sampleActions).log 0 2 := by
      rw [hlog]
      have hreceived : Follows [x, m, y] 0 1 := ⟨x, m, rfl, rfl, .inr hmsource⟩
      have hlater : Follows [x, m, y] 1 2 := ⟨m, y, rfl, rfl, .inl ⟨by decide, hm.trans hy.symm⟩⟩
      exact .tail (.single hreceived) hlater
    refine ⟨x, y, rfl, rfl, hxident, hyident, ?_, ?_⟩
    · exact hcausal 0 2 x y hbefore (by rw [hlog]; rfl) (by rw [hlog]; rfl)
    · rw [hprinted x List.mem_cons_self hxsource]
      exact hparse x.clock
  | [] | [_] | [_, _] | _ :: _ :: _ :: _ :: _ =>
    rw [hlog] at hsources
    simp at hsources

end GenusOs.Federation
