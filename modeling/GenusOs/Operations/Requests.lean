import GenusOs.Operations.Values
import GenusOs.Library.Run
import GenusOs.Library.SlidingWindow
import Mathlib

/-!
# Metered requests

`admit_request` meters the requests of a scope in a sliding window, for all of its callers: under an
advisory lock of the scope it counts the recent admissions in the audit, and then writes one more.
Time passes between the two.
-/

namespace GenusOs.Operations

open SlidingWindow

/-- A caller that has counted and not yet written. -/
structure RequestLimit where
  limit : Int
  windowSeconds : Int

/-- The clock of the database, the `request.admitted` rows of the audit, and who holds the lock of
each scope. -/
structure Meter where
  now : Instant := 0
  admitted : List (String × Instant) := []
  holder : String → Option RequestLimit := fun _ => none

inductive MeterStep
  | tick (elapsed : Nat)
  /-- The lock and `SELECT count(*)`. -/
  | count (scope : String) (limit windowSeconds : Int)
  /-- `INSERT` and the commit. -/
  | write (scope : String)
  /-- The connection of the caller is lost. -/
  | abort (scope : String)

/-- The admissions of a scope, oldest first. -/
def Meter.times (m : Meter) (scope : String) : List Instant := timesOf m.admitted scope

/-- One step of `admit_request`. It says `none` where a caller is told of its arguments, or has to
wait. -/
def Meter.step (m : Meter) : MeterStep → Option Meter
  | .tick elapsed => some { m with now := m.now + elapsed }
  | .count scope limit windowSeconds =>
    if scope = "" ∨ limit < 1 ∨ windowSeconds < 1 then none
    else if (m.holder scope).isSome then none
    else if limit ≤ (recent (seconds windowSeconds) m.now (m.times scope)).length then some m
    else some { m with holder := Function.update m.holder scope (some { limit, windowSeconds }) }
  | .write scope =>
    if (m.holder scope).isSome then
      some
        { m with
          admitted := m.admitted ++ [(scope, m.now)]
          holder := Function.update m.holder scope none }
    else none
  | .abort scope => some { m with holder := Function.update m.holder scope none }

/-- Any callers of any scopes. -/
def meters : System Meter MeterStep := .ofStep (· = {}) Meter.step

variable {m m' : Meter} {scope : String} {n : Nat} {windowSeconds : Int}

theorem times_write (scope' : String) :
    ({ m with admitted := m.admitted ++ [(scope, m.now)] } : Meter).times scope' =
    if scope = scope' then m.times scope' ++ [m.now] else m.times scope' := timesOf_concat _ _ _ _

/-- **The condition**: the calls on a scope, of which none allows more than `n` in the window.
Callers pass their own limits, and the table does not know of them. -/
def Metered (scope : String) (n : Nat) (windowSeconds : Int) : MeterStep → Prop
  | .count scope' limit windowSeconds' => scope' = scope →
      limit ≤ n ∧ windowSeconds ≤ windowSeconds'
  | _ => True

/-- The invariant: no window sees more than `n`, and who has counted may write. The second part is
what the advisory lock is for, which a call keeps from its count to its insert. -/
structure MeterSound (scope : String) (n : Nat) (windowSeconds : Int) (m : Meter) : Prop where
  sparse : Sparse n (seconds windowSeconds) (m.times scope)
  room : ∀ r, m.holder scope = some r →
    (recent (seconds windowSeconds) m.now (m.times scope)).length < n

theorem seconds_mono {a b : Int} (h : a ≤ b) : seconds a ≤ seconds b := by
  unfold seconds
  omega

/-- **Step lemma.** Time passes and windows lose admissions; a count that finds room takes the lock;
an insert is made by who has counted, while nobody else was let in. -/
theorem meter_step {step : MeterStep} (hmetered : Metered scope n windowSeconds step)
    (hm : MeterSound scope n windowSeconds m) (h : m.step step = some m') :
    MeterSound scope n windowSeconds m' := by
  cases step with
  | tick elapsed =>
    cases h
    refine ⟨hm.sparse, fun r hr => (length_recent_le le_rfl ?_).trans_lt (hm.room r hr)⟩
    exact le_add_of_nonneg_right (Int.natCast_nonneg elapsed)
  | count scope' limit windowSeconds' =>
    obtain ⟨-, h⟩ := Option.ite_none_left_eq_some.mp h
    obtain ⟨-, h⟩ := Option.ite_none_left_eq_some.mp h
    split at h <;> cases h
    · exact hm
    next hroom =>
    refine ⟨hm.sparse, fun r hr => ?_⟩
    by_cases heq : scope' = scope
    · subst heq
      obtain ⟨hlimit, hwindow⟩ := hmetered rfl
      -- the caller counted in a window that is no shorter, so the window of the law has no more in
      -- it
      have hfewer : (recent (seconds windowSeconds) m.now (m.times scope')).length ≤
          (recent (seconds windowSeconds') m.now (m.times scope')).length :=
        length_recent_le (seconds_mono hwindow) le_rfl
      show (recent (seconds windowSeconds) m.now (m.times scope')).length < n
      omega
    · exact hm.room r ((Function.update_of_ne (Ne.symm heq) ..).symm.trans hr)
  | write scope' =>
    obtain ⟨hholds, h⟩ := Option.ite_none_right_eq_some.mp h
    cases h
    by_cases heq : scope' = scope
    · subst heq
      obtain ⟨r, hr⟩ := Option.isSome_iff_exists.mp hholds
      refine ⟨?_, fun r hr => ?_⟩
      · show Sparse n _ (Meter.times { m with admitted := _ } scope')
        rw [times_write, if_pos rfl]
        -- the insert takes the room that was counted under the lock
        exact hm.sparse.concat (hm.room r hr)
      · cases (Function.update_self ..).symm.trans hr
    · -- an admission in another scope
      have hsame : (Meter.times { m with admitted := m.admitted ++ [(scope', m.now)] } scope) =
        m.times scope := by
        rw [times_write, if_neg heq]
      refine ⟨?_, fun r hr => ?_⟩
      · show Sparse n _ (Meter.times { m with admitted := _ } scope)
        rw [hsame]
        exact hm.sparse
      · show (recent _ m.now (Meter.times { m with admitted := _ } scope)).length < n
        rw [hsame]
        exact hm.room r ((Function.update_of_ne (Ne.symm heq) ..).symm.trans hr)
  | abort scope' =>
    cases h
    refine ⟨hm.sparse, fun r hr => ?_⟩
    by_cases heq : scope = scope'
    · subst heq
      cases (Function.update_self ..).symm.trans hr
    · exact hm.room r ((Function.update_of_ne heq ..).symm.trans hr)

/-- **Requests are metered**: of the calls on a scope that each allow at most `n` in windows of at
least `windowSeconds`, no window `(t, t + windowSeconds]` sees more than `n` admitted, however the
callers interleave. -/
theorem requests_metered {steps : List MeterStep} (h : meters.Run {} steps m)
    (hmetered : ∀ step ∈ steps, Metered scope n windowSeconds step) (t : Instant) :
    (since (seconds windowSeconds) t (m.times scope)).length ≤ n := by
  have hsound : MeterSound scope n windowSeconds m := by
    refine h.preserves_of_labels (I := MeterSound scope n windowSeconds)
      (P := Metered scope n windowSeconds)
      (fun m step m' hstep hm h => meter_step hstep hm h) hmetered ?_
    exact ⟨.nil, nofun⟩
  exact hsound.sparse t

/-- The second caller counts while the first one holds the lock of another scope, and the third one
is refused. -/
def sampleMeterSteps : List MeterStep :=
  [.count "mail" 2 60, .tick 5, .count "status" 1 60,
    .write "mail", .count "mail" 2 60, .write "mail", .count "mail" 2 60,
    .write "status"]

/-- Where they lead to. -/
def sampleMeter : Meter := (sampleMeterSteps.foldlM Meter.step {}).getD {}

theorem third_request_refused : (since (seconds 60) 0 (sampleMeter.times "mail")).length = 2 ∧
    (since (seconds 60) 0 (sampleMeter.times "mail")).length ≤ 2 :=
  ⟨by decide, requests_metered (n := 2) (System.run_of_foldlM
    (show sampleMeterSteps.foldlM Meter.step {} = some sampleMeter from rfl)) (by
    intro step hstep
    simp only [sampleMeterSteps, List.mem_cons, List.not_mem_nil, or_false] at hstep
    rcases hstep with rfl | rfl | rfl | rfl | rfl | rfl | rfl | rfl <;> simp [Metered]) 0⟩

end GenusOs.Operations
