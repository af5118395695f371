import GenusOs.Python.Json
import GenusOs.Python.Str
import Mathlib

/-!
# Federation data models: the hybrid logical clock, sync events, conflict strategies

The clock is ordered as the dataclass's `__lt__` compares it, field by field. `lt_iff_lex` says
that this is the lexicographic order on wall time, counter and instance id, so that the order
laws come from Mathlib's `Prod.Lex`.
-/

namespace GenusOs.Federation

open GenusOs.Python

/-! ## The hybrid logical clock -/

/-- Wall time, counter and instance id. -/
structure HLC where
  wallMs : Int := 0
  counter : Int := 0
  instanceId : String := ""
  deriving DecidableEq, Repr

namespace HLC

/-- Advance for a local event, when the wall clock reads `nowMs`. -/
def tick (self : HLC) (nowMs : Int) : HLC :=
  if nowMs > self.wallMs then
    { wallMs := nowMs, counter := 0, instanceId := self.instanceId }
  else
    { wallMs := self.wallMs, counter := self.counter + 1, instanceId := self.instanceId }

/-- The counter `merge` takes, once the largest of the three wall times is known. -/
def mergeCounter (self remote : HLC) (nowMs maxWall : Int) : Int :=
  if maxWall = nowMs ∧ maxWall ≠ self.wallMs ∧ maxWall ≠ remote.wallMs then 0
  else if maxWall = self.wallMs ∧ maxWall = remote.wallMs then
    max self.counter remote.counter + 1
  else if maxWall = self.wallMs then self.counter + 1
  else remote.counter + 1

/-- Merge with a received remote clock, when the wall clock reads `nowMs`. -/
def merge (self remote : HLC) (nowMs : Int) : HLC :=
  let maxWall := max (max nowMs self.wallMs) remote.wallMs
  { wallMs := maxWall
    counter := self.mergeCounter remote nowMs maxWall
    instanceId := self.instanceId }

/-- `f"{wall_ms}:{counter}:{instance_id}"`. -/
def toString (self : HLC) : String :=
  ToString.toString self.wallMs ++ ":" ++ ToString.toString self.counter ++ ":" ++ self.instanceId

/-- Read a printed clock; `none` is the `ValueError`. -/
def fromString (s : String) : Option HLC :=
  match splitChars ':' s.toList 2 with
  | [wall, counter, instanceId] => do
    let wallMs ← parseInt (String.ofList wall)
    let counter ← parseInt (String.ofList counter)
    return { wallMs, counter, instanceId := String.ofList instanceId }
  | _ => none

/-- The dataclass's `__lt__`. -/
def lt (self other : HLC) : Bool :=
  if self.wallMs ≠ other.wallMs then self.wallMs < other.wallMs
  else if self.counter ≠ other.counter then self.counter < other.counter
  else self.instanceId < other.instanceId

instance : LT HLC := ⟨fun a b => a.lt b = true⟩

instance (a b : HLC) : Decidable (a < b) := inferInstanceAs (Decidable (a.lt b = true))

/-! ### The order -/

/-- A clock as a lexicographic triple. -/
def toLexTriple (c : HLC) : Int ×ₗ Int ×ₗ String :=
  toLex (c.wallMs, toLex (c.counter, c.instanceId))

theorem toLexTriple_injective : Function.Injective toLexTriple := by
  rintro ⟨w, n, i⟩ ⟨w', n', i'⟩ h
  simpa [toLexTriple] using h

/-- `__lt__` is the lexicographic order. -/
theorem lt_iff_lex {a b : HLC} : a < b ↔ a.toLexTriple < b.toLexTriple := by
  show a.lt b = true ↔ _
  simp only [lt, toLexTriple, Prod.Lex.toLex_lt_toLex]
  by_cases hw : a.wallMs = b.wallMs
  · by_cases hc : a.counter = b.counter
    · simp [hw, hc]
    · simp [hw, hc]
  · simp [hw]

theorem lt_trans {a b c : HLC} (h : a < b) (k : b < c) : a < c :=
  lt_iff_lex.mpr ((lt_iff_lex.mp h).trans (lt_iff_lex.mp k))

theorem lt_irrefl (a : HLC) : ¬ a < a := fun h => absurd rfl (lt_iff_lex.mp h).ne

theorem trichotomy (a b : HLC) : a < b ∨ a = b ∨ b < a := by
  rcases lt_trichotomy a.toLexTriple b.toLexTriple with h | h | h
  · exact Or.inl (lt_iff_lex.mpr h)
  · exact Or.inr (Or.inl (toLexTriple_injective h))
  · exact Or.inr (Or.inr (lt_iff_lex.mpr h))

/-- Later wall time, or equal wall time and a larger counter. -/
theorem lt_of_wall_counter {a b : HLC}
    (h : a.wallMs < b.wallMs ∨ a.wallMs = b.wallMs ∧ a.counter < b.counter) : a < b := by
  rw [lt_iff_lex, toLexTriple, toLexTriple, Prod.Lex.toLex_lt_toLex, Prod.Lex.toLex_lt_toLex]
  rcases h with h | ⟨hw, hc⟩
  · exact Or.inl h
  · exact Or.inr ⟨hw, Or.inl hc⟩

/-! ### `tick` and `merge` move the clock forward -/

@[simp] theorem tick_instanceId (c : HLC) (nowMs : Int) :
    (c.tick nowMs).instanceId = c.instanceId := by
  unfold tick
  split <;> rfl

@[simp] theorem merge_instanceId (c r : HLC) (nowMs : Int) :
    (c.merge r nowMs).instanceId = c.instanceId := rfl

theorem lt_tick (c : HLC) (nowMs : Int) : c < c.tick nowMs := by
  apply lt_of_wall_counter
  unfold tick
  split
  · next h => exact Or.inl h
  · exact Or.inr ⟨rfl, Int.lt_succ _⟩

/-- Where the merged wall time is an operand's own, the merged counter passes its counter. -/
theorem mergeCounter_gt (c r : HLC) (nowMs maxWall : Int) :
    (maxWall = c.wallMs → c.counter < c.mergeCounter r nowMs maxWall) ∧
      (maxWall = r.wallMs → r.counter < c.mergeCounter r nowMs maxWall) := by
  unfold mergeCounter
  split_ifs <;> omega

theorem lt_merge_self (c r : HLC) (nowMs : Int) : c < c.merge r nowMs := by
  apply lt_of_wall_counter
  have hw : c.wallMs ≤ (c.merge r nowMs).wallMs :=
    (le_max_right _ _).trans (le_max_left _ _)
  rcases hw.lt_or_eq with h | h
  · exact Or.inl h
  · exact Or.inr ⟨h, (mergeCounter_gt c r nowMs _).1 h.symm⟩

theorem lt_merge_remote (c r : HLC) (nowMs : Int) : r < c.merge r nowMs := by
  apply lt_of_wall_counter
  have hw : r.wallMs ≤ (c.merge r nowMs).wallMs := le_max_right _ _
  rcases hw.lt_or_eq with h | h
  · exact Or.inl h
  · exact Or.inr ⟨h, (mergeCounter_gt c r nowMs _).2 h.symm⟩

/-! ### Printing and parsing -/

/-- Parsing a printed clock gives the clock back, whatever its instance id contains. -/
theorem fromString_toString (c : HLC) : fromString c.toString = some c := by
  have nocolon : ∀ n : Int, ':' ∉ (ToString.toString n).toList := fun n h =>
    absurd (toString_int_chars n ':' h) (by decide)
  have hsplit : splitChars ':' c.toString.toList 2
      = [(ToString.toString c.wallMs).toList, (ToString.toString c.counter).toList,
          c.instanceId.toList] := by
    have : c.toString.toList = (ToString.toString c.wallMs).toList ++
        ':' :: ((ToString.toString c.counter).toList ++ ':' :: c.instanceId.toList) := by
      simp [toString]
    rw [this, splitChars_append_sep (nocolon _), splitChars_append_sep (nocolon _),
      splitChars_zero]
  simp only [fromString, hsplit, String.ofList_toList, parseInt_toString]
  rfl

end HLC

/-! ## Channels and sync events -/

inductive SyncChannel | critical | bulk | media
  deriving DecidableEq, Repr

/-- An entry in the event journal (sync buffer). -/
structure SyncEvent where
  connectionId : String := ""
  channel : SyncChannel := .critical
  eventType : String := ""
  payload : Dict := []
  hlcTimestamp : String := ""
  syncedAt : Option String := none
  createdAt : String := ""

/-! ## Conflict resolution strategies -/

inductive ConflictStrategy
  | noConflict | monotonicLattice | additiveMerge | authority | appendOnly
  deriving DecidableEq, Repr

/-- `ENTITY_CONFLICT_MAP`. -/
def entityConflictMap : List (String × ConflictStrategy) :=
  [("agent_run", .noConflict), ("task", .monotonicLattice), ("memory_fact", .additiveMerge),
    ("config", .authority), ("log", .appendOnly), ("telemetry", .appendOnly)]

/-- `TASK_STATUS_ORDER`. -/
def taskStatusOrder : List (String × Int) :=
  [("open", 0), ("in_progress", 1), ("done", 2), ("archived", 3)]

end GenusOs.Federation
