import GenusOs.Library.Rows
import GenusOs.Library.Run
import GenusOs.Python.Json
import Mathlib

/-!
# Memory facts

The table `memory_facts` and the paths that retire a fact without an operator: `resolve_and_store`,
`supersede_with_validity` and `keep_overruled`, and `dechurn`. Each SQL statement is a step, and the
steps of any number of calls interleave with an operator's edits. What a call writes to other tables
(decisions, manifests) is not read by any of them and is left out.

Every writer of `metadata` stores an object.
-/

namespace GenusOs.Memory

open Python

/-! ## The table -/

structure Fact where
  id : Nat
  tenantId : String
  factText : String
  category : String
  entities : List String := []
  contentHash : Option String := none
  metadata : Option Dict := some []
  isActive : Bool := true
  supersededBy : Option Nat := none
  validFrom : Option Nat := none
  validTo : Option Nat := none
  importanceScore : Option Rat := some (1 / 2)
  reinforcementCount : Option Nat := some 0
  updatedAt : Nat := 0

/-- `is_operator_confirmed`, and what `NOT_OPERATOR_CONFIRMED_SQL` denies. -/
def Fact.operatorConfirmed (f : Fact) : Bool :=
  match List.lookup "operator_confirmed" (f.metadata.getD []) with
  | none | some .null => false
  | some _ => true

/-- What the statements that retire a fact set. -/
def Fact.retired (f : Fact) (supersededBy : Option Nat) (validTo : Option Nat) (now : Nat) : Fact :=
  { f with isActive := false, supersededBy := supersededBy, validTo := validTo, updatedAt := now }

/-- The texts of facts: their tokens, their numbers and their hash for a tenant and a category. -/
structure Texts where
  normTokens : String → Finset String
  numbersDiffer : String → String → Bool
  computeFactHash : String → String → String → String

/-! ## The statements -/

abbrev Table := List Fact

namespace Table

def get (t : Table) (tenant : String) (id : Nat) : Option Fact :=
  t.find? fun f => f.id = id && f.tenantId = tenant

/-- The first statement of `supersede_with_validity` picks these. -/
def supersedes (tenant : String) (oldId : Nat) (f : Fact) : Bool :=
  f.id = oldId && f.tenantId = tenant && !f.operatorConfirmed

def supersede (t : Table) (tenant : String) (oldId newId now : Nat) : Table :=
  Rows.updateWhere (supersedes tenant oldId)
    (fun f => f.retired (some newId) (f.validTo.or (some now)) now) t

/-- The second one. -/
def beginValidity (t : Table) (tenant : String) (newId now : Nat) : Table :=
  Rows.updateWhere (fun f => f.id = newId && f.tenantId = tenant)
    (fun f => { f with validFrom := f.validFrom.or (some now) }) t

def overrules (tenant : String) (newId keptId : Nat) (f : Fact) : Bool :=
  f.id = newId && f.tenantId = tenant && f.id ≠ keptId && !f.operatorConfirmed

/-- `keep_overruled`. -/
def keepOverruled (t : Table) (tenant : String) (newId keptId now : Nat) : Table :=
  Rows.updateWhere (overrules tenant newId keptId)
    (fun f => { f.retired (some keptId) (f.validTo.or (some now)) now with
      validFrom := f.validFrom.or (some now) }) t

/-- `_reinforce_fact`. -/
def reinforce (t : Table) (tenant : String) (id now : Nat) : Table :=
  Rows.updateWhere (fun f => f.id = id && f.tenantId = tenant)
    (fun f => { f with
      importanceScore := some (min (f.importanceScore.getD (1 / 2) + 1 / 20) 1)
      reinforcementCount := some (f.reinforcementCount.getD 0 + 1)
      updatedAt := now }) t

def isLoser (tenant : String) (losers : List Nat) (f : Fact) : Bool :=
  losers.contains f.id && f.tenantId = tenant

/-- The update of `dechurn`. -/
def deactivate (t : Table) (tenant : String) (losers : List Nat) (now : Nat) : Table :=
  Rows.updateWhere (isLoser tenant losers) (fun f => f.retired f.supersededBy f.validTo now) t

/-- The active fact with the hash. -/
def duplicates (tenant contentHash : String) (f : Fact) : Bool :=
  f.tenantId = tenant && f.contentHash = some contentHash && f.isActive

/-- The `id` of the next row. -/
def nextId (t : Table) : Nat := (t.map Fact.id).foldr max 0 + 1

/-- `ORDER BY id DESC LIMIT 1`. -/
def newestId (t : Table) (p : Fact → Bool) : Option Nat := ((t.filter p).map Fact.id).max?

/-- An operator's edit of an active fact, under the lock on its row. Another active fact with the
hash of the new text refuses it. -/
def edit (t : Table) (tenant : String) (id : Nat) (factText : String) (entities : List String)
    (contentHash : String) (confirmed : Dict) (now : Nat) : Option Table :=
  match t.get tenant id with
  | some old =>
    if old.isActive && !t.any (fun f => f.id ≠ id && duplicates tenant contentHash f) then
      some (Rows.updateWhere (fun f => f.id = id && f.tenantId = tenant)
        (fun f => { f with
          factText := factText
          entities := entities
          contentHash := some contentHash
          metadata := some (Dict.set (f.metadata.getD []) "operator_confirmed" (.obj confirmed))
          updatedAt := now }) t)
    else none
  | none => none

end Table

/-! ## Near duplicates -/

/-- The pairs of a list, each with the earlier element first. -/
def pairs {α : Type} : List α → List (α × α)
  | [] => []
  | x :: xs => xs.map (x, ·) ++ pairs xs

/-- `by_entity[entity]`. -/
def bucket (facts : List Fact) (entity : String) : List Fact :=
  facts.flatMap fun f => (f.entities.filter (· = entity)).map fun _ => f

def nearDuplicates (T : Texts) (jaccard : Rat) (a b : Fact) : Bool :=
  let ta := T.normTokens a.factText
  let tb := T.normTokens b.factText
  ta.card ≠ 0 && tb.card ≠ 0 && jaccard ≤ ((ta ∩ tb).card : Rat) / (ta ∪ tb).card

def clusterNearDupLosers (T : Texts) (jaccard : Rat) (facts : List Fact) : List Nat :=
  let entities := (facts.flatMap Fact.entities).dedup
  let losers := entities.flatMap fun entity =>
    ((pairs (bucket facts entity)).filter fun p => nearDuplicates T jaccard p.1 p.2).map fun p =>
      min p.1.id p.2.id
  losers.dedup.insertionSort (· ≤ ·)

/-- `_load_active_facts`. -/
def loadActiveFacts (t : Table) (tenant : String) : List Fact :=
  t.filter fun f => f.isActive && f.tenantId = tenant && !f.operatorConfirmed

end GenusOs.Memory
