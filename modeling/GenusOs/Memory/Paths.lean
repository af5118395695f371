import GenusOs.Memory.Facts
import Mathlib

/-!
# The paths that retire facts

The calls of `resolve_and_store`, `supersede_with_validity`, `keep_overruled` and `dechurn` as
processes that take one SQL statement after the other. A vector search is approximate: any active
fact of the tenant may come first. The classifier may say anything.
-/

namespace GenusOs.Memory

open Python

/-- The fact that `resolve_and_store` is given. -/
structure Extraction where
  factText : String
  category : String
  entities : List String := []

inductive Kind
  | new
  | duplicate
  | update
  | contradiction
  deriving DecidableEq

def DEFAULT_TENANT : String := "default"

def REINFORCE_THRESHOLD : Rat := 23 / 25

def DEFAULT_MAX_DEACTIVATIONS : Nat := 200

/-- What a call does with the fact it stores. -/
inductive Purpose
  | store
  /-- It conflicts with this match. -/
  | conflict (best : Fact)

/-- The next statement of a call. -/
inductive Phase
  | idle
  /-- `find_similar_facts`. -/
  | searching (x : Extraction) (threshold : Rat)
  | reinforcing (best : Fact)
  | findingOverruled (x : Extraction) (best : Fact)
  | classifying (x : Extraction) (best : Fact)
  /-- The insert of `store_fact`. -/
  | inserting (x : Extraction) (purpose : Purpose)
  /-- The select of `_insert_fact`, after a conflict. -/
  | rereading (x : Extraction) (purpose : Purpose)
  /-- The first statement of `supersede_with_validity`; `best` is the match if `resolve_and_store`
  has called it. -/
  | superseding (oldId newId : Nat) (best : Option Fact)
  | beginning (newId : Nat)
  /-- `_confirmed_now`. -/
  | confirming (best : Fact) (newId : Nat)
  | overruling (newId keptId : Nat)
  /-- `_load_active_facts`. -/
  | loading (jaccard : Rat) (maxDeactivations : Nat)
  | deactivating (losers : List Nat)
  | returned
  | raised

structure Call where
  tenant : String := DEFAULT_TENANT
  phase : Phase := .idle

structure State where
  table : Table := []
  calls : Nat → Call := fun _ => {}

/-- What a call finds outside the table. -/
structure Answers where
  now : Nat
  /-- The first result of the search and its similarity. -/
  best : Option (Nat × Rat) := none
  kind : Kind := .new
  /-- `store_fact` refuses: a benchmark run, or the quality gate. -/
  refused : Bool := false

variable (T : Texts)

/-- The hash of an extraction. -/
def Extraction.hash (x : Extraction) (tenant : String) : String :=
  T.computeFactHash x.factText tenant x.category

def Extraction.fact (x : Extraction) (t : Table) (tenant : String) (now : Nat) : Fact where
  id := t.nextId
  tenantId := tenant
  factText := x.factText
  category := x.category
  entities := x.entities
  contentHash := some (x.hash T tenant)
  updatedAt := now

/-- Where `resolve_and_store` goes on once its fact is stored. -/
def Purpose.next (newId : Nat) : Purpose → Phase
  | .store => .returned
  | .conflict best =>
    if best.operatorConfirmed then
      if newId = 0 then .returned else .overruling newId best.id
    else .superseding best.id newId (some best)

/-- Where it goes on with a match. -/
def matched (x : Extraction) (best : Fact) (similarity : Rat) : Phase :=
  if REINFORCE_THRESHOLD ≤ similarity ∧ best.category = x.category ∧
      ¬ T.numbersDiffer x.factText best.factText then .reinforcing best
  else if best.operatorConfirmed then .findingOverruled x best
  else .classifying x best

def classified (x : Extraction) (best : Fact) : Kind → Phase
  | .duplicate => .returned
  | .update | .contradiction => .inserting x (.conflict best)
  | .new => .inserting x .store

/-- One statement of a call on the table, and the phase it leaves the call in. -/
def statement (t : Table) (tenant : String) (ans : Answers) : Phase → Option (Table × Phase)
  | .searching x threshold =>
    match ans.best with
    | none => some (t, .inserting x .store)
    | some (id, similarity) =>
      match t.get tenant id with
      | some best =>
        if best.isActive && threshold ≤ similarity then some (t, matched T x best similarity)
        else none
      | none => none
  | .reinforcing best => some (t.reinforce tenant best.id ans.now, .returned)
  | .findingOverruled x best =>
    match t.newestId fun f => f.tenantId = tenant && f.contentHash = some (x.hash T tenant) &&
        f.supersededBy = some best.id && !f.isActive with
    | some _ => some (t, .returned)
    | none => some (t, .classifying x best)
  | .classifying x best => some (t, classified x best ans.kind)
  | .inserting x purpose =>
    if ans.refused then some (t, purpose.next 0)
    else if t.any (Table.duplicates tenant (x.hash T tenant)) then some (t, .rereading x purpose)
    else some (t ++ [x.fact T t tenant ans.now], purpose.next t.nextId)
  | .rereading x purpose =>
    some (t, purpose.next ((t.newestId (Table.duplicates tenant (x.hash T tenant))).getD 0))
  | .superseding oldId newId best =>
    if t.any (Table.supersedes tenant oldId) then
      -- `superseded_by` references a fact.
      if t.any (·.id = newId) then
        some (t.supersede tenant oldId newId ans.now, .beginning newId)
      else some (t, .raised)
    else
      match best with
      | some best => some (t, .confirming best newId)
      | none => some (t, .returned)
  | .beginning newId => some (t.beginValidity tenant newId ans.now, .returned)
  | .confirming best newId =>
    match t.get tenant best.id with
    | some row =>
      if row.operatorConfirmed && newId ≠ 0 then some (t, .overruling newId best.id)
      else some (t, .returned)
    | none => some (t, .returned)
  | .overruling newId keptId =>
    if t.any (Table.overrules tenant newId keptId) && !t.any (·.id = keptId) then some (t, .raised)
    else some (t.keepOverruled tenant newId keptId ans.now, .returned)
  | .loading jaccard maxDeactivations =>
    let losers := clusterNearDupLosers T jaccard (loadActiveFacts t tenant)
    if maxDeactivations < losers.length ∨ losers = [] then some (t, .returned)
    else some (t, .deactivating losers)
  | .deactivating losers => some (t.deactivate tenant losers ans.now, .returned)
  | .idle | .returned | .raised => none

/-- The calls. -/
inductive Request
  | resolveAndStore (x : Extraction) (threshold : Rat := 7 / 10)
  | supersedeWithValidity (oldId newId : Nat)
  | keepOverruled (newId keptId : Nat)
  | dechurn (jaccard : Rat := 9 / 10) (maxDeactivations : Nat := DEFAULT_MAX_DEACTIVATIONS)

def orDefault (tenant : String) : String := if tenant = "" then DEFAULT_TENANT else tenant

/-- A call at its first statement. `dechurn` has no default tenant. -/
def Request.start (tenant : String) : Request → Call
  | .resolveAndStore x threshold => { tenant := orDefault tenant, phase := .searching x threshold }
  | .supersedeWithValidity oldId newId =>
    { tenant := orDefault tenant, phase := .superseding oldId newId none }
  | .keepOverruled newId keptId => { tenant := orDefault tenant, phase := .overruling newId keptId }
  | .dechurn jaccard maxDeactivations =>
    { tenant, phase := if tenant = "" then .raised else .loading jaccard maxDeactivations }

inductive Act
  | call (c : Nat) (tenant : String) (request : Request)
  | next (c : Nat) (ans : Answers)
  | edit (tenant : String) (id : Nat) (factText : String)
      (entities : List String) (confirmed : Dict)
      (now : Nat)

def State.setCall (s : State) (c : Nat) (call : Call) : State :=
  { s with calls := Function.update s.calls c call }

def step (s : State) : Act → Option State
  | .call c tenant request =>
    match (s.calls c).phase with
    | .idle => some (s.setCall c (request.start tenant))
    | _ => none
  | .next c ans =>
    match statement T s.table (s.calls c).tenant ans (s.calls c).phase with
    | some (table, phase) => some { s.setCall c { s.calls c with phase } with table }
    | none => none
  | .edit tenant id factText entities confirmed now =>
    match s.table.get tenant id with
    | some old =>
      match s.table.edit tenant id factText entities
          (T.computeFactHash factText tenant old.category) confirmed now with
      | some table => some { s with table }
      | none => none
    | none => none

/-- Any facts may be there when it starts; `id` is their key. -/
def memory : System State Act :=
  .ofStep (fun s => ∃ table, Rows.KeyUnique Fact.id table ∧ s = { table }) (step T)

/-! ## The law -/

/-- A confirmed fact is still confirmed, and not retired. -/
structure Keeps (f g : Fact) : Prop where
  id : g.id = f.id
  confirmed : g.operatorConfirmed = true
  isActive : g.isActive = f.isActive
  supersededBy : g.supersededBy = f.supersededBy
  validTo : g.validTo = f.validTo

/-- No fact that was confirmed has been retired. -/
def Kept (t t' : Table) : Prop := ∀ f ∈ t, f.operatorConfirmed = true → ∃ g ∈ t', Keeps f g

def KeepsConfirmed (s t : State) : Prop := Kept s.table t.table

/-- **The steps at which `dechurn` finds none of its losers confirmed.** -/
def Calm (s : State) : Act → Prop
  | .next c _ =>
    match (s.calls c).phase with
    | .deactivating losers => ∀ f ∈ s.table, Table.isLoser (s.calls c).tenant losers f = true →
        f.isActive = true → f.operatorConfirmed = false
    | _ => True
  | _ => True

end GenusOs.Memory
