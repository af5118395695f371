import GenusOs.Operations.Values
import GenusOs.Python.Str
import GenusOs.Library.Rows
import GenusOs.Library.Run
import Mathlib

/-!
# External effects

A write to a provider is noted before the call and finished after it. Any number of `perform`s of
any keys are in flight, and each may be cancelled or die between its statements. A receipt is stored
in a `jsonb` column, so that a later `perform` returns what the column gives back of it.
-/

namespace GenusOs.Operations

open GenusOs.Python Rows

/-- The status of a row: an effect is noted as executing before its provider is called. -/
inductive EffectStatus
  | executing
  | completed
  | unknown
  deriving DecidableEq, Repr

/-- The kind and the key of an effect: what makes two `perform`s one effect. -/
abbrev EffectKey := String × String

/-- A row of `operation_effects`. -/
structure Effect where
  key : EffectKey
  payloadHash : String
  status : EffectStatus := .executing
  receipt : Json := .obj []
  updatedAt : Instant

/-- Where a `perform` stands that has noted its effect. -/
inductive Stage
  /-- The provider is to be called. -/
  | noted
  | answered (receipt : Json)
  | raised

/-- A `perform` in flight. -/
structure Flight where
  id : Nat
  key : EffectKey
  stage : Stage := .noted

/-- The table, and the `perform`s in flight. The flights are the processes: a restart loses all of
them and keeps the table. -/
structure EffectLedger where
  effects : List Effect := []
  flights : List Flight := []

variable (env : Env) (now : Instant) (s : EffectLedger)

/-- `_begin`: the receipt of a completed effect, or nothing where the provider is to be called. -/
def EffectLedger.start (key : EffectKey) (payload : Json) :
    Except Raised (Option Json × List Effect) :=
  match s.effects.find? (·.key = key) with
  | none =>
    .ok (none, s.effects ++ [{ key, payloadHash := digest env payload, updatedAt := now }])
  | some row =>
    if row.payloadHash ≠ digest env payload then
      .error (.conflict "External effect key reused with different content")
    else if row.status ≠ .completed then
      .error (.conflict "External effect requires provider reconciliation")
    else .ok (some row.receipt, s.effects)

/-- What `_finish` and `reconcile` write. -/
def Effect.settle (env : Env) (now : Instant) (status : EffectStatus)
    (receipt : Json) (e : Effect) :
    Effect :=
  { e with status, receipt := env.jsonb receipt, updatedAt := now }

/-- `_finish`: it asks for a row that is executing, so that it loses against a human who was
first. -/
def EffectLedger.settle (key : EffectKey) (status : EffectStatus) (receipt : Json) :
    Except Raised (List Effect) :=
  match updateOne (fun e => e.key = key && e.status = .executing)
      (Effect.settle env now status receipt) s.effects with
  | some effects => .ok effects
  | none => .error (.conflict "External effect state changed during execution")

/-- An effect that is not in flight, or has been for two minutes. -/
def Effect.stale (key : EffectKey) (e : Effect) : Bool :=
  e.key = key && (e.status = .unknown || e.status = .executing) && e.updatedAt < now - seconds 120

/-- `reconcile`: the receipt that a human has verified. -/
def EffectLedger.reconcile (key : EffectKey) (receipt : Json) (actor reason : String) :
    Except Raised (List Effect) :=
  if ¬ startsWith actor "operator:" ∨ strip reason = "" ∨ !acknowledged receipt then
    .error (.conflict "Human reconciliation, reason and provider receipt required")
  else
    match updateOne (Effect.stale now key) (Effect.settle env now .completed receipt) s.effects with
    | some effects => .ok effects
    | none =>
      -- an explicit unknown result is no longer in flight and may be reconciled immediately
      match updateOne (fun e => e.key = key && e.status = .unknown)
          (Effect.settle env now .completed receipt) s.effects with
      | some effects => .ok effects
      | none => .error (.conflict "Effect is missing, active or already reconciled")

/-! ## `perform`, statement by statement -/

/-- What the history of the effects keeps: what is noted and settled in the table, every call of a
provider with its answer, and every receipt that a `perform` returns. -/
inductive EffectEvent
  | noted (key : EffectKey)
  /-- The provider is called and answers, or `none` where the call raises. -/
  | called (key : EffectKey) (answer : Option Json)
  | completed (key : EffectKey) (receipt : Json)
  | unknown (key : EffectKey)
  | reconciled (key : EffectKey) (receipt : Json)
  /-- A `perform` returns. -/
  | returned (key : EffectKey) (receipt : Json)

/-- The statements of `perform`, one step each, and a reconciliation. -/
inductive EffectStep
  /-- A new `perform` begins. -/
  | start (flight : Nat) (key : EffectKey) (payload : Json)
  /-- The provider's answer, or `none` where the call raises. -/
  | call (flight : Nat) (answer : Option Json)
  | finish (flight : Nat)
  /-- It is cancelled, in front of or during the call, or its process dies. -/
  | die (flight : Nat)
  | reconcile (key : EffectKey) (receipt : Json) (actor reason : String)

/-- A flight ends, by an answer, by an error or by the death of its process. -/
def EffectLedger.land (flight : Nat) : List Flight := s.flights.filter (·.id ≠ flight)

/-- What is done with the answer of a provider: a receipt without an id is as good as an error. -/
def stageOf : Option Json → Stage
  | some receipt => if acknowledged receipt then .answered receipt else .raised
  | none => .raised

/-- `await call()` -/
def EffectLedger.call (flight : Nat) (answer : Option Json) :
    Except Raised (List EffectEvent × EffectLedger) :=
  match s.flights.find? (·.id = flight) with
  | some { id := _, key, stage := .noted } =>
    .ok ([.called key answer],
      { s with flights := s.land flight ++ [{ id := flight, key, stage := stageOf answer }] })
  | _ => .error (.valueError "no call")

/-- The end of a `perform`, also of one whose `_finish` raises. -/
def EffectLedger.finish (flight : Nat) : Except Raised (List EffectEvent × EffectLedger) :=
  match s.flights.find? (·.id = flight) with
  | some { id := _, key, stage := .answered receipt } =>
    match s.settle env now key .completed receipt with
    | .ok effects =>
      .ok ([.completed key receipt, .returned key receipt], { effects, flights := s.land flight })
    | .error _ => .ok ([], { s with flights := s.land flight })
  | some { id := _, key, stage := .raised } =>
    match s.settle env now key .unknown (.obj []) with
    | .ok effects => .ok ([.unknown key], { effects, flights := s.land flight })
    | .error _ => .ok ([], { s with flights := s.land flight })
  | _ => .error (.valueError "no answer")

/-- A step, and what it adds to the history. -/
def EffectLedger.step : EffectStep → Except Raised (List EffectEvent × EffectLedger)
  | .start flight key payload =>
    (s.start env now key payload).map fun answer =>
      match answer.1 with
      | some receipt => ([.returned key receipt], { s with effects := answer.2 })
      | none =>
        ([.noted key], { effects := answer.2, flights := s.flights ++ [{ id := flight, key }] })
  | .call flight answer => s.call flight answer
  | .finish flight => s.finish env now flight
  | .die flight => .ok ([], { s with flights := s.land flight })
  | .reconcile key receipt actor reason =>
    (s.reconcile env now key receipt actor reason).map fun effects =>
      ([.reconciled key receipt], { s with effects })

/-- Any interleaving, from an empty table; a `perform` that begins is a new one. -/
def effectSystem (env : Env) : System (EffectLedger × List EffectEvent) (Instant × EffectStep) where
  init p := p = ({}, [])
  step p a q :=
    (∀ flight key payload, a.2 = .start flight key payload → ∀ f ∈ p.1.flights, f.id ≠ flight) ∧
      ∃ new, p.1.step env a.1 a.2 = .ok (new, q.1) ∧ q.2 = p.2 ++ new

end GenusOs.Operations
