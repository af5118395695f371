import GenusOs.Python.JsonText
import Mathlib

/-!
# What the work ledger stores

The rows of one tenant. A transaction that raises leaves them as they are.
-/

namespace GenusOs.Operations

open GenusOs.Python

/-- Microseconds. -/
abbrev Instant := Int

/-- `n * interval '1 second'` -/
def seconds (n : Int) : Int := n * 1000000

/-- A `uuid4`. -/
abbrev Uuid := Nat

/-- What a call raises. A transaction that raises is rolled back, so that it is modelled by its
error alone. -/
inductive Raised
  | valueError (text : String)
  | conflict (text : String)
  | budgetExceeded (text : String)
  /-- A primary key or a check of a table. -/
  | integrityError
  deriving DecidableEq, Repr

/-- What is used of Python and of PostgreSQL: the digest of a text, how `repr` writes a float, and
what a `jsonb` column gives back of a value. The last one is a parameter and not the identity, since
a claim digests what the column gives back and not what was stored. -/
structure Env where
  /-- The hex digest of a text. -/
  sha256 : String → String
  /-- The shortest text of a float. -/
  floatText : Rat → String
  /-- What a `jsonb` column gives back of a value. Numbers are stored as decimals, so that a float
  such as `1e16`, whose decimal has no point, comes back as an integer. -/
  jsonb : Json → Json
  /-- `=` of `jsonb`. -/
  jsonbEq : Json → Json → Bool
  jsonbEq_equivalence : Equivalence fun v w => jsonbEq v w = true

/-- Canonical digest binds authorization to exact content. -/
def digest (env : Env) (payload : Json) : String :=
  env.sha256 (String.ofList (payload.text env.floatText))

/-- `bool(receipt.get("id"))`: the provider has acknowledged a call if its receipt carries an id
that Python takes for true. -/
def acknowledged : Json → Bool
  | .obj entries => (Dict.get entries "id" .null).truthy
  | _ => false

mutual

/-- What becomes of a value in a `jsonb` column, whose numbers are decimals: a float from `1e16` on
is written by Python with an exponent, stored without one, and read back as an integer. Every other
value comes back as it was. -/
def decimal : Json → Json
  | .float q => if q.den = 1 ∧ 10 ^ 16 ≤ q.num.natAbs then .int q.num else .float q
  | .arr items => .arr (decimalItems items)
  | .obj entries => .obj (decimalEntries entries)
  | v => v

def decimalItems : List Json → List Json
  | [] => []
  | v :: items => decimal v :: decimalItems items

def decimalEntries : List (String × Json) → List (String × Json)
  | [] => []
  | (key, v) :: entries => (key, decimal v) :: decimalEntries entries

end

/-- The texts of the two floats that the samples use. -/
def sampleFloatText (q : Rat) : String := if q = 10 ^ 16 then "1e+16" else "0.5"

/-- An environment for the samples. Texts stand for their digests, which keeps them apart as a
digest would. -/
def plainEnv : Env where
  sha256 text := text
  floatText := sampleFloatText
  jsonb := decimal
  jsonbEq v w := Json.text sampleFloatText v = Json.text sampleFloatText w
  jsonbEq_equivalence :=
    ⟨fun _ => decide_eq_true rfl, fun h => decide_eq_true (of_decide_eq_true h).symm,
      fun h h' => decide_eq_true ((of_decide_eq_true h).trans (of_decide_eq_true h'))⟩

theorem map_eq_ok {ε α β : Type} {f : α → β} {a : Except ε α} {b : β} (h : a.map f = .ok b) :
    ∃ x, a = .ok x ∧ b = f x := by
  cases a with
  | error error => cases h
  | ok x =>
    cases h
    exact ⟨x, rfl, rfl⟩

section ToOption

variable {ε α β : Type} {e : Except ε α} {a : α}

theorem toOption_eq_some : e.toOption = some a ↔ e = .ok a := by
  cases e with
  | error error => simp [Except.toOption]
  | ok x => simp [Except.toOption]

theorem toOption_map (f : α → β) : (e.map f).toOption = e.toOption.map f := by
  cases e <;> rfl

end ToOption

end GenusOs.Operations
