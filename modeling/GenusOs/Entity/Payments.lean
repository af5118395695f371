import Mathlib

/-!
# Identifiers and token references

The validated strings of the payment models are subtypes, so a value of the type is one the
validator admits. Validation strips surrounding whitespace first; the subtype holds what is
stored.
-/

namespace GenusOs.Entity

/-- A string a validator admits. -/
abbrev Valid (p : String → Bool) := { s : String // p s = true }

def isAlnum (c : Char) : Bool := c.isAlpha || c.isDigit

/-- `^[A-Za-z0-9][A-Za-z0-9_.:-]*$`. -/
def matchesReference : List Char → Bool
  | [] => false
  | c :: cs => isAlnum c && cs.all fun d => isAlnum d || d ∈ ['_', '.', ':', '-']

/-- `min_length`, `max_length` and the reference pattern. -/
def isReference (minLength : Nat) (s : String) : Bool :=
  minLength ≤ s.toList.length && s.toList.length ≤ 128 && matchesReference s.toList

abbrev Identifier := Valid (isReference 1)

abbrev IdempotencyKey := Valid (isReference 8)

/-- `^[a-z][a-z0-9_-]*$`, 2 to 32 characters. -/
def isProviderName (s : String) : Bool :=
  match s.toList with
  | [] => false
  | c :: cs => c.isLower && cs.all (fun d => d.isLower || d.isDigit || d = '_' || d = '-') &&
      1 ≤ cs.length && cs.length < 32

abbrev ProviderName := Valid isProviderName

/-- A provider-issued virtual card owned by the organization. The provider token itself enters
decisions only through its fingerprint; that it is opaque and no card number plays no part here. -/
structure OperationalVirtualCardReference where
  tenantId : Identifier
  organizationId : Identifier
  provider : ProviderName
  virtualCardId : Identifier
  providerVirtualCardToken : String
  lastFour : Option String := none
  brand : Option String := none
  active : Bool := true
  deriving DecidableEq

end GenusOs.Entity
