import Mathlib

/-!
# JSON values as Python holds them

What `json.loads` builds and what a payload, a request or a stored result is made of. An object
is the list of its entries; `get` reads the first entry of a key, as `dict.get` reads its only
one.
-/

namespace GenusOs.Python

inductive Json where
  | null
  | bool (b : Bool)
  | int (n : Int)
  | float (q : Rat)
  | str (s : String)
  | arr (items : List Json)
  | obj (entries : List (String × Json))
  deriving Repr, Inhabited

/-- A `dict[str, Any]`. -/
abbrev Dict := List (String × Json)

/-- `d.get(key, default)`. -/
def Dict.get (d : Dict) (key : String) (default : Json) : Json :=
  (List.lookup key d).getD default

/-- `hash(v)` succeeds: lists and dicts are the unhashable JSON values. -/
def Json.hashable : Json → Bool
  | .arr _ | .obj _ => false
  | _ => true

/-- `v == n` for an integer `n`: Python compares numbers by value, and `True == 1`. -/
def Json.eqInt : Json → Int → Bool
  | .int m, n => m = n
  | .float q, n => q = n
  | .bool b, n => (if b then 1 else 0) = n
  | _, _ => false

/-- `bool(v)`. -/
def Json.truthy : Json → Bool
  | .null => false
  | .bool b => b
  | .int n => n ≠ 0
  | .float q => q ≠ 0
  | .str s => s ≠ ""
  | .arr items => !items.isEmpty
  | .obj entries => !entries.isEmpty

/-- The value of a number; Python compares numbers of all types by it, and `True == 1`. -/
def Json.number : Json → Option Rat
  | .bool b => some (if b then 1 else 0)
  | .int n => some n
  | .float q => some q
  | _ => none

/-! ## `v == w`: objects are equal whatever the order of their entries -/

mutual

def Json.eq : Json → Json → Bool
  | .null, .null => true
  | .str s, .str t => s = t
  | .arr xs, .arr ys => Json.eqItems xs ys
  | .obj xs, .obj ys => xs.length = ys.length && Json.eqEntries xs ys
  | v, w => v.number.isSome && v.number = w.number

def Json.eqItems : List Json → List Json → Bool
  | [], [] => true
  | x :: xs, y :: ys => x.eq y && Json.eqItems xs ys
  | _, _ => false

def Json.eqEntries : List (String × Json) → List (String × Json) → Bool
  | [], _ => true
  | (key, x) :: xs, ys =>
    (match List.lookup key ys with
      | some y => x.eq y
      | none => false) && Json.eqEntries xs ys

end

/-- `d == e`. -/
def Dict.eq (d e : Dict) : Bool := Json.eq (.obj d) (.obj e)

/-- `{key: item for key, item in d.items() if key not in keys}`. -/
def Dict.without (d : Dict) (keys : List String) : Dict := d.filter fun e => !keys.contains e.1

/-- `{**d, key: value}`. -/
def Dict.set (d : Dict) (key : String) (value : Json) : Dict :=
  if d.any (·.1 = key) then d.map fun e => if e.1 = key then (key, value) else e
  else d ++ [(key, value)]

/-- `{**d, key: value}[key]`. -/
theorem Dict.lookup_set (d : Dict) (key : String) (value : Json) :
    List.lookup key (Dict.set d key value) = some value := by
  unfold Dict.set
  induction d with
  | nil => simp
  | cons e d ih =>
    by_cases he : e.1 = key
    · simp [he]
    · have hne : (key == e.1) = false := beq_eq_false_iff_ne.mpr (Ne.symm he)
      rw [List.any_cons, decide_eq_false he, Bool.false_or]
      split
      · next hany =>
        rw [if_pos hany] at ih
        rw [List.map_cons, if_neg he, List.lookup_cons, hne]
        exact ih
      · next hany =>
        rw [if_neg hany] at ih
        rw [List.cons_append, List.lookup_cons, hne]
        exact ih

end GenusOs.Python
