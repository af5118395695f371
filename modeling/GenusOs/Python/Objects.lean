import GenusOs.Python.Json
import Mathlib

/-!
# Dicts and lists as objects

A value is a scalar or a reference to a dict or a list of the heap, which can be changed in place.
`Heap.read` is the tree that a value reads as.

* `Heap.read_of_agree`: a tree is read from the cells it is made of, whatever becomes of the others.
-/

namespace GenusOs.Python

inductive Val
  | null
  | bool (b : Bool)
  | int (n : Int)
  | float (q : Rat)
  | str (s : String)
  | ref (address : Nat)
  deriving Repr, DecidableEq

inductive Cell
  | dict (entries : List (String × Val))
  | list (items : List Val)
  deriving Repr, DecidableEq

/-- The cell at an address is the one at that position. -/
abbrev Heap := List Cell

/-- `entries[key] = value` -/
def setEntry (key : String) (v : Val) (entries : List (String × Val)) : List (String × Val) :=
  if key ∈ entries.map Prod.fst then entries.map fun e => if e.1 = key then (key, v) else e
  else entries ++ [(key, v)]

def Cell.setItem (key : String) (v : Val) : Cell → Cell
  | .dict entries => .dict (setEntry key v entries)
  | cell => cell

namespace Heap

/-- `d[key] = value`, for the dict at an address. -/
def setItem (h : Heap) (address : Nat) (key : String) (v : Val) : Heap :=
  h.modify address (Cell.setItem key v)

/-- The entries of a dict, each read by `f`. -/
def readEntries (f : Val → Option Json) : List (String × Val) → Option Dict
  | [] => some []
  | e :: entries =>
    match f e.2, readEntries f entries with
    | some t, some ts => some ((e.1, t) :: ts)
    | _, _ => none

def readItems (f : Val → Option Json) : List Val → Option (List Json)
  | [] => some []
  | v :: items =>
    match f v, readItems f items with
    | some t, some ts => some (t :: ts)
    | _, _ => none

/-- The tree of at most `depth` levels that a value reads as, all of it in cells from `lo` on. A
dict has a key once. -/
def read (h : Heap) (lo : Nat) : (depth : Nat) → Val → Option Json
  | _, .null => some .null
  | _, .bool b => some (.bool b)
  | _, .int n => some (.int n)
  | _, .float q => some (.float q)
  | _, .str s => some (.str s)
  | 0, .ref _ => none
  | depth + 1, .ref address =>
    if address < lo then none
    else
      match h[address]? with
      | some (.dict entries) =>
        if (entries.map Prod.fst).Nodup then
          (readEntries (h.read lo depth) entries).map .obj else none
      | some (.list items) => (readItems (h.read lo depth) items).map .arr
      | none => none

/-- Every cell of the one is a cell of the other. -/
def Kept (h h' : Heap) : Prop :=
  ∀ (address : Nat) (cell : Cell), h[address]? = some cell → h'[address]? = some cell

variable {h h' h'' : Heap} {f g : Val → Option Json}
    {lo lo' depth address : Nat} {v : Val} {t : Json}

theorem Kept.refl (h : Heap) : Kept h h := fun _ _ hcell => hcell

theorem Kept.trans (h₁ : Kept h h') (h₂ : Kept h' h'') : Kept h h'' :=
  fun address cell hcell => h₂ address cell (h₁ address cell hcell)

theorem Kept.length_le (hkept : Kept h h') : h.length ≤ h'.length := by
  by_contra hlt
  have hcell := hkept h'.length _ (List.getElem?_eq_getElem (not_le.mp hlt))
  rw [List.getElem?_eq_none (le_refl _)] at hcell
  cases hcell

theorem kept_append (h : Heap) (cells : List Cell) : Kept h (h ++ cells) := by
  intro address cell hcell
  obtain ⟨hlt, -⟩ := List.getElem?_eq_some_iff.mp hcell
  rw [List.getElem?_append_left hlt, hcell]

/-! ## Reading an entry at a time -/

theorem readEntries_cons {e : String × Val} {entries : List (String × Val)} {ts : Dict} :
    readEntries f (e :: entries) = some ts ↔
      ∃ t us, f e.2 = some t ∧ readEntries f entries = some us ∧ ts = (e.1, t) :: us := by
  simp only [readEntries]
  cases f e.2 <;> cases readEntries f entries <;> simp [eq_comm]

theorem readItems_cons {items : List Val} {ts : List Json} :
    readItems f (v :: items) = some ts ↔
      ∃ t us, f v = some t ∧ readItems f items = some us ∧ ts = t :: us := by
  simp only [readItems]
  cases f v <;> cases readItems f items <;> simp [eq_comm]

theorem readEntries_append {entries entries' : List (String × Val)} {ts ts' : Dict}
    (h : readEntries f entries = some ts) (h' : readEntries f entries' = some ts') :
    readEntries f (entries ++ entries') = some (ts ++ ts') := by
  induction entries generalizing ts with
  | nil =>
    obtain rfl := Option.some.inj h
    exact h'
  | cons e entries ih =>
    obtain ⟨t, us, ht, hus, rfl⟩ := readEntries_cons.mp h
    exact readEntries_cons.mpr ⟨t, us ++ ts', ht, ih hus, rfl⟩

theorem readEntries_keys {entries : List (String × Val)} {ts : Dict}
    (h : readEntries f entries = some ts) : ts.map Prod.fst = entries.map Prod.fst := by
  induction entries generalizing ts with
  | nil =>
    obtain rfl := Option.some.inj h
    rfl
  | cons e entries ih =>
    obtain ⟨t, us, -, hus, rfl⟩ := readEntries_cons.mp h
    rw [List.map_cons, List.map_cons, ih hus]

theorem readEntries_lookup {entries : List (String × Val)} {ts : Dict}
    (h : readEntries f entries = some ts) (key : String) :
    List.lookup key ts = (List.lookup key entries).bind f := by
  induction entries generalizing ts with
  | nil =>
    obtain rfl := Option.some.inj h
    rfl
  | cons e entries ih =>
    obtain ⟨t, us, ht, hus, rfl⟩ := readEntries_cons.mp h
    rw [show e :: entries = (e.1, e.2) :: entries from rfl, List.lookup_cons, List.lookup_cons]
    cases key == e.1 with
    | true => exact ht.symm
    | false => exact ih hus

theorem readEntries_lookup_isSome {entries : List (String × Val)} {ts : Dict}
    (h : readEntries f entries = some ts) (key : String) :
    (List.lookup key ts).isSome = (List.lookup key entries).isSome := by
  induction entries generalizing ts with
  | nil =>
    obtain rfl := Option.some.inj h
    rfl
  | cons e entries ih =>
    obtain ⟨t, us, -, hus, rfl⟩ := readEntries_cons.mp h
    rw [show e :: entries = (e.1, e.2) :: entries from rfl, List.lookup_cons, List.lookup_cons]
    cases key == e.1 with
    | true => rfl
    | false => exact ih hus

theorem readEntries_mono (hfg : ∀ v t, f v = some t → g v = some t)
    {entries : List (String × Val)} {ts : Dict} (h : readEntries f entries = some ts) :
    readEntries g entries = some ts := by
  induction entries generalizing ts with
  | nil => exact h
  | cons e entries ih =>
    obtain ⟨t, us, ht, hus, rfl⟩ := readEntries_cons.mp h
    exact readEntries_cons.mpr ⟨t, us, hfg e.2 t ht, ih hus, rfl⟩

theorem readItems_mono (hfg : ∀ v t, f v = some t → g v = some t) {items : List Val}
    {ts : List Json} (h : readItems f items = some ts) : readItems g items = some ts := by
  induction items generalizing ts with
  | nil => exact h
  | cons v items ih =>
    obtain ⟨t, us, ht, hus, rfl⟩ := readItems_cons.mp h
    exact readItems_cons.mpr ⟨t, us, hfg v t ht, ih hus, rfl⟩

/-! ## Reading a reference -/

theorem read_ref (hread : h.read lo depth (.ref address) = some t) :
    ∃ below, depth = below + 1 ∧ lo ≤ address ∧
      ((∃ entries ts, h[address]? = some (.dict entries) ∧ (entries.map Prod.fst).Nodup ∧
          readEntries (h.read lo below) entries = some ts ∧ t = .obj ts) ∨
        ∃ items ts, h[address]? = some (.list items) ∧
          readItems (h.read lo below) items = some ts ∧ t = .arr ts) := by
  cases depth with
  | zero => cases hread
  | succ below =>
    rw [read] at hread
    split at hread
    · cases hread
    · next hlo =>
      refine ⟨below, rfl, not_lt.mp hlo, ?_⟩
      split at hread
      · next entries hcell =>
        split at hread
        · next hnodup =>
          obtain ⟨ts, hts, rfl⟩ := Option.map_eq_some_iff.mp hread
          exact .inl ⟨entries, ts, hcell, hnodup, hts, rfl⟩
        · cases hread
      · next items hcell =>
        obtain ⟨ts, hts, rfl⟩ := Option.map_eq_some_iff.mp hread
        exact .inr ⟨items, ts, hcell, hts, rfl⟩
      · cases hread

theorem read_dict {entries : List (String × Val)} {ts : Dict} (hlo : lo ≤ address)
    (hcell : h[address]? = some (.dict entries)) (hnodup : (entries.map Prod.fst).Nodup)
    (hts : readEntries (h.read lo depth) entries = some ts) :
    h.read lo (depth + 1) (.ref address) = some (.obj ts) := by
  rw [read, if_neg (not_lt.mpr hlo), hcell]
  dsimp only
  rw [if_pos hnodup, hts]
  rfl

theorem read_list {items : List Val} {ts : List Json} (hlo : lo ≤ address)
    (hcell : h[address]? = some (.list items))
    (hts : readItems (h.read lo depth) items = some ts) :
    h.read lo (depth + 1) (.ref address) = some (.arr ts) := by
  rw [read, if_neg (not_lt.mpr hlo), hcell]
  dsimp only
  rw [hts]
  rfl

theorem read_str (h : Heap) (lo depth : Nat) (s : String) :
    h.read lo depth (.str s) = some (.str s) := by
  cases depth <;> rfl

theorem eq_str_of_read {s : String} (hread : h.read lo depth v = some (.str s)) : v = .str s := by
  cases v with
  | str s' =>
    rw [read_str] at hread
    cases hread
    rfl
  | ref address =>
    obtain ⟨_, _, _, ⟨_, _, _, _, _, hobj⟩ | ⟨_, _, _, _, harr⟩⟩ := read_ref hread
    · cases hobj
    · cases harr
  | null | bool | int | float => cases depth <;> cases hread

/-- A scalar reads as itself in every heap. -/
theorem read_scalar (hread : h.read lo depth v = some t) (hstr : ∀ s, v ≠ .str s)
    (href : ∀ address, v ≠ .ref address) :
    ((∀ s, t ≠ .str s) ∧ (∀ ts, t ≠ .arr ts) ∧ ∀ d, t ≠ .obj d) ∧
      ∀ (h' : Heap) lo' depth', h'.read lo' depth' v = some t := by
  cases v with
  | str s => exact absurd rfl (hstr s)
  | ref address => exact absurd rfl (href address)
  | null | bool | int | float =>
    all_goals
      cases depth <;> cases hread <;>
        exact ⟨⟨nofun, nofun, nofun⟩, fun _ _ depth' => by cases depth' <;> rfl⟩

/-- **A tree whose cells stay is read as before.** -/
theorem read_of_agree (hlo : lo' ≤ lo)
    (hagree : ∀ (address : Nat) (cell : Cell), lo ≤ address → h[address]? = some cell →
      h'[address]? = some cell) :
    h.read lo depth v = some t → h'.read lo' depth v = some t := by
  intro hread
  induction depth generalizing v t with
  | zero => cases v <;> exact hread
  | succ depth ih =>
    cases v with
    | null | bool | int | float | str => exact hread
    | ref address =>
      obtain ⟨below, hbelow, haddress, ⟨entries, ts, hcell, hnodup, hts, rfl⟩ |
        ⟨items, ts, hcell, hts, rfl⟩⟩ := read_ref hread
      · obtain rfl := Nat.succ.inj hbelow
        exact read_dict (hlo.trans haddress) (hagree _ _ haddress hcell) hnodup
          (readEntries_mono (fun _ _ => ih) hts)
      · obtain rfl := Nat.succ.inj hbelow
        exact read_list (hlo.trans haddress) (hagree _ _ haddress hcell)
          (readItems_mono (fun _ _ => ih) hts)

end Heap

end GenusOs.Python
