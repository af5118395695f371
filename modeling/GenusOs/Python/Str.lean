import Std.Data.String.ToInt
import Mathlib

/-!
# The string functions of Python the program calls

`str.isspace`, `str.strip`, `str.split(sep, maxsplit)` and `int(str)`, on lists of characters,
with the facts the parsers rely on.
-/

namespace GenusOs.Python

/-- `c.isspace()`: the characters Python's `str.strip` removes. -/
def isSpace (c : Char) : Bool :=
  let n := c.toNat
  (9 ≤ n && n ≤ 13) || (28 ≤ n && n ≤ 32) || n = 0x85 || n = 0xA0 || n = 0x1680 ||
    (0x2000 ≤ n && n ≤ 0x200A) || n = 0x2028 || n = 0x2029 || n = 0x202F || n = 0x205F ||
    n = 0x3000

/-- `s.rstrip()`, on characters. -/
def rstripChars (cs : List Char) : List Char := cs.rdropWhile isSpace

/-- `s.strip()`, on characters. -/
def stripChars (cs : List Char) : List Char :=
  ((cs.dropWhile isSpace).reverse.dropWhile isSpace).reverse

/-- `s.strip()`. -/
def strip (s : String) : String := String.ofList (stripChars s.toList)

/-- Stripping twice is stripping once. -/
theorem stripChars_stripChars (cs : List Char) : stripChars (stripChars cs) = stripChars cs := by
  have hright : ∀ l : List Char, stripChars l = (l.dropWhile isSpace).rdropWhile isSpace :=
    fun _ => rfl
  have hstart : (stripChars cs).dropWhile isSpace = stripChars cs := by
    rw [hright]
    cases hrest : (cs.dropWhile isSpace).rdropWhile isSpace with
    | nil => rfl
    | cons c rest =>
      -- the first character was there before the end was cut
      obtain ⟨cut, hcut⟩ := List.rdropWhile_prefix isSpace (cs.dropWhile isSpace)
      rw [hrest, List.cons_append] at hcut
      have hfirst := List.head?_dropWhile_not isSpace cs
      rw [← hcut] at hfirst
      exact List.dropWhile_cons_of_neg (by simpa using hfirst)
  rw [hright (stripChars cs), hstart, hright cs, List.rdropWhile_idempotent]

/-- A text is its own `strip` where neither its first nor its last character is a space. -/
theorem stripChars_eq_self_iff {cs : List Char} : stripChars cs = cs ↔
    (∀ c, cs.head? = some c → isSpace c = false) ∧
      ∀ c, cs.getLast? = some c → isSpace c = false := by
  have hright : ∀ l : List Char, stripChars l = (l.dropWhile isSpace).rdropWhile isSpace :=
    fun _ => rfl
  constructor
  · intro h
    have hfront : cs.dropWhile isSpace = cs := by
      refine (List.dropWhile_suffix isSpace).eq_of_length_le ?_
      have hlen := (List.rdropWhile_prefix isSpace (cs.dropWhile isSpace)).length_le
      rw [← hright, h] at hlen
      exact hlen
    rw [hright, hfront] at h
    constructor
    · intro c hc
      have hhead := List.head?_dropWhile_not isSpace cs
      rw [hfront, hc] at hhead
      simpa using hhead
    · intro c hc
      have hne : cs ≠ [] := by
        rintro rfl
        cases hc
      rw [List.getLast?_eq_some_getLast hne] at hc
      have hnot := List.rdropWhile_eq_self_iff.mp h hne
      rw [Option.some.inj hc] at hnot
      exact Bool.eq_false_iff.mpr hnot
  · rintro ⟨hhead, hlast⟩
    cases cs with
    | nil => rfl
    | cons c cs =>
      rw [hright, List.dropWhile_cons_of_neg (by simp [hhead c rfl]), List.rdropWhile_eq_self_iff]
      intro hne
      simp [hlast _ (List.getLast?_eq_some_getLast hne)]

/-- Only spaces are stripped away whole. -/
theorem isSpace_of_stripChars_nil {cs : List Char} (h : stripChars cs = []) :
    ∀ c ∈ cs, isSpace c = true := by
  have hfront : (cs.dropWhile isSpace).rdropWhile isSpace = [] := h
  have hspaces := List.rdropWhile_eq_nil_iff.mp hfront
  intro c hc
  rw [← List.takeWhile_append_dropWhile (p := isSpace) (l := cs)] at hc
  rcases List.mem_append.mp hc with hc | hc
  · exact List.mem_takeWhile_imp hc
  · exact hspaces c hc

theorem strip_strip (s : String) : strip (strip s) = strip s := by
  unfold strip
  rw [String.toList_ofList, stripChars_stripChars]

/-! ## `str.split` -/

/-- Put a character in front of the first part. -/
def consHead (c : Char) : List (List Char) → List (List Char)
  | [] => [[c]]
  | part :: parts => (c :: part) :: parts

/-- `s.split(sep, maxsplit)`: at most `maxsplit` cuts, the rest stays in the last part. -/
def splitChars (sep : Char) : List Char → Nat → List (List Char)
  | [], _ => [[]]
  | c :: cs, n =>
    if n ≠ 0 ∧ c = sep then [] :: splitChars sep cs (n - 1)
    else consHead c (splitChars sep cs n)

theorem splitChars_zero (sep : Char) (cs : List Char) : splitChars sep cs 0 = [cs] := by
  induction cs with
  | nil => rfl
  | cons c cs ih => simp [splitChars, ih, consHead]

/-- The first cut falls at the first separator. -/
theorem splitChars_append_sep {sep : Char} {a : List Char} (ha : sep ∉ a) (cs : List Char)
    (n : Nat) : splitChars sep (a ++ sep :: cs) (n + 1) = a :: splitChars sep cs n := by
  induction a with
  | nil => simp [splitChars]
  | cons c a ih =>
    have hc : c ≠ sep := fun h => ha (by simp [h])
    have hrec := ih (fun h => ha (List.mem_cons_of_mem c h))
    rw [List.cons_append, splitChars, if_neg (fun h => hc h.2), hrec]
    rfl

/-! ## `int(s)` -/

/-- `int(s)` on ASCII text: surrounding whitespace is dropped, a sign may lead, single
underscores may separate digits. `none` is the `ValueError`. -/
def parseInt (s : String) : Option Int :=
  let t := strip s
  match t.toList with
  | '+' :: digits => (String.ofList digits).toNat?.map Int.ofNat
  | _ => t.toInt?

/-- A character `str(n)` prints. -/
def isIntChar (c : Char) : Bool := c.isDigit || c = '-'

theorem isIntChar_not_space {c : Char} (h : isIntChar c = true) : isSpace c = false := by
  simp only [isIntChar, Bool.or_eq_true, decide_eq_true_eq] at h
  rcases h with h | rfl
  · simp only [Char.isDigit, Bool.and_eq_true, decide_eq_true_eq, ge_iff_le] at h
    have h0 : 48 ≤ c.toNat := UInt32.le_iff_toNat_le.mp h.1
    have h9 : c.toNat ≤ 57 := UInt32.le_iff_toNat_le.mp h.2
    simp only [isSpace]
    grind
  · decide

theorem toString_int_chars (n : Int) : ∀ c ∈ (toString n).toList, isIntChar c = true := by
  have digits : ∀ m : Nat, ∀ c ∈ (Nat.repr m).toList, isIntChar c = true := by
    intro m c hc
    have : c.isDigit = true := by
      simp only [Nat.toList_repr] at hc
      exact Nat.isDigit_of_mem_toDigits (by omega) (by omega) hc
    simp [isIntChar, this]
  intro c hc
  cases n with
  | ofNat m => exact digits m c hc
  | negSucc m =>
    have : (toString (Int.negSucc m)).toList = '-' :: (Nat.repr (m + 1)).toList := by
      show ("-" ++ Nat.repr (m + 1)).toList = _
      simp
    rw [this] at hc
    rcases List.mem_cons.mp hc with rfl | hc
    · decide
    · exact digits _ c hc

/-- Text without whitespace is its own `strip`. -/
theorem stripChars_eq_self {cs : List Char} (h : ∀ c ∈ cs, isSpace c = false) :
    stripChars cs = cs := by
  have drop : ∀ l : List Char, (∀ c ∈ l, isSpace c = false) → l.dropWhile isSpace = l := by
    intro l hl
    cases l with
    | nil => rfl
    | cons c l => simp [hl c List.mem_cons_self]
  rw [stripChars, drop cs h, drop cs.reverse (by simpa using h), List.reverse_reverse]

/-- **`int(str(n)) == n`.** -/
theorem parseInt_toString (n : Int) : parseInt (toString n) = some n := by
  have hstrip : strip (toString n) = toString n := by
    rw [strip, stripChars_eq_self fun c hc => isIntChar_not_space (toString_int_chars n c hc)]
    exact String.ofList_toList
  have hplus : ∀ digits, (toString n).toList ≠ '+' :: digits := by
    intro digits h
    exact absurd (toString_int_chars n '+' (by rw [h]; exact List.mem_cons_self)) (by decide)
  have hread : (toString n).toInt? = some n := by
    simp
  simpa only [parseInt, hstrip] using hread

/-! ## Parts of a string -/

/-- `needle in s`. -/
def isIn (needle s : String) : Bool := decide (needle.toList <:+: s.toList)

/-- `s.startswith(start)`. -/
def startsWith (s start : String) : Bool := start.toList.isPrefixOf s.toList

/-- `s.replace(old, new)`, on characters; `skip` of them belong to an `old` that is replaced
already. -/
def replaceChars (old new : List Char) : Nat → List Char → List Char
  | _, [] => []
  | skip + 1, _ :: cs => replaceChars old new skip cs
  | 0, c :: cs =>
    if old <+: c :: cs then new ++ replaceChars old new (old.length - 1) cs
    else c :: replaceChars old new 0 cs

theorem replaceChars_skip (old new : List Char) (n : Nat) (cs : List Char) :
    replaceChars old new n cs = replaceChars old new 0 (cs.drop n) := by
  induction cs generalizing n with
  | nil => simp [replaceChars]
  | cons c cs ih =>
    cases n with
    | zero => rfl
    | succ n => rw [replaceChars, ih, List.drop_succ_cons]

/-- `s[:n]`. -/
def slice (s : String) (n : Nat) : String := String.ofList (s.toList.take n)

/-- `s[n:]`. -/
def dropSlice (s : String) (n : Nat) : String := String.ofList (s.toList.drop n)

/-- `format(n, ",")`. -/
def groupThousands (n : Nat) : String :=
  let digits := (toString n).toList.reverse
  String.ofList (digits.zipIdx.flatMap fun (c, i) =>
    if i ≠ 0 ∧ i % 3 = 0 then [',', c] else [c]).reverse

end GenusOs.Python
