import GenusOs.Python.Json
import GenusOs.Python.Str
import Mathlib

/-!
# JSON text

`json.dumps(value)`, and `json.dumps(value, sort_keys=True, separators=(",", ":"))`, which is what
gets hashed: entries in the order of their keys, no blanks. Every character outside of printable
ASCII is escaped. How a float prints is a parameter.

* `scanChar_escapeChar`: an escape can be read back, so no two texts run together.
* `Dict.dumps_injective`: the text of an object of strings and integers determines it.
-/

namespace GenusOs.Python

namespace JsonText

/-! ## Strings -/

def hexDigit (d : Nat) : Char := Char.ofNat (if d < 10 then 48 + d else 87 + d)

/-- `f"{n:04x}"`. -/
def hex4 (n : Nat) : List Char :=
  [hexDigit (n / 4096 % 16), hexDigit (n / 256 % 16), hexDigit (n / 16 % 16), hexDigit (n % 16)]

def escapeChar (c : Char) : List Char :=
  if c = '"' then ['\\', '"']
  else if c = '\\' then ['\\', '\\']
  else if c = '\n' then ['\\', 'n']
  else if c = '\r' then ['\\', 'r']
  else if c = '\t' then ['\\', 't']
  else if c = '\x0c' then ['\\', 'f']
  else if c = '\x08' then ['\\', 'b']
  else if 32 ≤ c.toNat && c.toNat ≤ 126 then [c]
  else if c.toNat < 0x10000 then '\\' :: 'u' :: hex4 c.toNat
  else
    -- a surrogate pair
    '\\' :: 'u' :: (hex4 (0xd800 + (c.toNat - 0x10000) / 0x400) ++
      '\\' :: 'u' :: hex4 (0xdc00 + (c.toNat - 0x10000) % 0x400))

def quote (s : String) : List Char := '"' :: (s.toList.flatMap escapeChar ++ ['"'])

/-! ## Values -/

/-- The items of an array or an object, and what stands between them. -/
def commaSep : List (List Char) → List Char
  | [] => []
  | [x] => x
  | x :: y :: rest => x ++ ',' :: commaSep (y :: rest)

def entryText (e : String × List Char) : List Char := quote e.1 ++ ':' :: e.2

def objectText (entries : List (String × List Char)) : List Char :=
  '{' :: (commaSep ((entries.insertionSort fun a b => a.1 ≤ b.1).map entryText) ++ ['}'])

end JsonText

open JsonText

mutual

def Json.text (floatText : Rat → String) : Json → List Char
  | .null => "null".toList
  | .bool b => if b then "true".toList else "false".toList
  | .int n => (toString n).toList
  | .float q => (floatText q).toList
  | .str s => quote s
  | .arr items => '[' :: (commaSep (Json.itemTexts floatText items) ++ [']'])
  | .obj entries => objectText (Json.entryTexts floatText entries)

def Json.itemTexts (floatText : Rat → String) : List Json → List (List Char)
  | [] => []
  | v :: rest => v.text floatText :: Json.itemTexts floatText rest

def Json.entryTexts (floatText : Rat → String) : List (String × Json) → List (String × List Char)
  | [] => []
  | (key, v) :: rest => (key, v.text floatText) :: Json.entryTexts floatText rest

end

mutual

/-- The text with the default separators, entries in the order of the dict. -/
def Json.spacedText (floatText : Rat → String) : Json → List Char
  | .arr items => '[' :: ([',', ' '].intercalate (Json.spacedItems floatText items) ++ [']'])
  | .obj entries => '{' :: ([',', ' '].intercalate (Json.spacedEntries floatText entries) ++ ['}'])
  | v => v.text floatText

def Json.spacedItems (floatText : Rat → String) : List Json → List (List Char)
  | [] => []
  | v :: rest => v.spacedText floatText :: Json.spacedItems floatText rest

def Json.spacedEntries (floatText : Rat → String) : List (String × Json) → List (List Char)
  | [] => []
  | (key, v) :: rest =>
    (quote key ++ ':' :: ' ' :: v.spacedText floatText) :: Json.spacedEntries floatText rest

end

/-- `json.dumps(v)`. -/
def Json.dumps (floatText : Rat → String) (v : Json) : String :=
  String.ofList (v.spacedText floatText)

/-- `json.dumps(d, sort_keys=True, separators=(",", ":"))`. -/
def Dict.dumps (floatText : Rat → String) (d : Dict) : String :=
  String.ofList (Json.text floatText (.obj d))

namespace JsonText

variable {floatText : Rat → String}

/-! ## Reading an escape back -/

def hexVal (c : Char) : Nat := if c.toNat < 97 then c.toNat - 48 else c.toNat - 87

def unhex4 : List Char → Nat × List Char
  | a :: b :: c :: d :: rest =>
    (((hexVal a * 16 + hexVal b) * 16 + hexVal c) * 16 + hexVal d, rest)
  | rest => (0, rest)

/-- What stands behind a backslash. -/
def scanEscape : List Char → Option (Char × List Char)
  | 'u' :: cs =>
    let (n, rest) := unhex4 cs
    if 0xd800 ≤ n && n < 0xdc00 then
      let (m, rest) := unhex4 (rest.drop 2)
      some (Char.ofNat (0x10000 + (n - 0xd800) * 0x400 + (m - 0xdc00)), rest)
    else some (Char.ofNat n, rest)
  | 'n' :: cs => some ('\n', cs)
  | 'r' :: cs => some ('\r', cs)
  | 't' :: cs => some ('\t', cs)
  | 'f' :: cs => some ('\x0c', cs)
  | 'b' :: cs => some ('\x08', cs)
  | c :: cs => some (c, cs)
  | [] => none

def scanChar : List Char → Option (Char × List Char)
  | [] => none
  | c :: cs => if c = '\\' then scanEscape cs else some (c, cs)

theorem hexVal_hexDigit : ∀ d < 16, hexVal (hexDigit d) = d := by decide

theorem unhex4_hex4 {n : Nat} (h : n < 0x10000) (rest : List Char) :
    unhex4 (hex4 n ++ rest) = (n, rest) := by
  have h1 := hexVal_hexDigit (n / 4096 % 16) (Nat.mod_lt _ (by decide))
  have h2 := hexVal_hexDigit (n / 256 % 16) (Nat.mod_lt _ (by decide))
  have h3 := hexVal_hexDigit (n / 16 % 16) (Nat.mod_lt _ (by decide))
  have h4 := hexVal_hexDigit (n % 16) (Nat.mod_lt _ (by decide))
  simp only [hex4, List.cons_append, List.nil_append, unhex4, h1, h2, h3, h4, Prod.mk.injEq,
    and_true]
  omega

/-- Characters are not surrogates. -/
theorem toNat_ranges (c : Char) :
    c.toNat < 0xd800 ∨ 0xdfff < c.toNat ∧ c.toNat < 0x110000 := c.valid

/-- **An escape can be read back.** -/
theorem scanChar_escapeChar (c : Char) (rest : List Char) :
    scanChar (escapeChar c ++ rest) = some (c, rest) := by
  have hranges := toNat_ranges c
  unfold escapeChar
  split
  · next h => rw [h]; rfl
  split
  · next h => rw [h]; rfl
  split
  · next h => rw [h]; rfl
  split
  · next h => rw [h]; rfl
  split
  · next h => rw [h]; rfl
  split
  · next h => rw [h]; rfl
  split
  · next h => rw [h]; rfl
  split
  · next hslash _ _ _ _ _ _ =>
    simp [scanChar, hslash]
  split
  · next hsmall =>
    -- a character of the basic plane, none of which is a surrogate
    simp only [List.cons_append, scanChar, ↓reduceIte, scanEscape, unhex4_hex4 hsmall]
    rw [if_neg (by simp; omega), Char.ofNat_toNat]
  · next hlarge =>
    have hhigh : 0xd800 + (c.toNat - 0x10000) / 0x400 < 0x10000 := by omega
    have hlow : 0xdc00 + (c.toNat - 0x10000) % 0x400 < 0x10000 := by omega
    have hback : 0x10000 + (0xd800 + (c.toNat - 0x10000) / 0x400 - 0xd800) * 0x400 +
        (0xdc00 + (c.toNat - 0x10000) % 0x400 - 0xdc00) = c.toNat := by omega
    simp only [List.cons_append, List.append_assoc, scanChar, ↓reduceIte, scanEscape,
      unhex4_hex4 hhigh]
    rw [if_pos (by simp; omega)]
    simp only [List.drop_succ_cons, List.drop_zero, unhex4_hex4 hlow, hback, Char.ofNat_toNat]

/-- No escape begins like the end of a string. -/
theorem escapeChar_ne_end {c : Char} {t u : List Char} : '"' :: t ≠ escapeChar c ++ u := by
  intro h
  have hscan := scanChar_escapeChar c u
  rw [← h] at hscan
  have hc : '"' = c := (Prod.mk.inj (Option.some.inj hscan)).1
  rw [← hc] at h
  cases h

/-! ## Texts determine their values -/

variable {r r' : List Char}

theorem escapes_injective {cs ds : List Char}
    (h : cs.flatMap escapeChar ++ '"' :: r = ds.flatMap escapeChar ++ '"' :: r') :
    cs = ds ∧ r = r' := by
  induction cs generalizing ds with
  | nil =>
    cases ds with
    | nil => exact ⟨rfl, (List.cons.inj h).2⟩
    | cons d ds =>
      rw [List.flatMap_cons, List.append_assoc] at h
      exact absurd h escapeChar_ne_end
  | cons c cs ih =>
    rw [List.flatMap_cons, List.append_assoc] at h
    cases ds with
    | nil => exact absurd h.symm escapeChar_ne_end
    | cons d ds =>
      rw [List.flatMap_cons, List.append_assoc] at h
      -- both sides scan to their first character and the rest
      have hscan := congrArg scanChar h
      rw [scanChar_escapeChar, scanChar_escapeChar] at hscan
      obtain ⟨rfl, hrest⟩ := Prod.mk.inj (Option.some.inj hscan)
      obtain ⟨rfl, hr⟩ := ih hrest
      exact ⟨rfl, hr⟩

theorem quote_injective {s t : String} (h : quote s ++ r = quote t ++ r') : s = t ∧ r = r' := by
  simp only [quote, List.cons_append, List.append_assoc, List.nil_append, List.cons.injEq,
    true_and] at h
  obtain ⟨hchars, hr⟩ := escapes_injective h
  exact ⟨String.toList_inj.mp hchars, hr⟩

theorem toString_ne_nil (n : Int) : (toString n).toList ≠ [] := by
  cases n with
  | ofNat m =>
    show (Nat.repr m).toList ≠ []
    rw [Nat.toList_repr]
    exact Nat.toDigits_ne_nil
  | negSucc m =>
    show ("-" ++ Nat.repr (m + 1)).toList ≠ []
    simp

theorem int_injective {n m : Int} {c d : Char} (hc : isIntChar c = false)
    (hd : isIntChar d = false)
    (h : (toString n).toList ++ c :: r = (toString m).toList ++ d :: r') :
    n = m ∧ c :: r = d :: r' := by
  have hdigits : (toString n).toList = (toString m).toList := by
    have htake := congrArg (List.takeWhile isIntChar) h
    rw [List.takeWhile_append_of_pos (toString_int_chars n),
      List.takeWhile_append_of_pos (toString_int_chars m)] at htake
    simpa [hc, hd] using htake
  have hn := parseInt_toString n
  rw [String.toList_inj.mp hdigits, parseInt_toString] at hn
  rw [hdigits] at h
  exact ⟨(Option.some.inj hn).symm, List.append_cancel_left h⟩

end JsonText

/-- A string or an integer. -/
def Json.isFlat : Json → Bool
  | .str _ | .int _ => true
  | _ => false

namespace JsonText

variable {r r' : List Char}

theorem quote_ne_int {s : String} {n : Int} {d : Char} :
    quote s ++ r ≠ (toString n).toList ++ d :: r' := by
  intro h
  cases hdigits : (toString n).toList with
  | nil => exact toString_ne_nil n hdigits
  | cons x xs =>
    rw [hdigits] at h
    have hx : isIntChar x = true :=
      toString_int_chars n x (by rw [hdigits]; exact List.mem_cons_self)
    have hquote : '"' = x := (List.cons.inj h).1
    rw [← hquote] at hx
    exact absurd hx (by decide)

/-- The text of a flat value ends where it ends. -/
theorem text_injective {v w : Json} {c d : Char} (hv : v.isFlat = true) (hw : w.isFlat = true)
    (hc : isIntChar c = false) (hd : isIntChar d = false)
    (h : v.text floatText ++ c :: r = w.text floatText ++ d :: r') :
    v = w ∧ c :: r = d :: r' := by
  cases v with
  | str s =>
    cases w with
    | str t =>
      obtain ⟨rfl, hr⟩ := quote_injective h
      exact ⟨rfl, hr⟩
    | int m => exact absurd h quote_ne_int
    | _ => cases hw
  | int n =>
    cases w with
    | str t => exact absurd h.symm quote_ne_int
    | int m =>
      obtain ⟨rfl, hr⟩ := int_injective hc hd h
      exact ⟨rfl, hr⟩
    | _ => cases hw
  | _ => cases hv

/-- An entry and its text. -/
def entryOf (floatText : Rat → String) (e : String × Json) : String × List Char :=
  (e.1, e.2.text floatText)

theorem entryTexts_eq (d : Dict) : Json.entryTexts floatText d = d.map (entryOf floatText) := by
  induction d with
  | nil => rfl
  | cons e rest ih => rw [Json.entryTexts, ih, List.map_cons, entryOf]

theorem entryText_injective {e e' : String × Json} {c d : Char} (hv : e.2.isFlat = true)
    (hw : e'.2.isFlat = true) (hc : isIntChar c = false) (hd : isIntChar d = false)
    (h : entryText (entryOf floatText e) ++ c :: r = entryText (entryOf floatText e') ++ d :: r') :
    e = e' ∧ c :: r = d :: r' := by
  simp only [entryText, entryOf, List.append_assoc, List.cons_append] at h
  obtain ⟨hkey, hrest⟩ := quote_injective h
  obtain ⟨hvalue, hr⟩ := text_injective hv hw hc hd (List.cons.inj hrest).2
  exact ⟨Prod.ext hkey hvalue, hr⟩

theorem comma_not_int : isIntChar ',' = false := by decide

theorem brace_not_int : isIntChar '}' = false := by decide

/-- The entries of an object, in the order they are printed in. -/
theorem commaSep_injective {d e : Dict} (hd : ∀ x ∈ d, x.2.isFlat = true)
    (he : ∀ x ∈ e, x.2.isFlat = true) (hlength : d.length = e.length)
    (h : commaSep (d.map fun x => entryText (entryOf floatText x)) ++ ['}'] =
      commaSep (e.map fun x => entryText (entryOf floatText x)) ++ ['}']) : d = e := by
  induction d generalizing e with
  | nil => exact (List.eq_nil_of_length_eq_zero hlength.symm).symm
  | cons x d ih =>
    cases e with
    | nil => cases hlength
    | cons y e =>
      have hx := hd x List.mem_cons_self
      have hy := he y List.mem_cons_self
      cases d with
      | nil =>
        obtain rfl : e = [] := List.eq_nil_of_length_eq_zero (Nat.succ.inj hlength).symm
        rw [(entryText_injective hx hy brace_not_int brace_not_int h).1]
      | cons x' d =>
        cases e with
        | nil => cases Nat.succ.inj hlength
        | cons y' e =>
          simp only [List.map_cons, commaSep, List.append_assoc, List.cons_append] at h
          obtain ⟨rfl, hrest⟩ := entryText_injective hx hy comma_not_int comma_not_int h
          congr 1
          apply ih
          · intro z hz
            exact hd z (List.mem_cons_of_mem _ hz)
          · intro z hz
            exact he z (List.mem_cons_of_mem _ hz)
          · exact Nat.succ.inj hlength
          · exact (List.cons.inj hrest).2

/-! ## Sorting the keys -/

def sortKeys (d : Dict) : Dict := d.insertionSort fun a b => a.1 ≤ b.1

theorem objectText_eq (d : Dict) : objectText (Json.entryTexts floatText d) =
    '{' :: (commaSep ((sortKeys d).map fun x => entryText (entryOf floatText x)) ++ ['}']) := by
  rw [objectText, entryTexts_eq, sortKeys,
    ← List.map_insertionSort (fun a b : String × Json => a.1 ≤ b.1) _ (entryOf floatText) d
      (fun _ _ _ _ => Iff.rfl), List.map_map]
  rfl

/-- Permuted entries with the same keys, each once, are the same entries. -/
theorem eq_of_perm_keys {α β : Type*} {l l' : List (α × β)}
    (hkeys : l.map Prod.fst = l'.map Prod.fst)
    (hnodup : (l.map Prod.fst).Nodup) (h : l.Perm l') : l = l' := by
  induction l generalizing l' with
  | nil => exact h.symm.eq_nil.symm
  | cons x l ih =>
    cases l' with
    | nil => cases hkeys
    | cons y l' =>
      obtain ⟨hkey, hrest⟩ := List.cons.inj hkeys
      rw [List.map_cons, List.nodup_cons] at hnodup
      have hxy : x = y := by
        rcases List.mem_cons.mp (h.mem_iff.mp List.mem_cons_self) with hxy | hmem
        · exact hxy
        · exact absurd (hrest ▸ List.mem_map_of_mem hmem) hnodup.1
      subst hxy
      rw [ih hrest hnodup.2 (List.perm_cons _ |>.mp h)]

end JsonText

/-- **Canonical text determines a flat object**, up to the order of its keys. -/
theorem Dict.dumps_injective {floatText : Rat → String} {d e : Dict}
    (hd : ∀ x ∈ d, x.2.isFlat = true) (he : ∀ x ∈ e, x.2.isFlat = true)
    (hkeys : d.map Prod.fst = e.map Prod.fst) (hnodup : (d.map Prod.fst).Nodup)
    (h : d.dumps floatText = e.dumps floatText) : d = e := by
  have htext : Json.text floatText (.obj d) = Json.text floatText (.obj e) := by
    have := congrArg String.toList h
    simpa [Dict.dumps] using this
  rw [Json.text, Json.text, objectText_eq, objectText_eq] at htext
  have hpd : (sortKeys d).Perm d := List.perm_insertionSort _ d
  have hpe : (sortKeys e).Perm e := List.perm_insertionSort _ e
  have hsorted : sortKeys d = sortKeys e := by
    apply commaSep_injective
    · intro x hx
      exact hd x (hpd.mem_iff.mp hx)
    · intro x hx
      exact he x (hpe.mem_iff.mp hx)
    · rw [hpd.length_eq, hpe.length_eq]
      simpa using congrArg List.length hkeys
    · exact (List.cons.inj htext).2
  apply eq_of_perm_keys hkeys hnodup
  exact hpd.symm.trans (hsorted ▸ hpe)

end GenusOs.Python
