import GenusOs.Engine.TelegramFormat
import GenusOs.Library.Nesting
import Mathlib

/-!
# Rendered texts

A rendered text is a list of tags and characters; its tags are balanced.

* `units_html`: its units are the texts of these.
* `stackAt_text`, `closers_text`: what is open in front of a unit, and what closes it.
* `html_injective`: it has one reading.
* `rendered_inline`: what `_inline` renders is such a text.
-/

namespace GenusOs.Engine.Telegram

open GenusOs.Python GenusOs.Mark

/-! ## Rendered texts -/

def isNameChar (c : Char) : Bool := c.isLower || c = '-'

structure TagName where
  chars : List Char
  nonempty : chars ≠ []
  letters : ∀ c ∈ chars, isNameChar c = true

/-- An opening tag; its attributes are escaped. -/
structure Tag where
  name : TagName
  attrs : List Char
  apart : attrs = [] ∨ ∃ more, attrs = ' ' :: more
  escaped : '>' ∉ attrs

/-- A tag, or a character of the text. -/
abbrev Token := Mark Tag TagName Char

def text : Token → List Char
  | .opening t => '<' :: (t.name.chars ++ t.attrs) ++ ['>']
  | .closing n => '<' :: '/' :: n.chars ++ ['>']
  | .item c => escChar c

def html (ms : List Token) : List Char := ms.flatMap text

/-- Telegram HTML whose tags are balanced. -/
def Balanced (ms : List Token) : Prop := Nested Tag.name ms

/-- The characters that are no blanks, each with the tags that are open around it. -/
def visible (ms : List Token) : List (List Tag × Char) := (under [] ms).filter (!isSpace ·.2)

variable {ms ns : List Token} {m : Token} {t : Tag} {n : TagName} {c : Char}

theorem escChar_cases (c : Char) : (∃ name ∈ ["amp".toList, "lt".toList, "gt".toList],
    escChar c = '&' :: name ++ [';']) ∨ c ≠ '&' ∧ c ≠ '<' ∧ c ≠ '>' ∧ escChar c = [c] := by
  unfold escChar
  by_cases hamp : c = '&'
  · exact .inl ⟨"amp".toList, by simp, by rw [if_pos hamp]; rfl⟩
  · by_cases hlt : c = '<'
    · exact .inl ⟨"lt".toList, by simp, by rw [if_neg hamp, if_pos hlt]; rfl⟩
    · by_cases hgt : c = '>'
      · exact .inl ⟨"gt".toList, by simp, by rw [if_neg hamp, if_neg hlt, if_pos hgt]; rfl⟩
      · exact .inr ⟨hamp, hlt, hgt, by rw [if_neg hamp, if_neg hlt, if_neg hgt]⟩

theorem text_item (c : Char) : text (.item c) = escChar c := rfl

theorem text_ne_nil (m : Token) : text m ≠ [] := by
  cases m with
  | opening t => exact List.cons_ne_nil _ _
  | closing n => exact List.cons_ne_nil _ _
  | item c =>
    rcases escChar_cases c with ⟨name, -, h⟩ | ⟨-, -, -, h⟩
    · exact h.trans_ne (List.cons_ne_nil _ _)
    · exact h.trans_ne (List.cons_ne_nil _ _)

theorem not_space_of_isNameChar (h : isNameChar c = true) : isSpace c = false := by
  simp only [isNameChar, Bool.or_eq_true, decide_eq_true_eq] at h
  rcases h with h | rfl
  · simp only [Char.isLower, Bool.and_eq_true, decide_eq_true_eq, ge_iff_le] at h
    have ha : 97 ≤ c.toNat := UInt32.le_iff_toNat_le.mp h.1
    have hz : c.toNat ≤ 122 := UInt32.le_iff_toNat_le.mp h.2
    simp only [isSpace]
    grind
  · decide

theorem toLower_of_isNameChar (h : isNameChar c = true) : c.toLower = c := by
  simp only [isNameChar, Bool.or_eq_true, decide_eq_true_eq] at h
  rcases h with h | rfl
  · exact Char.toLower_eq_of_not_isUpper fun hupper => Char.not_isLower_of_isUpper hupper h
  · rfl

theorem not_bracket_of_isNameChar (h : isNameChar c = true) : "</>".toList.contains c = false := by
  by_contra hin
  rw [Bool.not_eq_false, List.contains_iff_mem] at hin
  have hbrackets : "</>".toList.all (!isNameChar ·) = true := by decide
  have hnot := List.all_eq_true.mp hbrackets c hin
  rw [h] at hnot
  cases hnot

/-! ## The units of a rendered text -/

theorem takeWhile_append_cons {α : Type} {p : α → Bool} {l : List α} {x : α}
    (hl : ∀ y ∈ l, p y = true) (hx : p x = false) (rest : List α) :
    (l ++ x :: rest).takeWhile p = l := by
  rw [List.takeWhile_append_of_pos hl, List.takeWhile_cons_of_neg (by simp [hx]), List.append_nil]

/-- A bracket, what has no closing bracket, and a closing bracket are one unit. -/
theorem unitLength_tag {inner : List Char} (hne : inner ≠ []) (h : '>' ∉ inner) (rest : List Char) :
    unitLength ('<' :: (inner ++ '>' :: rest)) = inner.length + 2 := by
  have htake : (inner ++ '>' :: rest).takeWhile (· ≠ '>') = inner := by
    refine takeWhile_append_cons (fun c hc => ?_) (by simp) rest
    simp only [decide_not, Bool.not_eq_true', decide_eq_false_iff_not]
    rintro rfl
    exact h hc
  simp only [unitLength, htake]
  rw [if_neg]
  simp [hne]

theorem unitLength_entity {inner : List Char} (hne : inner ≠ [])
    (h : ∀ c ∈ inner, isEntityChar c = true) (rest : List Char) :
    unitLength ('&' :: (inner ++ ';' :: rest)) = inner.length + 2 := by
  have htake : (inner ++ ';' :: rest).takeWhile isEntityChar = inner :=
    takeWhile_append_cons h (by decide) rest
  simp only [unitLength, htake]
  rw [if_pos]
  simp [hne]

theorem unitLength_char (hlt : c ≠ '<') (hamp : c ≠ '&') (rest : List Char) :
    unitLength (c :: rest) = 1 := by
  unfold unitLength
  split
  · next heq => exact absurd (List.cons.inj heq).1 hlt
  · next heq => exact absurd (List.cons.inj heq).1 hamp
  · rfl

theorem no_bracket (n : TagName) : '>' ∉ n.chars := fun hmem =>
  absurd (n.letters '>' hmem) (by decide)

/-- The text of a token is a unit. -/
theorem unitLength_text (m : Token) (rest : List Char) :
    unitLength (text m ++ rest) = (text m).length := by
  cases m with
  | opening t =>
    have hbracket : '>' ∉ t.name.chars ++ t.attrs :=
      List.not_mem_append (no_bracket t.name) t.escaped
    have hunit := unitLength_tag (List.append_ne_nil_of_left_ne_nil t.name.nonempty _) hbracket rest
    simpa [text, Nat.add_assoc] using hunit
  | closing n =>
    have hbracket : '>' ∉ '/' :: n.chars :=
      List.not_mem_cons_of_ne_of_not_mem (by decide) (no_bracket n)
    have hunit := unitLength_tag (List.cons_ne_nil _ _) hbracket rest
    simpa [text, Nat.add_assoc] using hunit
  | item c =>
    rw [text_item]
    rcases escChar_cases c with ⟨name, hname, h⟩ | ⟨hamp, hlt, -, h⟩
    · have hentities : ["amp".toList, "lt".toList, "gt".toList].all
          (fun name => !name.isEmpty && name.all isEntityChar) = true := by decide
      obtain ⟨hne, hentity⟩ : name ≠ [] ∧ ∀ c ∈ name, isEntityChar c = true := by
        simpa using List.all_eq_true.mp hentities name hname
      have hunit := unitLength_entity hne hentity rest
      rw [h]
      simpa using hunit
    · rw [h, List.singleton_append, unitLength_char hlt hamp]
      rfl

theorem findUnits_html (ms : List Token) {k : Nat} (hk : (html ms).length ≤ k) :
    findUnits k (html ms) = ms.map text := by
  induction ms generalizing k with
  | nil => cases k with
    | _ => rfl
  | cons m ms ih =>
    have hhtml : html (m :: ms) = text m ++ html ms := List.flatMap_cons
    have hpos : 0 < (text m).length := List.length_pos_of_ne_nil (text_ne_nil m)
    rw [hhtml, List.length_append] at hk
    cases k with
    | zero => omega
    | succ k =>
      obtain ⟨c, rest, hc⟩ := List.exists_cons_of_ne_nil (text_ne_nil m)
      have hstep : findUnits (k + 1) (html (m :: ms)) =
          (html (m :: ms)).take (unitLength (html (m :: ms))) ::
            findUnits k ((html (m :: ms)).drop (unitLength (html (m :: ms)))) := by
        rw [hhtml, hc]
        rfl
      rw [hstep, hhtml, unitLength_text, List.take_left,
        List.drop_left, ih (by omega), List.map_cons]

/-- **The units of a rendered text** are the texts of its tokens. -/
theorem units_html (ms : List Token) : units (html ms) = ms.map text :=
  findUnits_html ms (le_refl _)

/-! ## What is open, and what closes it -/

theorem rdropWhile_append_cons {α : Type} {p : α → Bool} {x : α} (hx : p x = false) (a b : List α) :
    (a ++ x :: b).rdropWhile p = a ++ x :: b.rdropWhile p := by
  induction b using List.reverseRecOn with
  | nil => exact List.rdropWhile_concat_neg p _ _ (by simp [hx])
  | append_singleton b y ih =>
    rw [← List.cons_append, ← List.append_assoc]
    by_cases hy : p y = true
    · rw [List.rdropWhile_concat_pos p _ _ hy, List.rdropWhile_concat_pos p _ _ hy, ih]
    · rw [List.rdropWhile_concat_neg p _ _ hy, List.rdropWhile_concat_neg p _ _ hy]
      simp

/-- The name of an opening tag is its first word. -/
theorem tagName_opening (t : Tag) : tagName (text (.opening t)) = t.name.chars := by
  obtain ⟨c, more, hname⟩ := List.exists_cons_of_ne_nil t.name.nonempty
  have hc : isNameChar c = true := t.name.letters c (hname ▸ List.mem_cons_self)
  have hfront : (text (.opening t)).dropWhile ("</>".toList.contains ·) =
      t.name.chars ++ t.attrs ++ ['>'] := by
    have hcons : t.name.chars ++ t.attrs ++ ['>'] = c :: (more ++ t.attrs ++ ['>']) := by
      rw [hname]
      rfl
    show ('<' :: (t.name.chars ++ t.attrs ++ ['>'])).dropWhile _ = _
    rw [List.dropWhile_cons_of_pos (by decide), hcons, List.dropWhile_cons_of_neg]
    rw [not_bracket_of_isNameChar hc]
    exact Bool.false_ne_true
  -- A blank or nothing is behind the name, also where the end is stripped.
  have hback : ∃ rest, (t.name.chars ++ t.attrs ++ ['>']).rdropWhile ("</>".toList.contains ·) =
      t.name.chars ++ rest ∧ (rest = [] ∨ ∃ more, rest = ' ' :: more) := by
    rw [List.rdropWhile_concat_pos _ _ _ (by decide)]
    rcases t.apart with hnil | ⟨attrs, hattrs⟩
    · refine ⟨[], ?_, .inl rfl⟩
      rw [hnil, List.append_nil, List.rdropWhile_eq_self_iff]
      intro hne
      rw [not_bracket_of_isNameChar (t.name.letters _ (List.getLast_mem hne))]
      exact Bool.false_ne_true
    · rw [hattrs, rdropWhile_append_cons (by decide)]
      exact ⟨_, rfl, .inr ⟨_, rfl⟩⟩
  obtain ⟨rest, hrest, hblank⟩ := hback
  have hfirst : (t.name.chars ++ rest).dropWhile isSpace = t.name.chars ++ rest := by
    rw [hname, List.cons_append, List.dropWhile_cons_of_neg]
    rw [not_space_of_isNameChar hc]
    exact Bool.false_ne_true
  have hword : (t.name.chars ++ rest).takeWhile (!isSpace ·) = t.name.chars := by
    have hletters : ∀ c ∈ t.name.chars, (!isSpace c) = true := fun c hc => by
      rw [not_space_of_isNameChar (t.name.letters c hc)]
      rfl
    rcases hblank with rfl | ⟨more, rfl⟩
    · rw [List.append_nil, List.takeWhile_eq_self_iff]
      exact hletters
    · exact takeWhile_append_cons hletters (by decide) more
  unfold tagName
  dsimp only
  rw [hfront, hrest, hfirst, hword]
  exact (List.map_congr_left fun c hc => toLower_of_isNameChar (t.name.letters c hc)).trans
    (List.map_id _)

/-- An opening tag, as it stands in the text. -/
def tagText (t : Tag) : List Char := text (.opening t)

theorem escChar_not_tag (c : Char) : "<".toList.isPrefixOf (escChar c) = false := by
  rcases escChar_cases c with ⟨name, -, h⟩ | ⟨-, hlt, -, h⟩
  · rw [h]
    rfl
  · rw [h]
    show ('<' == c && true) = false
    rw [beq_eq_false_iff_ne.mpr hlt.symm]
    rfl

theorem escChar_not_closing (c : Char) : "</".toList.isPrefixOf (escChar c) = false := by
  by_contra hpre
  rw [Bool.not_eq_false, List.isPrefixOf_iff_prefix] at hpre
  have hshort : "<".toList <+: escChar c := List.IsPrefix.trans (by decide) hpre
  rw [← List.isPrefixOf_iff_prefix, escChar_not_tag] at hshort
  cases hshort

theorem opening_not_closing (t : Tag) : "</".toList.isPrefixOf (text (.opening t)) = false := by
  obtain ⟨c, more, hname⟩ := List.exists_cons_of_ne_nil t.name.nonempty
  have hslash : '/' ≠ c := by
    rintro rfl
    exact absurd (t.name.letters '/' (hname ▸ List.mem_cons_self)) (by decide)
  show "</".toList.isPrefixOf ('<' :: (t.name.chars ++ t.attrs ++ ['>'])) = false
  rw [hname]
  show ('/' == c && true) = false
  rw [beq_eq_false_iff_ne.mpr hslash]
  rfl

theorem stackStep_text (opened : List Tag) (m : Token) :
    stackStep (opened.map tagText) (text m) = (after opened [m]).map tagText := by
  cases m with
  | opening t =>
    have htag : "<".toList.isPrefixOf (text (.opening t)) = true := rfl
    unfold stackStep
    rw [opening_not_closing, htag, if_neg Bool.false_ne_true, if_pos rfl]
    show _ = (opened ++ [t]).map tagText
    rw [List.map_append]
    rfl
  | closing n =>
    have htag : "</".toList.isPrefixOf (text (.closing n)) = true := rfl
    unfold stackStep
    rw [htag, if_pos rfl]
    exact List.map_dropLast.symm
  | item c =>
    unfold stackStep
    rw [text_item, escChar_not_closing, escChar_not_tag,
      if_neg Bool.false_ne_true, if_neg Bool.false_ne_true]
    rfl

/-- **The stack** in front of a unit has the tags that are open there. -/
theorem stackAt_text (ms : List Token) (i : Nat) :
    stackAt (ms.map text) i = (after [] (ms.take i)).map tagText := by
  have hfold (opened : List Tag) (ms : List Token) :
      (ms.map text).foldl stackStep (opened.map tagText) = (after opened ms).map tagText := by
    induction ms generalizing opened with
    | nil => rfl
    | cons m ms ih =>
      rw [List.map_cons, List.foldl_cons, stackStep_text, ih, ← after_append]
      rfl
  unfold stackAt
  rw [← List.map_take]
  exact hfold [] (ms.take i)

theorem opener_text (ms : List Token) (i : Nat) :
    opener (ms.map text) i = html ((after [] (ms.take i)).map .opening) := by
  unfold opener html
  rw [stackAt_text, List.flatMap_map]
  exact List.flatMap_def.symm

theorem closers_text (ms : List Token) (i : Nat) :
    closers (ms.map text) i = html (closings Tag.name (after [] (ms.take i))) := by
  unfold closers html closings
  rw [stackAt_text, ← List.map_reverse, List.flatMap_map, List.flatMap_map]
  refine List.flatMap_congr fun t _ => ?_
  unfold tagText
  rw [tagName_opening]
  rfl

/-! ## A text has one reading -/

theorem escChar_injective : Function.Injective escChar := by
  intro c d h
  unfold escChar at h
  split_ifs at h with hc hc' hc'' hd hd' hd''
  all_goals simp_all

/-- Two opening tags of the same text are the same. -/
theorem tagText_injective : Function.Injective tagText := by
  intro t t' h
  have hname : t.name.chars = t'.name.chars := by
    rw [← tagName_opening, ← tagName_opening]
    exact congrArg tagName h
  have hinner : t.name.chars ++ t.attrs = t'.name.chars ++ t'.attrs :=
    List.append_cancel_right (List.cons.inj h).2
  rw [hname] at hinner
  have hattrs := List.append_cancel_left hinner
  obtain ⟨⟨_, _, _⟩, _, _, _⟩ := t
  obtain ⟨⟨_, _, _⟩, _, _, _⟩ := t'
  cases hname
  cases hattrs
  rfl

def kind : Token → Bool × Bool
  | .opening _ => (false, true)
  | .closing _ => (true, true)
  | .item _ => (false, false)

/-- The start of its text tells what a token is. -/
theorem kind_of_text (m : Token) :
    ("</".toList.isPrefixOf (text m), "<".toList.isPrefixOf (text m)) = kind m := by
  cases m with
  | opening t => exact Prod.ext (opening_not_closing t) rfl
  | closing n => rfl
  | item c => exact Prod.ext (escChar_not_closing c) (escChar_not_tag c)

theorem text_injective : Function.Injective text := by
  intro m m' h
  have hkind := (kind_of_text m).symm.trans ((congrArg (fun unit =>
    ("</".toList.isPrefixOf unit, "<".toList.isPrefixOf unit)) h).trans (kind_of_text m'))
  cases m with
  | opening t =>
    cases m' with
    | opening t' => exact congrArg _ (tagText_injective h)
    | closing n => cases hkind
    | item c => cases hkind
  | closing n =>
    cases m' with
    | opening t' => cases hkind
    | closing n' =>
      obtain ⟨_, _, _⟩ := n
      obtain ⟨_, _, _⟩ := n'
      have hchars := List.append_cancel_right (List.cons.inj (List.cons.inj h).2).2
      cases hchars
      rfl
    | item c => cases hkind
  | item c =>
    cases m' with
    | opening t' => cases hkind
    | closing n => cases hkind
    | item d => exact congrArg _ (escChar_injective h)

theorem html_injective : Function.Injective html := by
  intro ms ns h
  have hunits := congrArg units h
  rw [units_html, units_html] at hunits
  exact text_injective.list_map hunits

/-! ## What `_inline` renders -/

/-- The text of balanced tokens. -/
def Rendered (s : List Char) : Prop := ∃ ms, s = html ms ∧ Balanced ms

namespace Rendered

theorem nil : Rendered [] := ⟨[], rfl, Nested.nil⟩

theorem append {a b : List Char} (ha : Rendered a) (hb : Rendered b) : Rendered (a ++ b) := by
  obtain ⟨ms, rfl, hms⟩ := ha
  obtain ⟨ns, rfl, hns⟩ := hb
  exact ⟨ms ++ ns, List.flatMap_append.symm, hms.append hns⟩

theorem chars (content : List Char) : Rendered (esc content) := by
  induction content with
  | nil => exact nil
  | cons c content ih =>
    have hfirst : Rendered (escChar c) := ⟨[.item c], (List.append_nil _).symm, Nested.item c⟩
    exact hfirst.append ih

theorem wrap {a : List Char} (t : Tag) (ha : Rendered a) :
    Rendered (tagText t ++ a ++ text (.closing t.name)) := by
  obtain ⟨ms, rfl, hms⟩ := ha
  refine ⟨_, ?_, hms.wrap t⟩
  simp [html, tagText]

end Rendered

/-- The tag of an element without attributes. -/
def plainTag (name : TagName) : Tag := ⟨name, [], .inl rfl, nofun⟩

def nameOf (chars : List Char) (hne : chars ≠ []) (h : chars.all isNameChar = true) : TagName :=
  ⟨chars, hne, List.all_eq_true.mp h⟩

def codeTag : Tag := plainTag (nameOf "code".toList (by decide) (by decide))

def spoilerTag : Tag := plainTag (nameOf "tg-spoiler".toList (by decide) (by decide))

theorem bar_not_escaped (h : c ≠ '|') : '|' ∉ escChar c := by
  rcases escChar_cases c with ⟨name, hname, hesc⟩ | ⟨-, -, -, hesc⟩
  · have hnames : ["amp".toList, "lt".toList, "gt".toList].all
        (fun name => !("&".toList ++ name ++ ";".toList).contains '|') = true := by decide
    have hnot := List.all_eq_true.mp hnames name hname
    rw [hesc]
    simpa using hnot
  · rw [hesc, List.mem_singleton]
    exact h.symm

/-- A bar in an escaped text is a bar of the text. -/
theorem split_at_bar {content x y : List Char} (h : esc content = x ++ '|' :: y) :
    ∃ a b, content = a ++ '|' :: b ∧ x = esc a ∧ y = esc b := by
  induction content generalizing x with
  | nil => exact absurd h.symm (by simp [esc])
  | cons c content ih =>
    have hcons : esc (c :: content) = escChar c ++ esc content := List.flatMap_cons
    rw [hcons] at h
    by_cases hc : c = '|'
    · subst hc
      have hbar : escChar '|' = ['|'] := by decide
      rw [hbar] at h
      cases x with
      | nil => exact ⟨[], content, rfl, rfl, (List.cons.inj h).2.symm⟩
      | cons d x =>
        obtain ⟨rfl, hrest⟩ := List.cons.inj h
        obtain ⟨a, b, rfl, rfl, rfl⟩ := ih hrest
        exact ⟨'|' :: a, b, rfl, rfl, rfl⟩
    · have hrest : ∃ x', x = escChar c ++ x' ∧ esc content = x' ++ '|' :: y := by
        rcases List.append_eq_append_iff.mp h with ⟨x', hx, hrest⟩ | ⟨z, hz, hrest⟩
        · exact ⟨x', hx, hrest⟩
        · cases z with
          | nil => exact ⟨[], by rw [hz, List.append_nil, List.append_nil], hrest.symm⟩
          | cons d z =>
            obtain ⟨rfl, -⟩ := List.cons.inj hrest
            exact absurd (hz ▸ List.mem_append_right x List.mem_cons_self) (bar_not_escaped hc)
      obtain ⟨x', rfl, hrest⟩ := hrest
      obtain ⟨a, b, rfl, rfl, rfl⟩ := ih hrest
      exact ⟨c :: a, b, rfl, rfl, rfl⟩

/-- A text without a bar is left as it is. -/
theorem spoilers_skip {r : List Char} (h : '|' ∉ r) (s : List Char) :
    spoilers (r ++ s) = r ++ spoilers s := by
  induction r with
  | nil => rfl
  | cons c r ih =>
    have hc : c ≠ '|' := fun heq => h (heq ▸ List.mem_cons_self)
    have hnone : spoilerAt (c :: (r ++ s)) = none := by
      unfold spoilerAt
      split
      · next heq => exact absurd (List.cons.inj heq).1 hc
      · rfl
    rw [List.cons_append, spoilers]
    split
    · next hsome =>
      rw [hnone] at hsome
      cases hsome
    · rw [ih fun hmem => h (List.mem_cons_of_mem c hmem)]
      rfl

theorem rendered_spoilers (content : List Char) : Rendered (spoilers (esc content)) := by
  induction hn : content.length using Nat.strongRecOn generalizing content with
  | _ n ih =>
    cases content with
    | nil =>
      rw [show esc [] = [] from rfl, spoilers]
      exact .nil
    | cons c content =>
      have hcons : esc (c :: content) = escChar c ++ esc content := List.flatMap_cons
      have hrest : Rendered (spoilers (esc content)) :=
        ih content.length (by rw [← hn]; exact Nat.lt_succ_self _) content rfl
      by_cases hc : c = '|'
      · subst hc
        have hbar : escChar '|' = ['|'] := by decide
        rw [hcons, hbar, List.singleton_append, spoilers]
        split
        · next group rest hsome =>
          -- The bars of the match are bars of the text, so its group is an escaped part of it.
          have hmatch : esc content = [] ++ '|' :: (group ++ '|' :: '|' :: rest) := by
            have heq := eq_of_spoilerAt hsome
            simpa using heq
          obtain ⟨a, b, rfl, -, hb⟩ := split_at_bar hmatch
          obtain ⟨inner, tail, rfl, rfl, htail⟩ := split_at_bar hb.symm
          obtain ⟨a', last, rfl, -, rfl⟩ := split_at_bar (x := []) htail.symm
          have hlast : Rendered (spoilers (esc last)) := by
            refine ih last.length ?_ last rfl
            rw [← hn]
            simp only [List.length_cons, List.length_append]
            omega
          exact (Rendered.wrap spoilerTag (.chars inner)).append hlast
        · have hfirst : Rendered (esc ['|']) := .chars ['|']
          rw [show esc ['|'] = ['|'] from by decide] at hfirst
          exact hfirst.append hrest
      · rw [hcons, spoilers_skip (bar_not_escaped hc)]
        have hfirst : Rendered (esc [c]) := .chars [c]
        rw [show esc [c] = escChar c from List.append_nil _] at hfirst
        exact hfirst.append hrest

theorem quoted_no_bracket (href : List Char) : '>' ∉ href.flatMap quoteChar := by
  intro hmem
  obtain ⟨c, -, hc⟩ := List.mem_flatMap.mp hmem
  unfold quoteChar at hc
  split_ifs at hc
  · exact absurd hc (by decide)
  · exact absurd hc (by decide)
  · unfold escChar at hc
    split_ifs at hc with hamp hlt hgt
    · exact absurd hc (by decide)
    · exact absurd hc (by decide)
    · exact absurd hc (by decide)
    · exact hgt (List.mem_singleton.mp hc).symm

/-- The tag of an anchor. -/
def anchorTag (href : List Char) : Tag where
  name := nameOf ['a'] (by decide) (by decide)
  attrs := " href=\"".toList ++ href.flatMap quoteChar ++ ['"']
  apart := .inr ⟨_, rfl⟩
  escaped := by
    rw [List.mem_append, List.mem_append]
    rintro ((hmem | hmem) | hmem)
    · exact absurd hmem (by decide)
    · exact quoted_no_bracket href hmem
    · exact absurd hmem (by decide)

theorem rendered_anchor {label : List Char} (href : List Char) (h : Rendered label) :
    Rendered (anchor href label) := by
  unfold anchor
  split
  · have hwrap := h.wrap (anchorTag href)
    have htag : tagText (anchorTag href) =
        "<a href=\"".toList ++ href.flatMap quoteChar ++ "\">".toList := by
      show '<' :: (['a'] ++ (" href=\"".toList ++ href.flatMap quoteChar ++ ['"'])) ++ ['>'] = _
      simp
    rwa [htag] at hwrap
  · exact h

mutual

/-- **What `_inline` renders** is balanced. -/
theorem rendered_inline (bold : Bool) : ∀ children, Rendered (inline bold children)
  | [] => .nil
  | child :: children =>
    (rendered_inlineChild bold child).append (rendered_inline bold children)

theorem rendered_inlineChild (bold : Bool) : ∀ child, Rendered (inlineChild bold child)
  | .text content => rendered_spoilers content
  | .softbreak => .chars ['\n']
  | .hardbreak => .chars ['\n']
  | .codeInline content => (Rendered.chars content).wrap codeTag
  | .strong children => by
    have hinner := rendered_inline bold children
    cases bold with
    | true => exact hinner.wrap (plainTag (nameOf ['b'] (by decide) (by decide)))
    | false => exact hinner
  | .em children =>
    (rendered_inline bold children).wrap (plainTag (nameOf ['i'] (by decide) (by decide)))
  | .s children =>
    (rendered_inline bold children).wrap (plainTag (nameOf ['s'] (by decide) (by decide)))
  | .link href children => rendered_anchor href (rendered_inline bold children)
  | .image src content => by
    show Rendered (anchor src (if content = [] then "image".toList else esc content))
    split
    · exact rendered_anchor src (.chars "image".toList)
    · exact rendered_anchor src (.chars content)
  | .other children content => by
    show Rendered (if children = [] then esc content else inline bold children)
    split
    · exact .chars content
    · exact rendered_inline bold children

end

end GenusOs.Engine.Telegram
