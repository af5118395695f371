import GenusOs.Library.Cut
import GenusOs.Python.Str
import Mathlib

/-!
# Telegram HTML

`_inline` renders the inline nodes of a Markdown text. `split_telegram_html` cuts a rendered text
into messages of at most `limit`, as Telegram counts it: at a paragraph break, a line break or a
space of the back two-thirds of the window, else between two units. The tags that are open at a cut
are closed there and opened again in the next message.

* `inline`: the renderer of inline nodes.
* `units`: whole tags, whole entities and single characters.
* `nextSpan`: one round of the loop, with the window that fits and the place where it is cut.
* `splitTelegramHtml`: the function.
-/

namespace GenusOs.Engine.Telegram

open GenusOs.Python

/-! ## Rendering -/

/-- `html.escape(c, quote=False)`, of one character. -/
def escChar (c : Char) : List Char :=
  if c = '&' then "&amp;".toList
  else if c = '<' then "&lt;".toList
  else if c = '>' then "&gt;".toList
  else [c]

/-- `_esc`. -/
def esc (text : List Char) : List Char := text.flatMap escChar

/-- `html.escape(c, quote=True)`, of one character. -/
def quoteChar (c : Char) : List Char :=
  if c = '"' then "&quot;".toList
  else if c.toNat = 39 then "&#x27;".toList
  else escChar c

/-- What `_SPOILER` matches at the start of the text: its group, and what is behind the match. -/
def spoilerAt : List Char → Option (List Char × List Char)
  | '|' :: '|' :: c :: text =>
    (cutAt ['|', '|'] text).bind fun cut =>
      if '\n' ∈ c :: cut.1 then none else some (c :: cut.1, cut.2)
  | _ => none

theorem eq_of_spoilerAt {text group rest : List Char} (h : spoilerAt text = some (group, rest)) :
    text = ['|', '|'] ++ group ++ ['|', '|'] ++ rest := by
  unfold spoilerAt at h
  split at h
  · obtain ⟨⟨before, after⟩, hcut, hmatch⟩ := Option.bind_eq_some_iff.mp h
    split at hmatch
    · cases hmatch
    · obtain ⟨rfl, rfl⟩ := Prod.mk.inj (Option.some.inj hmatch)
      rw [eq_of_cutAt hcut]
      simp
  · cases h

/-- `_SPOILER.sub`. -/
def spoilers (text : List Char) : List Char :=
  match text with
  | [] => []
  | c :: text =>
    match _h : spoilerAt (c :: text) with
    | some (group, rest) =>
      "<tg-spoiler>".toList ++ group ++ "</tg-spoiler>".toList ++ spoilers rest
    | none => c :: spoilers text
termination_by text.length
decreasing_by
  · have hlen := congrArg List.length (eq_of_spoilerAt _h)
    simp only [List.length_append, List.length_cons, List.length_nil] at hlen ⊢
    omega
  · exact Nat.lt_succ_self _

/-- A character without its case, as `re.IGNORECASE` compares ASCII letters. -/
def foldCase (c : Char) : Char :=
  if c.toNat = 0x130 ∨ c.toNat = 0x131 then 'i' else if c.toNat = 0x17F then 's' else c.toLower

/-- `_SAFE_LINK.match`. -/
def safeLink (href : List Char) : Bool :=
  ["http:", "https:", "tg:", "mailto:", "tel:"].any fun scheme =>
    scheme.toList.isPrefixOf (href.map foldCase)

/-- The inline nodes of a Markdown text; `other` is a node of any other kind. -/
inductive Inline
  | text (content : List Char)
  | softbreak
  | hardbreak
  | codeInline (content : List Char)
  | strong (children : List Inline)
  | em (children : List Inline)
  | s (children : List Inline)
  | link (href : List Char) (children : List Inline)
  | image (src content : List Char)
  | other (children : List Inline) (content : List Char)

/-- The anchor around a label, where the link is safe. -/
def anchor (href label : List Char) : List Char :=
  if safeLink href then
    "<a href=\"".toList ++ href.flatMap quoteChar ++ "\">".toList ++ label ++ "</a>".toList
  else label

mutual

/-- `_inline`. -/
def inline (bold : Bool) : List Inline → List Char
  | [] => []
  | child :: children => inlineChild bold child ++ inline bold children

def inlineChild (bold : Bool) : Inline → List Char
  | .text content => spoilers (esc content)
  | .softbreak => ['\n']
  | .hardbreak => ['\n']
  | .codeInline content => "<code>".toList ++ esc content ++ "</code>".toList
  | .strong children =>
    if bold then "<b>".toList ++ inline bold children ++ "</b>".toList else inline bold children
  | .em children => "<i>".toList ++ inline bold children ++ "</i>".toList
  | .s children => "<s>".toList ++ inline bold children ++ "</s>".toList
  | .link href children => anchor href (inline bold children)
  | .image src content => anchor src (if content = [] then "image".toList else esc content)
  | .other children content => if children = [] then esc content else inline bold children

end

/-! ## Units -/

def isEntityChar (c : Char) : Bool := c.isAlphanum || c = '#'

/-- How many characters `_UNIT` matches at the start of the text. -/
def unitLength : List Char → Nat
  | '<' :: text =>
    let inner := text.takeWhile (· ≠ '>')
    if inner.isEmpty || text.length = inner.length then 1 else inner.length + 2
  | '&' :: text =>
    let inner := text.takeWhile isEntityChar
    if !inner.isEmpty && text[inner.length]? = some ';' then inner.length + 2 else 1
  | _ => 1

/-- The matches in the text, of which there are at most `n`. -/
def findUnits : Nat → List Char → List (List Char)
  | 0, _ => []
  | _ + 1, [] => []
  | n + 1, text => text.take (unitLength text) :: findUnits n (text.drop (unitLength text))

/-- `_units`. -/
def units (rendered : List Char) : List (List Char) := findUnits rendered.length rendered

/-- `_tag_name`: the first word between the brackets. -/
def tagName (tag : List Char) : List Char :=
  let inner := (tag.dropWhile ("</>".toList.contains ·)).rdropWhile ("</>".toList.contains ·)
  ((inner.dropWhile isSpace).takeWhile (!isSpace ·)).map Char.toLower

/-- `_size`: Telegram counts UTF-16 code units. -/
def size (piece : List Char) : Nat := (piece.map fun c => if c.toNat < 0x10000 then 1 else 2).sum

/-- `unit.isspace()`. -/
def isBlank (unit : List Char) : Bool := !unit.isEmpty && unit.all isSpace

/-! ## What is open -/

def stackStep (stack : List (List Char)) (unit : List Char) : List (List Char) :=
  if "</".toList.isPrefixOf unit then stack.dropLast
  else if "<".toList.isPrefixOf unit then stack ++ [unit]
  else stack

/-- `l[i:j]`. -/
def slice {α : Type} (l : List α) (i j : Nat) : List α := (l.take j).drop i

section

variable (us : List (List Char))

/-- `stacks[i]`: opening tags in force before unit `i`. -/
def stackAt (i : Nat) : List (List Char) := (us.take i).foldl stackStep []

def closers (i : Nat) : List Char :=
  (stackAt us i).reverse.flatMap fun tag => "</".toList ++ tagName tag ++ ">".toList

/-- `"".join(stacks[start])`. -/
def opener (i : Nat) : List Char := (stackAt us i).flatten

/-! ## The window -/

/-- The variables of the inner loop; `none` for -1. -/
structure Window where
  i : Nat
  size : Nat
  para : Option Nat := none
  line : Option Nat := none
  space : Option Nat := none

/-- The window with the next unit, and the breaks that it ends on. -/
def Window.advance (start : Nat) (w : Window) (unit : List Char) : Window :=
  if unit = ['\n'] then
    { i := w.i + 1
      size := w.size + Telegram.size unit
      para := if w.i > start ∧ us[w.i - 1]? = some ['\n'] then some (w.i + 1) else w.para
      line := some (w.i + 1)
      space := w.space }
  else
    { w with
      i := w.i + 1
      size := w.size + Telegram.size unit
      space := if isBlank unit then some (w.i + 1) else w.space }

variable (limit : Int)

/-- The inner loop, over the units from `w.i` on. -/
def grow (start : Nat) (w : Window) : List (List Char) → Window
  | [] => w
  | unit :: rest =>
    let grown := w.size + size unit
    if ((grown + size (closers us (w.i + 1)) : Nat) : Int) > limit ∧ w.i > start then w
    else grow start (w.advance us start unit) rest

def window (start : Nat) : Window :=
  grow us limit start { i := start, size := size (opener us start) } (us.drop start)

/-- Where the window is cut. -/
def cutOf (start : Nat) : Nat :=
  let w := window us limit start
  if w.i ≥ us.length then us.length
  else
    let floor := start + (w.i - start) / 3
    (([w.para, w.line, w.space].filterMap id).find? (· > floor)).getD w.i

/-! ## The loop -/

/-- A round of the loop: the chunk has the units from `start` to `stop`, and the next round begins
at `cut`. -/
structure Span where
  start : Nat
  stop : Nat
  cut : Nat

/-- Where the units from `start` on begin that are not blank. -/
def skipBlank (start : Nat) : Nat := start + ((us.drop start).takeWhile isBlank).length

def nextSpan (start : Nat) : Option Span :=
  let start := skipBlank us start
  if start ≥ us.length then none
  else
    let cut := cutOf us limit start
    some ⟨start, start + ((slice us start cut).rdropWhile isBlank).length, cut⟩

def Span.body (span : Span) : List Char := (slice us span.start span.stop).flatten

def Span.piece (span : Span) : List Char :=
  opener us span.start ++ span.body us ++ closers us span.stop

end

/-! ## The rounds go on -/

variable {us : List (List Char)} {limit : Int} {start : Nat} {unit : List Char} {w : Window}

@[simp] theorem advance_i : (w.advance us start unit).i = w.i + 1 := by
  unfold Window.advance
  split
  · rfl
  · rfl

@[simp] theorem advance_size : (w.advance us start unit).size = w.size + size unit := by
  unfold Window.advance
  split
  · rfl
  · rfl

/-- The window holds the first unit, where there is one. -/
theorem le_grow (rest : List (List Char)) (hi : start ≤ w.i) :
    w.i ≤ (grow us limit start w rest).i ∧
      (rest ≠ [] → start < (grow us limit start w rest).i) := by
  induction rest generalizing w with
  | nil => exact ⟨le_refl _, fun hne => absurd rfl hne⟩
  | cons unit rest ih =>
    unfold grow
    dsimp only
    split
    · next hstop => exact ⟨le_refl _, fun _ => hstop.2⟩
    · have hmore := (ih (w := w.advance us start unit) (by rw [advance_i]; omega)).1
      rw [advance_i] at hmore
      exact ⟨by omega, fun _ => by omega⟩

/-- A cut is behind the first unit of the window. -/
theorem lt_cutOf (h : start < us.length) : start < cutOf us limit start := by
  have hne : us.drop start ≠ [] := by
    rw [ne_eq, List.drop_eq_nil_iff, not_le]
    exact h
  have hlt : start < (window us limit start).i := (le_grow _ (le_refl start)).2 hne
  unfold cutOf
  dsimp only
  split
  · exact h
  · cases hfind : List.find? _ _ with
    | none => exact hlt
    | some c =>
      have hc := List.find?_some hfind
      rw [decide_eq_true_eq] at hc
      exact Nat.lt_of_le_of_lt (Nat.le_add_right _ _) hc

theorem nextSpan_lt {span : Span} (h : nextSpan us limit start = some span) :
    us.length - span.cut < us.length - start := by
  unfold nextSpan at h
  dsimp only at h
  split at h
  · cases h
  · next hmore =>
    obtain rfl := Option.some.inj h
    rw [not_le] at hmore
    have hcut : skipBlank us start < cutOf us limit (skipBlank us start) := lt_cutOf hmore
    have hskip : start ≤ skipBlank us start := Nat.le_add_right _ _
    show us.length - cutOf us limit (skipBlank us start) < us.length - start
    omega

variable (us limit) in
/-- The loop of `split_telegram_html`, from unit `start` on. -/
def chunksFrom (start : Nat) : List (List Char) :=
  match _h : nextSpan us limit start with
  | none => []
  | some span =>
    if (stripChars (span.body us)).isEmpty then chunksFrom span.cut
    else span.piece us :: chunksFrom span.cut
termination_by us.length - start
decreasing_by all_goals exact nextSpan_lt _h

/-- `split_telegram_html`. -/
def splitTelegramHtml (rendered : List Char) (limit : Int) : List (List Char) :=
  if size rendered ≤ limit then if (stripChars rendered).isEmpty then [] else [rendered]
  else chunksFrom (units rendered) limit 0

end GenusOs.Engine.Telegram
