import GenusOs.Engine.TelegramHtml
import Mathlib

/-!
# Every message is whole

* `cutOf_spec`: what the window takes in fits, with the tags that are open around it.
* `nextSpan_spec`: what one round of the loop takes.
* `chunksFrom_text`: the messages of the loop, and that they show all of the text.
* `lossless_messages`: the messages are balanced, fit the limit and show the whole text.
-/

namespace GenusOs.Engine.Telegram

open GenusOs.Python GenusOs.Mark

variable {ms : List Token} {m : Token}

/-! ## Slices -/

section

variable {α β : Type} {i j k : Nat}

theorem slice_eq (l : List α) (i j : Nat) : slice l i j = (l.drop i).take
    (j - i) := List.drop_take ..

theorem slice_append (l : List α) (hij : i ≤ j) (hjk : j ≤ k) :
    slice l i j ++ slice l j k = slice l i k := by
  have hlen : k - i = (j - i) + (k - j) := by omega
  rw [slice_eq, slice_eq, slice_eq, hlen, List.take_add, List.drop_drop, Nat.add_sub_cancel' hij]

theorem slice_self (l : List α) (i : Nat) : slice l i i = [] := by
  rw [slice_eq, Nat.sub_self, List.take_zero]

theorem slice_map (f : α → β) (l : List α) (i j : Nat) :
    slice (l.map f) i j = (slice l i j).map f := by
  rw [slice, slice, List.map_drop, List.map_take]

theorem slice_succ {l : List α} (hij : i ≤ j) {x : α} (h : l[j]? = some x) :
    slice l i (j + 1) = slice l i j ++ [x] := by
  have hone : slice l j (j + 1) = [x] := by
    obtain ⟨hlt, rfl⟩ := List.getElem?_eq_some_iff.mp h
    rw [slice_eq, Nat.add_sub_cancel_left, List.drop_eq_getElem_cons hlt]
    rfl
  rw [← slice_append l hij (Nat.le_succ j), hone]

theorem take_append_slice (l : List α) (h : i ≤ j) : l.take i ++ slice l i j = l.take j :=
  slice_append l (Nat.zero_le i) h

theorem slice_append_drop (l : List α) (h : i ≤ j) : slice l i j ++ l.drop j = l.drop i := by
  have hsplit := List.take_append_drop (j - i) (l.drop i)
  rwa [List.drop_drop, Nat.add_sub_cancel' h, ← slice_eq] at hsplit

theorem mem_slice {l : List α} (hij : i < j) {x : α} (h : l[i]? = some x) : x ∈ slice l i j := by
  rw [slice_eq]
  refine List.mem_of_getElem? (i := 0) ?_
  rw [List.getElem?_take_of_lt (Nat.sub_pos_of_lt hij), List.getElem?_drop, Nat.add_zero, h]

/-- What is dropped from the end of a list. -/
theorem exists_rdropWhile (p : α → Bool) (l : List α) :
    ∃ back, l = l.rdropWhile p ++ back ∧ ∀ x ∈ back, p x = true := by
  refine ⟨(l.reverse.takeWhile p).reverse, ?_, fun x hx => ?_⟩
  · rw [List.rdropWhile, ← List.reverse_append, List.takeWhile_append_dropWhile,
      List.reverse_reverse]
  · exact List.mem_takeWhile_imp (List.mem_reverse.mp hx)

end

/-! ## The window fits -/

theorem size_append (a b : List Char) : size (a ++ b) = size a + size b := by
  unfold size
  rw [List.map_append, List.sum_append]

variable {us : List (List Char)} {limit : Int} {start i j : Nat} {w : Window} {span : Span}

/-- The limit has room for each unit and the tags that are open around it. -/
def Roomy (us : List (List Char)) (limit : Int) : Prop :=
  ∀ i unit, us[i]? = some unit →
    ((size (opener us i) + size unit + size (closers us (i + 1)) : Nat) : Int) ≤ limit

/-- The units from `start` to `j`, with the tags that are open around them, fit the limit. -/
def Fits (us : List (List Char)) (limit : Int) (start j : Nat) : Prop :=
  ((size (opener us start) + size (slice us start j).flatten + size (closers us j) : Nat) : Int) ≤
    limit

/-- What holds of the window while it grows: `ahead` are the units behind it. -/
structure WindowInv (us : List (List Char)) (limit : Int) (start : Nat) (w : Window)
    (ahead : List (List Char)) : Prop where
  ahead : us.drop w.i = ahead
  start_le : start ≤ w.i
  size : w.size = size (opener us start) + Telegram.size (slice us start w.i).flatten
  fits : ∀ j, start < j → j ≤ w.i → Fits us limit start j
  breaks : ∀ c, w.para = some c ∨ w.line = some c ∨ w.space = some c →
    c ≤ w.i ∧ ∃ unit, us[c - 1]? = some unit ∧ isBlank unit = true

theorem advance_breaks {unit : List Char} {c : Nat}
    (h : (w.advance us start unit).para = some c ∨ (w.advance us start unit).line = some c ∨
      (w.advance us start unit).space = some c) :
    c = w.i + 1 ∧ isBlank unit = true ∨ w.para = some c ∨ w.line = some c ∨ w.space = some c := by
  unfold Window.advance at h
  split at h
  · next hline =>
    have hblank : isBlank unit = true := by
      rw [hline]
      decide
    dsimp only at h
    split at h
    · grind
    · grind
  · dsimp only at h
    split at h
    · grind
    · grind

theorem WindowInv.advance {unit : List Char} {rest : List (List Char)}
    (h : WindowInv us limit start w (unit :: rest))
    (hfits : ((w.size + Telegram.size unit + Telegram.size (closers us (w.i + 1)) : Nat) : Int) ≤
      limit) :
    WindowInv us limit start (w.advance us start unit) rest := by
  have hunit : us[w.i]? = some unit := by
    rw [← List.head?_drop, h.ahead]
    rfl
  have hslice := slice_succ h.start_le hunit
  have hflat : Telegram.size (slice us start (w.i + 1)).flatten =
      Telegram.size (slice us start w.i).flatten + Telegram.size unit := by
    rw [hslice, List.flatten_append, size_append, List.flatten_singleton]
  constructor
  case ahead =>
    rw [advance_i, ← List.drop_drop, h.ahead]
    rfl
  case start_le =>
    rw [advance_i]
    exact Nat.le_succ_of_le h.start_le
  case size =>
    rw [advance_i, advance_size, hflat, h.size, Nat.add_assoc]
  case fits =>
    intro j hj hle
    rw [advance_i] at hle
    rcases Nat.lt_or_eq_of_le hle with hlt | rfl
    · exact h.fits j hj (Nat.le_of_lt_succ hlt)
    · unfold Fits
      rw [hflat, ← Nat.add_assoc, ← h.size]
      exact hfits
  case breaks =>
    intro c hc
    rw [advance_i]
    rcases advance_breaks hc with ⟨rfl, hblank⟩ | hold
    · exact ⟨le_refl _, unit, hunit, hblank⟩
    · obtain ⟨hle, hbefore⟩ := h.breaks c hold
      exact ⟨Nat.le_succ_of_le hle, hbefore⟩

/-- The window goes on, where the inner loop does not break. -/
theorem WindowInv.next (hroom : Roomy us limit) {unit : List Char} {rest : List (List Char)}
    (h : WindowInv us limit start w (unit :: rest))
    (hgo : ¬ (((w.size + Telegram.size unit + Telegram.size (closers us (w.i + 1)) : Nat) : Int) >
      limit ∧ w.i > start)) : WindowInv us limit start (w.advance us start unit) rest := by
  refine h.advance ?_
  by_cases hfirst : w.i > start
  · exact not_lt.mp fun hlarge => hgo ⟨hlarge, hfirst⟩
  · -- the first unit is taken in any case; the limit has room for it
    have hat : w.i = start := le_antisymm (not_lt.mp hfirst) h.start_le
    have hunit : us[w.i]? = some unit := by
      rw [← List.head?_drop, h.ahead]
      rfl
    have hroomy := hroom w.i unit hunit
    have hsize : w.size = Telegram.size (opener us w.i) := by
      rw [h.size, hat, slice_self]
      rfl
    rwa [hsize]

theorem WindowInv.grow (hroom : Roomy us limit) {ahead : List (List Char)}
    (h : WindowInv us limit start w ahead) :
    ∃ rest, WindowInv us limit start (grow us limit start w ahead) rest := by
  induction ahead generalizing w with
  | nil => exact ⟨[], h⟩
  | cons unit rest ih =>
    unfold Telegram.grow
    dsimp only
    split
    · exact ⟨_, h⟩
    · next hgo => exact ih (h.next hroom hgo)

theorem window_spec (hroom : Roomy us limit) (start : Nat) :
    ∃ rest, WindowInv us limit start (window us limit start) rest := by
  refine WindowInv.grow hroom ⟨rfl, le_refl _, ?_, ?_, ?_⟩
  · rw [slice_self]
    rfl
  · exact fun j hj hle => absurd hj (not_lt.mpr hle)
  · rintro c (hc | hc | hc)
    all_goals cases hc

/-- **A cut** is in the text, and everything in front of it fits. -/
theorem cutOf_spec (hroom : Roomy us limit) (h : start < us.length) :
    start < cutOf us limit start ∧ cutOf us limit start ≤ us.length ∧
      ∀ j, start < j → j ≤ cutOf us limit start → Fits us limit start j := by
  obtain ⟨rest, hinv⟩ := window_spec hroom start
  suffices hle : cutOf us limit start ≤ (window us limit start).i ∧
      cutOf us limit start ≤ us.length from
    ⟨lt_cutOf h, hle.2, fun j hj hcut => hinv.fits j hj (hcut.trans hle.1)⟩
  unfold cutOf
  dsimp only
  split
  · next hend => exact ⟨hend, le_refl _⟩
  · next hmore =>
    have hlt := not_le.mp hmore
    have hcut : ((List.filterMap id [(window us limit start).para, (window us limit start).line,
        (window us limit start).space]).find?
          (· > start + ((window us limit start).i - start) / 3)).getD
          (window us limit start).i ≤ (window us limit start).i := by
      cases hfind : List.find? _ _ with
      | none => exact le_refl _
      | some c =>
        have hmem := List.mem_of_find?_eq_some hfind
        simp only [List.mem_filterMap, List.mem_cons, List.not_mem_nil, or_false, id_eq,
          exists_eq_right] at hmem
        refine (hinv.breaks c ?_).1
        rcases hmem with hc | hc | hc
        · exact .inl hc.symm
        · exact .inr (.inl hc.symm)
        · exact .inr (.inr hc.symm)
    exact ⟨hcut, hcut.trans hlt.le⟩

/-! ## One round -/

/-- What a round of the loop takes: all of the text up to its cut, but for blanks. -/
structure Taken (us : List (List Char)) (limit : Int) (start : Nat) (span : Span) : Prop where
  start_le : start ≤ span.start
  front : ∀ unit ∈ slice us start span.start, isBlank unit = true
  first : ∃ unit, us[span.start]? = some unit ∧ isBlank unit = false
  lt_stop : span.start < span.stop
  stop_le : span.stop ≤ span.cut
  cut_le : span.cut ≤ us.length
  back : ∀ unit ∈ slice us span.stop span.cut, isBlank unit = true
  fits : Fits us limit span.start span.stop

theorem skipBlank_front (us : List (List Char)) (start : Nat) :
    ∀ unit ∈ slice us start (skipBlank us start), isBlank unit = true := by
  intro unit hunit
  have hfront : slice us start (skipBlank us start) = (us.drop start).takeWhile isBlank := by
    rw [slice_eq, skipBlank, Nat.add_sub_cancel_left]
    exact (List.prefix_iff_eq_take.mp (List.takeWhile_prefix isBlank)).symm
  rw [hfront] at hunit
  exact List.mem_takeWhile_imp hunit

theorem drop_skipBlank (us : List (List Char)) (start : Nat) :
    us.drop (skipBlank us start) = (us.drop start).dropWhile isBlank := by
  have hsplit : ((us.drop start).takeWhile isBlank ++ (us.drop start).dropWhile isBlank).drop
      ((us.drop start).takeWhile isBlank).length = (us.drop start).dropWhile isBlank :=
        List.drop_left
  rwa [List.takeWhile_append_dropWhile, List.drop_drop] at hsplit

/-- **What a round takes.** -/
theorem nextSpan_spec (hroom : Roomy us limit) (h : nextSpan us limit start = some span) :
    Taken us limit start span := by
  unfold nextSpan at h
  dsimp only at h
  split at h
  case isTrue => cases h
  case isFalse hmore =>
    rw [not_le] at hmore
    obtain rfl := Option.some.inj h
    have hfront := skipBlank_front us start
    have hle : start ≤ skipBlank us start := Nat.le_add_right _ _
    have hfirst : ∃ unit, us[skipBlank us start]? = some unit ∧ isBlank unit = false := by
      refine ⟨us[skipBlank us start], List.getElem?_eq_getElem hmore, ?_⟩
      have hhead := drop_skipBlank us start
      rw [List.drop_eq_getElem_cons hmore] at hhead
      have hnot := List.head_dropWhile_not isBlank (List.ne_nil_of_length_pos (by
        rw [← hhead]
        exact Nat.succ_pos _) : (us.drop start).dropWhile isBlank ≠ [])
      simpa [← hhead] using hnot
    generalize skipBlank us start = first at *
    obtain ⟨hlt, hcut, hfits⟩ := cutOf_spec hroom hmore
    generalize cutOf us limit first = cut at *
    obtain ⟨back, hback, hblank⟩ := exists_rdropWhile isBlank (slice us first cut)
    obtain ⟨unit, hunit, hnot⟩ := hfirst
    have hmem : unit ∈ slice us first cut := mem_slice hlt hunit
    generalize (slice us first cut).rdropWhile isBlank = kept at *
    have hlen : kept.length + back.length = cut - first := by
      rw [← List.length_append, ← hback, slice_eq, List.length_take, List.length_drop]
      omega
    have hpos : 0 < kept.length := by
      refine List.length_pos_of_ne_nil fun hkept => ?_
      rw [hback, hkept, List.nil_append] at hmem
      rw [hblank unit hmem] at hnot
      cases hnot
    have hrest : slice us (first + kept.length) cut = back := by
      unfold slice
      rw [← List.drop_drop]
      show (slice us first cut).drop kept.length = back
      rw [hback, List.drop_left]
    have hstop : first + kept.length ≤ cut := by omega
    exact ⟨hle, hfront, ⟨unit, hunit, hnot⟩, Nat.lt_add_of_pos_right hpos,
      hstop, hcut, hrest ▸ hblank,
      hfits _ (Nat.lt_add_of_pos_right hpos) hstop⟩

/-- Where no round is left, only blanks are. -/
theorem nextSpan_none (h : nextSpan us limit start = none) :
    ∀ unit ∈ us.drop start, isBlank unit = true := by
  unfold nextSpan at h
  dsimp only at h
  split at h
  case isTrue hend =>
    rw [← List.dropWhile_eq_nil_iff, ← drop_skipBlank]
    exact List.drop_eq_nil_of_le hend
  case isFalse => cases h

/-! ## What is shown -/

/-- The characters that are no blanks, where `opened` is open in front of the tokens. -/
def shown (opened : List Tag) (ms : List Token) : List (List Tag × Char) :=
  (under opened ms).filter (!isSpace ·.2)

theorem shown_append (opened : List Tag) (ms ns : List Token) :
    shown opened (ms ++ ns) = shown opened ms ++ shown (after opened ms) ns := by
  rw [shown, under_append, List.filter_append]
  rfl

theorem isBlank_text (h : isBlank (text m) = true) : ∃ c, m = .item c ∧ isSpace c = true := by
  rw [isBlank, Bool.and_eq_true, List.all_eq_true] at h
  cases m with
  | opening t => exact absurd (h.2 '<' List.mem_cons_self) (by decide)
  | closing n => exact absurd (h.2 '<' List.mem_cons_self) (by decide)
  | item c =>
    refine ⟨c, rfl, ?_⟩
    rcases escChar_cases c with ⟨name, -, hesc⟩ | ⟨-, -, -, hesc⟩
    · exact absurd (h.2 '&' (by rw [text_item, hesc]; exact List.mem_cons_self)) (by decide)
    · exact h.2 c (by rw [text_item, hesc]; exact List.mem_cons_self)

theorem blanks (h : ∀ unit ∈ ms.map text, isBlank unit = true) (opened : List Tag) :
    after opened ms = opened ∧ shown opened ms = [] := by
  induction ms with
  | nil => exact ⟨rfl, rfl⟩
  | cons m ms ih =>
    rw [List.map_cons, List.forall_mem_cons] at h
    obtain ⟨c, rfl, hc⟩ := isBlank_text h.1
    obtain ⟨hafter, hshown⟩ := ih h.2
    refine ⟨hafter, ?_⟩
    rw [shown, under, List.filter_cons_of_neg (by simp [hc])]
    exact hshown

/-- What is open in front of a token. -/
def openAt (ms : List Token) (i : Nat) : List Tag := after [] (ms.take i)

theorem after_slice (h : i ≤ j) (ms : List Token) :
    after (openAt ms i) (slice ms i j) = openAt ms j := by
  unfold openAt
  rw [← after_append, take_append_slice ms h]

theorem shown_slice (h : i ≤ j) (ms : List Token) :
    shown (openAt ms i) (ms.drop i) =
      shown (openAt ms i) (slice ms i j) ++ shown (openAt ms j) (ms.drop j) := by
  rw [← slice_append_drop ms h, shown_append, after_slice h]

theorem shown_taken (h : Taken (ms.map text) limit start span) :
    shown (openAt ms start) (ms.drop start) =
      shown (openAt ms span.start) (slice ms span.start span.stop) ++
        shown (openAt ms span.cut) (ms.drop span.cut) := by
  have hfront := h.front
  have hback := h.back
  rw [slice_map] at hfront hback
  rw [shown_slice h.start_le, shown_slice h.lt_stop.le, shown_slice h.stop_le,
    (blanks hfront _).2, (blanks hback _).2, List.nil_append, List.nil_append]

/-! ## The messages -/

/-- The tokens of the message with the units from `span.start` to `span.stop`. -/
def message (ms : List Token) (span : Span) : List Token :=
  reopened Tag.name (openAt ms span.start) (slice ms span.start span.stop)

theorem html_append (ms ns : List Token) : html (ms ++ ns) = html ms ++ html ns :=
  List.flatMap_append

theorem html_message (ms : List Token) (h : span.start ≤ span.stop) :
    html (message ms span) = span.piece (ms.map text) := by
  unfold message reopened Span.piece Span.body
  rw [html_append, html_append, after_slice h, opener_text, closers_text, slice_map]
  rfl

theorem balanced_message (hms : Balanced ms) (h : span.start ≤ span.stop) :
    Balanced (message ms span) := by
  refine Nested.reopened ?_
  have hcloses := hms.closes
  rw [← List.take_append_drop span.start ms, closes_append] at hcloses
  have hrest := hcloses.2
  rw [← slice_append_drop ms h, closes_append] at hrest
  exact hrest.1

theorem visible_message (ms : List Token) (span : Span) :
    visible (message ms span) = shown (openAt ms span.start) (slice ms span.start span.stop) := by
  unfold visible message
  rw [under_reopened]
  rfl

theorem size_message (ms : List Token) (h : Taken (ms.map text) limit start span) :
    (size (html (message ms span)) : Int) ≤ limit := by
  have hfits := h.fits
  unfold Fits at hfits
  rw [html_message ms h.lt_stop.le, Span.piece, size_append, size_append]
  exact hfits

/-- The body of a message is not blank. -/
theorem body_not_blank (ms : List Token) (h : Taken (ms.map text) limit start span) :
    (stripChars (span.body (ms.map text))).isEmpty = false := by
  obtain ⟨unit, hunit, hnot⟩ := h.first
  obtain ⟨m, -, rfl⟩ := List.mem_map.mp (List.mem_of_getElem? hunit)
  have hmem : text m ∈ slice (ms.map text) span.start span.stop := mem_slice h.lt_stop hunit
  rw [Bool.eq_false_iff]
  intro hempty
  have hblank := isSpace_of_stripChars_nil (List.isEmpty_iff.mp hempty)
  have hall : (text m).all isSpace = true := List.all_eq_true.mpr fun c hc =>
    hblank c (List.mem_flatten.mpr ⟨text m, hmem, hc⟩)
  rw [isBlank, hall, Bool.and_true, Bool.not_eq_false', List.isEmpty_iff] at hnot
  exact text_ne_nil m hnot

/-- The rounds of the loop, from unit `start` on. -/
def spansFrom (us : List (List Char)) (limit : Int) (start : Nat) : List Span :=
  match _h : nextSpan us limit start with
  | none => []
  | some span => span :: spansFrom us limit span.cut
termination_by us.length - start
decreasing_by exact nextSpan_lt _h

theorem loop_none (h : nextSpan us limit start = none) :
    chunksFrom us limit start = [] ∧ spansFrom us limit start = [] := by
  constructor
  · rw [chunksFrom]
    split
    · rfl
    · next hsome =>
      rw [h] at hsome
      cases hsome
  · rw [spansFrom]
    split
    · rfl
    · next hsome =>
      rw [h] at hsome
      cases hsome

theorem loop_some (h : nextSpan us limit start = some span)
    (hbody : (stripChars (span.body us)).isEmpty = false) :
    chunksFrom us limit start = span.piece us :: chunksFrom us limit span.cut ∧
      spansFrom us limit start = span :: spansFrom us limit span.cut := by
  constructor
  · rw [chunksFrom]
    split
    · next hnone =>
      rw [h] at hnone
      cases hnone
    · next hsome =>
      obtain rfl := Option.some.inj (h.symm.trans hsome)
      rw [hbody]
      rfl
  · rw [spansFrom]
    split
    · next hnone =>
      rw [h] at hnone
      cases hnone
    · next hsome =>
      obtain rfl := Option.some.inj (h.symm.trans hsome)
      rfl

/-- **The loop** sends a message for each of its rounds, and these show all of the text. -/
theorem chunksFrom_text (hroom : Roomy (ms.map text) limit) (start : Nat) :
    chunksFrom (ms.map text) limit start =
        (spansFrom (ms.map text) limit start).map (fun span => html (message ms span)) ∧
      (∀ span ∈ spansFrom (ms.map text) limit start, ∃ i, Taken (ms.map text) limit i span) ∧
      (spansFrom (ms.map text) limit start).flatMap (fun span => visible (message ms span)) =
        shown (openAt ms start) (ms.drop start) := by
  induction start using spansFrom.induct (ms.map text) limit with
  | case1 start hnone =>
    have hblank := nextSpan_none hnone
    rw [← List.map_drop] at hblank
    rw [(loop_none hnone).1, (loop_none hnone).2, (blanks hblank _).2]
    exact ⟨rfl, fun span hspan => (List.not_mem_nil hspan).elim, rfl⟩
  | case2 start span hsome ih =>
    have htaken := nextSpan_spec hroom hsome
    obtain ⟨hchunks, hall, hshown⟩ := ih
    obtain ⟨hloop, hspans⟩ := loop_some hsome (body_not_blank ms htaken)
    rw [hloop, hspans]
    refine ⟨?_, List.forall_mem_cons.mpr ⟨⟨start, htaken⟩, hall⟩, ?_⟩
    · rw [List.map_cons, html_message ms htaken.lt_stop.le, hchunks]
    · rw [List.flatMap_cons, visible_message, hshown, shown_taken htaken]

/-! ## All of the text is sent -/

/-- The limit has room for each unit and the tags that are open around it. -/
def HasRoom (limit : Int) (ms : List Token) : Prop :=
  ∀ i m, ms[i]? = some m →
    ((size (html ((openAt ms i).map .opening)) + size (text m) +
      size (html (closings Tag.name (openAt ms (i + 1)))) : Nat) : Int) ≤ limit

instance (limit : Int) (ms : List Token) : Decidable (HasRoom limit ms) :=
  decidable_of_iff (∀ i, (hi : i < ms.length) →
    ((size (html ((openAt ms i).map .opening)) + size (text ms[i]) +
      size (html (closings Tag.name (openAt ms (i + 1)))) : Nat) : Int) ≤ limit)
    ⟨fun h i m hm => by
      obtain ⟨hi, rfl⟩ := List.getElem?_eq_some_iff.mp hm
      exact h i hi,
    fun h i hi => h i ms[i] (List.getElem?_eq_getElem hi)⟩

theorem HasRoom.roomy (h : HasRoom limit ms) : Roomy (ms.map text) limit := by
  intro i unit hunit
  rw [List.getElem?_map] at hunit
  obtain ⟨m, hm, rfl⟩ := Option.map_eq_some_iff.mp hunit
  rw [opener_text, closers_text]
  exact h i m hm

/-- The messages are balanced, fit the limit and together show what the text shows. -/
structure Lossless (limit : Int) (ms : List Token) (messages : List (List Token)) : Prop where
  balanced : ∀ p ∈ messages, Balanced p
  size : ∀ p ∈ messages, (size (html p) : Int) ≤ limit
  shown : messages.flatMap visible = visible ms

/-- The tokens of the messages. -/
def messages (limit : Int) (ms : List Token) : List (List Token) :=
  if size (html ms) ≤ limit then if ms.all (isBlank ∘ text) then [] else [ms]
  else (spansFrom (ms.map text) limit 0).map (message ms)

/-- A rendered text is blank where all of its units are. -/
theorem stripChars_html (ms : List Token) :
    (stripChars (html ms)).isEmpty = ms.all (isBlank ∘ text) := by
  rw [Bool.eq_iff_iff, List.isEmpty_iff, List.all_eq_true]
  constructor
  · intro hempty m hm
    have hspace : (text m).all isSpace = true := List.all_eq_true.mpr fun c hc =>
      isSpace_of_stripChars_nil hempty c (List.mem_flatMap.mpr ⟨m, hm, hc⟩)
    rw [Function.comp_apply, isBlank, hspace, Bool.and_true,
      Bool.not_eq_true', List.isEmpty_eq_false_iff]
    exact text_ne_nil m
  · intro hall
    have hspace : ∀ c ∈ html ms, isSpace c = true := by
      intro c hc
      obtain ⟨m, hm, hc⟩ := List.mem_flatMap.mp hc
      have hblank := hall m hm
      rw [Function.comp_apply, isBlank, Bool.and_eq_true] at hblank
      exact List.all_eq_true.mp hblank.2 c hc
    rw [stripChars, List.dropWhile_eq_nil_iff.mpr hspace]
    rfl

theorem splitTelegramHtml_html (hroom : HasRoom limit ms) :
    splitTelegramHtml (html ms) limit = (messages limit ms).map html := by
  unfold splitTelegramHtml messages
  rw [stripChars_html, units_html]
  split
  · split
    · rfl
    · rfl
  · rw [(chunksFrom_text hroom.roomy 0).1, List.map_map]
    rfl

theorem lossless_messages (hms : Balanced ms) (hroom : HasRoom limit ms) :
    Lossless limit ms (messages limit ms) := by
  unfold messages
  split
  case isTrue hfits =>
    split
    case isTrue hall =>
      have hblank : ∀ unit ∈ ms.map text, isBlank unit = true := by
        rw [List.forall_mem_map]
        exact List.all_eq_true.mp hall
      exact ⟨fun p hp => (List.not_mem_nil hp).elim, fun p hp => (List.not_mem_nil hp).elim,
        (blanks hblank []).2.symm⟩
    case isFalse =>
      refine ⟨fun p hp => ?_, fun p hp => ?_, List.append_nil _⟩
      · rwa [List.mem_singleton.mp hp]
      · rwa [List.mem_singleton.mp hp]
  case isFalse =>
    obtain ⟨-, htaken, hshown⟩ := chunksFrom_text hroom.roomy 0
    refine ⟨fun p hp => ?_, fun p hp => ?_, ?_⟩
    · obtain ⟨span, hspan, rfl⟩ := List.mem_map.mp hp
      obtain ⟨i, h⟩ := htaken span hspan
      exact balanced_message hms h.lt_stop.le
    · obtain ⟨span, hspan, rfl⟩ := List.mem_map.mp hp
      obtain ⟨i, h⟩ := htaken span hspan
      exact size_message ms h
    · rw [List.flatMap_map, hshown]
      rfl

end GenusOs.Engine.Telegram
