import GenusOs.Engine.TelegramSplit
import Mathlib

/-!
# Which messages show something

The splitter leaves out a message whose HTML is blank, and sends one that is made of tags and
blanks. A cut leaves such a message in front of it where it falls into a stretch of tags and blanks,
and behind it where nothing else is left. A cut is behind the first third of its window, and never
in front of a closing tag that the window could take in, since the window has counted what closes
the tags.

* `fits_step`: what one unit more asks of the limit.
* `cutOf_cases`: where a cut is.
* `shown_lt_cutOf`, `blank_behind_cutOf`: what is in front of a cut, and what is behind the last
  one.
* `split_shows_text`: the messages are lossless, and all of them show something if tags and blanks
  are spread over the text.
-/

namespace GenusOs.Engine.Telegram

open GenusOs.Python GenusOs.Mark

variable {ms : List Token} {m : Token} {us : List (List Char)} {limit : Int} {start i j k n v : Nat}
  {w : Window} {span : Span}

/-! ## Characters that show -/

/-- A character that is no blank. -/
def isShown : Token → Bool
  | .item c => !isSpace c
  | _ => false

def isTag : Token → Bool
  | .item _ => false
  | _ => true

def isClosing : Token → Bool
  | .closing _ => true
  | _ => false

theorem tag_of_closing (h : isClosing m = true) : isTag m = true := by
  cases m with
  | closing n => rfl
  | opening t => cases h
  | item c => cases h

theorem not_blank_of_tag (h : isTag m = true) : isBlank (text m) = false := by
  by_contra hblank
  obtain ⟨c, rfl, -⟩ := isBlank_text (Bool.not_eq_false _ ▸ hblank)
  cases h

theorem not_blank_of_shown (h : isShown m = true) : isBlank (text m) = false := by
  by_contra hblank
  obtain ⟨c, rfl, hc⟩ := isBlank_text (Bool.not_eq_false _ ▸ hblank)
  rw [isShown, hc] at h
  cases h

theorem not_shown_of_blank (h : isBlank (text m) = true) : isShown m = false := by
  by_contra hshown
  rw [not_blank_of_shown (Bool.not_eq_false _ ▸ hshown)] at h
  cases h

theorem blank_of_space {c : Char} (h : isSpace c = true) : isBlank (text (.item c)) = true := by
  rw [text_item]
  rcases escChar_cases c with ⟨name, hname, hesc⟩ | ⟨-, -, -, hesc⟩
  · -- an escaped character is no blank
    exfalso
    unfold escChar at hesc
    split at hesc
    · next hc => rw [hc] at h; exact absurd h (by decide)
    · split at hesc
      · next hc => rw [hc] at h; exact absurd h (by decide)
      · split at hesc
        · next hc => rw [hc] at h; exact absurd h (by decide)
        · have hlength := congrArg List.length hesc
          simp at hlength
  · rw [hesc, isBlank]
    simp [h]

/-- A token is a blank, a tag or a character that shows. -/
theorem tag_of_not_blank (hblank : isBlank (text m) = false) (hshown : isShown m = false) :
    isTag m = true := by
  cases m with
  | opening t => rfl
  | closing n => rfl
  | item c =>
    have hspace : isSpace c = true := by simpa [isShown] using hshown
    rw [blank_of_space hspace] at hblank
    cases hblank

theorem shown_ne_nil_iff (opened : List Tag) (ms : List Token) :
    shown opened ms ≠ [] ↔ ∃ m ∈ ms, isShown m = true := by
  induction ms generalizing opened with
  | nil =>
    constructor
    · intro hne
      exact absurd rfl hne
    · rintro ⟨m, hm, -⟩
      exact absurd hm List.not_mem_nil
  | cons m ms ih =>
    cases m with
    | opening t => exact (ih (opened ++ [t])).trans (by simp [isShown])
    | closing n => exact (ih opened.dropLast).trans (by simp [isShown])
    | item c =>
      rw [shown, under, List.filter_cons, List.exists_mem_cons_iff]
      by_cases hc : isSpace c = true
      · rw [if_neg (by simp [hc])]
        exact (ih opened).trans (by simp [isShown, hc])
      · rw [if_pos (by simpa using hc)]
        exact iff_of_true (List.cons_ne_nil _ _) (.inl (by simpa [isShown] using hc))

/-! ## What one unit more asks of the limit -/

theorem size_html_cons (m : Token) (ms : List Token) :
    size (html (m :: ms)) = size (text m) + size (html ms) := by
  rw [html, List.flatMap_cons, size_append]
  rfl

theorem openAt_succ (h : ms[j]? = some m) : openAt ms (j + 1) = after (openAt ms j) [m] := by
  unfold openAt
  rw [List.take_add_one, h]
  exact after_append ..

/-- What closes the tags in front of a unit is no more than the unit and what closes the tags behind
it; and just that where the unit is a closing tag. -/
theorem closers_step (hms : Balanced ms) (h : ms[j]? = some m) :
    size (closers (ms.map text) j) ≤ size (text m) + size (closers (ms.map text) (j + 1)) ∧
      (isClosing m = true →
        size (closers (ms.map text) j) = size (text m) + size (closers (ms.map text) (j + 1))) := by
  have hnext := openAt_succ h
  rw [closers_text, closers_text]
  change size (html (closings Tag.name (openAt ms j))) ≤
      size (text m) + size (html (closings Tag.name (openAt ms (j + 1)))) ∧ _
  cases m with
  | opening t =>
    refine ⟨?_, fun hclosing => by cases hclosing⟩
    have hopened : openAt ms (j + 1) = openAt ms j ++ [t] := hnext
    rw [hopened, closings_concat, size_html_cons]
    exact (Nat.le_add_left _ _).trans (Nat.le_add_left _ _)
  | item c =>
    refine ⟨?_, fun hclosing => by cases hclosing⟩
    have hopened : openAt ms (j + 1) = openAt ms j := hnext
    rw [hopened]
    exact Nat.le_add_left _ _
  | closing name =>
    -- the innermost tag has this name, and goes
    have hcloses := hms.closes
    rw [← List.take_append_drop j ms, closes_append] at hcloses
    have hdrop : ms.drop j = .closing name :: ms.drop (j + 1) := by
      obtain ⟨hlt, heq⟩ := List.getElem?_eq_some_iff.mp h
      rw [List.drop_eq_getElem_cons hlt, heq]
    rw [hdrop] at hcloses
    obtain ⟨⟨t, hlast, hname⟩, -⟩ := hcloses.2
    have hopened : openAt ms (j + 1) = (openAt ms j).dropLast := hnext
    have hsame : openAt ms j = openAt ms (j + 1) ++ [t] := by
      rw [hopened]
      exact (List.dropLast_append_getLast? t hlast).symm
    have hsize : size (html (closings Tag.name (openAt ms j))) =
        size (text (.closing name)) + size (html (closings Tag.name (openAt ms (j + 1)))) := by
      rw [hsame, closings_concat, size_html_cons, hname]
    exact ⟨hsize.le, fun _ => hsize⟩

theorem flatten_slice_succ (hij : i ≤ j) (h : ms[j]? = some m) :
    size (slice (ms.map text) i (j + 1)).flatten =
      size (slice (ms.map text) i j).flatten + size (text m) := by
  have hunit : (ms.map text)[j]? = some (text m) := by
    rw [List.getElem?_map, h]
    rfl
  rw [slice_succ hij hunit, List.flatten_append, size_append, List.flatten_singleton]

/-- **One unit more**: what fits with it fits without it, and a closing tag fits. -/
theorem fits_step (hms : Balanced ms) (hij : i ≤ j) (h : ms[j]? = some m) :
    (Fits (ms.map text) limit i (j + 1) → Fits (ms.map text) limit i j) ∧
      (isClosing m = true → Fits (ms.map text) limit i j → Fits (ms.map text) limit i (j + 1)) := by
  obtain ⟨hle, heq⟩ := closers_step hms h
  unfold Fits
  rw [flatten_slice_succ hij h]
  exact ⟨fun hfits => by omega, fun hclosing hfits => by have := heq hclosing; omega⟩

theorem fits_of_le (hms : Balanced ms) (hij : i ≤ j) (hjk : j ≤ k) (hk : k ≤ ms.length)
    (h : Fits (ms.map text) limit i k) : Fits (ms.map text) limit i j := by
  induction k, hjk using Nat.le_induction with
  | base => exact h
  | succ k hjk ih =>
    have hunit : ms[k]? = some ms[k] := List.getElem?_eq_getElem (Nat.lt_of_succ_le hk)
    exact ih ((Nat.le_succ k).trans hk) ((fits_step hms (hij.trans hjk) hunit).1 h)

/-- What fits is the stretch, with the tags that are open around it. -/
theorem fits_iff (hij : i ≤ j) : Fits (ms.map text) limit i j ↔
    (size (html (reopened Tag.name (openAt ms i) (slice ms i j))) : Int) ≤ limit := by
  have hhtml : html (reopened Tag.name (openAt ms i) (slice ms i j)) =
      Span.piece (ms.map text) ⟨i, j, j⟩ := by
    have hspan : (⟨i, j, j⟩ : Span).start ≤ (⟨i, j, j⟩ : Span).stop := hij
    exact html_message ms hspan
  rw [hhtml, Span.piece, size_append, size_append]
  rfl

/-! ## Where a cut is -/

/-- The window ends with the text, or in front of a unit that does not fit. -/
theorem WindowInv.grow_stop (hroom : Roomy us limit) {ahead : List (List Char)}
    (h : WindowInv us limit start w ahead) : us.length ≤ (Telegram.grow us limit start w ahead).i ∨
      ¬ Fits us limit start ((Telegram.grow us limit start w ahead).i + 1) := by
  induction ahead generalizing w with
  | nil => exact .inl (List.drop_eq_nil_iff.mp h.ahead)
  | cons unit rest ih =>
    unfold Telegram.grow
    dsimp only
    split
    · next hstop =>
      right
      have hunit : us[w.i]? = some unit := by
        rw [← List.head?_drop, h.ahead]
        rfl
      unfold Fits
      rw [slice_succ h.start_le hunit, List.flatten_append, size_append, List.flatten_singleton,
        ← Nat.add_assoc, ← h.size]
      exact not_le.mpr hstop.1
    · next hgo => exact ih (h.next hroom hgo)

/-- **Where a cut is**: at the end of the text, or at the end of the window, or behind a blank that
is behind the first third of the window. -/
theorem cutOf_cases (hroom : Roomy us limit) (h : start < us.length) :
    cutOf us limit start = us.length ∨ ∃ i, start < i ∧ i < us.length ∧ Fits us limit start i ∧
      ¬ Fits us limit start (i + 1) ∧
      (cutOf us limit start = i ∨ start + (i - start) / 3 < cutOf us limit start ∧
        cutOf us limit start ≤ i ∧
        ∃ unit, us[cutOf us limit start - 1]? = some unit ∧ isBlank unit = true) := by
  obtain ⟨rest, hinv⟩ := window_spec hroom start
  have hstop : us.length ≤ (window us limit start).i ∨
      ¬ Fits us limit start ((window us limit start).i + 1) := by
    refine WindowInv.grow_stop hroom ⟨rfl, le_refl _, ?_, ?_, ?_⟩
    · rw [slice_self]
      rfl
    · exact fun j hj hle => absurd hj (not_lt.mpr hle)
    · rintro c (hc | hc | hc)
      all_goals cases hc
  have hlt : start < (window us limit start).i := by
    refine (le_grow _ (le_refl start)).2 ?_
    rw [ne_eq, List.drop_eq_nil_iff, not_le]
    exact h
  unfold cutOf
  dsimp only
  split
  · exact .inl rfl
  next hmore =>
  have hmore := not_le.mp hmore
  refine .inr ⟨_, hlt, hmore, hinv.fits _ hlt le_rfl, hstop.resolve_left (not_le.mpr hmore), ?_⟩
  cases hfind : List.find? _ _ with
  | none => exact .inl rfl
  | some c =>
    have hfloor := List.find?_some hfind
    have hmem := List.mem_of_find?_eq_some hfind
    simp only [List.mem_filterMap, List.mem_cons, List.not_mem_nil, or_false, id_eq,
      exists_eq_right] at hmem
    have hbreaks := hinv.breaks c (by
      rcases hmem with hc | hc | hc
      · exact .inl hc.symm
      · exact .inr (.inl hc.symm)
      · exact .inr (.inr hc.symm))
    exact .inr ⟨of_decide_eq_true hfloor, hbreaks⟩

/-! ## Texts whose tags and blanks are spread -/

/-- From a tag on, `n` tags and blanks, and then a character that shows. -/
def Gap (ms : List Token) (i n : Nat) : Prop :=
  ms[i]?.any isTag ∧ (slice ms i (i + n)).all (!isShown ·) ∧ ms[i + n]?.any isShown

/-- **Tags and blanks are spread.** Three times as much as any stretch of them that begins with a
tag, up to the next character that shows, fits the limit with the tags that are open around it; and
behind the last character that shows are only closing tags and then blanks. -/
structure Spread (limit : Int) (ms : List Token) : Prop where
  gaps : ∀ i n, Gap ms i n → (size (html (reopened Tag.name (openAt ms i)
    (slice ms i (min (i + 3 * n) ms.length)))) : Int) ≤ limit
  ends : ∃ front m closing back, ms = front ++ m :: (closing ++ back) ∧ isShown m = true ∧
    (∀ m ∈ closing, isClosing m = true) ∧ ∀ m ∈ back, isBlank (text m) = true

/-- Something in front of the cut shows, if anything behind the first unit does. -/
theorem shown_lt_cutOf (hms : Balanced ms) (hroom : Roomy (ms.map text) limit)
    (hspread : Spread limit ms) (hsv : start ≤ v) (hfirst : ∀ m, ms[start]? = some m →
      isBlank (text m) = false) (hgap : (slice ms start v).all (!isShown ·))
    (hv : ms[v]?.any isShown) : v < cutOf (ms.map text) limit start := by
  obtain ⟨shown, hshown, -⟩ := (Option.any_eq_true _ _).mp hv
  have hvlen : v < ms.length := (List.getElem?_eq_some_iff.mp hshown).1
  have hlen : (ms.map text).length = ms.length := List.length_map ..
  have hslen : start < (ms.map text).length := by omega
  rcases Nat.eq_or_lt_of_le hsv with rfl | hlt
  · exact lt_cutOf hslen
  -- the stretch begins with a tag, and three times of it are in the window
  have hgaps : Fits (ms.map text) limit start (min (start + 3 * (v - start)) ms.length) := by
    refine (fits_iff (by omega)).mpr (hspread.gaps start (v - start) ⟨?_, ?_, ?_⟩)
    · have hunit : ms[start]? = some ms[start] := List.getElem?_eq_getElem (by omega)
      have hbare := List.all_eq_true.mp hgap _ (mem_slice hlt hunit)
      rw [hunit, Option.any_some]
      exact tag_of_not_blank (hfirst _ hunit) (by simpa using hbare)
    · rwa [Nat.add_sub_cancel' hsv]
    · rwa [Nat.add_sub_cancel' hsv]
  rcases cutOf_cases hroom hslen with hend | ⟨i, hi, hilen, -, hfull, hcut⟩
  · omega
  have hwide : start + 3 * (v - start) ≤ i := by
    by_contra hshort
    refine hfull (fits_of_le hms (by omega) ?_ ?_ hgaps)
    · omega
    · omega
  rcases hcut with hcut | ⟨hfloor, -, -⟩
  · omega
  · omega

/-- Where nothing behind the cut shows, it is all blank. -/
theorem blank_behind_cutOf (hms : Balanced ms) (hroom : Roomy (ms.map text) limit)
    (hspread : Spread limit ms) (h : start < ms.length)
    (hbare : ∀ m ∈ ms.drop (cutOf (ms.map text) limit start), isShown m = false) :
    ∀ m ∈ ms.drop (cutOf (ms.map text) limit start), isBlank (text m) = true := by
  obtain ⟨front, last, closing, back, hsplit, hlast, hclosing, hback⟩ := hspread.ends
  have hlen : (ms.map text).length = ms.length := List.length_map ..
  set cut := cutOf (ms.map text) limit start with hcutdef
  -- where the tokens of the end are
  have hunit (k : Nat) : ms[k]? = (front ++ last :: (closing ++ back))[k]? := by rw [← hsplit]
  have hlastAt : ms[front.length]? = some last := by
    rw [hunit, List.getElem?_append_right le_rfl, Nat.sub_self]
    rfl
  have hclosingAt {k : Nat} {m : Token} (hlow : front.length + 1 ≤ k)
      (hhigh : k < front.length + 1 + closing.length) (hm : ms[k]? = some m) :
      isClosing m = true := by
    rw [hunit, List.getElem?_append_right (by omega), List.getElem?_cons,
      if_neg (by omega), List.getElem?_append_left (by omega)] at hm
    exact hclosing m (List.mem_of_getElem? hm)
  have hlastFront : front.length < cut := by
    by_contra hle
    have hmem : last ∈ ms.drop cut := by
      refine List.mem_of_getElem? (i := front.length - cut) ?_
      rw [List.getElem?_drop, Nat.add_sub_cancel' (not_lt.mp hle), hlastAt]
    rw [hbare last hmem] at hlast
    cases hlast
  suffices hend : front.length + 1 + closing.length ≤ cut by
    intro m hm
    have hdrop : ms.drop (front.length + 1 + closing.length) = back := by
      rw [hsplit, List.drop_append, List.drop_of_length_le (by omega), List.nil_append,
        show front.length + 1 + closing.length - front.length = closing.length + 1 by omega,
        List.drop_succ_cons, List.drop_left]
    refine hback m (hdrop ▸ ?_)
    rw [← Nat.add_sub_cancel' hend, ← List.drop_drop] at hm
    exact List.mem_of_mem_drop hm
  by_contra hshort
  have hall : ms.length = front.length + 1 + closing.length + back.length := by
    rw [hsplit]
    simp
    omega
  rcases cutOf_cases hroom (hlen ▸ h) with hend | ⟨i, hi, hilen, hfits, hfull, hcut⟩
  · omega
  rcases hcut with hcut | ⟨-, hle, unit, hblankAt, hblank⟩
  · -- the window would have taken in the closing tag
    have hm : ms[i]? = some ms[i] := List.getElem?_eq_getElem (by omega)
    exact hfull ((fits_step hms hi.le hm).2 (hclosingAt (by omega) (by omega) hm) hfits)
  · -- what is in front of the break is no blank
    rw [← hcutdef] at hblankAt hle
    obtain ⟨m, hm, rfl⟩ : ∃ m, ms[cut - 1]? = some m ∧ text m = unit := by
      rw [List.getElem?_map] at hblankAt
      exact Option.map_eq_some_iff.mp hblankAt
    have hnot : isBlank (text m) = false := by
      rcases Nat.eq_or_lt_of_le (show front.length ≤ cut - 1 by omega) with heq | hlt
      · rw [← heq, hlastAt] at hm
        exact Option.some.inj hm ▸ not_blank_of_shown hlast
      · exact not_blank_of_tag (tag_of_closing (hclosingAt (by omega) (by omega) hm))
    rw [hnot] at hblank
    cases hblank

/-! ## Every message shows something -/

/-- The next character that shows, and the stretch in front of it. -/
theorem exists_next_shown {l : List Token} (h : ∃ m ∈ l, isShown m = true) :
    ∃ n, (l.take n).all (!isShown ·) ∧ l[n]?.any isShown := by
  induction l with
  | nil =>
    obtain ⟨m, hm, -⟩ := h
    exact absurd hm List.not_mem_nil
  | cons m l ih =>
    by_cases hm : isShown m = true
    · exact ⟨0, rfl, by simpa using hm⟩
    · obtain ⟨n, hbare, hn⟩ := ih (((List.exists_mem_cons_iff _ m l).mp h).resolve_left hm)
      refine ⟨n + 1, ?_, by simpa using hn⟩
      rw [List.take_succ_cons, List.all_cons, hbare, Bool.eq_false_iff.mpr hm]
      rfl

theorem nextSpan_cut (h : nextSpan us limit start = some span) :
    span.cut = cutOf us limit span.start := by
  unfold nextSpan at h
  dsimp only at h
  split at h
  · cases h
  · cases h
    rfl

/-- **Every round takes something that shows**, if where nothing shows from its start on there are
only blanks. The first round starts with all of the text, and the end of the text keeps it so. -/
theorem spansFrom_shown (hms : Balanced ms) (hroom : Roomy (ms.map text) limit)
    (hspread : Spread limit ms) (start : Nat)
    (h : (∀ m ∈ ms.drop start, isShown m = false) →
      ∀ m ∈ ms.drop start, isBlank (text m) = true) :
    ∀ span ∈ spansFrom (ms.map text) limit start,
      ∃ m ∈ slice ms span.start span.stop, isShown m = true := by
  induction start using spansFrom.induct (ms.map text) limit with
  | case1 start hnone =>
    rw [(loop_none hnone).2]
    exact fun span hspan => absurd hspan List.not_mem_nil
  | case2 start span hsome ih =>
    have htaken := nextSpan_spec hroom hsome
    have hcut := nextSpan_cut hsome
    have hlen : (ms.map text).length = ms.length := List.length_map ..
    have hstart : span.start < ms.length := by
      have hlt := htaken.lt_stop
      have hle := htaken.stop_le.trans htaken.cut_le
      omega
    have hfirst : ∀ m, ms[span.start]? = some m → isBlank (text m) = false := by
      obtain ⟨unit, hunit, hnot⟩ := htaken.first
      intro m hm
      rw [List.getElem?_map, hm] at hunit
      rwa [← Option.some.inj hunit] at hnot
    -- something shows behind the first unit, which is no blank
    have hshows : ∃ m ∈ ms.drop span.start, isShown m = true := by
      by_contra hbare
      push Not at hbare
      have hunit : ms[span.start]? = some ms[span.start] := List.getElem?_eq_getElem hstart
      have hmem : ms[span.start] ∈ ms.drop start := by
        rw [← slice_append_drop ms htaken.start_le]
        exact List.mem_append_right _ (List.mem_of_getElem? (i := 0) (by simp))
      have hall : ∀ m ∈ ms.drop start, isShown m = false := by
        intro m hm
        rw [← slice_append_drop ms htaken.start_le] at hm
        rcases List.mem_append.mp hm with hm | hm
        · refine not_shown_of_blank (htaken.front (text m) ?_)
          rw [slice_map]
          exact List.mem_map_of_mem hm
        · exact Bool.eq_false_iff.mpr (hbare m hm)
      have hblank := h hall _ hmem
      rw [hfirst _ hunit] at hblank
      cases hblank
    obtain ⟨n, hbare, hn⟩ := exists_next_shown hshows
    have hgap : (slice ms span.start (span.start + n)).all (!isShown ·) := by
      rwa [slice_eq, Nat.add_sub_cancel_left]
    rw [List.getElem?_drop] at hn
    have hlt : span.start + n < span.cut :=
      hcut ▸ shown_lt_cutOf hms hroom hspread (Nat.le_add_right _ _) hfirst hgap hn
    obtain ⟨m, hm, hshown⟩ := (Option.any_eq_true _ _).mp hn
    -- it is in front of the blanks that the round leaves out
    have hstop : span.start + n < span.stop := by
      by_contra hle
      have hunit : (ms.map text)[span.start + n]? = some (text m) := by
        rw [List.getElem?_map, hm]
        rfl
      have hmem : text m ∈ slice (ms.map text) span.stop span.cut := by
        rw [← slice_append (ms.map text) (not_lt.mp hle) hlt.le]
        exact List.mem_append_right _ (mem_slice hlt hunit)
      have hblank := htaken.back _ hmem
      rw [not_blank_of_shown hshown] at hblank
      cases hblank
    rw [(loop_some hsome (body_not_blank ms htaken)).2]
    refine List.forall_mem_cons.mpr ⟨⟨m, ?_, hshown⟩, ih fun hrest => ?_⟩
    · rw [← slice_append ms (Nat.le_add_right _ _) hstop.le]
      exact List.mem_append_right _ (mem_slice hstop hm)
    · rw [hcut] at hrest ⊢
      exact blank_behind_cutOf hms hroom hspread hstart hrest

/-- **When all that is sent shows something**: the text that fits shows something itself, or is
blank and not sent; in the text that has to be cut, tags and blanks are spread, if it is not blank.
-/
def Showing (limit : Int) (ms : List Token) : Prop :=
  (∀ m ∈ ms, isBlank (text m) = true) ∨
    if size (html ms) ≤ limit then ∃ m ∈ ms, isShown m = true else Spread limit ms

/-- Nothing is sent of a blank text. -/
theorem messages_blank (hroom : HasRoom limit ms) (h : ∀ m ∈ ms, isBlank (text m) = true) :
    messages limit ms = [] := by
  unfold messages
  split
  · have hall : ms.all (isBlank ∘ text) = true := List.all_eq_true.mpr h
    rw [if_pos hall]
  · rw [List.map_eq_nil_iff, List.eq_nil_iff_forall_not_mem]
    intro span hspan
    obtain ⟨i, htaken⟩ := (chunksFrom_text hroom.roomy 0).2.1 span hspan
    obtain ⟨unit, hunit, hnot⟩ := htaken.first
    obtain ⟨m, hm, rfl⟩ := List.mem_map.mp (List.mem_of_getElem? hunit)
    rw [h m hm] at hnot
    cases hnot

theorem visible_messages (hms : Balanced ms) (hroom : HasRoom limit ms)
    (hshowing : Showing limit ms) : ∀ p ∈ messages limit ms, visible p ≠ [] := by
  rcases hshowing with hblank | hshowing
  · rw [messages_blank hroom hblank]
    exact fun p hp => absurd hp List.not_mem_nil
  unfold messages
  split at hshowing
  case isTrue hfits =>
    rw [if_pos hfits]
    obtain ⟨m, hm, hshown⟩ := hshowing
    intro p hp
    split at hp
    · cases hp
    · rw [List.mem_singleton.mp hp]
      exact (shown_ne_nil_iff [] ms).mpr ⟨m, hm, hshown⟩
  case isFalse hlarge =>
    rw [if_neg hlarge, List.forall_mem_map]
    obtain ⟨front, last, closing, back, hsplit, hlast, -⟩ := hshowing.ends
    intro span hspan
    have hmem : last ∈ ms.drop 0 := by
      rw [hsplit]
      simp
    rw [visible_message]
    refine (shown_ne_nil_iff _ _).mpr (spansFrom_shown hms hroom.roomy hshowing 0 ?_ span hspan)
    intro hbare
    rw [hbare last hmem] at hlast
    cases hlast

/-- A text that fits is sent as it is, and shows something only if it is `Showing`. -/
theorem showing_of_fits (hfits : (size (html ms) : Int) ≤ limit)
    (h : ∀ p ∈ messages limit ms, visible p ≠ []) : Showing limit ms := by
  unfold messages at h
  rw [if_pos hfits] at h
  unfold Showing
  rw [if_pos hfits]
  by_cases hall : ms.all (isBlank ∘ text) = true
  · exact .inl (List.all_eq_true.mp hall)
  · rw [if_neg hall] at h
    exact .inr ((shown_ne_nil_iff [] ms).mp (h ms (List.mem_singleton_self _)))

/-- **Splitting.** The messages are balanced, fit the limit and show all of the text, each character
under the tags that it stands under. All of them show something if the text is `Showing`, and where
it fits the limit only then. -/
theorem split_shows_text (hms : Balanced ms) (hroom : HasRoom limit ms) :
    (∃ out, splitTelegramHtml (html ms) limit = out.map html ∧ Lossless limit ms out) ∧
    (Showing limit ms → ∃ out, splitTelegramHtml (html ms) limit = out.map html ∧
      Lossless limit ms out ∧ ∀ p ∈ out, visible p ≠ []) ∧
    ((size (html ms) : Int) ≤ limit → (∃ out, splitTelegramHtml (html ms) limit = out.map html ∧
      Lossless limit ms out ∧ ∀ p ∈ out, visible p ≠ []) → Showing limit ms) := by
  have hsplit := splitTelegramHtml_html hroom
  have hlossless := lossless_messages hms hroom
  refine ⟨⟨messages limit ms, hsplit, hlossless⟩, fun hshowing =>
    ⟨messages limit ms, hsplit, hlossless, visible_messages hms hroom hshowing⟩, ?_⟩
  rintro hfits ⟨out, hout, -, hshows⟩
  have hsame : out = messages limit ms := html_injective.list_map (hout.symm.trans hsplit)
  exact showing_of_fits hfits (hsame ▸ hshows)

/-- A code span with one character. -/
def codeSpan (c : Char) : List Token := [.opening codeTag, .item c, .closing codeTag.name]

theorem balanced_codeSpan (c : Char) : Balanced (codeSpan c) :=
  ⟨⟨⟨codeTag, rfl, rfl⟩, trivial⟩, rfl⟩

/-- The code span of a blank is sent, and shows nothing. -/
theorem blank_code_sent :
    ¬ ∀ (children : List Inline) (ms : List Token) (limit : Int), inline true children = html ms →
      Balanced ms → HasRoom limit ms →
        ∃ out, splitTelegramHtml (html ms) limit = out.map html ∧ Lossless limit ms out ∧
          ∀ p ∈ out, visible p ≠ [] := by
  intro h
  have hroom : HasRoom 4000 (codeSpan ' ') := by decide +kernel
  obtain ⟨out, hout, -, hshows⟩ :=
    h [.codeInline [' ']] (codeSpan ' ') 4000 rfl (balanced_codeSpan ' ') hroom
  have hsent : splitTelegramHtml (html (codeSpan ' ')) 4000 = [codeSpan ' '].map html := by
    rw [splitTelegramHtml_html hroom, messages, if_pos (by decide), if_neg (by decide)]
  have hsame : out = [codeSpan ' '] := html_injective.list_map (hout.symm.trans hsent)
  exact hshows (codeSpan ' ') (hsame ▸ List.mem_singleton_self _) (by decide)

/-! ### A text that is cut -/

/-- Words in code spans, with paragraph breaks between them. -/
def sampleText : List Token :=
  let span (word : String) : List Token :=
    .opening codeTag :: word.toList.map .item ++ [.closing codeTag.name]
  span "one two three four" ++ "\n\n".toList.map .item ++ span "five six" ++
    " and seven eight".toList.map .item

theorem balanced_sampleText : Balanced sampleText := by
  have hchars (word : List Char) : Balanced (word.map .item) := by
    induction word with
    | nil => exact Nested.nil
    | cons c word ih => exact (Nested.item c).append ih
  have hspan (word : List Char) :
      Balanced (.opening codeTag :: (word.map .item ++ [.closing codeTag.name])) :=
    Nested.wrap codeTag (hchars word)
  exact (((hspan _).append (hchars _)).append (hspan _)).append (hchars _)

instance (ms : List Token) (i n : Nat) : Decidable (Gap ms i n) := by
  unfold Gap
  infer_instance

theorem spread_sampleText : Spread 40 sampleText where
  gaps := by
    have hbounded : ∀ i < sampleText.length, ∀ n < sampleText.length, Gap sampleText i n →
        (size (html (reopened Tag.name (openAt sampleText i)
          (slice sampleText i (min (i + 3 * n) sampleText.length)))) : Int) ≤ 40 := by
      decide +kernel
    intro i n hgap
    obtain ⟨m, hm, -⟩ := (Option.any_eq_true _ _).mp hgap.2.2
    have hlt := (List.getElem?_eq_some_iff.mp hm).1
    exact hbounded i (by omega) n (by omega) hgap
  ends := ⟨sampleText.take 47, .item 't', [], [], rfl, rfl, by simp, by simp⟩

/-- The text does not fit the limit, and every message that it is cut into shows something. -/
theorem sampleText_shown : ¬ (size (html sampleText) : Int) ≤ 40 ∧
    ∃ out, splitTelegramHtml (html sampleText) 40 = out.map html ∧ Lossless 40 sampleText out ∧
      ∀ p ∈ out, visible p ≠ [] := by
  have hlarge : ¬ (size (html sampleText) : Int) ≤ 40 := by decide +kernel
  refine ⟨hlarge, (split_shows_text balanced_sampleText (by decide +kernel)).2.1 (.inr ?_)⟩
  rw [if_neg hlarge]
  exact spread_sampleText

end GenusOs.Engine.Telegram
