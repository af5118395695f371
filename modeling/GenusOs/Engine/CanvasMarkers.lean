import GenusOs.Library.Cut
import GenusOs.Library.Words
import GenusOs.Python.Str
import Mathlib

/-!
# Canvas markers

`strip_canvas_markers` cuts the browser's markers out of a text before a person sees it: a marker is
closed by counting brackets outside JSON strings, a sentinel takes its place, and the sentinels go
with the blanks around them.

* `words_stripCanvasMarkers`: what is left has the words of what stands outside the markers.
* `markers_gone_iff`: no marker is left, and nothing else is lost, exactly where no marker stands
  inside the opening of another one and where no NUL stands outside the markers.
-/

namespace GenusOs.Engine.Chunking

open GenusOs.Python

def MARKER_PREFIXES : List String := ["[DASHBOARD:", "[RENDER:"]

/-- The loop of `_marker_end`: how many characters it walks over up to the end of the marker. -/
def markerEnd (depth : Int) (inString escaped : Bool) : List Char → Nat
  | [] => 0
  | c :: text =>
    if inString then
      if escaped then markerEnd depth true false text + 1
      else if c = '\\' then markerEnd depth true true text + 1
      else if c = '"' then markerEnd depth false false text + 1
      else markerEnd depth true false text + 1
    else if c = '"' then markerEnd depth true escaped text + 1
    else if c = '[' ∨ c = '{' then markerEnd (depth + 1) false escaped text + 1
    else if c = ']' ∨ c = '}' then
      if depth - 1 = 0 then 1 else markerEnd (depth - 1) false escaped text + 1
    else markerEnd depth false escaped text + 1

/-- `text.find(sub)`. -/
def find (sub text : List Char) : Option Nat := (cutAt sub text).map (·.1.length)

/-- Where the first marker opens. -/
def hit (text : List Char) : Option Nat :=
  (MARKER_PREFIXES.filterMap fun opening => find opening.toList text).min?

variable {text : List Char} {pos : Nat} {opening : String}

theorem opening_ne_nil (h : opening ∈ MARKER_PREFIXES) : opening.toList ≠ [] := by
  revert opening
  decide

theorem hit_le (h : hit text = some pos) (hopening : opening ∈ MARKER_PREFIXES) {n : Nat}
    (hfind : find opening.toList text = some n) : pos ≤ n :=
  (List.min?_eq_some_iff.mp h).2 n (List.mem_filterMap.mpr ⟨opening, hopening, hfind⟩)

/-- A marker opens where one is found. -/
theorem opening_at_hit (h : hit text = some pos) :
    ∃ opening ∈ MARKER_PREFIXES, opening.toList <+: text.drop pos := by
  obtain ⟨opening, hmem, hfind⟩ := List.mem_filterMap.mp (List.min?_eq_some_iff.mp h).1
  obtain ⟨⟨before, after⟩, hcut, rfl⟩ := Option.map_eq_some_iff.mp hfind
  refine ⟨opening, hmem, after, ?_⟩
  rw [eq_of_cutAt hcut, List.append_assoc, List.drop_left]

theorem markerEnd_pos {c : Char} (depth : Int) (inString escaped : Bool) :
    0 < markerEnd depth inString escaped (c :: text) := by
  unfold markerEnd
  split_ifs <;> omega

theorem rest_shorter (h : hit text = some pos) :
    ((text.drop pos).drop (markerEnd 0 false false (text.drop pos))).length < text.length := by
  obtain ⟨opening, hmem, hopening⟩ := opening_at_hit h
  cases hdrop : text.drop pos with
  | nil =>
    rw [hdrop] at hopening
    exact absurd (List.prefix_nil.mp hopening) (opening_ne_nil hmem)
  | cons c rest =>
    have hlen := congrArg List.length hdrop
    have hpos : 0 < markerEnd 0 false false (c :: rest) := markerEnd_pos 0 false false
    rw [List.length_drop, List.length_cons] at hlen
    rw [List.length_drop, List.length_cons]
    omega

/-- The loop of `strip_canvas_markers`: each marker with the text before it, and the text behind the
last one. `out` has the texts, with a sentinel for each marker. -/
def cutMarkers (text : List Char) : List (List Char × List Char) × List Char :=
  match _h : hit text with
  | none => ([], text)
  | some pos =>
    let marker := text.drop pos
    let n := markerEnd 0 false false marker
    let cut := cutMarkers (marker.drop n)
    ((text.take pos, marker.take n) :: cut.1, cut.2)
termination_by text.length
decreasing_by exact rest_shorter _h

def sentinel : Char := '\x00'

/-- `"".join(out)`. -/
def joined (text : List Char) : List Char :=
  (cutMarkers text).1.flatMap (fun cut => cut.1 ++ [sentinel]) ++ (cutMarkers text).2

/-- `s.replace(sentinel, "")`. -/
def unmarked (s : List Char) : List Char := s.filter (· ≠ sentinel)

/-- What becomes of one line; `none` where the markers had it to themselves. -/
def cleanLine (line : List Char) : Option (List Char) :=
  if sentinel ∈ line ∧ stripChars (unmarked line) = [] then none
  else some (rstripChars (unmarked (replaceChars [' ', sentinel, ' '] [' '] 0 line)))

/-- `not line.strip()`. -/
def isBlank (line : List Char) : Bool := stripChars line = []

/-- Some marker opens in the text. -/
def isMarked (text : String) : Bool := MARKER_PREFIXES.any (isIn · text)

def stripCanvasMarkers (text : String) : String :=
  if isMarked text = false then text
  else
    let lines := ((joined text.toList).splitOn '\n').filterMap cleanLine
    String.ofList (['\n'].intercalate ((lines.dropWhile isBlank).rdropWhile isBlank))

/-! ## What stands outside the markers -/

/-- The stretches of the text between its markers. -/
def stretches (text : List Char) : List (List Char) :=
  (cutMarkers text).1.map Prod.fst ++ [(cutMarkers text).2]

/-- Every character outside a marker, in order. -/
def outside (text : List Char) : List Char := (stretches text).flatten

/-- Some marker stands inside the opening of another one: outside the markers, a part of it comes
before some marker and the rest behind that marker. -/
def Spliced (text : List Char) : Prop :=
  ∃ opening ∈ MARKER_PREFIXES, ∃ left right, stretches text = left ++ right ∧
    ∃ u v, u ≠ [] ∧ v ≠ [] ∧
    opening.toList = u ++ v ∧ u <:+ left.flatten ∧ v <+: right.flatten

theorem cutMarkers_none (h : hit text = none) : cutMarkers text = ([], text) := by
  rw [cutMarkers]
  split
  · rfl
  · next pos hpos =>
    rw [h] at hpos
    cases hpos

theorem cutMarkers_some (h : hit text = some pos) :
    cutMarkers text =
      let marker := text.drop pos
      let n := markerEnd 0 false false marker
      ((text.take pos, marker.take n) :: (cutMarkers (marker.drop n)).1,
        (cutMarkers (marker.drop n)).2) := by
  rw [cutMarkers]
  split
  · next hnone =>
    rw [h] at hnone
    cases hnone
  · next pos' hpos' =>
    rw [h] at hpos'
    cases hpos'
    rfl

/-- What can be shown at the first marker can be shown of every text. -/
theorem markers_induction {P : List Char → Prop} (plain : ∀ text, hit text = none → P text)
    (marked : ∀ text pos, hit text = some pos →
      P ((text.drop pos).drop (markerEnd 0 false false (text.drop pos))) → P text)
    (text : List Char) : P text := by
  induction hn : text.length using Nat.strongRecOn generalizing text with
  | ind n ih =>
    cases h : hit text with
    | none => exact plain text h
    | some pos => exact marked text pos h (ih _ (hn ▸ rest_shorter h) _ rfl)

/-- An opening has no bracket that closes it. -/
theorem length_le_markerEnd (hopening : opening ∈ MARKER_PREFIXES) (rest : List Char) :
    opening.toList.length ≤ markerEnd 0 false false (opening.toList ++ rest) := by
  simp only [MARKER_PREFIXES, List.mem_cons, List.not_mem_nil, or_false] at hopening
  rcases hopening with rfl | rfl <;> simp [markerEnd]

/-- The markers and what stands outside them are the text, and every marker opens as one. -/
theorem cutMarkers_parts (text : List Char) :
    (cutMarkers text).1.flatMap (fun cut => cut.1 ++ cut.2) ++ (cutMarkers text).2 = text ∧
      ∀ cut ∈ (cutMarkers text).1, ∃ opening ∈ MARKER_PREFIXES, opening.toList <+: cut.2 := by
  induction text using markers_induction with
  | plain text h => simp [cutMarkers_none h]
  | marked text pos h ih =>
    rw [cutMarkers_some h]
    dsimp only
    obtain ⟨htext, hopen⟩ := ih
    refine ⟨?_, List.forall_mem_cons.mpr ⟨?_, hopen⟩⟩
    · rw [List.flatMap_cons, List.append_assoc, htext, List.append_assoc, List.take_append_drop,
        List.take_append_drop]
    · obtain ⟨opening, hmem, hopening⟩ := opening_at_hit h
      refine ⟨opening, hmem, List.prefix_take_iff.mpr ⟨hopening, ?_⟩⟩
      obtain ⟨rest, hrest⟩ := hopening
      rw [← hrest]
      exact length_le_markerEnd hmem rest

theorem find_eq_none_iff {sub : List Char} : find sub text = none ↔ ¬ sub <:+: text := by
  rw [find, Option.map_eq_none_iff, cutAt_eq_none_iff]

theorem hit_eq_none_iff :
    hit text = none ↔ ∀ opening ∈ MARKER_PREFIXES, ¬ opening.toList <:+: text := by
  rw [hit, List.min?_eq_none_iff, List.filterMap_eq_nil_iff]
  exact forall₂_congr fun opening _ => find_eq_none_iff

/-- No marker opens in front of the first one. -/
theorem not_infix_take (h : hit text = some pos) (hopening : opening ∈ MARKER_PREFIXES) :
    ¬ opening.toList <:+: text.take pos := by
  intro hin
  cases hcut : cutAt opening.toList (text.take pos) with
  | none => exact cutAt_eq_none_iff.mp hcut hin
  | some cut =>
    have hfind : find opening.toList text = some cut.1.length := by
      rw [find, ← List.take_append_drop pos text, cutAt_append hcut]
      rfl
    have hle := hit_le h hopening hfind
    have hlen := congrArg List.length (eq_of_cutAt hcut)
    have hpos := List.length_pos_of_ne_nil (opening_ne_nil hopening)
    rw [List.length_append, List.length_append, List.length_take] at hlen
    omega

theorem not_infix_stretch (hopening : opening ∈ MARKER_PREFIXES) (text : List Char) :
    ∀ stretch ∈ stretches text, ¬ opening.toList <:+: stretch := by
  induction text using markers_induction with
  | plain text h =>
    rw [stretches, cutMarkers_none h]
    exact List.forall_mem_singleton.mpr (hit_eq_none_iff.mp h opening hopening)
  | marked text pos h ih =>
    rw [stretches, cutMarkers_some h]
    exact List.forall_mem_cons.mpr ⟨not_infix_take h hopening, ih⟩

/-- Outside the markers another one opens exactly where one is put together. -/
theorem spliced_iff (text : List Char) :
    Spliced text ↔ ∃ opening ∈ MARKER_PREFIXES, opening.toList <:+: outside text :=
  exists_congr fun _ => and_congr_right fun hopening =>
    (infix_flatten_iff (opening_ne_nil hopening) (not_infix_stretch hopening text)).symm

/-! ## What is left -/

variable {line : List Char}

theorem words_unmarked_replace (before : List Char) (line : List Char) :
    words isSpace (before ++ unmarked (replaceChars [' ', sentinel, ' '] [' '] 0 line)) =
      words isSpace (before ++ unmarked line) := by
  induction hn : line.length using Nat.strongRecOn generalizing before line with
  | ind n ih =>
    cases line with
    | nil => rfl
    | cons c line =>
      have hspace : isSpace ' ' = true := by decide
      rw [replaceChars]
      split
      · next hold =>
        -- a sentinel between two blanks: what is before and behind them are words apart
        obtain ⟨rest, hrest⟩ := hold
        rw [List.cons_append] at hrest
        obtain ⟨rfl, rfl⟩ := List.cons.inj hrest
        have hleft : unmarked ([' '] ++ replaceChars [' ', sentinel, ' '] [' '] 2
            ([sentinel, ' '] ++ rest)) =
            ' ' :: unmarked (replaceChars [' ', sentinel, ' '] [' '] 0 rest) := by
          rw [replaceChars_skip]
          rfl
        have hright : unmarked (' ' :: ([sentinel, ' '] ++ rest)) = ' ' :: ' ' :: unmarked rest :=
          rfl
        have hshort : rest.length < n := by
          rw [← hn, List.length_cons, List.length_append]
          omega
        have hrec := ih rest.length hshort [] rest rfl
        rw [show [' ', sentinel, ' '].length - 1 = 2 from rfl, hleft, hright,
          words_append_cons hspace, words_append_cons hspace, words_cons hspace]
        rw [List.nil_append, List.nil_append] at hrec
        rw [hrec]
      · have hcons (l : List Char) :
            before ++ unmarked (c :: l) = before ++ unmarked [c] ++ unmarked l := by
          rw [List.append_assoc, unmarked, ← List.singleton_append, List.filter_append]
          rfl
        rw [hcons line, hcons (replaceChars [' ', sentinel, ' '] [' '] 0 line)]
        exact ih line.length (hn ▸ Nat.lt_succ_self _) _ line rfl

theorem words_rstrip (line : List Char) :
    words isSpace (rstripChars line) = words isSpace line := by
  have hsplit : rstripChars line ++ line.rtakeWhile isSpace = line :=
    List.rdropWhile_append_rtakeWhile
  conv_rhs => rw [← hsplit]
  exact (words_append_blanks (fun c hc => List.mem_rtakeWhile_imp hc) _).symm

theorem words_of_isBlank (h : isBlank line = true) : words isSpace line = [] :=
  words_of_blanks (isSpace_of_stripChars_nil (of_decide_eq_true h))

/-- A line that stays has the words it had without its sentinels, and a line that goes had none. -/
theorem words_cleanLine (line : List Char) :
    ((cleanLine line).toList).flatMap (words isSpace) = words isSpace (unmarked line) := by
  unfold cleanLine
  split
  · next h => exact (words_of_blanks (isSpace_of_stripChars_nil h.2)).symm
  · rw [Option.toList_some, List.flatMap_singleton, words_rstrip]
    exact words_unmarked_replace [] line

theorem unmarked_joined (text : List Char) : unmarked (joined text) = unmarked (outside text) := by
  have hcuts (cuts : List (List Char × List Char)) :
      unmarked (cuts.flatMap fun cut => cut.1 ++ [sentinel]) =
        unmarked (cuts.map Prod.fst).flatten := by
    induction cuts with
    | nil => rfl
    | cons cut cuts ih =>
      rw [List.flatMap_cons, List.map_cons, List.flatten_cons]
      unfold unmarked at ih ⊢
      rw [List.filter_append, List.filter_append, List.filter_append, ih]
      simp
  have h := hcuts (cutMarkers text).1
  unfold joined outside stretches
  unfold unmarked at h ⊢
  rw [List.flatten_append, List.filter_append, List.filter_append, h, List.flatten_singleton]

/-- **What is left has the words of what stands outside the markers**, but for NULs. -/
theorem words_stripCanvasMarkers {text : String} (h : isMarked text = true) :
    words isSpace (stripCanvasMarkers text).toList =
      words isSpace (unmarked (outside text.toList)) := by
  have hline : isSpace '\n' = true := by decide
  have hcut (a b : List Char) : words isSpace (unmarked (a ++ '\n' :: b)) =
      words isSpace (unmarked a) ++ words isSpace (unmarked b) := by
    rw [← words_append_cons hline, unmarked, List.filter_append]
    rfl
  have hlines (lines : List (List Char)) : (lines.filterMap cleanLine).flatMap (words isSpace) =
      lines.flatMap fun line => words isSpace (unmarked line) := by
    rw [List.filterMap_eq_flatMap_toList, List.flatMap_assoc]
    exact congrArg lines.flatMap (funext words_cleanLine)
  unfold stripCanvasMarkers
  rw [if_neg (by simp [h]), String.toList_ofList,
    apply_intercalate words_nil (words_append_cons hline),
    flatMap_rdropWhile (fun _ => words_of_isBlank), flatMap_dropWhile (fun _ => words_of_isBlank),
    hlines, ← apply_intercalate (g := fun line => words isSpace (unmarked line)) rfl hcut,
    List.intercalate_splitOn, unmarked_joined]

/-! ## No marker reaches a person -/

/-- What a chat relies on: no marker opens in what is left, there is nothing more to strip, and of
what stands outside the markers only whitespace is gone. -/
structure NeverShown (text : String) : Prop where
  gone : ∀ opening ∈ MARKER_PREFIXES, isIn opening (stripCanvasMarkers text) = false
  again : stripCanvasMarkers (stripCanvasMarkers text) = stripCanvasMarkers text
  kept : List.Sublist ((outside text.toList).filter (!isSpace ·)) (stripCanvasMarkers text).toList

theorem opening_clean (h : opening ∈ MARKER_PREFIXES) :
    ∀ c ∈ opening.toList, isSpace c = false := by
  have hall : opening.toList.all (!isSpace ·) = true := by
    revert opening
    decide +kernel
  simpa using hall

variable {text : String}

theorem isMarked_eq_false_iff :
    isMarked text = false ↔ ∀ opening ∈ MARKER_PREFIXES, isIn opening text = false := by
  rw [isMarked, List.any_eq_false]
  exact forall₂_congr fun _ _ => by rw [Bool.not_eq_true]

theorem stripCanvasMarkers_plain (h : isMarked text = false) : stripCanvasMarkers text = text := by
  rw [stripCanvasMarkers, if_pos h]

theorem outside_plain (h : isMarked text = false) : outside text.toList = text.toList := by
  have hhit : hit text.toList = none := hit_eq_none_iff.mpr fun opening hopening =>
    of_decide_eq_false (isMarked_eq_false_iff.mp h opening hopening)
  rw [outside, stretches, cutMarkers_none hhit]
  exact List.append_nil _

/-- What is left shows a marker where what stands outside the markers, without NULs, does. -/
theorem isIn_strip_iff (h : isMarked text = true) (hopening : opening ∈ MARKER_PREFIXES) :
    isIn opening (stripCanvasMarkers text) = true ↔
      opening.toList <:+: unmarked (outside text.toList) := by
  have hclean := opening_clean hopening
  have hne := opening_ne_nil hopening
  rw [isIn, decide_eq_true_iff, infix_iff_words hclean hne, words_stripCanvasMarkers h,
    ← infix_iff_words hclean hne]

/-- Of what stands outside the markers, the blanks and the NULs go. -/
theorem kept_chars (h : isMarked text = true) :
    (stripCanvasMarkers text).toList.filter (!isSpace ·) =
      (unmarked (outside text.toList)).filter (!isSpace ·) := by
  rw [← flatten_words, ← flatten_words, words_stripCanvasMarkers h]

theorem sentinel_notMem (h : isMarked text = true) :
    sentinel ∉ (stripCanvasMarkers text).toList := by
  intro hmem
  have hspace : isSpace sentinel = false := by decide
  have hkept : sentinel ∈ (stripCanvasMarkers text).toList.filter (!isSpace ·) :=
    List.mem_filter.mpr ⟨hmem, by simp [hspace]⟩
  rw [kept_chars h] at hkept
  have hmarked := (List.mem_filter.mp (List.mem_filter.mp hkept).1).2
  simp at hmarked

theorem unmarked_eq_self {s : List Char} (h : sentinel ∉ s) : unmarked s = s :=
  List.filter_eq_self.mpr fun _ hc => decide_eq_true fun heq => h (heq ▸ hc)

/-- **No marker reaches a person, and nothing else is lost**, exactly where no marker stands inside
the opening of another one and, if there is a marker at all, no NUL stands outside the markers. -/
theorem markers_gone_iff (text : String) :
    NeverShown text ↔
      (isMarked text = true → sentinel ∉ outside text.toList ∧ ¬ Spliced text.toList) := by
  cases h : isMarked text with
  | false =>
    have hplain := stripCanvasMarkers_plain h
    refine iff_of_true ⟨?_, by rw [hplain, hplain], ?_⟩ (fun hmarked => by cases hmarked)
    · rw [hplain]
      exact isMarked_eq_false_iff.mp h
    · rw [hplain, outside_plain h]
      exact List.filter_sublist
  | true =>
    constructor
    · rintro ⟨hgone, -, hkept⟩ -
      have hnul : sentinel ∉ outside text.toList := fun hmem =>
        sentinel_notMem h (hkept.subset (List.mem_filter.mpr ⟨hmem, by decide⟩))
      refine ⟨hnul, fun hspliced => ?_⟩
      obtain ⟨opening, hopening, hin⟩ := (spliced_iff text.toList).mp hspliced
      rw [← unmarked_eq_self hnul, ← isIn_strip_iff h hopening, hgone opening hopening] at hin
      cases hin
    · intro hcond
      obtain ⟨hnul, hspliced⟩ := hcond rfl
      have hkept := kept_chars h
      have hgone : ∀ opening ∈ MARKER_PREFIXES, isIn opening (stripCanvasMarkers text) = false := by
        intro opening hopening
        refine Bool.eq_false_iff.mpr fun hin => hspliced ((spliced_iff text.toList).mpr ?_)
        rw [isIn_strip_iff h hopening, unmarked_eq_self hnul] at hin
        exact ⟨opening, hopening, hin⟩
      rw [unmarked_eq_self hnul] at hkept
      refine ⟨hgone, stripCanvasMarkers_plain (isMarked_eq_false_iff.mpr hgone), ?_⟩
      rw [← hkept]
      exact List.filter_sublist

/-- A marker inside the opening of another one: the rest of the text closes up to the outer opening.
-/
theorem spliced_marker_shown : ¬ ∀ text : String, NeverShown text := by
  intro hall
  have hmarked : isMarked "[DASH[RENDER:x]BOARD:" = true := by decide +kernel
  have hhit : hit "[DASH[RENDER:x]BOARD:".toList = some 5 := by decide +kernel
  have hrest : hit "BOARD:".toList = none := by decide +kernel
  have houtside : outside "[DASH[RENDER:x]BOARD:".toList = "[DASHBOARD:".toList := by
    rw [outside, stretches, cutMarkers_some hhit]
    have hdrop : ("[DASH[RENDER:x]BOARD:".toList.drop 5).drop
        (markerEnd 0 false false ("[DASH[RENDER:x]BOARD:".toList.drop 5)) = "BOARD:".toList := by
      decide +kernel
    dsimp only
    rw [hdrop, cutMarkers_none hrest]
    decide +kernel
  have hopening : "[DASHBOARD:" ∈ MARKER_PREFIXES := List.mem_cons_self
  have hshown := (isIn_strip_iff hmarked hopening).mpr (by rw [houtside]; decide +kernel)
  rw [(hall _).gone _ hopening] at hshown
  cases hshown

end GenusOs.Engine.Chunking
