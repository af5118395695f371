import GenusOs.Engine.Compaction.WellPaired
import GenusOs.Library.Cut
import Mathlib

/-!
# Facts on lines

A compaction prints the facts it keeps one to a line, with nothing escaped, in front of the paths
and the tools of the run; the next one reads them back line by line.

* `readFactLine_factLine`: the line of a clean fact is read as that fact.
* `facts_round_trip`: what the next compaction reads is what this one kept, exactly where every fact
  is clean and no other line reads as a new one.
-/

namespace GenusOs.Engine.Compaction

open GenusOs.Python

/-! ## What `extract_facts` returns -/

/-- An entry of the model's answer, read with its defaults. -/
structure RawFact where
  text : String := ""
  category : String := "context"
  priority : Int := 3

/-- The loop of `extract_facts`; `seen` are the texts kept so far. -/
def collectFacts (seen : List String) : List RawFact → List CompactionFact
  | [] => []
  | f :: raw =>
    let text := strip f.text
    if text = "" || text ∈ seen then collectFacts seen raw
    else
      { category := f.category, text, priority := min (max f.priority 1) 5 } ::
        collectFacts (text :: seen) raw

variable {facts : List CompactionFact} {f g : CompactionFact} {seen : List String}
  {raw : List RawFact} {line : List Char}

theorem collectFacts_stripped (h : f ∈ collectFacts seen raw) :
    strip f.text = f.text ∧ f.text ≠ "" ∧ f.text ∉ seen := by
  induction raw generalizing seen with
  | nil => cases h
  | cons r raw ih =>
    unfold collectFacts at h
    dsimp only at h
    split at h
    · exact ih h
    · next hnew =>
      simp only [Bool.or_eq_true, decide_eq_true_eq, not_or] at hnew
      rcases List.mem_cons.mp h with rfl | h
      · exact ⟨strip_strip r.text, hnew⟩
      · obtain ⟨hstrip, hne, hnot⟩ := ih h
        exact ⟨hstrip, hne, fun hmem => hnot (List.mem_cons_of_mem _ hmem)⟩

theorem collectFacts_distinct : ((collectFacts seen raw).map (·.text)).Nodup := by
  induction raw generalizing seen with
  | nil => exact List.nodup_nil
  | cons r raw ih =>
    unfold collectFacts
    dsimp only
    split
    · exact ih
    · rw [List.map_cons, List.nodup_cons]
      refine ⟨fun hmem => ?_, ih⟩
      obtain ⟨f, hf, htext⟩ := List.mem_map.mp hmem
      exact (collectFacts_stripped hf).2.2 (htext ▸ List.mem_cons_self)

/-! ## Reading a line -/

/-- `cs.split(sep, 1)[0]`. -/
def before (sep cs : List Char) : List Char := ((cutAt sep cs).map (·.1)).getD cs

/-- The number between the first `(p` and the next `)`. -/
def priorityOf (line : List Char) : Option Int :=
  (cutAt ['(', 'p'] line).bind fun cut => parseInt (String.ofList (before [')'] cut.2))

/-- What stands behind the first `) `. -/
def textOf (line : List Char) : List Char := ((cutAt [')', ' '] line).map (·.2)).getD []

/-- What stands between the first `[` and the next `]`. -/
def categoryOf (line : List Char) : Option (List Char) :=
  (cutAt ['['] line).map fun cut => before [']'] cut.2

/-- One line of `_merge_retained_facts`. -/
def readFactLine (line : List Char) : Option CompactionFact :=
  let line := stripChars line
  if "- [".toList <+: line ∧ "] (p".toList <:+: line then
    (categoryOf line).bind fun category => (priorityOf line).bind fun priority =>
      if textOf line = [] then none
      else
        some { category := String.ofList category, text := String.ofList (textOf line), priority }
  else none

/-- What `_merge_retained_facts` reads out of one retained text. -/
def retainedFacts (content : String) : List CompactionFact :=
  (content.toList.splitOn '\n').filterMap readFactLine

/-- The platform, with the reader of retained facts as the engine has it. -/
def Platform.withFactLines (env : Platform) : Platform :=
  { env with retainedFacts := Compaction.retainedFacts }

/-! ## The line of a fact -/

def factLine (f : CompactionFact) : String :=
  "- [" ++ f.category ++ "] (p" ++ toString f.priority ++ ") " ++ f.text

/-- The line from the end of the category on. -/
def lineRest (f : CompactionFact) : List Char :=
  ']' :: ' ' :: '(' :: 'p' :: ((toString f.priority).toList ++ ')' :: ' ' :: f.text.toList)

theorem factLine_toList (f : CompactionFact) :
    (factLine f).toList = '-' :: ' ' :: '[' :: (f.category.toList ++ lineRest f) := by
  simp [factLine, lineRest]

/-- The fact is on one line, and each part of it ends where it is read to end. -/
structure Clean (f : CompactionFact) : Prop where
  category_line : '\n' ∉ f.category.toList
  text_line : '\n' ∉ f.text.toList
  bracket : ']' ∉ f.category.toList
  paren : ¬ [')', ' '] <:+: f.category.toList
  priority : priorityOf (factLine f).toList = some f.priority

theorem digit_ne {n : Int} {c : Char} (hc : isIntChar c = false) : c ∉ (toString n).toList :=
  fun hmem => by
    rw [toString_int_chars n c hmem] at hc
    cases hc

theorem before_append_cons {c : Char} {a : List Char} (h : c ∉ a) (b : List Char) :
    before [c] (a ++ c :: b) = a := by
  unfold before
  rw [cutAt_singleton h]
  rfl

theorem before_isPrefix (sep cs : List Char) : before sep cs <+: cs := by
  unfold before
  cases hcut : cutAt sep cs with
  | none => exact List.prefix_rfl
  | some cut =>
    rw [eq_of_cutAt hcut, List.append_assoc]
    exact List.prefix_append _ _

theorem notMem_before (c : Char) (cs : List Char) : c ∉ before [c] cs := by
  unfold before
  cases hcut : cutAt [c] cs with
  | none =>
    intro hmem
    obtain ⟨u, v, rfl⟩ := List.append_of_mem hmem
    exact cutAt_eq_none_iff.mp hcut ⟨u, v, by simp⟩
  | some cut => exact notMem_of_cutAt hcut

/-- Without `(p` in its category a fact's priority is read. -/
theorem priorityOf_factLine (h : ¬ ['(', 'p'] <:+: f.category.toList) :
    priorityOf (factLine f).toList = some f.priority := by
  have hfront : ¬ ['(', 'p'] <:+: '-' :: ' ' :: '[' :: f.category.toList := by
    simpa [List.infix_cons_iff] using h
  have hcut := cutAt_pair hfront (z := ']') (by decide) (lineRest f).tail
  have hrest : cutAt ['(', 'p'] (lineRest f) =
      some ([']', ' '], (toString f.priority).toList ++ ')' :: ' ' :: f.text.toList) :=
    @cutAt_pair_self _ _ [']', ' '] '(' 'p' (by decide) (by decide) _
  unfold priorityOf
  rw [factLine_toList, ← List.cons_append, ← List.cons_append, ← List.cons_append]
  rw [show ']' :: (lineRest f).tail = lineRest f from rfl, hrest] at hcut
  rw [hcut]
  simp only [Option.map_some, Prod.map, Option.bind_some, id]
  rw [before_append_cons (digit_ne rfl), String.ofList_toList, parseInt_toString]

theorem textOf_factLine (h : ¬ [')', ' '] <:+: f.category.toList) :
    textOf (factLine f).toList = f.text.toList := by
  have hfront : ¬ [')', ' '] <:+: '-' :: ' ' :: '[' :: f.category.toList := by
    simpa [List.infix_cons_iff] using h
  have hdigits : ¬ [')', ' '] <:+: ']' :: ' ' :: '(' :: 'p' :: (toString f.priority).toList := by
    intro hin
    have hmem : ')' ∈ ']' :: ' ' :: '(' :: 'p' :: (toString f.priority).toList :=
      hin.subset List.mem_cons_self
    simp only [List.mem_cons, Char.reduceEq, false_or] at hmem
    exact digit_ne rfl hmem
  have hcut := cutAt_pair hfront (z := ']') (by decide) (lineRest f).tail
  have hrest : cutAt [')', ' '] (lineRest f) =
      some (']' :: ' ' :: '(' :: 'p' :: (toString f.priority).toList, f.text.toList) :=
    cutAt_pair_self hdigits (by decide) _
  unfold textOf
  rw [factLine_toList, ← List.cons_append, ← List.cons_append, ← List.cons_append]
  rw [show ']' :: (lineRest f).tail = lineRest f from rfl, hrest] at hcut
  rw [hcut]
  rfl

/-- With `) ` in its category a fact reads with a longer text. -/
theorem text_lt_textOf (h : [')', ' '] <:+: f.category.toList) :
    f.text.toList.length < (textOf (factLine f).toList).length := by
  cases hcut : cutAt [')', ' '] f.category.toList with
  | none => exact absurd h (cutAt_eq_none_iff.mp hcut)
  | some cut =>
    obtain ⟨a, b⟩ := cut
    have hline : cutAt [')', ' '] (factLine f).toList =
        some ('-' :: ' ' :: '[' :: a, b ++ lineRest f) := by
      have hskip := @cutAt_of_notMem _ _ [' '] ['-', ' ', '['] ')' (by decide)
        (f.category.toList ++ lineRest f)
      rw [cutAt_append hcut] at hskip
      rw [factLine_toList]
      exact hskip
    unfold textOf
    rw [hline]
    simp only [Option.map_some, Option.getD_some, lineRest, List.length_append, List.length_cons]
    omega

theorem categoryOf_factLine (h : ']' ∉ f.category.toList) :
    categoryOf (factLine f).toList = some f.category.toList := by
  have hcut : cutAt ['['] (factLine f).toList =
      some (['-', ' '], f.category.toList ++ lineRest f) := by
    rw [factLine_toList]
    exact @cutAt_singleton _ _ ['-', ' '] '[' (by decide) _
  unfold categoryOf
  rw [hcut, Option.map_some]
  exact congrArg some (before_append_cons h _)

/-- A text that ends like one that is stripped, and does not begin with a space. -/
theorem stripChars_cons_append {c : Char} {t : List Char} (hc : isSpace c = false)
    (ht : stripChars t = t) (hne : t ≠ []) (a : List Char) :
    stripChars (c :: (a ++ t)) = c :: (a ++ t) := by
  refine stripChars_eq_self_iff.mpr ⟨fun d hd => Option.some.inj hd ▸ hc, fun d hd => ?_⟩
  refine (stripChars_eq_self_iff.mp ht).2 d ?_
  rwa [← List.cons_append, List.getLast?_append_of_ne_nil _ hne] at hd

theorem stripChars_factLine (hstrip : strip f.text = f.text) (hne : f.text ≠ "") :
    stripChars (factLine f).toList = (factLine f).toList := by
  have htext : stripChars f.text.toList = f.text.toList := by
    have := congrArg String.toList hstrip
    rwa [strip, String.toList_ofList] at this
  have hline := stripChars_cons_append (c := '-') (by decide) htext (by simpa using hne)
    (' ' :: '[' :: (f.category.toList ++ ']' :: ' ' :: '(' :: 'p' ::
      ((toString f.priority).toList ++ [')', ' '])))
  rw [factLine_toList]
  simpa [lineRest] using hline

/-- **What a line is read as**: what its parts are read as. -/
theorem readFactLine_factLine_iff (hstrip : strip f.text = f.text) (hne : f.text ≠ "")
    (hbracket : ']' ∉ f.category.toList) : readFactLine (factLine f).toList = some g ↔
      g.category = f.category ∧ priorityOf (factLine f).toList = some g.priority ∧
        g.text.toList = textOf (factLine f).toList := by
  have hshape : "- [".toList <+: (factLine f).toList ∧ "] (p".toList <:+: (factLine f).toList := by
    rw [factLine_toList]
    refine ⟨List.prefix_append ['-', ' ', '['] _, '-' :: ' ' :: '[' :: f.category.toList,
      (toString f.priority).toList ++ ')' :: ' ' :: f.text.toList, ?_⟩
    simp [lineRest]
  have htext : textOf (factLine f).toList ≠ [] := by
    by_cases hparen : [')', ' '] <:+: f.category.toList
    · exact List.ne_nil_of_length_pos ((Nat.zero_le _).trans_lt (text_lt_textOf hparen))
    · rw [textOf_factLine hparen]
      simpa using hne
  unfold readFactLine
  dsimp only
  rw [stripChars_factLine hstrip hne, if_pos hshape, categoryOf_factLine hbracket, Option.bind_some,
    String.ofList_toList]
  simp only [if_neg htext]
  obtain ⟨category, text, priority⟩ := g
  constructor
  · intro h
    obtain ⟨n, hn, heq⟩ := Option.bind_eq_some_iff.mp h
    cases heq
    exact ⟨rfl, hn, String.toList_ofList⟩
  · rintro ⟨rfl, hn, ht⟩
    rw [hn, Option.bind_some, ← ht, String.ofList_toList]

/-- **The line of a clean fact is read as that fact.** -/
theorem readFactLine_factLine (hclean : Clean f) (hstrip : strip f.text = f.text)
    (hne : f.text ≠ "") : readFactLine (factLine f).toList = some f :=
  (readFactLine_factLine_iff hstrip hne hclean.bracket).mpr
    ⟨rfl, hclean.priority, (textOf_factLine hclean.paren).symm⟩

/-- What is read from one line is on one line, and its category has no bracket. -/
theorem readFactLine_parts (hline : '\n' ∉ line) (h : readFactLine line = some g) :
    '\n' ∉ g.category.toList ∧ '\n' ∉ g.text.toList ∧ ']' ∉ g.category.toList := by
  have hstrip : stripChars line <:+: line := by
    have hfront : (line.dropWhile isSpace).rdropWhile isSpace <+: line.dropWhile isSpace :=
      List.rdropWhile_prefix _ _
    exact hfront.isInfix.trans (List.dropWhile_suffix _).isInfix
  unfold readFactLine at h
  dsimp only at h
  split at h
  · obtain ⟨category, hcategory, h⟩ := Option.bind_eq_some_iff.mp h
    obtain ⟨priority, -, h⟩ := Option.bind_eq_some_iff.mp h
    split at h
    · cases h
    · cases h
      obtain ⟨cut, hcut, rfl⟩ := Option.map_eq_some_iff.mp hcategory
      rw [String.toList_ofList, String.toList_ofList]
      refine ⟨fun hmem => hline (hstrip.subset ?_), fun hmem => hline (hstrip.subset ?_),
        notMem_before _ _⟩
      · rw [eq_of_cutAt hcut]
        exact List.mem_append_right _ ((before_isPrefix _ _).subset hmem)
      · unfold textOf at hmem
        cases htext : cutAt [')', ' '] (stripChars line) with
        | none =>
          rw [htext] at hmem
          cases hmem
        | some rest =>
          rw [htext] at hmem
          rw [eq_of_cutAt htext]
          exact List.mem_append_right _ hmem
  · cases h

/-! ## The lines of a retained text -/

variable {env : Platform} {ms : List Message}

/-- A line has no end of line in it. -/
theorem notMem_of_mem_splitOn {c : Char} {cs l : List Char} (h : l ∈ cs.splitOn c) : c ∉ l := by
  induction cs generalizing l with
  | nil =>
    rw [List.splitOn_nil, List.mem_singleton] at h
    rw [h]
    exact List.not_mem_nil
  | cons x cs ih =>
    rw [List.splitOn_cons_eq_if_modifyHead] at h
    split at h
    · rcases List.mem_cons.mp h with rfl | h
      · exact List.not_mem_nil
      · exact ih h
    · next hx =>
      cases hsplit : cs.splitOn c with
      | nil => exact absurd hsplit (List.splitOn_ne_nil _ _)
      | cons first rest =>
        rw [hsplit, List.modifyHead_cons] at h
        rcases List.mem_cons.mp h with rfl | h
        · rw [List.mem_cons, not_or]
          refine ⟨fun heq => hx (by simp [heq]), ih (by rw [hsplit]; exact List.mem_cons_self)⟩
        · exact ih (by rw [hsplit]; exact List.mem_cons_of_mem _ h)

/-- Lines, and behind them a text of lines. -/
theorem splitOn_intercalate_concat {c : Char} {ls : List (List Char)} (h : ∀ l ∈ ls, c ∉ l)
    (t : List Char) : ([c].intercalate (ls ++ [t])).splitOn c = ls ++ t.splitOn c := by
  induction ls with
  | nil =>
    rw [List.nil_append, List.intercalate_singleton]
    rfl
  | cons l ls ih =>
    have hrest := ih fun l hl => h l (List.mem_cons_of_mem _ hl)
    have hne : ls ++ [t] ≠ [] := by simp
    rw [List.cons_append, List.intercalate_cons_of_ne_nil hne, List.append_assoc,
      List.singleton_append, List.splitOn_append_cons_self_of_not_mem
        (h l List.mem_cons_self), hrest]
    rfl

/-- The facts in the order in which they are printed. -/
def byPriority (facts : List CompactionFact) : List CompactionFact :=
  facts.mergeSort fun f g => decide (g.priority ≤ f.priority)

/-- What the lines behind the facts read as. -/
def tailFacts (env : Platform) (ms : List Message) : List CompactionFact :=
  if ms.isEmpty || env.deterministicTail ms = "" then []
    else retainedFacts (env.deterministicTail ms)

/-- What the next compaction reads. -/
def readBack (env : Platform) (facts : List CompactionFact) (ms : List Message) :
    List CompactionFact :=
  mergeRetainedFacts env.withFactLines [] [buildRetainedContextMessage env.withFactLines facts ms]

/-- The retained text. -/
def retainedText (env : Platform) (facts : List CompactionFact) (ms : List Message) : String :=
  "\n".intercalate (RETAINED_CONTEXT_MARKER :: ((byPriority facts).map factLine ++
    if ms.isEmpty || env.deterministicTail ms = "" then [] else [env.deterministicTail ms]))

theorem readBack_eq (env : Platform) (facts : List CompactionFact) (ms : List Message) :
    readBack env facts ms =
      mergeRetainedFacts.dedup [] (retainedFacts (retainedText env facts ms)) := by
  unfold readBack mergeRetainedFacts
  rw [List.nil_append, List.flatMap_singleton]
  rfl

theorem marker_no_fact : readFactLine RETAINED_CONTEXT_MARKER.toList = none := by
  decide

/-- With each fact on one line, the lines are read one by one. -/
theorem retainedFacts_text (h : ∀ f ∈ facts, '\n' ∉ (factLine f).toList) :
    retainedFacts (retainedText env facts ms) =
      (byPriority facts).filterMap (fun f => readFactLine (factLine f).toList) ++
        tailFacts env ms := by
  have hlines : ∀ l ∈ (RETAINED_CONTEXT_MARKER :: (byPriority facts).map factLine).map
      String.toList, '\n' ∉ l := by
    intro l hl
    obtain ⟨s, hs, rfl⟩ := List.mem_map.mp hl
    rcases List.mem_cons.mp hs with rfl | hs
    · decide
    · obtain ⟨f, hf, rfl⟩ := List.mem_map.mp hs
      exact h f (List.mem_mergeSort.mp hf)
  have hread : ((RETAINED_CONTEXT_MARKER :: (byPriority facts).map factLine).map
      String.toList).filterMap readFactLine =
        (byPriority facts).filterMap fun f => readFactLine (factLine f).toList := by
    rw [List.map_cons, List.filterMap_cons_none marker_no_fact, List.map_map, List.filterMap_map]
    rfl
  have hnewline : "\n".toList = ['\n'] := rfl
  unfold retainedFacts retainedText tailFacts
  rw [String.toList_intercalate, hnewline]
  split
  · rw [List.append_nil, List.append_nil, List.splitOn_intercalate _ hlines (by simp), hread]
  · rw [← List.cons_append, List.map_append, List.map_singleton,
      splitOn_intercalate_concat hlines, List.filterMap_append, hread]
    rfl

/-! ## The round trip -/

theorem dedup_subset : mergeRetainedFacts.dedup seen facts ⊆ facts := by
  induction facts generalizing seen with
  | nil => exact List.Subset.refl _
  | cons f facts ih =>
    unfold mergeRetainedFacts.dedup
    split
    · exact List.Subset.trans ih (List.subset_cons_self _ _)
    · exact List.cons_subset_cons _ ih

/-- Facts with different texts are kept, and of those behind them the ones with new texts. -/
theorem dedup_append (hdistinct : (facts.map (·.text)).Nodup)
    (hseen : ∀ f ∈ facts, f.text ∉ seen) (extra : List CompactionFact) :
    mergeRetainedFacts.dedup seen (facts ++ extra) =
      facts ++ mergeRetainedFacts.dedup ((facts.map (·.text)).reverse ++ seen) extra := by
  induction facts generalizing seen with
  | nil => rfl
  | cons f facts ih =>
    rw [List.map_cons, List.nodup_cons] at hdistinct
    rw [List.cons_append, mergeRetainedFacts.dedup,
      if_neg (hseen f List.mem_cons_self), ih hdistinct.2]
    · simp
    · intro g hg hmem
      rcases List.mem_cons.mp hmem with heq | hmem
      · exact hdistinct.1 (List.mem_map.mpr ⟨g, hg, heq⟩)
      · exact hseen g (List.mem_cons_of_mem _ hg) hmem

theorem dedup_eq_nil_iff :
    mergeRetainedFacts.dedup seen facts = [] ↔ ∀ f ∈ facts, f.text ∈ seen := by
  induction facts with
  | nil => simp [mergeRetainedFacts.dedup]
  | cons f facts ih =>
    rw [mergeRetainedFacts.dedup]
    split
    · next hin => simp [ih, hin]
    · next hnot => simp [hnot]

/-- Every line behind the facts that reads as one repeats the text of one. -/
def TailRepeats (env : Platform) (facts : List CompactionFact) (ms : List Message) : Prop :=
  ∀ g ∈ tailFacts env ms, ∃ f ∈ facts, f.text = g.text

theorem byPriority_distinct (h : (facts.map (·.text)).Nodup) :
    ((byPriority facts).map (·.text)).Nodup :=
  (((List.mergeSort_perm facts _).map _).nodup_iff).mpr h

/-- Where all lines of facts are read as these, what is read is them and what the tail adds. -/
theorem readBack_eq_iff (hdistinct : (facts.map (·.text)).Nodup)
    (hread : retainedFacts (retainedText env facts ms) = byPriority facts ++ tailFacts env ms) :
    readBack env facts ms = byPriority facts ↔ TailRepeats env facts ms := by
  rw [readBack_eq, hread, dedup_append (byPriority_distinct hdistinct) fun _ _ => List.not_mem_nil,
    List.append_right_eq_self, dedup_eq_nil_iff]
  unfold TailRepeats byPriority
  simp

theorem factLine_no_newline (hcategory : '\n' ∉ f.category.toList) (htext : '\n' ∉ f.text.toList) :
    '\n' ∉ (factLine f).toList := by
  rw [factLine_toList]
  simp only [lineRest, List.mem_cons, List.mem_append, Char.reduceEq, false_or, not_or]
  exact ⟨hcategory, digit_ne rfl, htext⟩

/-- What comes back is on one line each, without a bracket in its category. -/
theorem parts_of_readBack (hf : f ∈ readBack env facts ms) :
    '\n' ∉ f.category.toList ∧ '\n' ∉ f.text.toList ∧ ']' ∉ f.category.toList := by
  rw [readBack_eq] at hf
  obtain ⟨line, hline, hread⟩ := List.mem_filterMap.mp (dedup_subset hf)
  exact readFactLine_parts (notMem_of_mem_splitOn hline) hread

/-- Where the facts come back, and none that is not clean from the tail, all of them are clean. -/
theorem clean_of_readBack (hback : readBack env (collectFacts [] raw) ms =
      byPriority (collectFacts [] raw))
    (htail : ∀ f ∈ collectFacts [] raw, ¬ Clean f → f ∉ tailFacts env ms) :
    ∀ f ∈ collectFacts [] raw, Clean f := by
  have hback' : ∀ f ∈ collectFacts [] raw, f ∈ readBack env (collectFacts [] raw) ms :=
    fun f hf => by
      rw [hback]
      exact List.mem_mergeSort.mpr hf
  have hparts := fun f hf => parts_of_readBack (hback' f hf)
  have hreads := @retainedFacts_text (collectFacts [] raw) env ms fun f hf =>
    factLine_no_newline (hparts f hf).1 (hparts f hf).2.1
  intro f
  -- by induction on the length of the text: a fact that is misread reads with a longer one
  induction hn : f.text.toList.length using Nat.strongRecOn generalizing f with
  | _ n ih =>
    intro hf
    by_contra hunclean
    have hread := hback' f hf
    rw [readBack_eq, hreads] at hread
    have hmem := (List.mem_append.mp (dedup_subset hread)).resolve_right (htail f hf hunclean)
    obtain ⟨g, hg, hline⟩ := List.mem_filterMap.mp hmem
    have hg : g ∈ collectFacts [] raw := List.mem_mergeSort.mp hg
    obtain ⟨hstrip, hne, -⟩ := collectFacts_stripped hg
    obtain ⟨hcategory, hpriority, htext⟩ :=
      (readFactLine_factLine_iff hstrip hne (hparts g hg).2.2).mp hline
    by_cases hparen : [')', ' '] <:+: g.category.toList
    · have hlt := text_lt_textOf hparen
      rw [← htext, hn] at hlt
      exact (ih _ hlt g rfl hg).paren hparen
    · rw [textOf_factLine hparen, String.toList_inj] at htext
      obtain rfl : f = g := List.inj_on_of_nodup_map collectFacts_distinct hf hg htext
      exact hunclean ⟨(hparts f hf).1, (hparts f hf).2.1, (hparts f hf).2.2, hparen, hpriority⟩

/-- All facts are clean, and the other lines add none. -/
def ReadsBack (env : Platform) (facts : List CompactionFact) (ms : List Message) : Prop :=
  (∀ f ∈ facts, Clean f) ∧ TailRepeats env facts ms

theorem readBack_of_clean (hclean : ∀ f ∈ collectFacts [] raw, Clean f) :
    readBack env (collectFacts [] raw) ms = byPriority (collectFacts [] raw) ↔
      TailRepeats env (collectFacts [] raw) ms := by
  refine readBack_eq_iff collectFacts_distinct ?_
  rw [retainedFacts_text fun f hf => factLine_no_newline (hclean f hf).category_line
    (hclean f hf).text_line, List.append_left_inj]
  have hread : ∀ f ∈ byPriority (collectFacts [] raw),
      readFactLine (factLine f).toList = some f := by
    intro f hf
    have hf := List.mem_mergeSort.mp hf
    obtain ⟨hstrip, hne, -⟩ := collectFacts_stripped hf
    exact readFactLine_factLine (hclean f hf) hstrip hne
  exact (List.filterMap_congr hread).trans List.filterMap_some

/-- **The facts that a compaction keeps are what the next one reads**, exactly where each of them is
clean and no other line adds one. Where they come back otherwise, the tail itself spells out a fact
that is not clean. -/
theorem facts_round_trip (env : Platform) (raw : List RawFact) (ms : List Message) :
    (ReadsBack env (collectFacts [] raw) ms →
      readBack env (collectFacts [] raw) ms = byPriority (collectFacts [] raw)) ∧
    (readBack env (collectFacts [] raw) ms = byPriority (collectFacts [] raw) →
      ReadsBack env (collectFacts [] raw) ms ∨
        ∃ f ∈ collectFacts [] raw, ¬ Clean f ∧ f ∈ tailFacts env ms) := by
  refine ⟨fun h => (readBack_of_clean h.1).mpr h.2, fun hback => ?_⟩
  rw [or_iff_not_imp_right]
  intro htail
  have hclean := clean_of_readBack hback fun f hf hunclean hmem => htail ⟨f, hf, hunclean, hmem⟩
  exact ⟨hclean, (readBack_of_clean hclean).mp hback⟩

/-- A fact on two lines comes back as its first one. -/
theorem second_line_lost :
    ¬ ∀ (env : Platform) (raw : List RawFact) (ms : List Message),
      readBack env (collectFacts [] raw) ms = byPriority (collectFacts [] raw) := by
  intro h
  have hparts := @parts_of_readBack (collectFacts [] [{ text := "Ship it\nafter the audit" }])
    { category := "context", text := "Ship it\nafter the audit", priority := 3 } plainPlatform []
  rw [h, show collectFacts [] [{ text := "Ship it\nafter the audit" }] =
    [{ category := "context", text := "Ship it\nafter the audit", priority := 3 }]
      by decide] at hparts
  exact (hparts (List.mem_mergeSort.mpr (List.mem_singleton.mpr rfl))).2.1 (by decide)

end GenusOs.Engine.Compaction
