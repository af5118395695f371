import GenusOs.Settings.SystemdEnv
import Mathlib

/-!
# What the reader makes of a planned drop-in

* `directives_content`: the file has one directive.
* `assignmentsOf_content`: it sets the variable, to the value with its percent signs doubled.
-/

namespace GenusOs.Settings

open Python

variable {unit name value note path line s cs : Text} {origin : Option Origin} {c : Char}

/-! ## Lines -/

/-- No line ends in the text. -/
def IsLine (s : Text) : Prop := ∀ c ∈ s, isLineBreak c = false

theorem isLine_of_all (h : s.all (!isLineBreak ·) = true) : IsLine s := by
  intro c hc
  have hnot := List.all_eq_true.mp h c hc
  simpa using hnot

theorem isLine_append {s t : Text} (hs : IsLine s) (ht : IsLine t) : IsLine (s ++ t) := by
  intro c hc
  rcases List.mem_append.mp hc with hc | hc
  · exact hs c hc
  · exact ht c hc

theorem isLine_cons (hc : isLineBreak c = false) (hs : IsLine s) : IsLine (c :: s) :=
  List.forall_mem_cons.mpr ⟨hc, hs⟩

theorem isLine_replaceChar {old : Char} {new : Text} (hnew : IsLine new) (hs : IsLine s) :
    IsLine (replaceChar old new s) := by
  intro c hc
  obtain ⟨d, hd, hmem⟩ := List.mem_flatMap.mp hc
  split at hmem
  · exact hnew c hmem
  · rw [List.mem_singleton.mp hmem]
    exact hs d hd

theorem isLine_escape (hvalue : IsLine value) : IsLine (escape value) := by
  unfold escape escapeQuoted
  refine isLine_replaceChar ?_ (isLine_replaceChar ?_ (isLine_replaceChar ?_ hvalue)) <;>
    exact isLine_cons rfl (isLine_cons rfl nofun)

theorem toNat_of_isNameChar (h : isNameChar c = true) : 48 ≤ c.toNat ∧ c.toNat ≤ 122 := by
  simp only [isNameChar, Char.isAlphanum, Char.isAlpha, Char.isUpper, Char.isLower, Char.isDigit,
    Bool.or_eq_true, Bool.and_eq_true, decide_eq_true_eq, UInt32.le_iff_toNat_le, ge_iff_le] at h
  have hn : c.val.toNat = c.toNat := rfl
  rw [hn] at h
  rcases h with ((⟨hlow, hhigh⟩ | ⟨hlow, hhigh⟩) | ⟨hlow, hhigh⟩) | rfl
  · simp at hlow hhigh
    omega
  · simp at hlow hhigh
    omega
  · simp at hlow hhigh
    omega
  · decide

theorem forall_isNameChar (h : isEnvName name = true) : ∀ c ∈ name, isNameChar c = true := by
  cases name with
  | nil => exact nofun
  | cons c cs =>
    obtain ⟨hc, hcs⟩ := Bool.and_eq_true_iff.mp h
    refine List.forall_mem_cons.mpr ⟨?_, List.all_eq_true.mp hcs⟩
    unfold isNameStart at hc
    unfold isNameChar Char.isAlphanum
    rcases Bool.or_eq_true_iff.mp hc with hc | hc
    · rw [hc]
      rfl
    · rw [hc, Bool.or_true]

theorem isLine_of_isNameChar (h : isNameChar c = true) : isLineBreak c = false := by
  have hrange := toNat_of_isNameChar h
  simp only [isLineBreak, Bool.or_eq_false_iff, Bool.and_eq_false_iff, decide_eq_false_iff_not]
  omega

theorem isLine_of_isEnvName (h : isEnvName name = true) : IsLine name := by
  exact fun c hc => isLine_of_isNameChar (forall_isNameChar h c hc)

/-- The lines that were joined are read. -/
theorem splitLines_join {lines : List Text} (h : ∀ line ∈ lines, IsLine line) :
    splitLines (List.intercalate ['\n'] (lines ++ [[]])) = lines := by
  induction lines with
  | nil => rfl
  | cons line lines ih =>
    obtain ⟨hline, hlines⟩ := List.forall_mem_cons.mp h
    have hjoin : List.intercalate ['\n'] (line :: lines ++ [[]]) =
        line ++ '\n' :: List.intercalate ['\n'] (lines ++ [[]]) := by
      cases lines <;> simp [List.intercalate_cons_cons]
    rw [hjoin, splitLines_line hline, ih hlines]

theorem isLine_blankControl (h : ∀ c ∈ s, isLineBreak c = true → isControl c = true) :
    IsLine (blankControl s) := by
  intro c hc
  obtain ⟨d, hd, rfl⟩ := List.mem_map.mp hc
  split
  · rfl
  · next hcontrol => exact Bool.eq_false_iff.mpr fun hbreak => hcontrol (h d hd hbreak)

/-! ## Directives -/

theorem head?_stripChars (hc : isSpace c = false) (cs : Text) :
    (stripChars (c :: cs)).head? = some c := by
  have hright : stripChars (c :: cs) = (c :: cs).rdropWhile isSpace := by
    show ((c :: cs).dropWhile isSpace).rdropWhile isSpace = _
    rw [List.dropWhile_cons_of_neg (by simp [hc])]
  rw [hright]
  cases hrest : (c :: cs).rdropWhile isSpace with
  | nil =>
    have hspace := List.rdropWhile_eq_nil_iff.mp hrest c List.mem_cons_self
    rw [hc] at hspace
    cases hspace
  | cons d ds =>
    have hstart := List.rdropWhile_prefix isSpace (c :: cs)
    rw [hrest] at hstart
    rw [(List.cons_prefix_cons.mp hstart).1]
    rfl

/-- A comment says nothing. -/
theorem directivesFrom_comment (inside : Text) (number : Nat) (line : Text) (rest : List Text) :
    directivesFrom inside number (('#' :: line) :: rest) =
      directivesFrom inside (number + 1) rest := by
  have hhead : (stripChars ('#' :: line)).head? = some '#' := head?_stripChars rfl line
  rw [directivesFrom, if_pos (.inr (.inl hhead))]

theorem directivesFrom_comments {lines : List Text} (h : ∀ line ∈ lines, line.head? = some '#')
    (inside : Text) (number : Nat) (rest : List Text) :
    directivesFrom inside number (lines ++ rest) =
      directivesFrom inside (number + lines.length) rest := by
  induction lines generalizing number with
  | nil => rfl
  | cons line lines ih =>
    obtain ⟨hline, hlines⟩ := List.forall_mem_cons.mp h
    cases line with
    | nil => cases hline
    | cons c line =>
      obtain rfl := Option.some.inj hline
      rw [List.cons_append, directivesFrom_comment, ih hlines, List.length_cons]
      congr 1
      omega

/-- What is written for the value, and its assignment. -/
def written (name value : Text) : Text := '"' :: (name ++ ['='] ++ escape value ++ ['"'])

theorem content_eq (name value note : Text) (origin : Option Origin) :
    content name value note origin = List.intercalate ['\n'] ((header name note origin ++
      ["[Service]".toList, "Environment".toList ++ '=' :: written name value]) ++ [[]]) := by
  have henv : "Environment=\"".toList = "Environment".toList ++ ['=', '"'] := by decide +kernel
  unfold content written
  rw [henv, List.append_assoc]
  simp

/-- The header is comments, one a line. -/
theorem header_spec (hname : IsLine name) (hnote : IsLine note)
    (hpath : ∀ o, origin = some o → IsLine o.path) :
    ∀ line ∈ header name note origin, line.head? = some '#' ∧ IsLine line := by
  have hdigits (n : Nat) : IsLine (Nat.toDigits 10 n) := by
    intro c hc
    have hdigit := Nat.isDigit_of_mem_toDigits (by omega) (by omega) hc
    exact (isLine_of_isNameChar (by simp [isNameChar, Char.isAlphanum, hdigit]))
  intro line hline
  rcases List.mem_append.mp hline with hline | hline
  · rcases List.mem_append.mp hline with hline | hline
    · rcases List.mem_pair.mp hline with rfl | rfl
      · exact ⟨by decide +kernel, isLine_of_all (by decide +kernel)⟩
      · exact ⟨rfl, isLine_append (isLine_of_all (by decide +kernel)) hname⟩
    · split at hline
      · cases hline
      · obtain rfl := List.mem_singleton.mp hline
        exact ⟨rfl, isLine_append (isLine_of_all (by decide +kernel)) hnote⟩
  · cases origin with
    | none => cases hline
    | some o =>
      obtain rfl := List.mem_singleton.mp hline
      have hblank : IsLine (blankControl o.path) := by
        refine isLine_blankControl fun c hc hbreak => ?_
        rw [hpath o rfl c hc] at hbreak
        cases hbreak
      refine
        ⟨rfl, isLine_append (isLine_append (isLine_append ?_ hblank) (isLine_cons rfl nofun)) ?_⟩
      · exact isLine_of_all (by decide +kernel)
      · cases o.line with
        | none => exact isLine_of_all (by decide +kernel)
        | some line => exact hdigits line

theorem directivesFrom_service (inside : Text) (number : Nat) (rest : List Text) :
    directivesFrom inside number ("[Service]".toList :: rest) =
      directivesFrom "Service".toList (number + 1) rest := by
  have hstrip : stripChars "[Service]".toList = "[Service]".toList := by decide +kernel
  rw [directivesFrom, hstrip, if_neg (by decide +kernel), if_pos (by decide +kernel)]
  exact congrArg (directivesFrom · _ _) (by decide +kernel)

theorem stripChars_written (name value : Text) :
    stripChars (written name value) = written name value := by
  refine stripChars_eq_self_iff.mpr ⟨fun c hc => ?_, fun c hc => ?_⟩
  · obtain rfl := Option.some.inj hc
    decide
  · rw [written, ← List.cons_append, List.getLast?_concat] at hc
    obtain rfl := Option.some.inj hc
    decide

theorem directivesFrom_written (number : Nat) (name value : Text) :
    directivesFrom "Service".toList number ["Environment".toList ++ '=' :: written name value] =
      [(number, "Environment".toList, written name value)] := by
  have hstrip : stripChars ("Environment".toList ++ '=' :: written name value) =
      "Environment".toList ++ '=' :: written name value := by
    refine stripChars_eq_self_iff.mpr ⟨fun c hc => ?_, fun c hc => ?_⟩
    · obtain rfl : 'E' = c := Option.some.inj hc
      decide
    · rw [written, ← List.cons_append, ← List.cons_append,
        ← List.append_assoc, List.getLast?_concat] at hc
      obtain rfl := Option.some.inj hc
      decide
  have hcut := cutAt_singleton (x := '=') (a := "Environment".toList) (by decide +kernel)
    (written name value)
  have hkey : stripChars "Environment".toList = "Environment".toList := by decide +kernel
  rw [directivesFrom, hstrip, if_neg, if_neg, if_neg (not_not_intro rfl), hcut]
  · dsimp only
    rw [hkey, stripChars_written]
    rfl
  · rintro ⟨hhead, -⟩
    cases hhead
  · rintro (hnil | hhead | hhead)
    · cases hnil
    · cases hhead
    · cases hhead

/-- **The planned file has one directive.** -/
theorem directives_content (hname : isEnvName name = true) (hvalue : IsLine value)
    (hnote : IsLine note) (hpath : ∀ o, origin = some o → IsLine o.path) :
    serviceDirectives (content name value note origin) =
      [((header name note origin).length + 2, "Environment".toList, written name value)] := by
  have hheader := header_spec (isLine_of_isEnvName hname) hnote hpath
  have hwritten : IsLine ("Environment".toList ++ '=' :: written name value) := by
    refine isLine_append (isLine_of_all (by decide +kernel)) (isLine_cons rfl (isLine_cons rfl ?_))
    refine isLine_append (isLine_append (isLine_append (isLine_of_isEnvName hname) ?_)
      (isLine_escape hvalue)) ?_ <;> exact isLine_cons rfl nofun
  have hlines : ∀ line ∈ header name note origin ++
      ["[Service]".toList, "Environment".toList ++ '=' :: written name value], IsLine line := by
    intro line hline
    rcases List.mem_append.mp hline with hline | hline
    · exact (hheader line hline).2
    · rcases List.mem_pair.mp hline with rfl | rfl
      · exact isLine_of_all (by decide +kernel)
      · exact hwritten
  rw [serviceDirectives, content_eq, splitLines_join hlines,
    directivesFrom_comments fun line hline => (hheader line hline).1, directivesFrom_service,
    directivesFrom_written]
  congr 2
  omega

/-! ## The assignment -/

/-- A value with its percent signs doubled, as systemd wants them. -/
def doubled (value : Text) : Text := replaceChar '%' ['%', '%'] value

theorem replaceChar_append (old : Char) (new s t : Text) :
    replaceChar old new (s ++ t) = replaceChar old new s ++ replaceChar old new t :=
  List.flatMap_append

theorem escapeQuoted_append (s t : Text) : escapeQuoted
    (s ++ t) = escapeQuoted s ++ escapeQuoted t := by
  rw [escapeQuoted, replaceChar_append, replaceChar_append]
  rfl

theorem replaceChar_of_notMem {old : Char} {new s : Text} (h : old ∉ s) :
    replaceChar old new s = s := by
  refine (List.flatMap_congr fun c hc => ?_).trans (List.flatMap_singleton' s)
  rw [if_neg]
  rintro rfl
  exact h hc

theorem escape_eq (value : Text) : escape value = escapeQuoted (doubled value) := by
  induction value with
  | nil => rfl
  | cons c value ih =>
    have hcons : doubled (c :: value) = (if c = '%' then ['%', '%'] else [c]) ++
        doubled value := rfl
    rw [hcons, escapeQuoted_append, ← ih, escape, escapeQuoted_cons, replaceChar_append]
    refine congrArg (· ++ _) ?_
    by_cases hpercent : c = '%'
    · subst hpercent
      rfl
    · rw [if_neg hpercent]
      by_cases hslash : c = '\\'
      · subst hslash
        rfl
      · by_cases hquote : c = '"'
        · subst hquote
          rfl
        · rw [if_neg hslash, if_neg hquote, replaceChar_of_notMem (by simpa using Ne.symm hpercent),
            escapeQuoted, replaceChar_of_notMem (s := [c]) (by simpa using Ne.symm hslash),
            replaceChar_of_notMem (by simpa using Ne.symm hquote)]

theorem not_isNameChar (c : Char) (hc : c = '=' ∨ c = '"' ∨ c = '\\') : isNameChar c = false := by
  rcases hc with rfl | rfl | rfl <;> decide

theorem notMem_of_isEnvName (h : isEnvName name = true)
    (hc : c = '=' ∨ c = '"' ∨ c = '\\') : c ∉ name := by
  intro hmem
  have hchar := forall_isNameChar h c hmem
  rw [not_isNameChar c hc] at hchar
  cases hchar

/-- What is read of the line. -/
theorem parse_written (hname : isEnvName name = true) (value : Text) :
    parseEnvironmentValue (written name value) = [(name, doubled value)] := by
  have hplain : escapeQuoted name = name := by
    rw [escapeQuoted, replaceChar_of_notMem (notMem_of_isEnvName hname (.inr (.inr rfl))),
      replaceChar_of_notMem (notMem_of_isEnvName hname (.inr (.inl rfl)))]
  have hwritten : written name value = '"' ::
      (escapeQuoted (name ++ '=' :: doubled value) ++ ['"']) := by
    rw [escapeQuoted_append, hplain, escapeQuoted_cons, ← escape_eq, written, List.append_assoc]
    simp
  have hcut := cutAt_singleton (notMem_of_isEnvName hname (.inl rfl)) (doubled value)
  have hne : name ≠ [] := by
    rintro rfl
    cases hname
  rw [parseEnvironmentValue, hwritten, shlexSplit_quoted,
    Option.getD_some, List.filterMap_cons, hcut]
  simp [hne]

/-- **It sets the variable and no other.** -/
theorem assignmentsOf_written (hname : isEnvName name = true) (unit var path : Text) (number : Nat)
    (value : Text) : assignmentsOf unit var path number (written name value) =
      if name = var then
        [{ unit, name := var, kind := .environment, path, line := some number,
           value := some (doubled value), declaredIn := none }]
      else [] := by
  rw [assignmentsOf, parse_written hname, List.filterMap_cons]
  by_cases h : name = var
  · simp [h]
  · simp [h]

theorem doubled_eq_iff : doubled value = value ↔ '%' ∉ value := by
  constructor
  · intro h hmem
    have hlength : ∀ s : Text, (doubled s).length = s.length + s.count '%' := by
      intro s
      induction s with
      | nil => rfl
      | cons c s ih =>
        have hcons : doubled (c :: s) = (if c = '%' then ['%', '%'] else [c]) ++ doubled s := rfl
        rw [hcons, List.length_append, ih, List.count_cons]
        by_cases hc : c = '%'
        · simp [hc]
          omega
        · simp [hc]
          omega
    have hcount := List.count_pos_iff.mpr hmem
    have heq := hlength value
    rw [h] at heq
    omega
  · exact replaceChar_of_notMem

end GenusOs.Settings
