import GenusOs.Library.Cut
import GenusOs.Library.Words
import GenusOs.Python.Str
import Mathlib

/-!
# Lines, shell words and paths of a text

`str.splitlines`, `shlex.split` and the parts of a `PurePosixPath`. A text is the list of its
characters.

* `splitLines_line`: a line break ends a line.
* `shlexSplit_quoted`: a word in double quotes, its quotes and backslashes escaped, is read back.
* `splitLines_clean`, `shlexSplit_forall`: what is read is made of what was there.
-/

namespace GenusOs.Python

abbrev Text := List Char

/-! ## `str.splitlines` -/

/-- The characters that end a line. -/
def isLineBreak (c : Char) : Bool :=
  let n := c.toNat
  (10 ≤ n && n ≤ 13) || (28 ≤ n && n ≤ 30) || n = 0x85 || n = 0x2028 || n = 0x2029

def splitLines : Text → List Text
  | [] => []
  | '\r' :: '\n' :: cs => [] :: splitLines cs
  | c :: cs => if isLineBreak c then [] :: splitLines cs else consHead c (splitLines cs)

/-- **A line break ends a line.** -/
theorem splitLines_line {line : Text} (h : ∀ c ∈ line, isLineBreak c = false) (cs : Text) :
    splitLines (line ++ '\n' :: cs) = line :: splitLines cs := by
  induction line with
  | nil => simp [splitLines, isLineBreak]
  | cons c line ih =>
    have hc := h c List.mem_cons_self
    have hcr : c ≠ '\r' := by
      rintro rfl
      cases hc
    rw [List.cons_append, splitLines, if_neg (by simp [hc]),
      ih fun d hd => h d (List.mem_cons_of_mem c hd)]
    · rfl
    · rintro _ ⟨⟩
      exact absurd rfl hcr

theorem splitLines_clean (s : Text) :
    ∀ line ∈ splitLines s, ∀ c ∈ line, isLineBreak c = false := by
  fun_induction splitLines s with
  | case1 => exact nofun
  | case2 cs ih => exact List.forall_mem_cons.mpr ⟨nofun, ih⟩
  | case3 c cs _ _ ih => exact List.forall_mem_cons.mpr ⟨nofun, ih⟩
  | case4 c cs _ hc ih =>
    have hclean : isLineBreak c = false := Bool.eq_false_iff.mpr hc
    cases hlines : splitLines cs with
    | nil => simp [consHead, hclean]
    | cons line lines =>
      rw [hlines] at ih
      obtain ⟨hline, hlines⟩ := List.forall_mem_cons.mp ih
      exact List.forall_mem_cons.mpr ⟨List.forall_mem_cons.mpr ⟨hclean, hline⟩, hlines⟩

/-! ## `shlex.split` -/

def isBlank (c : Char) : Bool := c = ' ' || c = '\t' || c = '\r' || c = '\n'

def isQuote (c : Char) : Bool := c = '\'' || c = '"'

/-- Where the lexer stands, with the word that it reads: an escaped character goes on in a quoted
stretch or in the word. -/
inductive Shlex
  | between
  | word (token : Text) (quoted : Bool)
  | quote (q : Char) (token : Text)
  | escape (back : Option Char) (token : Text) (quoted : Bool)

/-- The words up to the end; `none` is the `ValueError` for an open quote or escape. -/
def shlexGo : Shlex → Text → Option (List Text)
  | .between, [] => some []
  | .between, c :: cs =>
    if isBlank c then shlexGo .between cs
    else if c = '\\' then shlexGo (.escape none [] false) cs
    else if isQuote c then shlexGo (.quote c []) cs
    else shlexGo (.word [c] false) cs
  | .word token quoted, [] => some (if token ≠ [] ∨ quoted then [token] else [])
  | .word token quoted, c :: cs =>
    if isBlank c then
      if token ≠ [] ∨ quoted then (shlexGo .between cs).map (token :: ·) else shlexGo .between cs
    else if isQuote c then shlexGo (.quote c token) cs
    else if c = '\\' then shlexGo (.escape none token quoted) cs
    else shlexGo (.word (token ++ [c]) quoted) cs
  | .quote _ _, [] => none
  | .quote q token, c :: cs =>
    if c = q then shlexGo (.word token true) cs
    else if c = '\\' ∧ q = '"' then shlexGo (.escape (some q) token true) cs
    else shlexGo (.quote q (token ++ [c])) cs
  | .escape _ _ _, [] => none
  | .escape none token quoted, c :: cs => shlexGo (.word (token ++ [c]) quoted) cs
  | .escape (some q) token _, c :: cs =>
    shlexGo (.quote q (token ++ if c ≠ '\\' ∧ c ≠ q then ['\\', c] else [c])) cs

/-- `shlex.split(s, posix=True)` -/
def shlexSplit (s : Text) : Option (List Text) := shlexGo .between s

/-- `s.replace(old, new)` for a character. -/
def replaceChar (old : Char) (new s : Text) : Text :=
  s.flatMap fun c => if c = old then new else [c]

/-- What a shell's double quotes want escaped. -/
def escapeQuoted (s : Text) : Text := replaceChar '"' ['\\', '"'] (replaceChar '\\' ['\\', '\\'] s)

theorem escapeQuoted_cons (c : Char) (s : Text) : escapeQuoted (c :: s) =
    (if c = '\\' then ['\\', '\\'] else if c = '"' then ['\\', '"'] else [c]) ++
      escapeQuoted s := by
  unfold escapeQuoted replaceChar
  rw [List.flatMap_cons, List.flatMap_append]
  congr 1
  by_cases hslash : c = '\\'
  · subst hslash
    rfl
  · rw [if_neg hslash, if_neg hslash, List.flatMap_singleton]

theorem shlexGo_quoted (token s : Text) :
    shlexGo (.quote '"' token) (escapeQuoted s ++ ['"']) = some [token ++ s] := by
  induction s generalizing token with
  | nil => simp [escapeQuoted, replaceChar, shlexGo]
  | cons c s ih =>
    rw [escapeQuoted_cons]
    by_cases hslash : c = '\\'
    · subst hslash
      simpa [shlexGo] using ih (token ++ ['\\'])
    · by_cases hquote : c = '"'
      · subst hquote
        simpa [shlexGo] using ih (token ++ ['"'])
      · rw [if_neg hslash, if_neg hquote, List.append_assoc, List.singleton_append, shlexGo,
          if_neg hquote, if_neg (fun h => hslash h.1), ih, List.append_assoc, List.singleton_append]

/-- **A word in double quotes is read back.** -/
theorem shlexSplit_quoted (s : Text) : shlexSplit ('"' :: (escapeQuoted s ++ ['"'])) = some [s] :=
  shlexGo_quoted [] s

/-- The word that is being read. -/
def Shlex.token : Shlex → Text
  | .between => []
  | .word token _ | .quote _ token | .escape _ token _ => token

/-- Words are made of the characters of the text. -/
theorem shlexGo_forall {P : Char → Prop} (hslash : P '\\') {st : Shlex} {cs : Text}
    {ws : List Text} (h : shlexGo st cs = some ws) (htoken : ∀ c ∈ st.token, P c)
    (hcs : ∀ c ∈ cs, P c) : ∀ w ∈ ws, ∀ c ∈ w, P c := by
  have hpush : ∀ {token : Text} {c : Char}, (∀ d ∈ token, P d) → P c → ∀ d ∈ token ++ [c], P d := by
    intro token c htoken hc d hd
    rcases List.mem_append.mp hd with hd | hd
    · exact htoken d hd
    · rw [List.mem_singleton.mp hd]
      exact hc
  induction cs generalizing st ws with
  | nil =>
    cases st with
    | between =>
      obtain rfl := Option.some.inj h
      exact nofun
    | word token quoted =>
      obtain rfl := Option.some.inj h
      intro w hw
      split at hw
      · rw [List.mem_singleton.mp hw]
        exact htoken
      · cases hw
    | quote q token => cases h
    | escape back token quoted => cases back <;> cases h
  | cons c cs ih =>
    obtain ⟨hc, hcs⟩ := List.forall_mem_cons.mp hcs
    cases st with
    | between =>
      rw [shlexGo] at h
      split at h
      · exact ih h nofun hcs
      split at h
      · exact ih h nofun hcs
      split at h
      · exact ih h nofun hcs
      · exact ih h (List.forall_mem_singleton.mpr hc) hcs
    | word token quoted =>
      rw [shlexGo] at h
      split at h
      · split at h
        · obtain ⟨ws', hws, rfl⟩ := Option.map_eq_some_iff.mp h
          exact List.forall_mem_cons.mpr ⟨htoken, ih hws nofun hcs⟩
        · exact ih h nofun hcs
      split at h
      · exact ih h htoken hcs
      split at h
      · exact ih h htoken hcs
      · exact ih h (hpush htoken hc) hcs
    | quote q token =>
      rw [shlexGo] at h
      split at h
      · exact ih h htoken hcs
      split at h
      · exact ih h htoken hcs
      · exact ih h (hpush htoken hc) hcs
    | escape back token quoted =>
      cases back with
      | none =>
        rw [shlexGo] at h
        exact ih h (hpush htoken hc) hcs
      | some q =>
        rw [shlexGo] at h
        split at h
        · rw [show ['\\', c] = ['\\'] ++ [c] from rfl, ← List.append_assoc] at h
          exact ih h (hpush (hpush htoken hslash) hc) hcs
        · exact ih h (hpush htoken hc) hcs

/-! ## Paths -/

/-- The components of a path: `PurePosixPath` drops the empty ones and `.`. -/
def pathParts (path : Text) : List Text := (words (· = '/') path).filter (· ≠ ['.'])

/-- `PurePosixPath(path).name` -/
def pathName (path : Text) : Text := (pathParts path).getLast?.getD []

/-- `PurePosixPath(path).parent.name` -/
def parentName (path : Text) : Text := (pathParts path).dropLast.getLast?.getD []

/-- The root of a path, of which exactly two slashes are kept. -/
def pathRoot : Text → Text
  | '/' :: '/' :: '/' :: _ => ['/']
  | '/' :: '/' :: _ => ['/', '/']
  | '/' :: _ => ['/']
  | _ => []

/-- `str(PurePosixPath(path).parent)` -/
def parentPath (path : Text) : Text :=
  match pathRoot path ++ List.intercalate ['/'] (pathParts path).dropLast with
  | [] => ['.']
  | parent => parent

theorem of_mem_pathParts {path part : Text} (h : part ∈ pathParts path) :
    '/' ∉ part ∧ part ≠ [] ∧ part ≠ ['.'] := by
  obtain ⟨hword, hdot⟩ := List.mem_filter.mp h
  refine ⟨fun hslash => ?_, ?_, by simpa using hdot⟩
  · have hmem := List.mem_flatten_of_mem hword hslash
    rw [flatten_words] at hmem
    simp at hmem
  · have hne := (List.mem_filter.mp hword).2
    simpa using hne

theorem pathParts_nil : pathParts [] = [] := rfl

theorem pathParts_append (a b : Text) : pathParts (a ++ '/' :: b) = pathParts a ++ pathParts b := by
  unfold pathParts
  rw [words_append_cons (by simp), List.filter_append]

theorem pathParts_cons (path : Text) : pathParts ('/' :: path) = pathParts path :=
  pathParts_append [] path

theorem pathParts_part {part : Text} (hslash : '/' ∉ part) (hne : part ≠ []) (hdot : part ≠ ['.']) :
    pathParts part = [part] := by
  have hword : words (· = '/') part = [part] := by
    refine words_of_clean (fun c hc => ?_) hne
    have hc : c ≠ '/' := fun h => hslash (h ▸ hc)
    simpa using hc
  rw [pathParts, hword]
  simp [hdot]

/-- **A name under a directory is the last part.** -/
theorem pathParts_under (directory : Text) {name : Text} (hname : '/' ∉ name) (hne : name ≠ [])
    (hdot : name ≠ ['.']) : pathParts (directory ++ '/' :: name) =
      pathParts directory ++ [name] := by
  rw [pathParts_append, pathParts_part hname hne hdot]

theorem pathName_under (directory : Text) {name : Text} (hname : '/' ∉ name) (hne : name ≠ [])
    (hdot : name ≠ ['.']) : pathName (directory ++ '/' :: name) = name := by
  rw [pathName, pathParts_under directory hname hne hdot, List.getLast?_concat]
  rfl

theorem parentName_under (directory : Text) {name : Text} (hname : '/' ∉ name) (hne : name ≠ [])
    (hdot : name ≠ ['.']) : parentName (directory ++ '/' :: name) = pathName directory := by
  rw [parentName, pathParts_under directory hname hne hdot, List.dropLast_concat]
  rfl

/-- The directory of a path has the parts in front of the last. -/
theorem pathParts_parentPath (path : Text) :
    pathParts (parentPath path) = (pathParts path).dropLast := by
  have hjoin : pathParts (List.intercalate ['/'] (pathParts path).dropLast) =
      (pathParts path).dropLast := by
    rw [apply_intercalate pathParts_nil pathParts_append]
    refine (List.flatMap_congr fun part hpart => ?_).trans (List.flatMap_singleton' _)
    obtain ⟨hslash, hne, hdot⟩ := of_mem_pathParts (List.mem_of_mem_dropLast hpart)
    exact pathParts_part hslash hne hdot
  have hroot : ∀ rest, pathParts (pathRoot path ++ rest) = pathParts rest := by
    intro rest
    unfold pathRoot
    split
    · exact pathParts_cons rest
    · exact (pathParts_cons _).trans (pathParts_cons rest)
    · exact pathParts_cons rest
    · rfl
  unfold parentPath
  split
  · next hnil =>
    have hempty := hroot (List.intercalate ['/'] (pathParts path).dropLast)
    rw [hnil, hjoin] at hempty
    rw [← hempty]
    rfl
  · rw [hroot, hjoin]

end GenusOs.Python
