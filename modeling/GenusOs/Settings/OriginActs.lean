import GenusOs.Library.Resets
import GenusOs.Settings.DropinText
import Mathlib

/-!
# The origin of a variable, from what the files add and reset

* `walk_eq`: what `find_origin` collects is what the lines of the files add after the last reset.
* `winner_injective`: the origin shows all that was collected for the variable.
-/

namespace GenusOs.Settings

open Python Resets

variable {unit name key : Text} {files : List UnitFile} {file : UnitFile} {s : Source}

/-! ## Acts of the lines -/

/-- What the lines with a key do to a list: an empty value clears it. -/
def keyActs {α : Type} (key : Text) (added : Nat → Text → List α) (text : Text) : List (Act α) :=
  (serviceDirectives text).filterMap fun d =>
    if d.2.1 = key then some (if d.2.2 = [] then .clear else .push (added d.1 d.2.2)) else none

def envActs (unit name : Text) (file : UnitFile) : List (Act Source) :=
  keyActs "Environment".toList (assignmentsOf unit name file.1) file.2

def fileActs (file : UnitFile) : List (Act (Text × Text)) :=
  keyActs "EnvironmentFile".toList (fun _ value => [(value.dropWhile (· = '-'), file.1)]) file.2

/-- The assignments of a variable that stand after some files. -/
def assignments (unit name : Text) (files : List UnitFile) : List Source :=
  run (files.flatMap (envActs unit name)) []

/-- The environment files that stand. -/
def envFiles (files : List UnitFile) : List (Text × Text) := run (files.flatMap fileActs) []

/-- One of the files has an empty line of the key. -/
def resets (key : Text) (files : List UnitFile) : Bool :=
  files.any fun file => (serviceDirectives file.2).any fun d => d.2.1 = key && d.2.2 = []

theorem keyActs_other {α : Type} {text other value : Text} {number : Nat}
    (added : Nat → Text → List α) (h : serviceDirectives text = [(number, other, value)])
    (hne : other ≠ key) : keyActs key added text = [] := by
  unfold keyActs
  rw [h, List.filterMap_cons_none, List.filterMap_nil]
  exact if_neg hne

theorem clears_keyActs {α : Type} (key : Text) (added : Nat → Text → List α) (text : Text) :
    clears (keyActs key added text) =
      (serviceDirectives text).any fun d => d.2.1 = key && d.2.2 = [] := by
  unfold keyActs
  induction serviceDirectives text with
  | nil => rfl
  | cons d ds ih =>
    rw [List.filterMap_cons, List.any_cons, ← ih]
    by_cases hkey : d.2.1 = key
    · by_cases hvalue : d.2.2 = []
      · simp [hkey, hvalue, clears]
      · simp [hkey, hvalue, clears]
    · simp [hkey, clears]

theorem clears_flatMap {α : Type} {acts : UnitFile → List (Act α)} {key : Text}
    (h : ∀ file, clears (acts file) = (serviceDirectives file.2).any fun d => d.2.1 =
      key && d.2.2 = [])
    (files : List UnitFile) : clears (files.flatMap acts) = resets key files := by
  induction files with
  | nil => rfl
  | cons file files ih =>
    rw [List.flatMap_cons, clears_append, h, ih]
    rfl

theorem clears_envActs (unit name : Text) (files : List UnitFile) :
    clears (files.flatMap (envActs unit name)) = resets "Environment".toList files :=
  clears_flatMap (fun _ => clears_keyActs _ _ _) files

theorem clears_fileActs (files : List UnitFile) :
    clears (files.flatMap fileActs) = resets "EnvironmentFile".toList files :=
  clears_flatMap (fun _ => clears_keyActs _ _ _) files

theorem walkFile (unit name path : Text) (ds : List (Nat × Text × Text)) (st : Walk) :
    ds.foldl (Walk.directive unit name path) st =
      ⟨run (ds.filterMap fun d => if d.2.1 = "Environment".toList then
          some (if d.2.2 = [] then .clear else .push (assignmentsOf unit name path d.1 d.2.2))
            else none)
        st.assignments,
       run (ds.filterMap fun d => if d.2.1 = "EnvironmentFile".toList then
          some (if d.2.2 = [] then .clear else .push [(d.2.2.dropWhile (· = '-'), path)]) else none)
        st.envFiles⟩ := by
  have hkeys : ("EnvironmentFile".toList = "Environment".toList) = False := by decide +kernel
  induction ds generalizing st with
  | nil => rfl
  | cons d ds ih =>
    rw [List.foldl_cons, ih, List.filterMap_cons, List.filterMap_cons]
    unfold Walk.directive
    by_cases henv : d.2.1 = "Environment".toList
    · have hne : ¬ d.2.1 = "EnvironmentFile".toList := fun h => by
        rw [h, hkeys] at henv
        exact henv
      rw [if_pos henv, if_pos henv, if_neg hne]
      split <;> rfl
    · rw [if_neg henv, if_neg henv]
      by_cases hfile : d.2.1 = "EnvironmentFile".toList
      · rw [if_pos hfile, if_pos hfile]
        split <;> rfl
      · rw [if_neg hfile, if_neg hfile]

/-- **`find_origin` collects what stands after the files.** -/
theorem walk_eq (unit name : Text) (files : List UnitFile) :
    walk unit name files = ⟨assignments unit name files, envFiles files⟩ := by
  have hfrom : ∀ st, files.foldl
      (fun st file => (serviceDirectives file.2).foldl (Walk.directive unit name file.1) st) st =
        ⟨run (files.flatMap (envActs unit name)) st.assignments,
          run (files.flatMap fileActs) st.envFiles⟩ := by
    induction files with
    | nil => exact fun _ => rfl
    | cons file files ih =>
      intro st
      rw [List.foldl_cons, ih, walkFile, List.flatMap_cons, List.flatMap_cons]
      unfold run
      rw [List.foldl_append, List.foldl_append]
      rfl
  exact hfrom ⟨[], []⟩

/-! ## Where a source stands -/

theorem isLine_stripChars {cs : Text} (h : IsLine cs) : IsLine (stripChars cs) := by
  intro c hc
  have hmem := List.dropWhile_subset isSpace (List.mem_reverse.mp hc)
  exact h c (List.dropWhile_subset isSpace (List.mem_reverse.mp hmem))

theorem isLine_of_cutAt {line a b : Text} (h : IsLine line)
    (hcut : cutAt ['='] line = some (a, b)) :
    IsLine a ∧ IsLine b := by
  rw [eq_of_cutAt hcut] at h
  exact ⟨fun c hc => h c (List.mem_append_left _ (List.mem_append_left _ hc)),
    fun c hc => h c (List.mem_append_right _ hc)⟩

theorem directivesFrom_isLine {lines : List Text} (hlines : ∀ line ∈ lines, IsLine line)
    (inside : Text) (number : Nat) :
    ∀ d ∈ directivesFrom inside number lines, IsLine d.2.2 := by
  induction lines generalizing inside number with
  | nil => exact nofun
  | cons raw lines ih =>
    obtain ⟨hraw, hlines⟩ := List.forall_mem_cons.mp hlines
    rw [directivesFrom]
    split
    · exact ih hlines inside (number + 1)
    split
    · exact ih hlines _ (number + 1)
    split
    · exact ih hlines inside (number + 1)
    split
    · next key value hcut =>
      have hvalue := (isLine_of_cutAt (isLine_stripChars hraw) hcut).2
      exact List.forall_mem_cons.mpr ⟨isLine_stripChars hvalue, ih hlines inside (number + 1)⟩
    · exact ih hlines inside (number + 1)

theorem directive_isLine {text : Text} {d : Nat × Text × Text} (h : d ∈ serviceDirectives text) :
    IsLine d.2.2 :=
  directivesFrom_isLine (splitLines_clean text) [] 1 d h

theorem parse_isLine {value : Text} (hvalue : IsLine value) {e : Text × Text}
    (h : e ∈ parseEnvironmentValue value) : IsLine e.1 ∧ IsLine e.2 := by
  obtain ⟨word, hword, hcut⟩ := List.mem_filterMap.mp h
  have hline : IsLine word := by
    cases hwords : shlexSplit value with
    | some ws =>
      rw [hwords] at hword
      have hslash : isLineBreak '\\' = false := rfl
      exact shlexGo_forall hslash hwords nofun hvalue word hword
    | none =>
      rw [hwords] at hword
      intro c hc
      have hmem := List.mem_flatten_of_mem hword hc
      rw [Option.getD_none, flatten_words] at hmem
      exact hvalue c (List.mem_filter.mp hmem).1
  split at hcut
  · next name val heq =>
    split at hcut
    · cases hcut
    · cases hcut
      exact isLine_of_cutAt hline heq
  · cases hcut

/-- A source that stands is an assignment of the variable on a line of one of the files. -/
theorem of_mem_assignments (h : s ∈ assignments unit name files) : ∃ file ∈ files,
    ∃ d ∈ serviceDirectives file.2, d.2.1 = "Environment".toList ∧
      s ∈ assignmentsOf unit name file.1 d.1 d.2.2 := by
  obtain ⟨xs, hpush, hs⟩ := mem_run h
  obtain ⟨file, hfile, hact⟩ := List.mem_flatMap.mp hpush
  obtain ⟨d, hd, hact⟩ := List.mem_filterMap.mp hact
  split at hact
  · next hkey =>
    split at hact
    · cases hact
    · cases hact
      exact ⟨file, hfile, d, hd, hkey, hs⟩
  · cases hact

/-- An environment file that stands is named by one of the files. -/
theorem of_mem_envFiles {e : Text × Text} (h : e ∈ envFiles files) : e.2 ∈ files.map Prod.fst := by
  obtain ⟨xs, hpush, he⟩ := mem_run h
  obtain ⟨file, hfile, hact⟩ := List.mem_flatMap.mp hpush
  obtain ⟨d, -, hact⟩ := List.mem_filterMap.mp hact
  split at hact
  · split at hact
    · cases hact
    · cases hact
      rw [List.mem_singleton.mp he]
      exact List.mem_map_of_mem hfile
  · cases hact

theorem of_mem_assignmentsOf {path value : Text} {number : Nat}
    (h : s ∈ assignmentsOf unit name path number value) :
    ∃ val, (name, val) ∈ parseEnvironmentValue value ∧
      s = { unit, name, kind := .environment, path, line := some number, value := some val,
            declaredIn := none } := by
  obtain ⟨⟨var, val⟩, he, hs⟩ := List.mem_filterMap.mp h
  split at hs
  · next hvar =>
    dsimp only at hvar
    subst hvar
    exact ⟨val, he, (Option.some.inj hs).symm⟩
  · cases hs

theorem source_spec (h : s ∈ assignments unit name files) : s.kind = .environment ∧
    s.path ∈ files.map Prod.fst ∧ IsLine name ∧ ∀ val, s.value = some val → IsLine val := by
  obtain ⟨file, hfile, d, hd, -, hs⟩ := of_mem_assignments h
  obtain ⟨val, hval, rfl⟩ := of_mem_assignmentsOf hs
  have hline := parse_isLine (directive_isLine hd) hval
  refine ⟨rfl, List.mem_map_of_mem hfile, hline.1, ?_⟩
  rintro _ ⟨⟩
  exact hline.2

/-! ## The winner -/

section read

variable (readEnvFile : Text → Option Text)

/-- The source of a variable in an environment file. -/
def fileSource (unit name : Text) (e : Text × Text) : Source :=
  { unit, name, kind := .environmentFile, path := e.1, line := none, value := none,
    declaredIn := some e.2 }

/-- The last environment file with the variable. -/
theorem fileHit_eq (unit name : Text) (es : List (Text × Text)) :
    fileHit readEnvFile unit name es =
      (es.filter (setsIn readEnvFile name)).getLast?.map (fileSource unit name) := by
  induction es using List.reverseRecOn with
  | nil => rfl
  | append_singleton es e ih =>
    unfold fileHit at ih ⊢
    rw [List.foldl_append, List.foldl_cons, List.foldl_nil,
      ih, List.filter_append, List.filter_cons]
    cases setsIn readEnvFile name e with
    | true => simp [fileSource]
    | false => simp

/-- The origin from what was collected. -/
def winner (hit : Option Source) (found : List Source) : Option Origin :=
  match hit with
  | some hit => some { toSource := hit, shadowed := found }
  | none =>
    match found.getLast? with
    | some last => some { toSource := last, shadowed := found.dropLast }
    | none => none

theorem findOrigin_eq (unit name : Text) (files : List UnitFile) :
    findOrigin readEnvFile unit name files =
      winner (fileHit readEnvFile unit name (envFiles files)) (assignments unit name files) := by
  unfold findOrigin
  rw [walk_eq]
  rfl

/-- **The origin shows what was collected.** -/
theorem winner_injective {hit hit' : Option Source} {found found' : List Source}
    (hhit : ∀ s, hit = some s → s.kind = .environmentFile)
    (hhit' : ∀ s, hit' = some s → s.kind = .environmentFile)
    (hfound : ∀ s ∈ found, s.kind = .environment) (hfound' : ∀ s ∈ found', s.kind = .environment)
    (h : winner hit found = winner hit' found') : hit = hit' ∧ found = found' := by
  have hkinds : ∀ {s last : Source} {shadowed shadowed' : List Source}, s.kind = .environmentFile →
      last.kind = .environment → some (Origin.mk s shadowed) ≠ some (Origin.mk last shadowed') := by
    intro s last shadowed shadowed' hs hlast heq
    have hsame : s = last := congrArg Origin.toSource (Option.some.inj heq)
    rw [hsame, hlast] at hs
    cases hs
  cases hit with
  | some s =>
    cases hit' with
    | some s' =>
      have heq := Option.some.inj h
      exact ⟨congrArg some (congrArg Origin.toSource heq), congrArg Origin.shadowed heq⟩
    | none =>
      unfold winner at h
      dsimp only at h
      cases hlast : found'.getLast? with
      | none =>
        rw [hlast] at h
        cases h
      | some last =>
        rw [hlast] at h
        exact absurd h (hkinds (hhit s rfl) (hfound' last (List.mem_of_getLast? hlast)))
  | none =>
    cases hit' with
    | some s' =>
      unfold winner at h
      dsimp only at h
      cases hlast : found.getLast? with
      | none =>
        rw [hlast] at h
        cases h
      | some last =>
        rw [hlast] at h
        exact absurd h.symm (hkinds (hhit' s' rfl) (hfound last (List.mem_of_getLast? hlast)))
    | none =>
      refine ⟨rfl, ?_⟩
      unfold winner at h
      dsimp only at h
      cases hlast : found.getLast? with
      | none =>
        cases hlast' : found'.getLast? with
        | none => rw [List.getLast?_eq_none_iff.mp hlast, List.getLast?_eq_none_iff.mp hlast']
        | some last' =>
          rw [hlast, hlast'] at h
          cases h
      | some last =>
        cases hlast' : found'.getLast? with
        | none =>
          rw [hlast, hlast'] at h
          cases h
        | some last' =>
          rw [hlast, hlast'] at h
          have heq := Option.some.inj h
          have hsame : last = last' := congrArg Origin.toSource heq
          have hshadowed : found.dropLast = found'.dropLast := congrArg Origin.shadowed heq
          obtain ⟨front, rfl⟩ := List.getLast?_eq_some_iff.mp hlast
          obtain ⟨front', rfl⟩ := List.getLast?_eq_some_iff.mp hlast'
          rw [List.dropLast_concat, List.dropLast_concat] at hshadowed
          rw [hshadowed, hsame]

variable {readEnvFile} {hit : Option Source} {found : List Source} {o : Origin}

theorem winner_last (h : winner none found = some o) : found.getLast? = some o.toSource := by
  unfold winner at h
  dsimp only at h
  cases hlast : found.getLast? with
  | none =>
    rw [hlast] at h
    cases h
  | some last =>
    rw [hlast] at h
    exact congrArg some (congrArg Origin.toSource (Option.some.inj h))

/-- An assignment wins where no environment file has the variable. -/
theorem winner_assignment (hhit : ∀ s, hit = some s → s.kind = .environmentFile)
    (h : winner hit found = some o) (hkind : o.kind = .environment) :
    hit = none ∧ found.getLast? = some o.toSource := by
  cases hit with
  | some s =>
    have hsame : s = o.toSource := congrArg Origin.toSource (Option.some.inj h)
    have hfile := hhit s rfl
    rw [hsame, hkind] at hfile
    cases hfile
  | none => exact ⟨rfl, winner_last h⟩

theorem winner_none (h : winner hit found = none) : hit = none ∧ found = [] := by
  cases hit with
  | some s => cases h
  | none =>
    unfold winner at h
    dsimp only at h
    cases hlast : found.getLast? with
    | none => exact ⟨rfl, List.getLast?_eq_none_iff.mp hlast⟩
    | some last =>
      rw [hlast] at h
      cases h

/-! ## Environment files -/

/-- An environment file of the list sets the variable. -/
def Covered (readEnvFile : Text → Option Text) (es : List (Text × Text)) (name : Text) : Prop :=
  ∃ e ∈ es, setsIn readEnvFile name e = true

theorem fileHit_eq_none_iff {es : List (Text × Text)} :
    fileHit readEnvFile unit name es = none ↔ ¬ Covered readEnvFile es name := by
  rw [fileHit_eq, Option.map_eq_none_iff, List.getLast?_eq_none_iff, List.filter_eq_nil_iff]
  unfold Covered
  push Not
  rfl

theorem fileHit_append (es es' : List (Text × Text)) : fileHit readEnvFile unit name (es ++ es') =
    (fileHit readEnvFile unit name es').or (fileHit readEnvFile unit name es) := by
  rw [fileHit_eq, fileHit_eq, fileHit_eq, List.filter_append, List.getLast?_append, Option.map_or]

theorem fileHit_spec (h : fileHit readEnvFile unit name (envFiles files) = some s) :
    s.kind = .environmentFile ∧ s.value = none ∧
      ∃ path ∈ files.map Prod.fst, s.declaredIn = some path := by
  rw [fileHit_eq] at h
  obtain ⟨e, hlast, rfl⟩ := Option.map_eq_some_iff.mp h
  have hmem := (List.mem_filter.mp (List.mem_of_getLast? hlast)).1
  exact ⟨rfl, rfl, e.2, of_mem_envFiles hmem, rfl⟩

end read

end GenusOs.Settings
