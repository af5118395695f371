import GenusOs.Settings.OriginActs
import Mathlib

/-!
# When a planned drop-in takes effect

* `UnitFiles`: a fragment and drop-ins in the order in which systemd reads them.
* `dropin_takes_effect_iff`: a planned drop-in sets its variable and leaves the others exactly when
  its value can be read back, no later file resets the environment, and the file that it replaces
  says nothing else.
-/

namespace GenusOs.Settings

open Python Resets

/-! ## The files of a unit -/

def isDropinPath (path : Text) : Bool := ".d".toList.isSuffixOf (parentName path)

/-- The files of a unit as `parse_show` lists them, the drop-ins in the order of their names. -/
structure UnitFiles where
  fragment : Option UnitFile
  dropins : List UnitFile
  fragment_path : ∀ file, fragment = some file → isDropinPath file.1 = false
  dropin_path : ∀ file ∈ dropins, isDropinPath file.1 = true
  sorted : dropins.Pairwise fun file file' => pathName file.1 < pathName file'.1
  isLine : ∀ file ∈ fragment.toList ++ dropins, IsLine file.1

theorem showLine_isLine {shown : List Text × List Text} {line : Text} (hline : IsLine line)
    (hshown : ∀ path ∈ shown.1 ++ shown.2, IsLine path) :
    ∀ path ∈ (showLine shown line).1 ++ (showLine shown line).2, IsLine path := by
  obtain ⟨hfragment, hdropins⟩ := List.forall_mem_append.mp hshown
  unfold showLine
  split
  · split
    · exact List.forall_mem_append.mpr ⟨hfragment, nofun⟩
    · exact hshown
  · next key value hcut =>
    have hvalue := (isLine_of_cutAt hline hcut).2
    split
    · exact List.forall_mem_append.mpr
        ⟨List.forall_mem_singleton.mpr (isLine_stripChars hvalue), hdropins⟩
    · split
      · refine List.forall_mem_append.mpr ⟨hfragment, fun word hword c hc => ?_⟩
        have hmem := List.mem_flatten_of_mem hword hc
        rw [flatten_words] at hmem
        exact hvalue c (List.mem_filter.mp hmem).1
      · exact hshown

/-- The paths that `parse_show` lists are lines. -/
theorem parseShow_isLine (output : Text) :
    ∀ path ∈ (parseShow output).1 ++ (parseShow output).2, IsLine path := by
  have hlines := splitLines_clean output
  unfold parseShow
  generalize splitLines output = lines at hlines
  induction lines using List.reverseRecOn with
  | nil => exact nofun
  | append_singleton lines line ih =>
    obtain ⟨hlines, hline⟩ := List.forall_mem_append.mp hlines
    rw [List.foldl_append, List.foldl_cons, List.foldl_nil]
    exact showLine_isLine (hline line (List.mem_singleton_self line)) (ih hlines)

namespace UnitFiles

variable (u : UnitFiles) (path : Text)

def files : List UnitFile := u.fragment.toList ++ u.dropins

/-- The files in front of one with the path. -/
def earlier : List UnitFile :=
  u.fragment.toList ++ u.dropins.filter fun file => file.1 ≠ path ∧ pathName file.1 ≤ pathName path

/-- The file with the path. -/
def replaced : List UnitFile := u.dropins.filter (·.1 = path)

/-- The files behind. -/
def later : List UnitFile := u.dropins.filter fun file => pathName path < pathName file.1

/-- The files once a drop-in is installed: in the place of the file of its path, or in the order of
the names. -/
def install (plan : DropinPlan) : List UnitFile :=
  u.earlier plan.path ++ (plan.path, plan.content) :: u.later plan.path

variable {u path}

theorem dropins_eq {dropins : List UnitFile}
    (h : dropins.Pairwise fun file file' => pathName file.1 < pathName file'.1) (path : Text) :
    (dropins.filter fun file => file.1 ≠ path ∧ pathName file.1 ≤ pathName path) ++
      (dropins.filter (·.1 = path) ++ dropins.filter fun file => pathName path < pathName file.1) =
        dropins := by
  induction dropins with
  | nil => rfl
  | cons file rest ih =>
    obtain ⟨hfile, hrest⟩ := List.pairwise_cons.mp h
    rcases lt_or_ge (pathName file.1) (pathName path) with hlt | hge
    · have hne : file.1 ≠ path := fun h => hlt.ne (congrArg pathName h)
      rw [List.filter_cons_of_pos (by simp [hne, hlt.le]), List.filter_cons_of_neg (by simp [hne]),
        List.filter_cons_of_neg (by simp [hlt.le]), List.cons_append, ih hrest]
    · -- the rest sorts after the path
      have hgt : ∀ g ∈ rest, pathName path < pathName g.1 := fun g hg => hge.trans_lt (hfile g hg)
      have hearlier : (rest.filter fun g => g.1 ≠ path ∧ pathName g.1 ≤ pathName path) = [] :=
        List.filter_eq_nil_iff.mpr fun g hg => by simp [hgt g hg]
      have hsame : rest.filter (·.1 = path) = [] :=
        List.filter_eq_nil_iff.mpr fun g hg =>
          by simpa using fun h => (hgt g hg).ne (congrArg pathName h.symm)
      have hlater : (rest.filter fun g => pathName path < pathName g.1) = rest :=
        List.filter_eq_self.mpr fun g hg => by simpa using hgt g hg
      rcases hge.eq_or_lt with heq | hlt
      · rw [List.filter_cons_of_neg (p := fun g : UnitFile => pathName path < pathName g.1)
          (by simp [heq]),
          hlater]
        by_cases hpath : file.1 = path
        · rw [List.filter_cons_of_neg (by simp [hpath]),
            List.filter_cons_of_pos (by simp [hpath]), hearlier,
            hsame]
          rfl
        · rw [List.filter_cons_of_pos (by simp [hpath, heq]),
            List.filter_cons_of_neg (by simp [hpath]),
            hearlier, hsame]
          rfl
      · have hne : file.1 ≠ path := fun h => hlt.ne (congrArg pathName h.symm)
        rw [List.filter_cons_of_neg (by simp [hlt]), List.filter_cons_of_neg (by simp [hne]),
          List.filter_cons_of_pos (by simpa using hlt), hearlier, hsame, hlater]
        rfl

/-- The files, with the one of the path between the earlier and the later. -/
theorem files_eq (u : UnitFiles) (path : Text) :
    u.files = u.earlier path ++ (u.replaced path ++ u.later path) := by
  rw [files, earlier, List.append_assoc]
  exact congrArg _ (dropins_eq u.sorted path).symm

theorem path_of_replaced {file : UnitFile} (h : file ∈ u.replaced path) : file.1 = path := by
  simpa using (List.mem_filter.mp h).2

theorem later_spec {file : UnitFile} (h : file ∈ u.later path) :
    isDropinPath file.1 = true ∧ pathName path < pathName file.1 := by
  obtain ⟨hmem, hlt⟩ := List.mem_filter.mp h
  exact ⟨u.dropin_path file hmem, by simpa using hlt⟩

theorem path_of_earlier (hpath : isDropinPath path = true) {file : UnitFile}
    (h : file ∈ u.earlier path) : file.1 ≠ path := by
  rcases List.mem_append.mp h with hmem | hmem
  · intro heq
    rw [← heq, u.fragment_path file (Option.mem_toList.mp hmem)] at hpath
    cases hpath
  · have hne := (List.mem_filter.mp hmem).2
    simp only [decide_eq_true_eq] at hne
    exact hne.1

end UnitFiles

/-! ## Where the drop-in goes -/

variable {readEnvFile : Text → Option Text} {unit name value note directory basename : Text}
  {origin : Option Origin} {override : Bool} {fuel : Nat} {plan : DropinPlan} {u : UnitFiles}

/-- A name that is one component of a path. -/
def IsPart (s : Text) : Prop := '/' ∉ s ∧ s ≠ [] ∧ s ≠ ['.']

theorem slash_notMem_slug (name : Text) : '/' ∉ slug name := by
  have hwords : ∀ word ∈ words (!isSlugChar ·) (name.map Char.toLower), '/' ∉ word := by
    intro word hword hslash
    have hmem := List.mem_flatten_of_mem hword hslash
    rw [flatten_words] at hmem
    have hslug := (List.mem_filter.mp hmem).2
    simp [isSlugChar, Char.isDigit] at hslug
  intro hslash
  unfold slug at hslash
  generalize words (!isSlugChar ·) (name.map Char.toLower) = parts at hwords hslash
  induction parts with
  | nil => cases hslash
  | cons part parts ih =>
    obtain ⟨hpart, hparts⟩ := List.forall_mem_cons.mp hwords
    cases parts with
    | nil =>
      rw [List.intercalate_singleton] at hslash
      exact hpart hslash
    | cons next parts =>
      rw [List.intercalate_cons_cons, List.append_assoc] at hslash
      rcases List.mem_append.mp hslash with hslash | hslash
      · exact hpart hslash
      · rcases List.mem_append.mp hslash with hslash | hslash
        · exact absurd (List.mem_singleton.mp hslash) (by decide)
        · exact ih hparts hslash

theorem isPart_dropinBasename (name : Text) (zs : Nat) : IsPart (dropinBasename name zs) := by
  have hlength : 14 ≤ (dropinBasename name zs).length := by
    have hmiddle : "-genus-config-".toList.length = 14 := by decide +kernel
    unfold dropinBasename
    rw [List.length_append, List.length_append, List.length_append, hmiddle]
    omega
  refine ⟨?_, ?_, ?_⟩
  · unfold dropinBasename
    simp only [List.mem_append, not_or]
    refine ⟨⟨⟨?_, by decide +kernel⟩, slash_notMem_slug name⟩, by decide +kernel⟩
    exact fun h => absurd (List.eq_of_mem_replicate h) (by decide)
  · rintro h
    rw [h] at hlength
    cases hlength
  · rintro h
    rw [h] at hlength
    exact absurd hlength (by decide)

theorem isPart_pathName {path : Text} (h : pathName path ≠ []) : IsPart (pathName path) := by
  unfold pathName at h ⊢
  cases hlast : (pathParts path).getLast? with
  | none =>
    rw [hlast] at h
    exact absurd rfl h
  | some part => exact of_mem_pathParts (List.mem_of_getLast? hlast)

theorem basenameAfter_spec {winner : Text} {zs : Nat}
    (h : basenameAfter name winner fuel zs = some basename) :
    winner < basename ∧ ∃ zs, basename = dropinBasename name zs := by
  induction fuel generalizing zs with
  | zero => cases h
  | succ fuel ih =>
    rw [basenameAfter] at h
    split at h
    · exact ih h
    · next hle =>
      obtain rfl := Option.some.inj h
      exact ⟨not_le.mp hle, zs, rfl⟩

theorem slash_notMem_unitName (h : matchesUnitName unit = true) : '/' ∉ unit := by
  have hall : ∀ s : Text, s.all isUnitChar = true → '/' ∉ s := by
    intro s hs hslash
    have hchar := List.all_eq_true.mp hs '/' hslash
    cases hchar
  unfold matchesUnitName at h
  rcases Bool.or_eq_true_iff.mp h with h | h
  · exact hall unit (Bool.and_eq_true_iff.mp h).2
  · have hchomp := hall (chomp unit) (Bool.and_eq_true_iff.mp h).2
    unfold chomp at hchomp
    split at hchomp
    · next hlast =>
      obtain ⟨front, rfl⟩ := List.getLast?_eq_some_iff.mp hlast
      rw [List.dropLast_concat] at hchomp
      simpa using hchomp
    · exact hchomp

/-- **The drop-in does not sort in front of the one that wins.** -/
theorem target_spec (h : target fuel name unit origin override = .ok (some (directory, basename))) :
    IsPart basename ∧
      (directory = "/etc/systemd/system/".toList ++ unit ++ ".d".toList ∨
        ∃ o, origin = some o ∧ isDropinPath o.path = true ∧ directory = parentPath o.path) ∧
      ∀ o, origin = some o → o.kind = .environment ∧
        (isDropinPath o.path = true → pathName o.path ≤ basename) := by
  unfold target at h
  cases origin with
  | none =>
    cases h
    exact ⟨isPart_dropinBasename name 2, .inl rfl, nofun⟩
  | some o =>
    dsimp only at h
    split at h
    · cases h
    next hkind =>
    have henv : o.kind = .environment := by
      cases hk : o.kind with
      | environment => rfl
      | environmentFile => exact absurd hk hkind
    split at h
    · next hdropin =>
      split at h
      · next hown =>
        cases h
        refine ⟨isPart_pathName ?_, .inr ⟨o, rfl, hdropin, rfl⟩, ?_⟩
        · intro hnil
          rw [hnil] at hown
          cases hown
        · rintro _ ⟨⟩
          exact ⟨henv, fun _ => le_refl _⟩
      · split at h
        · split at h
          · obtain ⟨base, hbase, heq⟩ := Option.map_eq_some_iff.mp (Except.ok.inj h)
            cases heq
            obtain ⟨hlt, zs, rfl⟩ := basenameAfter_spec hbase
            refine ⟨isPart_dropinBasename name zs, .inl rfl, ?_⟩
            rintro _ ⟨⟩
            exact ⟨henv, fun _ => hlt.le⟩
          · cases h
        · next hle =>
          cases h
          refine ⟨isPart_dropinBasename name 2, .inl rfl, ?_⟩
          rintro _ ⟨⟩
          exact ⟨henv, fun _ => not_lt.mp hle⟩
    · next hfragment =>
      cases h
      refine ⟨isPart_dropinBasename name 2, .inl rfl, ?_⟩
      rintro _ ⟨⟩
      exact ⟨henv, fun hdropin => absurd hdropin hfragment⟩

/-- What is known of a plan. -/
structure Planned (name value note : Text) (origin : Option Origin) (plan : DropinPlan) : Prop where
  name_matches : matchesEnvName name = true
  content : plan.content = content name value (blankControl note) origin
  dropin : isDropinPath plan.path = true
  after : ∀ o, origin = some o → o.kind = .environment ∧
    (isDropinPath o.path = true → pathName o.path ≤ pathName plan.path)

theorem planned (h : planDropin fuel name value unit origin override note = .ok (some plan)) :
    Planned name value note origin plan := by
  unfold planDropin at h
  split at h
  · cases h
  next hname =>
  split at h
  · cases h
  split at h
  · cases h
  next hunit =>
  split at h
  · cases h
  · cases h
  next directory basename htarget =>
  cases h
  obtain ⟨⟨hslash, hne, hdot⟩, hdirectory, hafter⟩ := target_spec htarget
  refine ⟨by simpa using hname, rfl, ?_, fun o ho => ?_⟩
  · show ".d".toList.isSuffixOf (parentName (directory ++ '/' :: basename)) = true
    rw [parentName_under directory hslash hne hdot]
    rcases hdirectory with rfl | ⟨o, -, hdropin, rfl⟩
    · have hunit : '/' ∉ unitName unit ++ ".d".toList := by
        simp only [List.mem_append, not_or]
        exact ⟨slash_notMem_unitName (by simpa using hunit), by decide +kernel⟩
      have hlast : pathName ("/etc/systemd/system/".toList ++ unitName unit ++ ".d".toList) =
          unitName unit ++ ".d".toList := by
        rw [show "/etc/systemd/system/".toList =
          "/etc/systemd/system".toList ++ ['/'] by decide +kernel,
          List.append_assoc, List.append_assoc, List.singleton_append]
        refine pathName_under _ hunit (fun h => ?_) (fun h => ?_)
        · exact absurd (List.append_eq_nil_iff.mp h).2 (by decide +kernel)
        · have hlength := congrArg List.length h
          rw [List.length_append, show ".d".toList.length = 2 by decide +kernel] at hlength
          exact absurd hlength (by simp)
      rw [hlast]
      exact List.isSuffixOf_iff_suffix.mpr (List.suffix_append _ _)
    · have hlast : pathName (parentPath o.path) = parentName o.path := by
        rw [pathName, pathParts_parentPath]
        rfl
      rw [hlast]
      exact hdropin
  · show _ ∧ (_ → _ ≤ pathName (directory ++ '/' :: basename))
    rw [pathName_under directory hslash hne hdot]
    exact hafter o ho

/-! ## What stands with the drop-in -/

/-- The conditions under which a drop-in takes effect, and only for its variable. -/
structure Plain (readEnvFile : Text → Option Text)
    (unit : Text) (u : UnitFiles) (name value path : Text) :
    Prop where
  name_whole : isEnvName name = true
  value_line : IsLine value
  value_percent : '%' ∉ value
  /-- No later file resets the assignments. -/
  later_keeps : resets "Environment".toList (u.later path) = false
  /-- The file that is replaced sets no other variable, -/
  replaced_sets : ∀ var, var ≠ name → assignments unit var (u.replaced path) = []
  /-- and its reset hides no other. -/
  replaced_hides : resets "Environment".toList (u.replaced path) = true →
    ∀ var, var ≠ name → assignments unit var (u.earlier path) = []
  /-- What its environment files set, or those that it hides, is set by later ones too. -/
  replaced_files : resets "EnvironmentFile".toList (u.later path) = false → ∀ var,
    (Covered readEnvFile (envFiles (u.replaced path)) var ∨
      resets "EnvironmentFile".toList (u.replaced path) = true ∧
        Covered readEnvFile (envFiles (u.earlier path)) var) →
    Covered readEnvFile (envFiles (u.later path)) var

theorem assignments_append (unit var : Text) (files files' : List UnitFile) :
    assignments unit var (files ++ files') =
      left (files'.flatMap (envActs unit var)) (assignments unit var files) ++
        assignments unit var files' := by
  unfold assignments
  rw [List.flatMap_append, run_append]

theorem envFiles_append (files files' : List UnitFile) : envFiles (files ++ files') =
    left (files'.flatMap fileActs) (envFiles files) ++ envFiles files' := by
  unfold envFiles
  rw [List.flatMap_append, run_append]

/-- The assignments of the files as they were. -/
theorem assignments_files (hkeeps : resets "Environment".toList (u.later plan.path) = false)
    (unit var : Text) : assignments unit var u.files =
      left ((u.replaced plan.path).flatMap (envActs unit var))
        (assignments unit var (u.earlier plan.path)) ++
        assignments unit var (u.replaced plan.path) ++
          assignments unit var (u.later plan.path) := by
  rw [u.files_eq plan.path, ← List.append_assoc, assignments_append, assignments_append,
    left_of_not (by rw [clears_envActs, hkeeps])]

section installed

variable {number : Nat}
  (hdirectives : serviceDirectives plan.content =
      [(number, "Environment".toList, written name value)])

include hdirectives

theorem envActs_plan (unit var : Text) :
    envActs unit var (plan.path, plan.content) =
      [.push (assignmentsOf unit var plan.path number (written name value))] := by
  unfold envActs keyActs
  rw [hdirectives]
  rfl

theorem fileActs_plan : fileActs (plan.path, plan.content) = [] := by
  have hkey : "Environment".toList ≠ "EnvironmentFile".toList := by decide +kernel
  exact keyActs_other _ hdirectives hkey

/-- The assignments with the drop-in. -/
theorem assignments_install (hkeeps : resets "Environment".toList (u.later plan.path) = false)
    (unit var : Text) :
    assignments unit var (u.install plan) = assignments unit var (u.earlier plan.path) ++
      assignmentsOf unit var plan.path number (written name value) ++
        assignments unit var (u.later plan.path) := by
  have hplan : assignments unit var [(plan.path, plan.content)] =
      assignmentsOf unit var plan.path number (written name value) := by
    rw [assignments, List.flatMap_singleton, envActs_plan hdirectives]
    rfl
  rw [UnitFiles.install, ← List.singleton_append, ← List.append_assoc, assignments_append,
    assignments_append, hplan, left_of_not (by rw [clears_envActs, hkeeps]), left_of_not]
  rw [List.flatMap_singleton, envActs_plan hdirectives]
  rfl

/-- The environment files with the drop-in. -/
theorem envFiles_install : envFiles (u.install plan) =
    left ((u.later plan.path).flatMap fileActs) (envFiles (u.earlier plan.path)) ++
      envFiles (u.later plan.path) := by
  have hplan : envFiles [(plan.path, plan.content)] = [] := by
    rw [envFiles, List.flatMap_singleton, fileActs_plan hdirectives]
    rfl
  have hacts : [(plan.path, plan.content)].flatMap fileActs = [] := by
    rw [List.flatMap_singleton, fileActs_plan hdirectives]
  rw [UnitFiles.install, ← List.singleton_append, ← List.append_assoc, envFiles_append,
    envFiles_append, hplan, List.append_nil, hacts]
  rfl

end installed

theorem envFiles_files (u : UnitFiles) (path : Text) : envFiles u.files =
    left ((u.later path).flatMap fileActs)
      (left ((u.replaced path).flatMap fileActs) (envFiles (u.earlier path)) ++
        envFiles (u.replaced path)) ++
      envFiles (u.later path) := by
  rw [u.files_eq path, ← List.append_assoc, envFiles_append, envFiles_append]

/-! ## The law -/

/-- With the drop-in the variable comes from it, with the value, and the others from where they
came. -/
def TakesEffect (readEnvFile : Text → Option Text) (unit : Text) (u : UnitFiles) (name value : Text)
    (plan : DropinPlan) : Prop :=
  (∃ o, findOrigin readEnvFile unit name (u.install plan) = some o ∧ o.path = plan.path ∧
    o.value = some value) ∧
  ∀ var, var ≠ name →
    findOrigin readEnvFile unit var (u.install plan) = findOrigin readEnvFile unit var u.files

theorem hit_kind {var : Text} {files : List UnitFile} :
    ∀ s, fileHit readEnvFile unit var (envFiles files) = some s → s.kind = .environmentFile :=
  fun _ hs => (fileHit_spec hs).1

theorem found_kind {var : Text} {files : List UnitFile} :
    ∀ s ∈ assignments unit var files, s.kind = .environment :=
  fun _ hs => (source_spec hs).1

/-- What the plan knows of the origin. -/
theorem planned_origin
    (h : Planned name value note (findOrigin readEnvFile unit name u.files) plan) :
    fileHit readEnvFile unit name (envFiles u.files) = none ∧
      (∀ s, (assignments unit name u.files).getLast? = some s → isDropinPath s.path = true →
        pathName s.path ≤ pathName plan.path) ∧
      ∀ o, findOrigin readEnvFile unit name u.files = some o → IsLine o.path := by
  cases horigin : findOrigin readEnvFile unit name u.files with
  | none =>
    rw [findOrigin_eq] at horigin
    obtain ⟨hhit, hfound⟩ := winner_none horigin
    refine ⟨hhit, fun s hs => ?_, nofun⟩
    rw [hfound] at hs
    cases hs
  | some o =>
    obtain ⟨hkind, hafter⟩ := h.after o horigin
    rw [findOrigin_eq] at horigin
    obtain ⟨hhit, hlast⟩ := winner_assignment hit_kind horigin hkind
    refine ⟨hhit, fun s hs => ?_, ?_⟩
    · rw [hlast] at hs
      rw [← Option.some.inj hs]
      exact hafter
    · rintro _ ⟨⟩
      obtain ⟨-, hpath, -⟩ := source_spec (List.mem_of_getLast? hlast)
      obtain ⟨file, hfile, heq⟩ := List.mem_map.mp hpath
      rw [← heq]
      exact u.isLine file hfile

/-- A name that `$` lets pass is a name where it is one line. -/
theorem isEnvName_of_isLine (h : matchesEnvName name = true) (hline : IsLine name) :
    isEnvName name = true := by
  rcases Bool.or_eq_true_iff.mp h with h | h
  · exact h
  · unfold chomp at h
    split at h
    · next hlast =>
      have hbreak := hline '\n' (List.mem_of_getLast? hlast)
      cases hbreak
    · exact h

/-- A source behind the drop-in is not its. -/
theorem path_of_later {var : Text} {s : Source} (h : s ∈ assignments unit var (u.later plan.path)) :
    isDropinPath s.path = true ∧ pathName plan.path < pathName s.path := by
  obtain ⟨-, hpath, -⟩ := source_spec h
  obtain ⟨file, hfile, heq⟩ := List.mem_map.mp hpath
  rw [← heq]
  exact UnitFiles.later_spec hfile

theorem path_of_earlier {var : Text} {s : Source} (hdropin : isDropinPath plan.path = true)
    (h : s ∈ assignments unit var (u.earlier plan.path)) : s.path ≠ plan.path := by
  obtain ⟨-, hpath, -⟩ := source_spec h
  obtain ⟨file, hfile, heq⟩ := List.mem_map.mp hpath
  rw [← heq]
  exact UnitFiles.path_of_earlier hdropin hfile

theorem path_of_replaced {var : Text} {s : Source}
    (h : s ∈ assignments unit var (u.replaced plan.path)) : s.path = plan.path := by
  obtain ⟨-, hpath, -⟩ := source_spec h
  obtain ⟨file, hfile, heq⟩ := List.mem_map.mp hpath
  rw [← heq]
  exact UnitFiles.path_of_replaced hfile

/-- What the replaced file did with a variable that comes from where it came. -/
theorem replaced_silent {var : Text} (hdropin : isDropinPath plan.path = true)
    (h : assignments unit var (u.earlier plan.path) =
      left ((u.replaced plan.path).flatMap (envActs unit var))
        (assignments unit var (u.earlier plan.path)) ++
          assignments unit var (u.replaced plan.path)) :
    assignments unit var (u.replaced plan.path) = [] ∧
      (resets "Environment".toList (u.replaced plan.path) = true →
        assignments unit var (u.earlier plan.path) = []) := by
  cases hresets : resets "Environment".toList (u.replaced plan.path) with
  | false =>
    rw [left_of_not (by rw [clears_envActs, hresets])] at h
    exact ⟨List.self_eq_append_right.mp h, nofun⟩
  | true =>
    rw [left_of_clears (by rw [clears_envActs, hresets]), List.nil_append] at h
    -- a source of both would have two paths
    have hnil : assignments unit var (u.earlier plan.path) = [] := by
      refine List.eq_nil_iff_forall_not_mem.mpr fun s hs => ?_
      exact path_of_earlier hdropin hs (path_of_replaced (h ▸ hs))
    exact ⟨h ▸ hnil, fun _ => hnil⟩

/-- The environment file of a variable stays the same exactly where later ones cover what the
replaced file did. -/
theorem fileHit_install_iff {number : Nat} (hdropin : isDropinPath plan.path = true)
    (hdirectives : serviceDirectives plan.content =
      [(number, "Environment".toList, written name value)])
    (var : Text) : fileHit readEnvFile unit var (envFiles (u.install plan)) =
      fileHit readEnvFile unit var (envFiles u.files) ↔
    (resets "EnvironmentFile".toList (u.later plan.path) = false →
      (Covered readEnvFile (envFiles (u.replaced plan.path)) var ∨
        resets "EnvironmentFile".toList (u.replaced plan.path) = true ∧
          Covered readEnvFile (envFiles (u.earlier plan.path)) var) →
      Covered readEnvFile (envFiles (u.later plan.path)) var) := by
  rw [envFiles_install hdirectives, envFiles_files u plan.path]
  cases hlater : resets "EnvironmentFile".toList (u.later plan.path) with
  | true =>
    have hclears := (clears_fileActs (u.later plan.path)).trans hlater
    rw [left_of_clears hclears, left_of_clears hclears]
    exact iff_of_true rfl nofun
  | false =>
    have hkeeps := (clears_fileActs (u.later plan.path)).trans hlater
    rw [left_of_not hkeeps, left_of_not hkeeps, fileHit_append, fileHit_append, fileHit_append]
    by_cases hcovered : Covered readEnvFile (envFiles (u.later plan.path)) var
    · obtain ⟨s, hs⟩ := Option.ne_none_iff_exists'.mp
        (fun h => fileHit_eq_none_iff.mp h hcovered : fileHit readEnvFile unit var
          (envFiles (u.later plan.path)) ≠ none)
      rw [hs]
      exact iff_of_true rfl fun _ _ => hcovered
    · rw [fileHit_eq_none_iff.mpr hcovered, Option.none_or, Option.none_or]
      have hdeclared : ∀ s s', fileHit readEnvFile unit var
          (envFiles (u.earlier plan.path)) = some s →
          fileHit readEnvFile unit var (envFiles (u.replaced plan.path)) = some s' → s ≠ s' := by
        rintro s _ hs hs' rfl
        obtain ⟨-, -, path, hpath, hdeclared⟩ := fileHit_spec hs
        obtain ⟨-, -, path', hpath', hdeclared'⟩ := fileHit_spec hs'
        obtain ⟨file, hfile, rfl⟩ := List.mem_map.mp hpath
        obtain ⟨file', hfile', rfl⟩ := List.mem_map.mp hpath'
        rw [hdeclared] at hdeclared'
        refine UnitFiles.path_of_earlier hdropin hfile ?_
        rw [Option.some.inj hdeclared', UnitFiles.path_of_replaced hfile']
      constructor
      · rintro heq - (hreplaced | ⟨hresets, hearlier⟩)
        · exfalso
          obtain ⟨s', hs'⟩ := Option.ne_none_iff_exists'.mp
            (fun h => fileHit_eq_none_iff.mp h hreplaced : fileHit readEnvFile unit var
              (envFiles (u.replaced plan.path)) ≠ none)
          rw [hs', Option.some_or] at heq
          exact hdeclared s' s' heq hs' rfl
        · exfalso
          obtain ⟨s, hs⟩ := Option.ne_none_iff_exists'.mp
            (fun h => fileHit_eq_none_iff.mp h hearlier : fileHit readEnvFile unit var
              (envFiles (u.earlier plan.path)) ≠ none)
          rw [left_of_clears ((clears_fileActs _).trans hresets), hs] at heq
          have hs' : fileHit readEnvFile unit var (envFiles (u.replaced plan.path)) = some s := by
            rw [heq]
            exact (Option.or_none).symm
          exact hdeclared s s hs hs' rfl
      · intro h
        have hnot : ¬ Covered readEnvFile (envFiles (u.replaced plan.path)) var :=
          fun hreplaced => hcovered (h rfl (.inl hreplaced))
        rw [fileHit_eq_none_iff.mpr hnot, Option.none_or]
        cases hresets : resets "EnvironmentFile".toList (u.replaced plan.path) with
        | false => rw [left_of_not ((clears_fileActs _).trans hresets)]
        | true =>
          have hearlier : ¬ Covered readEnvFile (envFiles (u.earlier plan.path)) var :=
            fun hearlier => hcovered (h rfl (.inr ⟨hresets, hearlier⟩))
          rw [left_of_clears ((clears_fileActs _).trans hresets), fileHit_eq_none_iff.mpr hearlier]
          rfl

/-- **A planned drop-in takes effect, and only for its variable, exactly where it is plain.** -/
theorem dropin_takes_effect_iff (readEnvFile : Text → Option Text) (u : UnitFiles) (fuel : Nat)
    (name value unit note : Text) (override : Bool) (plan : DropinPlan)
    (hplan : planDropin fuel name value unit
      (findOrigin readEnvFile unit name u.files) override note =
      .ok (some plan))
    (hnote : IsLine (blankControl note)) :
    TakesEffect readEnvFile unit u name value plan ↔
      Plain readEnvFile unit u name value plan.path := by
  have hplanned := planned hplan
  obtain ⟨hhit, hafter, horigin⟩ := planned_origin hplanned
  have hdirectives (hname : isEnvName name = true) (hvalue : IsLine value) :=
    hplanned.content ▸ directives_content hname hvalue hnote horigin
  have hdropin := hplanned.dropin
  constructor
  · rintro ⟨⟨o, ho, hpath, hvalue⟩, hothers⟩
    rw [findOrigin_eq] at ho
    have hhit' : fileHit readEnvFile unit name (envFiles (u.install plan)) = none := by
      cases hh : fileHit readEnvFile unit name (envFiles (u.install plan)) with
      | none => rfl
      | some s =>
        rw [hh] at ho
        have hsame : s = o.toSource := congrArg Origin.toSource (Option.some.inj ho)
        have hnone := (fileHit_spec hh).2.1
        rw [hsame, hvalue] at hnone
        cases hnone
    rw [hhit'] at ho
    have hmem := List.mem_of_getLast? (winner_last ho)
    obtain ⟨-, -, hname, hline⟩ := source_spec hmem
    have hwhole := isEnvName_of_isLine hplanned.name_matches hname
    have hplanDirectives := hdirectives hwhole (hline value hvalue)
    have hkeeps : resets "Environment".toList (u.later plan.path) = false := by
      by_contra hresets
      rw [Bool.not_eq_false] at hresets
      rw [UnitFiles.install, ← List.singleton_append, ← List.append_assoc, assignments_append,
        left_of_clears ((clears_envActs _ _ _).trans hresets)] at hmem
      have hlt := (path_of_later hmem).2
      rw [hpath] at hlt
      exact lt_irrefl _ hlt
    rw [assignments_install hplanDirectives hkeeps] at hmem
    have hdoubled : doubled value = value := by
      rcases List.mem_append.mp hmem with hmem | hmem
      · rcases List.mem_append.mp hmem with hmem | hmem
        · exact absurd hpath (path_of_earlier hdropin hmem)
        · rw [assignmentsOf_written hwhole, if_pos rfl] at hmem
          rw [List.mem_singleton.mp hmem] at hvalue
          exact Option.some.inj hvalue
      · have hlt := (path_of_later hmem).2
        rw [hpath] at hlt
        exact absurd hlt (lt_irrefl _)
    have hsame : ∀ var, var ≠ name →
        fileHit readEnvFile unit var (envFiles (u.install plan)) =
          fileHit readEnvFile unit var (envFiles u.files) ∧
        assignments unit var (u.install plan) = assignments unit var u.files := by
      intro var hvar
      have heq := hothers var hvar
      rw [findOrigin_eq, findOrigin_eq] at heq
      exact winner_injective hit_kind hit_kind found_kind found_kind heq
    have hsilent := fun var (hvar : var ≠ name) => replaced_silent hdropin (by
      have hfound := (hsame var hvar).2
      rw [assignments_install hplanDirectives hkeeps, assignments_files hkeeps,
        assignmentsOf_written hwhole, if_neg (Ne.symm hvar), List.append_nil] at hfound
      exact List.append_cancel_right hfound)
    exact {
      name_whole := hwhole
      value_line := hline value hvalue
      value_percent := doubled_eq_iff.mp hdoubled
      later_keeps := hkeeps
      replaced_sets := fun var hvar => (hsilent var hvar).1
      replaced_hides := fun hresets var hvar => (hsilent var hvar).2 hresets
      replaced_files := by
        intro hlater var
        have hhits : fileHit readEnvFile unit var (envFiles (u.install plan)) =
            fileHit readEnvFile unit var (envFiles u.files) := by
          by_cases hvar : var = name
          · rw [hvar, hhit', hhit]
          · exact (hsame var hvar).1
        exact (fileHit_install_iff hdropin hplanDirectives var).mp hhits hlater }
  · intro h
    have hplanDirectives := hdirectives h.name_whole h.value_line
    have hhits : ∀ var, fileHit readEnvFile unit var (envFiles (u.install plan)) =
        fileHit readEnvFile unit var (envFiles u.files) := fun var =>
      (fileHit_install_iff hdropin hplanDirectives var).mpr fun hlater =>
        h.replaced_files hlater var
    refine ⟨?_, fun var hvar => ?_⟩
    · have hlater : assignments unit name (u.later plan.path) = [] := by
        cases hlast : (assignments unit name (u.later plan.path)).getLast? with
        | none => exact List.getLast?_eq_none_iff.mp hlast
        | some s =>
          -- it would be the origin, which sorts in front of the drop-in
          have hfound : (assignments unit name u.files).getLast? = some s := by
            rw [assignments_files h.later_keeps, List.getLast?_append, hlast]
            rfl
          obtain ⟨hpath, hlt⟩ := path_of_later (List.mem_of_getLast? hlast)
          exact absurd hlt (not_lt.mpr (hafter s hfound hpath))
      rw [findOrigin_eq, hhits, hhit, assignments_install hplanDirectives h.later_keeps, hlater,
        List.append_nil, assignmentsOf_written h.name_whole, if_pos rfl]
      unfold winner
      dsimp only
      rw [List.getLast?_concat]
      refine ⟨_, rfl, rfl, ?_⟩
      exact congrArg some (doubled_eq_iff.mpr h.value_percent)
    · rw [findOrigin_eq, findOrigin_eq, hhits, assignments_install hplanDirectives h.later_keeps,
        assignments_files h.later_keeps, assignmentsOf_written h.name_whole, if_neg (Ne.symm hvar),
        h.replaced_sets var hvar, List.append_nil, List.append_nil]
      cases hresets : resets "Environment".toList (u.replaced plan.path) with
      | false => rw [left_of_not ((clears_envActs _ _ _).trans hresets)]
      | true => rw [h.replaced_hides hresets var hvar, left_nil]

/-- A unit whose fragment sets a variable. -/
def engineUnit : UnitFiles where
  fragment :=
    some ("/etc/systemd/system/engine.service".toList, "[Service]\nEnvironment=MODE=fast\n".toList)
  dropins := []
  fragment_path := by
    rintro _ ⟨⟩
    decide +kernel
  dropin_path := nofun
  sorted := .nil
  isLine := by
    intro file hfile
    obtain rfl := List.mem_singleton.mp hfile
    exact isLine_of_all (by decide +kernel)

/-- What `plan_dropin` writes for a value. -/
def enginePlan (value : Text) : DropinPlan where
  unit := "engine.service".toList
  name := "MODE".toList
  path := "/etc/systemd/system/engine.service.d/zz-genus-config-mode.conf".toList
  content := content "MODE".toList value []
    (findOrigin (fun _ => none) "engine.service".toList "MODE".toList engineUnit.files)

/-- A unit whose drop-in of the planned path sets the variable, in front of one that sets another.
-/
def tunedUnit : UnitFiles where
  fragment :=
    some ("/etc/systemd/system/engine.service".toList, "[Service]\nEnvironment=MODE=fast\n".toList)
  dropins :=
    [("/etc/systemd/system/engine.service.d/zz-genus-config-mode.conf".toList,
        "[Service]\nEnvironment=\"MODE=slow\"\n".toList),
      ("/etc/systemd/system/engine.service.d/zz-local.conf".toList,
        "[Service]\nEnvironment=LEVEL=2\n".toList)]
  fragment_path := by
    rintro _ ⟨⟩
    decide +kernel
  dropin_path := by decide +kernel
  sorted := by decide +kernel
  isLine := by
    intro file hfile
    refine isLine_of_all ?_
    revert file
    decide +kernel

/-- What `plan_dropin` writes in the place of the drop-in. -/
def tunedPlan : DropinPlan where
  unit := "engine.service".toList
  name := "MODE".toList
  path := "/etc/systemd/system/engine.service.d/zz-genus-config-mode.conf".toList
  content := content "MODE".toList "safe \"mode\"".toList []
    (findOrigin (fun _ => none) "engine.service".toList "MODE".toList tunedUnit.files)

/-- The drop-in that is replaced sets its variable only. -/
theorem replaced_tunedUnit (var : Text) (hvar : var ≠ "MODE".toList) :
    assignments "engine.service".toList var (tunedUnit.replaced tunedPlan.path) = [] := by
  have hreplaced : tunedUnit.replaced tunedPlan.path = [(tunedPlan.path,
      "[Service]\nEnvironment=\"MODE=slow\"\n".toList)] := by decide +kernel
  have hdirectives : serviceDirectives "[Service]\nEnvironment=\"MODE=slow\"\n".toList =
      [(2, "Environment".toList, written "MODE".toList "slow".toList)] := by decide +kernel
  have hacts : envActs "engine.service".toList var (tunedPlan.path,
      "[Service]\nEnvironment=\"MODE=slow\"\n".toList) =
        [.push (assignmentsOf "engine.service".toList var tunedPlan.path 2
          (written "MODE".toList "slow".toList))] := by
    unfold envActs keyActs
    rw [hdirectives]
    rfl
  rw [hreplaced, assignments, List.flatMap_singleton, hacts,
    assignmentsOf_written (by decide +kernel), if_neg (Ne.symm hvar)]
  rfl

/-- A value without a percent sign takes effect in the place of the one before, and the drop-in
behind keeps its own. -/
theorem plain_value_takes_effect :
    (findOrigin (fun _ => none) "engine.service".toList "MODE".toList tunedUnit.files).map
        (fun o => (o.path, o.value)) = some (tunedPlan.path, some "slow".toList) ∧
      tunedUnit.replaced tunedPlan.path ≠ [] ∧ tunedUnit.later tunedPlan.path ≠ [] ∧
      TakesEffect (fun _ => none) "engine.service".toList tunedUnit "MODE".toList
        "safe \"mode\"".toList tunedPlan := by
  have hplan : planDropin 1 "MODE".toList "safe \"mode\"".toList "engine.service".toList
      (findOrigin (fun _ => none) "engine.service".toList "MODE".toList tunedUnit.files) false [] =
        .ok (some tunedPlan) := by
    decide +kernel
  refine ⟨by decide +kernel, by decide +kernel, by decide +kernel,
    (dropin_takes_effect_iff _ tunedUnit 1 _ _ _ [] false _ hplan nofun).mpr ?_⟩
  have hkept : resets "Environment".toList (tunedUnit.replaced tunedPlan.path) = false := by
    decide +kernel
  have hfiles : envFiles (tunedUnit.replaced tunedPlan.path) = [] := by decide +kernel
  have hfilesKept : resets "EnvironmentFile".toList
      (tunedUnit.replaced tunedPlan.path) = false := by
    decide +kernel
  exact {
    name_whole := by decide +kernel
    value_line := isLine_of_all (by decide +kernel)
    value_percent := by decide +kernel
    later_keeps := by decide +kernel
    replaced_sets := replaced_tunedUnit
    replaced_hides := fun hresets => absurd (hkept.symm.trans hresets) (by decide)
    replaced_files := by
      rintro - var (⟨e, he, -⟩ | ⟨hresets, -⟩)
      · rw [hfiles] at he
        cases he
      · rw [hfilesKept] at hresets
        cases hresets }

/-- **A percent sign is not read back.** -/
theorem percent_doubled : ∃ plan, planDropin 1 "MODE".toList "50%".toList "engine.service".toList
    (findOrigin (fun _ => none) "engine.service".toList "MODE".toList engineUnit.files) false [] =
      .ok (some plan) ∧
    ¬ TakesEffect
      (fun _ => none) "engine.service".toList engineUnit "MODE".toList "50%".toList plan := by
  refine ⟨enginePlan "50%".toList, by decide +kernel, ?_⟩
  rintro ⟨⟨o, ho, -, hvalue⟩, -⟩
  have hread : (findOrigin (fun _ => none) "engine.service".toList "MODE".toList
      (engineUnit.install (enginePlan "50%".toList))).map (·.value) =
        some (some "50%%".toList) := by
    decide +kernel
  rw [ho, Option.map_some, hvalue] at hread
  exact absurd (Option.some.inj (Option.some.inj hread)) (by decide +kernel)

end GenusOs.Settings
