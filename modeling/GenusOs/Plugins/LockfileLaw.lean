import GenusOs.Plugins.Lockfile
import GenusOs.Library.Rows
import Mathlib

/-!
# A disable survives the other operations

* `readLockfile_written`: what a writer has written is read back.
* `run_writes`: every operation leaves the file, or keeps the rows it does not release.
* `disable_survives_iff`: the operations are lawful exactly where they do not rewrite what is not
  fully read.
-/

namespace GenusOs.Plugins

open Python Rows

variable {T : Texts} {pyStr : Json → String} {rows : List LockRow} {row r : LockRow}
  {lock : Lockfile} {file : File T} {q : String} {b : Bool}

/-! ## The rows of a file -/

/-- Every name once, and each as it is read again. -/
structure Proper (rows : List LockRow) : Prop where
  nodup : KeyUnique LockRow.name rows
  stripped : ∀ r ∈ rows, strip r.name = r.name
  nonempty : ∀ r ∈ rows, r.name ≠ ""

theorem mem_setRow :
    r ∈ setRow rows row ↔ r = row ∨ r ∈ rows ∧ r.name ≠ row.name := by
  unfold setRow
  split
  · next hany =>
    rw [List.mem_map]
    constructor
    · rintro ⟨s, hs, rfl⟩
      by_cases hname : s.name = row.name
      · rw [if_pos hname]
        exact .inl rfl
      · rw [if_neg hname]
        exact .inr ⟨hs, hname⟩
    · rintro (rfl | ⟨hr, hname⟩)
      · obtain ⟨s, hs, hname⟩ := List.any_eq_true.mp hany
        exact ⟨s, hs, if_pos (of_decide_eq_true hname)⟩
      · exact ⟨r, hr, if_neg hname⟩
  · next hany =>
    have hnew : ∀ s ∈ rows, s.name ≠ row.name := by
      intro s hs hname
      exact hany (List.any_eq_true.mpr ⟨s, hs, decide_eq_true hname⟩)
    rw [List.mem_append, List.mem_singleton]
    constructor
    · rintro (hr | rfl)
      · exact .inr ⟨hr, hnew r hr⟩
      · exact .inl rfl
    · rintro (rfl | ⟨hr, -⟩)
      · exact .inr rfl
      · exact .inl hr

theorem Proper.setRow (h : Proper rows) (hs : strip row.name = row.name) (hne : row.name ≠ "") :
    Proper (setRow rows row) where
  nodup := by
    unfold KeyUnique Plugins.setRow
    split
    · have hsame : rows.map (LockRow.name ∘ fun r => if r.name = row.name then row else r) =
          rows.map LockRow.name := by
        apply List.map_congr_left
        intro r _
        by_cases hname : r.name = row.name
        · simp [hname]
        · simp [hname]
      rw [List.map_map, hsame]
      exact h.nodup
    · next hany =>
      rw [List.map_append, List.nodup_append]
      refine ⟨h.nodup, List.nodup_singleton _, ?_⟩
      rintro name hname _ hrow rfl
      obtain ⟨r, hr, rfl⟩ := List.mem_map.mp hname
      have heq : r.name = row.name := by simpa using hrow
      exact hany (List.any_eq_true.mpr ⟨r, hr, decide_eq_true heq⟩)
  stripped r hr := by
    rcases mem_setRow.mp hr with rfl | ⟨hr, -⟩
    · exact hs
    · exact h.stripped r hr
  nonempty r hr := by
    rcases mem_setRow.mp hr with rfl | ⟨hr, -⟩
    · exact hne
    · exact h.nonempty r hr

theorem Proper.filter (h : Proper rows) (p : LockRow → Bool) : Proper (rows.filter p) where
  nodup := h.nodup.sublist ((List.filter_sublist).map _)
  stripped r hr := h.stripped r (List.mem_filter.mp hr).1
  nonempty r hr := h.nonempty r (List.mem_filter.mp hr).1

theorem rowFromJson_proper {v : Json} (h : rowFromJson pyStr v = some r) :
    strip r.name = r.name ∧ r.name ≠ "" := by
  unfold rowFromJson at h
  split at h
  · dsimp only at h
    split at h
    · cases h
    · next hne =>
      cases h
      exact ⟨strip_strip _, hne⟩
  · cases h

theorem readRows_proper (entries : List Json) : Proper (readRows pyStr entries).1 := by
  have hgo : ∀ (l : List (Nat × Json)) (acc : List LockRow × List Nat), Proper acc.1 →
      Proper (l.foldl (readRow pyStr) acc).1 := by
    intro l
    induction l with
    | nil => exact fun _ h => h
    | cons entry l ih =>
      intro acc hacc
      apply ih
      unfold readRow
      split
      · next row hrow =>
        obtain ⟨hs, hne⟩ := rowFromJson_proper hrow
        exact hacc.setRow hs hne
      · exact hacc
  exact hgo _ _ ⟨List.nodup_nil, nofun, nofun⟩

/-- The rows of a file that is read. -/
theorem readLockfile_proper (h : readLockfile T file = .ok lock) : Proper lock.rows := by
  have hnil : Proper [] := ⟨List.nodup_nil, nofun, nofun⟩
  unfold readLockfile at h
  split at h
  · cases h
    exact hnil
  · cases h
    exact hnil
  · cases h
    exact hnil
  · split at h
    · cases h
    · cases h
      exact hnil
    · split at h
      · cases h
        exact hnil
      · cases h
        exact readRows_proper _

theorem row_eq_some (h : Proper lock.rows) :
    lock.row q = some r ↔ r ∈ lock.rows ∧ r.name = q := by
  constructor
  · intro hr
    exact ⟨List.mem_of_find?_eq_some hr, by simpa using List.find?_some hr⟩
  · rintro ⟨hr, hname⟩
    cases hfind : lock.row q with
    | none =>
      have hnone := List.find?_eq_none.mp hfind r hr
      exact absurd hname (by simpa using hnone)
    | some s =>
      have hs : s.name = q := by simpa using List.find?_some hfind
      rw [h.nodup.eq (List.mem_of_find?_eq_some hfind) hr (hs.trans hname.symm)]

/-! ## Reading what was written -/

@[simp] theorem get_of_ne {data : Dict} {key key' : String} {v d : Json} (h : key' ≠ key) :
    Dict.get ((key', v) :: data) key d = Dict.get data key d := by
  unfold Dict.get
  rw [List.lookup_cons, beq_eq_false_iff_ne.mpr h.symm]

@[simp] theorem get_self {data : Dict} {key : String} {v d : Json} :
    Dict.get ((key, v) :: data) key d = v := by
  unfold Dict.get
  rw [List.lookup_cons, beq_self_eq_true]
  rfl

/-- A row that is written is read with its name and its flag. -/
theorem rowFromJson_asJson (hpy : ∀ s, pyStr (.str s) = s) (hs : strip r.name = r.name)
    (hne : r.name ≠ "") :
    ∃ s, rowFromJson pyStr r.asJson = some s ∧ s.name = r.name ∧ s.enabled = r.enabled := by
  unfold LockRow.asJson rowFromJson
  have hname : strOr pyStr (.str r.name) "" = r.name := by
    unfold strOr
    rw [if_pos (by simpa [Json.truthy] using hne), hpy]
  dsimp only [List.cons_append]
  rw [get_self, hname, hs, if_neg hne]
  refine ⟨_, rfl, rfl, ?_⟩
  dsimp only
  rw [get_of_ne (by decide), get_of_ne (by decide), get_of_ne (by decide), get_of_ne (by decide),
    get_self]
  rfl

/-- The name and the flag are read as they were. -/
def ReadAs (r s : LockRow) : Prop := s.name = r.name ∧ s.enabled = r.enabled

theorem setRow_of_new (h : ∀ r ∈ rows, r.name ≠ row.name) : setRow rows row = rows ++ [row] := by
  unfold setRow
  rw [if_neg]
  intro hany
  obtain ⟨r, hr, hname⟩ := List.any_eq_true.mp hany
  exact h r hr (of_decide_eq_true hname)

theorem foldl_readRow {read : LockRow → LockRow} :
    ∀ (l : List (Nat × Json)) (rows : List LockRow) (acc : List LockRow × List Nat),
      (rows.map LockRow.name).Nodup → l.map Prod.snd = rows.map LockRow.asJson →
      (∀ r ∈ rows, rowFromJson pyStr r.asJson = some (read r) ∧ ReadAs r (read r)) →
      (∀ r ∈ acc.1, ∀ s ∈ rows, r.name ≠ s.name) →
      l.foldl (readRow pyStr) acc = (acc.1 ++ rows.map read, acc.2) := by
  intro l
  induction l with
  | nil =>
    intro rows acc _ hl _ _
    obtain rfl : rows = [] := by simpa using hl.symm
    simp
  | cons entry l ih =>
    intro rows acc hnodup hl hread hnew
    cases rows with
    | nil => cases hl
    | cons r rows =>
      obtain ⟨hentry, hl⟩ := List.cons.inj hl
      obtain ⟨hfresh, hnodup⟩ := List.nodup_cons.mp hnodup
      obtain ⟨hrow, hname, -⟩ := hread r List.mem_cons_self
      have hstep : readRow pyStr acc entry = (acc.1 ++ [read r], acc.2) := by
        unfold readRow
        rw [hentry, hrow]
        dsimp only
        rw [setRow_of_new]
        intro t ht
        rw [hname]
        exact hnew t ht r List.mem_cons_self
      have hnew' : ∀ t ∈ acc.1 ++ [read r], ∀ u ∈ rows, t.name ≠ u.name := by
        intro t ht u hu
        rcases List.mem_append.mp ht with ht | ht
        · exact hnew t ht u (List.mem_cons_of_mem _ hu)
        · rw [List.mem_singleton.mp ht, hname]
          exact fun heq => hfresh (heq ▸ List.mem_map_of_mem hu)
      rw [List.foldl_cons, hstep, ih rows (acc.1 ++ [read r], acc.2) hnodup hl
        (fun s hs => hread s (List.mem_cons_of_mem _ hs)) hnew', List.append_assoc]
      rfl

theorem readRows_asJson (hpy : ∀ s, pyStr (.str s) = s) (h : Proper rows) :
    ∃ read, readRows pyStr (rows.map LockRow.asJson) = (read, []) ∧ Rowwise ReadAs rows read := by
  have hread : ∀ r ∈ rows, rowFromJson pyStr r.asJson =
      some ((rowFromJson pyStr r.asJson).getD r) ∧
        ReadAs r ((rowFromJson pyStr r.asJson).getD r) := by
    intro r hr
    obtain ⟨s, hs, hsame⟩ := rowFromJson_asJson hpy (h.stripped r hr) (h.nonempty r hr)
    rw [hs]
    exact ⟨rfl, hsame⟩
  have hsnd : ((rows.map LockRow.asJson).zipIdx.map Prod.swap).map Prod.snd =
      rows.map LockRow.asJson := by
    rw [List.map_map]
    exact List.zipIdx_map_fst 0 _
  refine ⟨_, foldl_readRow _ rows ([], []) h.nodup hsnd hread nofun, _, rfl, ?_⟩
  exact fun r hr => (hread r hr).2

/-! ## The payload is plain -/

theorem plain_strs (l : List String) : Plain (.arr (l.map .str)) := by
  apply Plain.arr
  intro v hv
  obtain ⟨s, -, rfl⟩ := List.mem_map.mp hv
  exact .str s

theorem optional_keys (isSet : Bool) (key : String) (value : Json) :
    ((optional isSet key value).map Prod.fst).Sublist [key] := by
  cases isSet with
  | false => exact List.nil_sublist _
  | true => exact List.Sublist.refl _

theorem plain_optional {isSet : Bool} {key : String} {value : Json} (h : Plain value) :
    ∀ e ∈ optional isSet key value, Plain e.2 := by
  intro e he
  cases isSet with
  | false => cases he
  | true => rwa [List.mem_singleton.mp he]

/-- Entries of which those of `optional` may be missing. -/
theorem plain_obj {entries : List (String × Json)} {keys : List String}
    (hkeys : (entries.map Prod.fst).Sublist keys) (hnodup : keys.Nodup)
    (h : ∀ e ∈ entries, Plain e.2) : Plain (.obj entries) :=
  .obj (List.Nodup.sublist hkeys hnodup) h

theorem plain_source (s : LockSource) : Plain s.asJson := by
  apply @plain_obj _ ((["origin", "installed_at"] ++ ["index_url"]) ++ ["publisher_key_id"])
  · rw [List.map_append, List.map_append]
    exact ((List.Sublist.refl _).append (optional_keys ..)).append (optional_keys ..)
  · decide
  · simp only [List.forall_mem_append]
    refine ⟨⟨?_, plain_optional (.str _)⟩, plain_optional (.str _)⟩
    simp only [List.forall_mem_cons]
    exact ⟨.str _, .str _, nofun⟩

theorem plain_row (r : LockRow) : Plain r.asJson := by
  apply @plain_obj _ ((((["name", "version", "manifest_sha256", "verdict", "enabled", "kinds",
    "recorded_at"] ++ ["dist_sha256"]) ++ ["members_accounted"]) ++ ["scan_reasons"]) ++ ["source"])
  · rw [List.map_append, List.map_append, List.map_append, List.map_append]
    exact ((((List.Sublist.refl _).append (optional_keys ..)).append (optional_keys ..)).append
      (optional_keys ..)).append (optional_keys ..)
  · decide
  · have hsource : Plain ((r.source.map LockSource.asJson).getD .null) := by
      cases r.source with
      | none => exact .null
      | some s => exact plain_source s
    simp only [List.forall_mem_append]
    refine ⟨⟨⟨⟨?_, plain_optional (.str _)⟩, plain_optional (.int _)⟩,
      plain_optional (plain_strs _)⟩, plain_optional hsource⟩
    simp only [List.forall_mem_cons]
    exact ⟨.str _, .str _, .str _, .str _, .bool _, plain_strs _, .str _, nofun⟩

theorem plain_payload (rows : List LockRow) : Plain (payload rows) := by
  apply @plain_obj _ ["lockfile_version", "plugins"] (List.Sublist.refl _) (by decide)
  simp only [List.forall_mem_cons]
  refine ⟨.int _, .arr fun v hv => ?_, nofun⟩
  obtain ⟨r, -, rfl⟩ := List.mem_map.mp hv
  exact plain_row r

theorem readLockfile_text {t : T.Text} {data : Json} {entries : List Json}
    (hloads : T.loads t = .ok data) (hplugins : pluginsOf data = some entries) :
    readLockfile T (.text t) = .ok
      { present := true
        rows := (readRows T.pyStr entries).1
        badRows := (readRows T.pyStr entries).2
        problem := badRowsProblem (readRows T.pyStr entries).2 } := by
  unfold readLockfile
  dsimp only
  rw [hloads]
  dsimp only
  rw [hplugins]

theorem pluginsOf_payload : pluginsOf (payload rows) =
    some ((rows.insertionSort fun a b => a.name ≤ b.name).map LockRow.asJson) := by
  unfold pluginsOf payload
  dsimp only
  rw [get_of_ne (by decide), get_self]

/-- **What a writer has written is read back.** -/
theorem readLockfile_written (h : Proper rows) :
    ∃ lock, readLockfile T (.text (T.dumps (payload rows))) = .ok lock ∧ lock.trustworthy = true ∧
      ∀ q b, (lock.row q).map (·.enabled) = some b ↔ ∃ r ∈ rows, r.name = q ∧ r.enabled = b := by
  have hperm := List.perm_insertionSort (fun a b : LockRow => a.name ≤ b.name) rows
  have hsorted : Proper (rows.insertionSort fun a b => a.name ≤ b.name) :=
    ⟨(hperm.map _).nodup_iff.mpr h.nodup, fun r hr => h.stripped r (hperm.mem_iff.mp hr),
      fun r hr => h.nonempty r (hperm.mem_iff.mp hr)⟩
  obtain ⟨read, hread, hrowwise⟩ := readRows_asJson T.pyStr_str hsorted
  have hlock := readLockfile_text (T.loads_dumps _ (plain_payload rows)) pluginsOf_payload
  have hproper := readLockfile_proper hlock
  refine ⟨_, hlock, ?_, fun q b => ?_⟩
  · unfold Lockfile.trustworthy
    rw [hread]
    rfl
  · rw [Option.map_eq_some_iff]
    constructor
    · rintro ⟨s, hs, rfl⟩
      obtain ⟨hmem, rfl⟩ := (row_eq_some hproper).mp hs
      rw [hread] at hmem
      obtain ⟨r, hr, hname, henabled⟩ := hrowwise.origin hmem
      exact ⟨r, hperm.mem_iff.mp hr, hname.symm, henabled.symm⟩
    · rintro ⟨r, hr, rfl, rfl⟩
      obtain ⟨s, hs, hname, henabled⟩ := hrowwise.kept (hperm.mem_iff.mpr hr)
      refine ⟨s, (row_eq_some hproper).mpr ⟨?_, hname⟩, henabled⟩
      rw [hread]
      exact hs

/-! ## The operations -/

theorem recorded_of_ok (h : readLockfile T file = .ok lock) :
    recorded file q = (lock.row q).map (·.enabled) := by
  unfold recorded
  rw [h]

/-- A writer raises with the file as it is, or it goes on with what was read. -/
theorem withLock_cases {α : Type} (file : File T) (go : Lockfile → Result α × File T) :
    (Raises file ∧ (withLock file go).2 = file) ∨
      ∃ lock, readLockfile T file = .ok lock ∧ lock.ioError = none ∧
        withLock file go = go lock := by
  unfold withLock
  cases hread : readLockfile T file with
  | error error =>
    refine .inl ⟨?_, rfl⟩
    intro lock hlock
    rw [hread] at hlock
    cases hlock
  | ok lock =>
    dsimp only
    cases herror : lock.ioError with
    | none => exact .inr ⟨lock, rfl, herror, rfl⟩
    | some error =>
      refine .inl ⟨?_, rfl⟩
      intro lock' hlock
      rw [hread] at hlock
      cases hlock
      rw [herror]
      exact Option.some_ne_none _

/-- Every plugin that is not to be released is in the rows, as it was. -/
def Operation.Keeps (op : Operation) (lock : Lockfile) (rows : List LockRow) : Prop :=
  ∀ q b, (lock.row q).map (·.enabled) = some b → ¬ op.releases q →
    ∃ r ∈ rows, r.name = q ∧ r.enabled = b

/-- The operation has written `rows`. -/
structure Wrote (op : Operation) (file : File T) (lock : Lockfile)
    (rows : List LockRow) : Prop where
  read : readLockfile T file = .ok lock
  proper : Proper rows
  text : (op.run file).2 = .text (T.dumps (payload rows))
  answer : (op.run file).1 = .returned ∨ op.late
  keeps : op.Keeps lock rows
  careful : op.Careful file → fullyRead file

/-- What `write_lockfile` does unless it raises before the file is there. -/
theorem writeLockfile_wrote {α : Type} {refuses : α → Bool} {value : α} {fate : WriteFate}
    (hvalue : refuses value = false) (hfate : fate ≠ .raised) :
    (Answer.of refuses (writeLockfile fate rows file value).1 = .returned ∨ fate = .raisedAfter) ∧
      (writeLockfile fate rows file value).2 = .text (T.dumps (payload rows)) := by
  cases fate with
  | written =>
    refine ⟨.inl ?_, rfl⟩
    unfold writeLockfile Answer.of
    dsimp only
    rw [hvalue]
    rfl
  | raised => exact absurd rfl hfate
  | raisedAfter => exact ⟨.inr rfl, rfl⟩

/-- A writer that writes the rows of `rows lock`, if it comes to that. -/
structure Writer {α : Type} (op : Operation) (file : File T) (refuses : α → Bool)
    (go : Lockfile → Result α × File T) (fate : WriteFate) : Prop where
  run : op.run file = (.of refuses (withLock file go).1, (withLock file go).2)
  late : op.late ↔ fate = .raisedAfter
  raises : Raises file → op.Careful file
  raised : fate = .raised → op.Careful file
  goes : ∀ lock, readLockfile T file = .ok lock → lock.ioError = none →
    ((go lock).2 = file ∧ op.Careful file) ∨
      ∃ rows value, go lock = writeLockfile fate rows file value ∧ refuses value = false ∧
        Proper rows ∧ op.Keeps lock rows ∧ (fate ≠ .raised → op.Careful file → fullyRead file)

variable {op : Operation} {fate : WriteFate}

/-- **A writer leaves the file, or it keeps the rows it does not release.** -/
theorem Writer.cases {α : Type} {refuses : α → Bool} {go : Lockfile → Result α × File T}
    (h : Writer op file refuses go fate) :
    ((op.run file).2 = file ∧ op.Careful file) ∨ ∃ lock rows, Wrote op file lock rows := by
  rcases withLock_cases file go with ⟨hraises, hsame⟩ | ⟨lock, hread, herror, hgo⟩
  · left
    rw [h.run]
    exact ⟨hsame, h.raises hraises⟩
  · rcases h.goes lock hread herror with ⟨hsame, hcareful⟩ | ⟨rows, value, hwrite, hvalue, hrest⟩
    · left
      rw [h.run, hgo]
      exact ⟨hsame, hcareful⟩
    · by_cases hfate : fate = .raised
      · left
        refine ⟨?_, h.raised hfate⟩
        rw [h.run, hgo, hwrite, hfate]
        rfl
      · right
        obtain ⟨hproper, hkeeps, hcareful⟩ := hrest
        obtain ⟨hanswer, htext⟩ :=
          @writeLockfile_wrote T rows file α refuses value fate hvalue hfate
        refine ⟨lock, rows, hread, hproper, ?_, ?_, hkeeps, hcareful hfate⟩
        · rw [h.run, hgo, hwrite]
          exact htext
        · rw [h.run, hgo, hwrite, h.late]
          exact hanswer

/-! ## The four writers -/

theorem recordInstall_writer (install : Install) (now : String) (fate : WriteFate)
    (file : File T) :
    Writer (.recordInstall install now fate) file (fun _ => false) (fun lock =>
      writeLockfile fate (setRow lock.rows (installRow lock now install)) file
        (installRow lock now install)) fate where
  run := rfl
  late := Iff.rfl
  raises hraises := .inr (.inr hraises)
  raised hraised := .inr (.inl hraised)
  goes lock hread herror := by
    have hproper := readLockfile_proper hread
    refine .inr ⟨_, _, rfl, rfl, hproper.setRow install.dist.stripped install.dist.nonempty, ?_, ?_⟩
    · -- also the plugin that is installed keeps its flag
      intro q b hq _
      obtain ⟨r, hr, rfl⟩ := Option.map_eq_some_iff.mp hq
      obtain ⟨hmem, rfl⟩ := (row_eq_some hproper).mp hr
      by_cases hname : r.name = install.dist.name
      · refine ⟨installRow lock now install, mem_setRow.mpr (.inl rfl), hname.symm, ?_⟩
        unfold installRow
        dsimp only
        rw [← hname, hr]
        rfl
      · exact ⟨r, mem_setRow.mpr (.inr ⟨hmem, hname⟩), rfl, rfl⟩
    · rintro hfate (hfull | hraised | hraises)
      · exact hfull
      · exact absurd hraised hfate
      · exact absurd herror (hraises lock hread)

/-- A row of the name is there, or the careful writer has left the file. -/
theorem fullyRead_of_row {name : String} (hread : readLockfile T file = .ok lock)
    (hrow : lock.row name ≠ none) (hfate : fate ≠ .raised)
    (h : fullyRead file ∨ fate = .raised ∨ recorded file name = none) : fullyRead file := by
  rcases h with hfull | hraised | hnone
  · exact hfull
  · exact absurd hraised hfate
  · rw [recorded_of_ok hread, Option.map_eq_none_iff] at hnone
    exact absurd hnone hrow

/-- There are no rows where the path cannot be read. -/
theorem rows_of_ioError (h : readLockfile T file = .ok lock) (herror : lock.ioError ≠ none) :
    lock.rows = [] := by
  unfold readLockfile at h
  split at h
  · cases h
    rfl
  · cases h
    rfl
  · cases h
    rfl
  · split at h
    · cases h
    · cases h
      rfl
    · split at h
      · cases h
        rfl
      · cases h
        exact absurd rfl herror

theorem recorded_of_raises (h : Raises file) : recorded file q = none := by
  cases hread : readLockfile T file with
  | error error =>
    unfold recorded
    rw [hread]
  | ok lock =>
    rw [recorded_of_ok hread]
    unfold Lockfile.row
    rw [rows_of_ioError hread (h lock hread)]
    rfl

theorem dropRow_writer (name : String) (fate : WriteFate) (file : File T) :
    Writer (.dropRow name fate) file (fun dropped => !dropped) (fun lock =>
      if (lock.row name).isNone then (.ok false, file)
      else writeLockfile fate (lock.rows.filter (·.name ≠ name)) file true) fate where
  run := rfl
  late := Iff.rfl
  raises hraises := .inr (.inr (recorded_of_raises hraises))
  raised hraised := .inr (.inl hraised)
  goes lock hread herror := by
    have hproper := readLockfile_proper hread
    cases hrow : lock.row name with
    | none =>
      refine .inl ⟨by simp, .inr (.inr ?_)⟩
      rw [recorded_of_ok hread, hrow]
      rfl
    | some row =>
      refine .inr ⟨_, true, by simp; rfl, rfl, hproper.filter _, ?_, ?_⟩
      · intro q b hq hkeep
        obtain ⟨r, hr, rfl⟩ := Option.map_eq_some_iff.mp hq
        obtain ⟨hmem, rfl⟩ := (row_eq_some hproper).mp hr
        have hother : r.name ≠ name := fun heq => hkeep heq.symm
        exact ⟨r, List.mem_filter.mpr ⟨hmem, by simpa using hother⟩, rfl, rfl⟩
      · exact fun hfate => fullyRead_of_row hread (by rw [hrow]; exact Option.some_ne_none _) hfate

theorem setEnabled_writer (name : String) (enabled : Bool) (fate : WriteFate) (file : File T) :
    Writer (.setEnabled name enabled fate) file Option.isNone
      (setEnabledRead name enabled fate file) fate where
  run := rfl
  late := Iff.rfl
  raises hraises := .inr (.inr (recorded_of_raises hraises))
  raised hraised := .inr (.inl hraised)
  goes lock hread herror := by
    have hproper := readLockfile_proper hread
    unfold setEnabledRead
    cases hrow : lock.row name with
    | none =>
      refine .inl ⟨rfl, .inr (.inr ?_)⟩
      rw [recorded_of_ok hread, hrow]
      rfl
    | some row =>
      obtain ⟨hrowmem, rfl⟩ := (row_eq_some hproper).mp hrow
      refine .inr ⟨_, _, rfl, rfl, hproper.setRow (hproper.stripped row hrowmem)
        (hproper.nonempty row hrowmem), ?_, ?_⟩
      · intro q b hq hkeep
        obtain ⟨r, hr, rfl⟩ := Option.map_eq_some_iff.mp hq
        obtain ⟨hmem, rfl⟩ := (row_eq_some hproper).mp hr
        exact ⟨r, mem_setRow.mpr (.inr ⟨hmem, fun heq => hkeep heq.symm⟩), rfl, rfl⟩
      · exact fun hfate => fullyRead_of_row hread (by rw [hrow]; exact Option.some_ne_none _) hfate

theorem sync_writer (installed : Option Installed) (now : String) (fate : WriteFate)
    (file : File T) :
    Writer (.sync installed now fate) file (·.refused ≠ "") (syncRead installed now fate file)
      fate where
  run := rfl
  late := Iff.rfl
  raises _ := .inr trivial
  raised _ := .inr trivial
  goes lock hread herror := by
    unfold syncRead
    split
    · exact .inl ⟨rfl, .inr trivial⟩
    · next hgo =>
      cases installed with
      | none => exact .inl ⟨rfl, .inr trivial⟩
      | some found =>
        have hperm := List.perm_insertionSort (fun a b : Dist => a.dist.name ≤ b.dist.name)
          found.dists
        refine .inr ⟨_, _, rfl, by simp, ⟨?_, ?_, ?_⟩, ?_, ?_⟩
        · unfold KeyUnique
          rw [List.map_map]
          exact (hperm.map _).nodup_iff.mpr found.nodup
        · intro r hr
          obtain ⟨d, -, rfl⟩ := List.mem_map.mp hr
          exact d.dist.stripped
        · intro r hr
          obtain ⟨d, -, rfl⟩ := List.mem_map.mp hr
          exact d.dist.nonempty
        · -- a plugin that is installed keeps its flag
          intro q b hq hkeep
          have hinstalled : ∃ d ∈ found.dists, d.dist.name = q := by
            by_contra hnone
            exact hkeep ⟨found, rfl, fun d hd hname => hnone ⟨d, hd, hname⟩⟩
          obtain ⟨d, hd, rfl⟩ := hinstalled
          refine ⟨syncRow lock now d, List.mem_map_of_mem (hperm.mem_iff.mpr hd), rfl, ?_⟩
          show ((lock.row d.dist.name).map (·.enabled)).getD true = b
          rw [hq]
          rfl
        · intro _ _
          refine ⟨lock, hread, fun hpresent => ?_⟩
          rw [← Bool.not_eq_false]
          exact fun hbad => hgo ⟨hpresent, hbad⟩

theorem run_writes (op : Operation) (file : File T) :
    ((op.run file).2 = file ∧ op.Careful file) ∨ ∃ lock rows, Wrote op file lock rows := by
  cases op with
  | sync installed now fate => exact (sync_writer installed now fate file).cases
  | recordInstall install now fate => exact (recordInstall_writer install now fate file).cases
  | dropRow name fate => exact (dropRow_writer name fate file).cases
  | setEnabled name enabled fate => exact (setEnabled_writer name enabled fate file).cases

/-! ## The law -/

theorem names_of_releases (h : op.releases q) : op.names q := by
  cases op with
  | recordInstall => exact absurd h id
  | sync => exact h
  | dropRow => exact h
  | setEnabled => exact h

/-- What a writer has written is fully read. -/
theorem fullyRead_written (h : Proper rows) :
    fullyRead (T := T) (.text (T.dumps (payload rows))) := by
  obtain ⟨lock, hread, htrust, -⟩ := readLockfile_written (T := T) h
  exact ⟨lock, hread, fun _ => htrust⟩

theorem Wrote.recorded (h : Wrote op file lock rows) (hq : recorded file q = some b)
    (hkeep : ¬ op.releases q) : recorded (op.run file).2 q = some b := by
  obtain ⟨lock', hread, -, hrows⟩ := readLockfile_written (T := T) h.proper
  rw [recorded_of_ok h.read] at hq
  rw [h.text, recorded_of_ok hread]
  exact (hrows q b).mpr (h.keeps q b hq hkeep)

theorem lawful_iff : Lawful op file ↔ op.Careful file := by
  constructor
  · intro hlawful
    rcases run_writes op file with ⟨-, hcareful⟩ | ⟨lock, rows, hwrote⟩
    · exact hcareful
    · rcases hlawful.unread with hsame | hfull
      · left
        rw [← hsame, hwrote.text]
        exact fullyRead_written hwrote.proper
      · exact .inl hfull
  · intro hcareful
    rcases run_writes op file with ⟨hsame, -⟩ | ⟨lock, rows, hwrote⟩
    · constructor
      case refused => exact fun _ => .inl hsame
      case kept =>
        intro q b hq _
        rw [hsame]
        exact hq
      case disabled =>
        intro q hq _
        rw [hsame]
        exact hq
      case unread => exact .inl hsame
    · constructor
      case refused => exact fun hanswer => .inr (hwrote.answer.resolve_left hanswer)
      case kept => exact fun q b hq hnames => hwrote.recorded hq (mt names_of_releases hnames)
      case disabled => exact fun q hq hkeep => hwrote.recorded hq hkeep
      case unread => exact .inr (hwrote.careful hcareful)

/-- **An operator's disable survives the other operations exactly where none of them rewrites a file
that is not fully read**, and then it survives any sequence of them. -/
theorem disable_survives_iff (file : File T) (ops : List Operation) :
    (AllSteps Lawful file ops ↔ AllSteps Operation.Careful file ops) ∧
    (AllSteps Lawful file ops → ∀ q, recorded file q = some false →
      (∀ op ∈ ops, ¬ op.releases q) → recorded (runAll file ops) q = some false) := by
  induction ops generalizing file with
  | nil => exact ⟨Iff.rfl, fun _ q hq _ => hq⟩
  | cons op ops ih =>
    obtain ⟨hiff, hkept⟩ := ih (op.run file).2
    refine ⟨and_congr lawful_iff hiff, ?_⟩
    rintro ⟨hlawful, hrest⟩ q hq hkeep
    exact hkept hrest q (hlawful.disabled q hq (hkeep op List.mem_cons_self))
      fun op' hop' => hkeep op' (List.mem_cons_of_mem _ hop')

/-! ## A torn file -/

/-- Texts that are what they parse to, or not JSON. -/
def parsedTexts : Texts where
  Text := Option Json
  loads
    | some v => .ok v
    | none => .error .notJson
  dumps := some
  pyStr
    | .str s => s
    | _ => ""
  loads_dumps _ _ := rfl
  pyStr_str _ := rfl

def sampleInstall : Install where
  dist := ⟨"acme-tools", by decide, by decide⟩
  version := "1.0"
  manifestSha256 := ""
  kinds := ["genus.tools"]
  verdict := "safe"
  distSha256 := "ab12"
  source := { origin := "registry" }

/-- An install is recorded over a file that was torn, and with it every disable it held is gone. -/
theorem torn_file_rewritten :
    ¬ Lawful (T := parsedTexts) (.recordInstall sampleInstall "2026-07-13" .written)
      (.text none) := by
  intro hlawful
  rcases hlawful.unread with hsame | ⟨lock, hread, htrust⟩
  · cases hsame
  · cases hread
    exact Bool.false_ne_true (htrust rfl)

end GenusOs.Plugins
