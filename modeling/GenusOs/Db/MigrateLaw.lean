import GenusOs.Db.Migrate
import Mathlib

/-!
# What the runs do to a database

* `Adopts`: what is taken over into the ledger without being executed.
* `Standing`: what holds while a run goes on.
* `migrations_executed_once`: every run.
-/

namespace GenusOs.Db

open Python

variable {sha256 : String → String} {str : Json → String} {chain selected todo : List Migration}
  {m m' : Migration} {ledger ledger' : Ledger} {r : AppliedMigration}

/-- The row of a migration, as its release ships it: it is about that migration, and has its
version, its file name and its checksum. -/
structure Ships (m : Migration) (r : AppliedMigration) : Prop where
  id : r.migrationId = m.migrationId
  filename : r.filename = m.filename
  version : r.version = m.version
  source : r.source = m.source
  checksum : r.checksum = m.checksum

/-- A row of a migration is as the release ships it if it has not drifted. -/
theorem ships_iff : Ships m r ↔ r.migrationId = m.migrationId ∧ mismatches r m = [] := by
  constructor
  · rintro ⟨hid, hfilename, hversion, hsource, hchecksum⟩
    simp [mismatches, hid, hfilename, hversion, hsource, hchecksum]
  · rintro ⟨hid, hsame⟩
    simp only [mismatches, List.filter_eq_nil_iff, List.forall_mem_cons, decide_eq_true_eq,
      not_not] at hsame
    exact ⟨hid, hsame.1, hsame.2.1, hsame.2.2.1, hsame.2.2.2.1⟩

/-- No migration has two rows. -/
abbrev Keyed (ledger : Ledger) : Prop := (ledger.map AppliedMigration.migrationId).Nodup

/-- A migration is recorded if its id is in the ledger. -/
theorem recorded_iff : recorded ledger m = true ↔
    m.migrationId ∈ ledger.map AppliedMigration.migrationId := by
  unfold recorded
  simp [List.any_eq_true]

theorem mem_pending : m ∈ pending ledger chain ↔ m ∈ chain ∧ recorded ledger m = false := by
  unfold pending
  rw [List.mem_filter, Bool.not_eq_true']

/-- A new row, or the row that is there already. -/
theorem insertHistory_spec {appliedAt : Nat} {reconciled : Bool} {adoptedFrom : Option String}
    (h : insertHistory m appliedAt reconciled adoptedFrom ledger = .ok ledger') :
    (recorded ledger m = true ∧ ledger' = ledger) ∨ (recorded ledger m = false ∧ ∃ r, Ships m r ∧
      r.own = (!reconciled && adoptedFrom.isNone) ∧ ledger' = ledger ++ [r]) := by
  unfold insertHistory at h
  split at h
  · next hthere =>
    cases h
    exact .inl ⟨hthere, rfl⟩
  next hnew =>
  split at h
  · cases h
  · cases h
    exact .inr ⟨Bool.not_eq_true _ ▸ hnew, _, ⟨rfl, rfl, rfl, rfl, rfl⟩, rfl, rfl⟩

/-- A row of a migration without one. -/
theorem Keyed.snoc (hkeyed : Keyed ledger) (hnew : recorded ledger m = false) (hr : Ships m r) :
    Keyed (ledger ++ [r]) := by
  unfold Keyed
  rw [List.map_append]
  refine List.Nodup.append hkeyed (List.nodup_singleton _) ?_
  refine List.disjoint_singleton.mpr fun hmem => ?_
  rw [hr.id, ← recorded_iff, hnew] at hmem
  cases hmem

/-! ## What is taken over -/

/-- Rows of the release that nobody has executed are added, and nothing else happens to the ledger.
It is what a run does before it executes anything. -/
structure Adopts (chain : List Migration) (ledger ledger' : Ledger) : Prop where
  rows : ∃ new, ledger' = ledger ++ new ∧ ∀ r ∈ new, r.own = false ∧ ∃ m ∈ chain, Ships m r
  keyed : Keyed ledger → Keyed ledger'

theorem Adopts.refl (ledger : Ledger) : Adopts chain ledger ledger :=
  ⟨⟨[], (List.append_nil ledger).symm, nofun⟩, fun h => h⟩

theorem Adopts.trans {ledger'' : Ledger} (h : Adopts chain ledger ledger')
    (h' : Adopts chain ledger' ledger'') : Adopts chain ledger ledger'' := by
  obtain ⟨new, rfl, hnew⟩ := h.rows
  obtain ⟨new', rfl, hnew'⟩ := h'.rows
  refine ⟨⟨new ++ new', List.append_assoc _ _ _, fun r hr => ?_⟩,
    fun hkeyed => h'.keyed (h.keyed hkeyed)⟩
  rcases List.mem_append.mp hr with hr | hr
  · exact hnew r hr
  · exact hnew' r hr

/-- One row that is not the runner's own. -/
theorem insertHistory_adopts {appliedAt : Nat} {reconciled : Bool} {adoptedFrom : Option String}
    (hm : m ∈ chain) (hforeign : (!reconciled && adoptedFrom.isNone) = false)
    (h : insertHistory m appliedAt reconciled adoptedFrom ledger = .ok ledger') :
    Adopts chain ledger ledger' := by
  rcases insertHistory_spec h with ⟨-, rfl⟩ | ⟨hnew, r, hships, hown, rfl⟩
  · exact .refl ledger'
  · refine ⟨⟨[r], rfl, ?_⟩, fun hkeyed => hkeyed.snoc hnew hships⟩
    intro r' hr'
    rw [List.mem_singleton.mp hr']
    exact ⟨hown.trans hforeign, m, hm, hships⟩

/-- A legacy row that means a migration means one of the release. -/
theorem legacyMigration_mem {row : LegacyRow}
    (h : legacyMigration chain row = .ok (some m)) : m ∈ chain := by
  have hof {p : Migration → Bool} (hone : chain.filter p = [m]) : m ∈ chain :=
    List.mem_of_mem_filter (hone ▸ List.mem_singleton_self m)
  unfold legacyMigration at h
  dsimp only at h
  split at h
  · next hfind =>
    cases h
    exact List.mem_of_find?_eq_some hfind
  split at h
  · next hone =>
    cases h
    exact hof hone
  split at h
  · next hone =>
    cases h
    exact hof hone
  · cases h
  · cases h

/-- What is reconciled is taken over, by induction on the legacy rows. -/
theorem reconcile_adopts {now : Nat} {legacy : Option (List LegacyRow)}
    {unmanaged : List (String × String)}
    (h : reconcileLegacyHistory chain now legacy ledger = .ok (ledger', unmanaged)) :
    Adopts chain ledger ledger' := by
  unfold reconcileLegacyHistory at h
  split at h
  · cases h
    exact .refl ledger
  · refine Fallible.foldlM_follows (R := fun s t => Adopts chain s.1 t.1) (fun s => .refl s.1)
      (fun s t u (h : Adopts chain s.1 t.1) (h' : Adopts chain t.1 u.1) => h.trans h')
      (fun row _ s t hrow => ?_) h
    unfold reconcileRow at hrow
    split at hrow
    · cases hrow
    · -- the row means no migration of the release, and stays unmanaged
      cases hrow
      exact .refl s.1
    · next m hlegacy =>
      split at hrow
      · cases hrow
      · cases hinsert : insertHistory m (row.appliedAt.getD now) true none s.1 with
        | error error =>
          rw [hinsert] at hrow
          cases hrow
        | ok ledger =>
          rw [hinsert] at hrow
          cases hrow
          exact insertHistory_adopts (legacyMigration_mem hlegacy) rfl hinsert

/-- So is what is adopted. -/
theorem adopt_adopts {throughIds : List String} {yaml : YamlLedger} {now : Nat}
    (h : adoptWithoutExecuting str chain throughIds yaml now ledger = .ok ledger') :
    Adopts chain ledger ledger' := by
  unfold adoptWithoutExecuting at h
  dsimp only at h
  split at h
  · cases h
  split at h
  · cases h
  · refine Fallible.foldlM_follows Adopts.refl (fun _ _ _ => Adopts.trans)
      (fun m hm s t hturn => ?_) h
    split at hturn
    · exact insertHistory_adopts (mem_pending.mp hm).1 rfl hturn
    · cases hturn
      exact .refl s

/-! ## What is validated -/

/-- No row of the release has drifted. Rows that the release does not ship are not asked for
anything. -/
def Undrifted (chain : List Migration) (ledger : Ledger) : Prop :=
  ∀ r ∈ ledger, ∀ m ∈ chain, r.migrationId = m.migrationId → Ships m r

/-- Every row is the release's own: there is no row of a later release, and none of another one. -/
def Whole (chain : List Migration) (ledger : Ledger) : Prop := ∀ r ∈ ledger, ∃ m ∈ chain, Ships m r

/-- What the loop over the rows has looked at, by induction on them. -/
theorem validateRows_spec {rows : Ledger} {ahead : List String}
    (h : validateRows chain rows = .ok ahead) :
    (∀ r ∈ rows, ∀ m, chain.find? (·.migrationId = r.migrationId) = some m → Ships m r) ∧
      (ahead = [] → Whole chain rows) := by
  induction rows generalizing ahead with
  | nil => exact ⟨nofun, fun _ => nofun⟩
  | cons r rows ih =>
    rw [validateRows] at h
    split at h
    · -- the release does not ship the row: it is ahead
      next hfind =>
      split at h
      · cases hrest : validateRows chain rows with
        | error error =>
          rw [hrest] at h
          cases h
        | ok rest =>
          rw [hrest] at h
          cases h
          refine ⟨List.forall_mem_cons.mpr ⟨fun m hm => ?_, (ih hrest).1⟩, nofun⟩
          rw [hfind] at hm
          cases hm
      · cases h
    · next m hfind =>
      split at h
      · cases h
      next hsame =>
      -- the release ships the row: the checksums agree, or the validation raises
      have hid := List.find?_some hfind
      have hships : Ships m r := ships_iff.mpr ⟨(of_decide_eq_true hid).symm, not_not.mp hsame⟩
      obtain ⟨hrows, hwhole⟩ := ih h
      refine ⟨List.forall_mem_cons.mpr ⟨fun m' hm' => ?_, hrows⟩,
        fun hnone => List.forall_mem_cons.mpr ⟨?_, hwhole hnone⟩⟩
      · rw [hfind] at hm'
        cases hm'
        exact hships
      · exact ⟨m, List.mem_of_find?_eq_some hfind, hships⟩

/-- The row, or the migration, of an id. -/
theorem find_of_mem {α : Type} {key : α → String} {rows : List α} {r : α}
    (hkeys : (rows.map key).Nodup)
    (hr : r ∈ rows) : rows.find? (key · = key r) = some r := by
  have hsome : (rows.find? (key · = key r)).isSome :=
    List.find?_isSome.mpr ⟨r, hr, decide_eq_true rfl⟩
  obtain ⟨r', hfind⟩ := Option.isSome_iff_exists.mp hsome
  have hkey := List.find?_some hfind
  rw [hfind, List.inj_on_of_nodup_map hkeys (List.mem_of_find?_eq_some hfind) hr
    (of_decide_eq_true hkey)]

/-- **What passes the validation**: with something pending, nothing is ahead. -/
theorem validateHistory_spec (hids : (chain.map Migration.migrationId).Nodup)
    (h : validateHistory chain ledger = .ok ()) : Undrifted chain ledger ∧
      (pending ledger chain ≠ [] → Whole chain ledger) := by
  unfold validateHistory at h
  have hsorted {r : AppliedMigration} : r ∈ applied ledger ↔ r ∈ ledger := List.mem_insertionSort _
  have hundrifted {ahead : List String} (hrows : validateRows chain (applied ledger) = .ok ahead) :
      Undrifted chain ledger := by
    intro r hr m hm hid
    refine (validateRows_spec hrows).1 r (hsorted.mpr hr) m ?_
    rw [hid]
    exact find_of_mem hids hm
  split at h
  · cases h
  · next hrows =>
    exact ⟨hundrifted hrows, fun _ r hr => (validateRows_spec hrows).2 rfl r (hsorted.mpr hr)⟩
  · next hrows =>
    -- rows are ahead, which is refused beside anything that is pending
    split at h
    · next hnone => exact ⟨hundrifted hrows, fun hne => absurd hnone hne⟩
    · cases h

/-! ## Every run -/

/-- **When a migration is executed**: the release ships it and it has no row; every row of the
ledger is one that the release ships, undrifted; and the migrations of the release in front of it
are recorded, unless one was selected. -/
structure Executes (call : Call sha256) (ledger : Ledger) (m : Migration) : Prop where
  shipped : m ∈ call.release.migrations
  new : recorded ledger m = false
  whole : Whole call.release.migrations ledger
  ordered : call.selector = none → ∀ m' ∈ call.release.migrations, m'.order < m.order →
    recorded ledger m' = true

/-- What holds of the database, and of the run that holds the lock. The rows of the runner are the
executed migrations, in that order. A run that executes has validated the ledger, and what it has
still to do is just what is pending; that no other run can change this is what the lock is for. What
an unselected run has answered with has its rows. -/
structure Standing (X : Site sha256) : Prop where
  keyed : Keyed X.ledger
  /-- What the runner has executed, in this order. -/
  written : List.Forall₂ Ships X.executed (X.ledger.filter AppliedMigration.own)
  running : ∀ call todo done, X.runner = some (call, .apply todo done) →
    todo ≠ [] ∧ Undrifted call.release.migrations X.ledger ∧
      Whole call.release.migrations X.ledger ∧
      ∃ selected throughIds, call.selection = .ok (selected, throughIds) ∧
        todo = pending X.ledger selected
  answered : ∀ call ids, (call, .ok (.applied ids)) ∈ X.answers → call.selector = none →
    ∀ m ∈ call.release.migrations, ∃ r ∈ X.ledger, Ships m r

/-- What a step does to a database: rows stay; what is executed is one migration with its row, under
the conditions of `Executes`; and over a schema that nobody vouches for that happens only where the
adoption was asked for. -/
structure Advances (X Y : Site sha256) : Prop where
  rows : X.ledger <+: Y.ledger
  executed : Y.executed = X.executed ∨ ∃ call m todo done, X.runner =
    some (call, .apply (m :: todo) done) ∧
    Y.executed = X.executed ++ [m] ∧ Executes call X.ledger m
  guarded : ∀ call todo done, X.runner = some (call, .decide) →
    Y.runner = some (call, .apply todo done) →
    X.world.baseline = true → ledgerIsUnverified X.ledger = true → call.adoptionRequested = true

variable {X Y : Site sha256} {call : Call sha256} {done : List String} {throughIds : List String}

/-- A selector leaves the order of the release, and none leaves the release. -/
theorem selection_spec (h : call.selection = .ok (selected, throughIds)) :
    selected.Sublist call.release.migrations ∧
      (call.selector = none → selected = call.release.migrations) := by
  unfold Call.selection at h
  split at h
  · cases h
  next found hfound =>
  cases hthrough : resolveAdoptThrough call.release.migrations call.adoptThrough with
  | error error =>
    rw [hthrough] at h
    cases h
  | ok ids =>
    rw [hthrough] at h
    cases h
    refine ⟨selectMigrations_sublist hfound, fun hnone => ?_⟩
    rw [hnone] at hfound
    cases hfound
    rfl

/-- A recorded migration that has not drifted has its row. -/
theorem Undrifted.row (h : Undrifted chain ledger)
    (hm : m ∈ chain) (hrecorded : recorded ledger m = true) :
    ∃ r ∈ ledger, Ships m r := by
  obtain ⟨r, hr, hid⟩ := List.any_eq_true.mp hrecorded
  exact ⟨r, hr, h r hr m hm (of_decide_eq_true hid)⟩

/-- The run has ended. -/
theorem Standing.finish {answer : Except MigrationError Answer} (hX : Standing X)
    (hanswer : ∀ ids, answer = .ok (.applied ids) → call.selector = none →
      ∀ m ∈ call.release.migrations, ∃ r ∈ X.ledger, Ships m r) :
      Standing (X.finish call answer) := by
  refine ⟨hX.keyed, hX.written, fun _ _ _ h => ?_, fun call' ids hmem => ?_⟩
  · cases h
  · rcases List.mem_append.mp hmem with hmem | hmem
    · exact hX.answered call' ids hmem
    · obtain ⟨rfl, rfl⟩ := Prod.mk.inj (List.mem_singleton.mp hmem)
      exact hanswer ids rfl

/-- The run goes on, or has ended. -/
theorem Standing.proceed (done : List String) (hX : Standing X)
    (hselection : call.selection = .ok (selected, throughIds))
    (htodo : todo = pending X.ledger selected)
    (hundrifted : Undrifted call.release.migrations X.ledger)
    (hwhole : todo ≠ [] → Whole call.release.migrations X.ledger) :
    Standing (X.proceed call todo done) := by
  unfold Site.proceed
  split
  · next hnone =>
    refine hX.finish fun ids _ hselector m hm => ?_
    refine hundrifted.row hm ?_
    by_contra hnew
    have hmem : m ∈ pending X.ledger selected := by
      rw [(selection_spec hselection).2 hselector]
      exact mem_pending.mpr ⟨hm, Bool.eq_false_iff.mpr hnew⟩
    rw [← htodo, hnone] at hmem
    cases hmem
  · next hne =>
    refine ⟨hX.keyed, hX.written, fun _ _ _ h => ?_, hX.answered⟩
    cases h
    exact ⟨hne, hundrifted, hwhole hne, selected, throughIds, hselection, htodo⟩

/-- Before it executes anything, a run only takes over. -/
theorem Standing.adopt (hX : Standing X)
    (hidle : ∀ call todo done, X.runner ≠ some (call, .apply todo done))
    (h : Adopts chain X.ledger ledger') : Standing { X with ledger := ledger' } := by
  obtain ⟨new, hrows, hnew⟩ := h.rows
  refine ⟨h.keyed hX.keyed, ?_, fun call todo done hrunner => absurd hrunner (hidle call todo done),
    fun call ids hmem hselector m hm => ?_⟩
  · have hforeign : new.filter AppliedMigration.own = [] := by
      rw [List.filter_eq_nil_iff]
      intro r hr
      rw [(hnew r hr).1]
      decide
    rw [hrows, List.filter_append, hforeign, List.append_nil]
    exact hX.written
  · obtain ⟨r, hr, hships⟩ := hX.answered call ids hmem hselector m hm
    rw [hrows]
    exact ⟨r, List.mem_append_left new hr, hships⟩

/-- Another phase, in which nothing is executed. -/
theorem Standing.hold {runner : Option (Call sha256 × Phase)} (hX : Standing X)
    (hidle : ∀ call todo done, runner ≠ some (call, .apply todo done)) :
    Standing { X with runner } :=
  ⟨hX.keyed, hX.written, fun call todo done hrunner =>
    absurd hrunner (hidle call todo done), hX.answered⟩

/-- What is recorded with one row more. -/
theorem recorded_snoc : recorded (ledger ++ [r]) m =
    (recorded ledger m || decide (r.migrationId = m.migrationId)) := by
  unfold recorded
  rw [List.any_append, List.any_cons, List.any_nil, Bool.or_false]

/-- Once its head is recorded, the rest is pending. -/
theorem pending_snoc (hids : (selected.map Migration.migrationId).Nodup)
    (h : m :: todo = pending ledger selected) (hr : Ships m r) :
    todo = pending (ledger ++ [r]) selected := by
  have hrest : pending (ledger ++ [r]) selected =
      (pending ledger selected).filter (·.migrationId ≠ m.migrationId) := by
    unfold pending
    rw [List.filter_filter]
    refine List.filter_congr fun m' _ => ?_
    rw [recorded_snoc, hr.id, Bool.not_or, Bool.and_comm]
    simp [eq_comm]
  rw [hrest, ← h, List.filter_cons_of_neg (by simp)]
  refine (List.filter_eq_self.mpr fun m' hm' => ?_).symm
  have hnodup : ((m :: todo).map Migration.migrationId).Nodup := by
    rw [h]
    exact hids.sublist (List.filter_sublist.map _)
  have hne : m.migrationId ≠ m'.migrationId := fun heq =>
    (List.nodup_cons.mp hnodup).1 (heq ▸ List.mem_map_of_mem hm')
  simpa using hne.symm

/-- **One migration** is executed, with its row. -/
theorem Standing.executed {world : World} (hX : Standing X)
    (hrunner : X.runner = some (call, .apply (m :: todo) done))
    (hr : Ships m r) (hown : r.own = true) (hnew : recorded X.ledger m = false) :
    Standing
      ({ X with ledger := X.ledger ++ [r], world, executed := X.executed ++ [m] }.proceed call todo
      (done ++ [m.migrationId])) := by
  obtain ⟨-, hundrifted, hwhole, selected, throughIds, hselection, htodo⟩ :=
    hX.running _ _ _ hrunner
  have hsublist := (selection_spec hselection).1
  have hm : m ∈ call.release.migrations := by
    have hmem : m ∈ pending X.ledger selected := htodo ▸ List.mem_cons_self
    exact hsublist.subset (mem_pending.mp hmem).1
  -- the database once the migration is committed, should the runner die here
  have hstanding : Standing { X with
      ledger := X.ledger ++ [r], world, executed := X.executed ++ [m], runner := none } := by
    refine ⟨hX.keyed.snoc hnew hr, ?_, nofun, fun call' ids hmem hselector m' hm' => ?_⟩
    · rw [List.filter_append, List.filter_cons_of_pos hown, List.filter_nil]
      exact List.rel_append hX.written (.cons hr .nil)
    · obtain ⟨r', hr', hships⟩ := hX.answered call' ids hmem hselector m' hm'
      exact ⟨r', List.mem_append_left _ hr', hships⟩
  -- and where the runner lives it goes on from there, over rows that are still its own
  have hgoes := hstanding.proceed (done ++ [m.migrationId]) hselection
    (pending_snoc (call.release.ids.sublist (hsublist.map _)) htodo hr) ?_ ?_
  · unfold Site.proceed Site.finish at hgoes ⊢
    exact hgoes
  · intro r' hr' m' hm' hid
    rcases List.mem_append.mp hr' with hr' | hr'
    · exact hundrifted r' hr' m' hm' hid
    · rw [List.mem_singleton.mp hr'] at hid ⊢
      rw [← List.inj_on_of_nodup_map call.release.ids hm hm' (hr.id.symm.trans hid)]
      exact hr
  · intro _ r' hr'
    rcases List.mem_append.mp hr' with hr' | hr'
    · exact hwhole r' hr'
    · rw [List.mem_singleton.mp hr']
      exact ⟨m, hm, hr⟩

/-- Rows that are taken over come behind those that are there. -/
theorem Adopts.prefix_rows (h : Adopts chain ledger ledger') : ledger <+: ledger' := by
  obtain ⟨new, rfl, -⟩ := h.rows
  exact List.prefix_append ledger new

section Phases

variable {now : Nat}

/-- Going on leaves the ledger and what has been executed. -/
theorem proceed_ledger : (X.proceed call todo done).ledger = X.ledger ∧
    (X.proceed call todo done).executed = X.executed := by
  unfold Site.proceed
  split <;> exact ⟨rfl, rfl⟩

/-- Nothing is executed in another phase. -/
theorem idle_of_runner {phase : Phase} (hrunner : X.runner = some (call, phase))
    (hphase : ∀ todo done, phase ≠ .apply todo done) :
    ∀ call todo done, X.runner ≠ some (call, .apply todo done) := by
  intro call' todo done happly
  rw [hrunner] at happly
  exact hphase todo done (Prod.mk.inj (Option.some.inj happly)).2

/-- The history is prepared: the run takes over what it finds in the legacy table, or answers. -/
theorem prepare_step (hX : Standing X) (hrunner : X.runner = some (call, .prepare)) :
    Standing (X.prepare call now) ∧ Advances X (X.prepare call now) := by
  have hidle := idle_of_runner hrunner (by simp)
  unfold Site.prepare
  split
  · exact ⟨hX.finish nofun, List.prefix_rfl, .inl rfl, fun _ _ _ _ => nofun⟩
  next ledger unmanaged hreconcile =>
  have hadopts := reconcile_adopts hreconcile
  have hstanding := hX.adopt hidle hadopts
  split
  · refine ⟨hstanding.hold fun _ _ _ => nofun, hadopts.prefix_rows, .inl rfl, fun _ _ _ h => ?_⟩
    rw [hrunner] at h
    cases h
  · exact ⟨hstanding.finish nofun, hadopts.prefix_rows, .inl rfl, fun _ _ _ _ => nofun⟩

/-- The run decides what it executes. By cases on the guard: with an adoption, the ledger that is
validated is the one after it. -/
theorem decide_step {yaml : YamlLedger} (hX : Standing X)
    (hrunner : X.runner = some (call, .decide))
    (hselection : call.selection = .ok (selected, throughIds)) :
    Standing (X.decide str call selected throughIds now yaml) ∧
      Advances X (X.decide str call selected throughIds now yaml) := by
  have hidle := idle_of_runner hrunner (by simp)
  have hsublist := (selection_spec hselection).1
  have hpending {ledger : Ledger} (hne : pending ledger selected ≠ []) :
      pending ledger call.release.migrations ≠ [] := by
    obtain ⟨m, hm⟩ := List.exists_mem_of_ne_nil _ hne
    obtain ⟨hmem, hnew⟩ := mem_pending.mp hm
    exact List.ne_nil_of_mem (mem_pending.mpr ⟨hsublist.subset hmem, hnew⟩)
  unfold Site.decide
  split
  · exact ⟨hX.finish nofun, List.prefix_rfl, .inl rfl, fun _ _ _ _ => nofun⟩
  next hvalid =>
  split
  · -- nobody vouches for the schema: nothing is executed unless the adoption was asked for
    split
    · exact ⟨hX.finish nofun, List.prefix_rfl, .inl rfl, fun _ _ _ _ => nofun⟩
    next hrequested =>
    split
    · exact ⟨hX.finish nofun, List.prefix_rfl, .inl rfl, fun _ _ _ _ => nofun⟩
    next ledger hadopt =>
    have hadopts := adopt_adopts hadopt
    have hstanding := hX.adopt hidle hadopts
    split
    · exact ⟨hstanding.finish nofun, hadopts.prefix_rows, .inl rfl, fun _ _ _ _ => nofun⟩
    next hvalid' =>
    -- the rows that were taken over pass the validation too, and the run goes on over them
    obtain ⟨hundrifted, hwhole⟩ := validateHistory_spec call.release.ids hvalid'
    refine ⟨hstanding.proceed [] hselection rfl hundrifted fun hne => hwhole (hpending hne),
      ?_, .inl ?_, ?_⟩
    · rw [proceed_ledger.1]
      exact hadopts.prefix_rows
    · exact proceed_ledger.2
    · intro call' _ _ hcall _ _ _
      rw [hrunner] at hcall
      cases hcall
      simpa using hrequested
  · next hguard =>
      -- the schema is vouched for, or there is nothing to execute: no adoption is needed
    obtain ⟨hundrifted, hwhole⟩ := validateHistory_spec call.release.ids hvalid
    refine ⟨hX.proceed [] hselection rfl hundrifted fun hne => hwhole (hpending hne),
      ?_, .inl ?_, ?_⟩
    · rw [proceed_ledger.1]
    · exact proceed_ledger.2
    · intro call' todo done hcall hgoes hbaseline hunverified
      refine absurd ⟨fun hnone => ?_, hunverified, hbaseline⟩ hguard
      unfold Site.proceed Site.finish at hgoes
      rw [if_pos hnone] at hgoes
      cases hgoes

/-- The run executes its next migration, or its statement fails and the run ends. -/
theorem execute_step {outcome : Option World} (hX : Standing X)
    (hrunner : X.runner = some (call, .apply (m :: todo) done)) :
    Standing (X.execute call m todo done now outcome) ∧
      Advances X (X.execute call m todo done now outcome) := by
  have hguarded {Y : Site sha256} (call' : Call sha256)
      (todo' : List Migration) (done' : List String)
      (hcall : X.runner = some (call', .decide)) (_ : Y.runner = some (call', .apply todo' done'))
      (_ : X.world.baseline = true) (_ : ledgerIsUnverified X.ledger = true) :
        call'.adoptionRequested = true := by
    rw [hrunner] at hcall
    cases hcall
  obtain ⟨-, -, hwhole, selected, throughIds, hselection, htodo⟩ := hX.running _ _ _ hrunner
  have hmem : m ∈ pending X.ledger selected := htodo ▸ List.mem_cons_self
  obtain ⟨hm, hnew⟩ := mem_pending.mp hmem
  unfold Site.execute
  split
  · -- the script has failed, and its transaction with it
    exact ⟨hX.finish nofun, List.prefix_rfl, .inl rfl, hguarded⟩
  next world =>
  split
  · exact ⟨hX.finish nofun, List.prefix_rfl, .inl rfl, hguarded⟩
  next ledger hinsert =>
  rcases insertHistory_spec hinsert with ⟨hthere, -⟩ | ⟨-, r, hships, hown, rfl⟩
  · rw [hnew] at hthere
    cases hthere
  refine ⟨hX.executed hrunner hships hown hnew, ?_,
    .inr ⟨call, m, todo, done, hrunner, proceed_ledger.2, ?_⟩, hguarded⟩
  · rw [proceed_ledger.1]
    exact List.prefix_append _ _
  · obtain ⟨hsublist, hchain⟩ := selection_spec hselection
    refine ⟨hsublist.subset hm, hnew, hwhole, fun hselector m' hm' hlt => ?_⟩
    -- an earlier migration that were pending would be the next one
    by_contra hpending
    have hmem' : m' ∈ m :: todo := by
      rw [htodo, hchain hselector]
      exact mem_pending.mpr ⟨hm', Bool.eq_false_iff.mpr hpending⟩
    have hsorted : (m :: todo).Pairwise fun m m' => m.order ≤ m'.order := by
      rw [htodo]
      exact call.release.sorted.sublist (List.filter_sublist.trans hsublist)
    rcases List.mem_cons.mp hmem' with rfl | hlater
    · exact lt_irrefl _ hlt
    · exact absurd ((List.pairwise_cons.mp hsorted).1 m' hlater) (not_le.mpr hlt)

end Phases

/-- **One step.** By cases on it: a death lets the lock go, and everybody else touches neither the
ledger nor the run. -/
theorem migrate_step {step : Step sha256} (hX : Standing X) (h : (migrations str).step X step Y) :
    Standing Y ∧ Advances X Y := by
  have h : X.step str step = some Y := h
  cases step with
  | start call =>
    rw [Site.step] at h
    split at h
    · next hrunner _ =>
      cases h
      refine ⟨hX.hold fun _ _ _ => nofun, List.prefix_rfl, .inl rfl, fun _ _ _ hcall => ?_⟩
      rw [hrunner] at hcall
      cases hcall
    · cases h
  | prepare now =>
    rw [Site.step] at h
    split at h
    · next hrunner =>
      cases h
      exact prepare_step hX hrunner
    · cases h
  | decide now yaml =>
    rw [Site.step] at h
    split at h
    · next hrunner =>
      split at h
      · next hselection =>
        cases h
        exact decide_step hX hrunner hselection
      · cases h
    · cases h
  | execute now outcome =>
    rw [Site.step] at h
    split at h
    · next hrunner =>
      cases h
      exact execute_step hX hrunner
    · cases h
  | die =>
    rw [Site.step] at h
    split at h
    · cases h
      -- the lock goes with the session, and what was committed stays
      exact ⟨hX.hold fun _ _ _ => nofun, List.prefix_rfl, .inl rfl, fun _ _ _ _ => nofun⟩
    · cases h
  | outside world =>
    cases h
    refine ⟨⟨hX.keyed, hX.written, hX.running, hX.answered⟩, List.prefix_rfl, .inl rfl,
      fun _ _ _ hcall hgoes => ?_⟩
    rw [show X.runner = _ from hgoes] at hcall
    cases hcall

/-- **Run lemma.** -/
theorem standing_reachable (h : (migrations str).Reachable X) : Standing X := by
  refine h.invariant (I := Standing) ?_ fun X step Y hX hstep => (migrate_step hX hstep).1
  rintro X ⟨world, rfl⟩
  exact ⟨List.nodup_nil, .nil, nofun, nofun⟩

/-- The rows of the executed migrations have their ids. -/
theorem ids_written (h : List.Forall₂ Ships chain ledger) :
    chain.map Migration.migrationId = ledger.map AppliedMigration.migrationId := by
  induction h with
  | nil => rfl
  | cons hships _ ih => rw [List.map_cons, List.map_cons, hships.id, ih]

/-- What has its row is applied. -/
theorem Keyed.status (hkeyed : Keyed ledger) (hr : r ∈ ledger) (hships : Ships m r) :
    rowStatus ledger m = "applied" := by
  unfold rowStatus
  rw [← hships.id, find_of_mem hkeyed hr]
  exact if_pos (ships_iff.mp hships).2

/-- **Migrations**, in every run of any releases over a database, whatever dies: each is executed at
most once, and the ledger has just those rows beside the ones that were taken over; rows stay. A
release executes only what it ships and what has no row, over a ledger that is its own, in its
order, and over a schema that nobody vouches for only where the adoption was asked for. What an
unselected run of a release has returned from stays applied. -/
theorem migrations_executed_once (sha256 : String → String) (str : Json → String) :
    (∀ X : Site sha256, (migrations str).Reachable X →
      (X.executed.map Migration.migrationId).Nodup ∧
      List.Forall₂ Ships X.executed (X.ledger.filter AppliedMigration.own) ∧
      ∀ call ids, (call, .ok (.applied ids)) ∈ X.answers → call.selector = none →
        ∀ m ∈ call.release.migrations, rowStatus X.ledger m = "applied") ∧
    (∀ (X : Site sha256) step Y, (migrations str).Reachable X →
      (migrations str).step X step Y → Advances X Y) ∧
    ∀ (X : Site sha256) steps Y, (migrations str).Reachable X → (migrations str).Run X steps Y →
      X.ledger <+: Y.ledger := by
  refine ⟨fun X h => ?_, fun X step Y h hstep => (migrate_step (standing_reachable h) hstep).2,
    fun X steps Y h hrun => ?_⟩
  · have hX := standing_reachable h
    refine ⟨?_, hX.written, fun call ids hmem hselector m hm => ?_⟩
    · rw [ids_written hX.written]
      exact hX.keyed.sublist (List.filter_sublist.map _)
    · obtain ⟨r, hr, hships⟩ := hX.answered call ids hmem hselector m hm
      exact hX.keyed.status hr hships
  · exact hrun.follows (I := Standing) (R := fun X Y => X.ledger <+: Y.ledger)
      (fun _ => List.prefix_rfl)
      (fun _ _ _ => List.IsPrefix.trans) (fun X step Y hX hstep => (migrate_step hX hstep).1)
      (fun X step Y hX hstep => (migrate_step hX hstep).2.rows) (standing_reachable h)

/-! ### An upgrade and its rollback -/

/-- The checksums of the texts of the sample, `003_plan_steps` being the last one. -/
def sampleSha256 : String → String
  | "CREATE TABLE memory_facts ();" =>
      "c81d37c1da960ed1a27166cb4095147a5e943ef37b94833527383938c1dd4e15"
  | "CREATE TABLE plans ();" => "38ae083dd3bb690de7a36ee89bc5843a79df0ce8dc0dc179a037612ff8c52ac3"
  | _ => "1e26d72e43faae64ea7f09b52d00d5697cc9f9da23a4eae2d9238050fbbcc854"

/-- The files of a release, in the order of its manifest. -/
def sampleFiles : List (String × String × String) :=
  [("crm", "003_plan_steps.sql", "ALTER TABLE plans ADD COLUMN steps INT;"),
   ("infra", "001_init.sql", "CREATE TABLE memory_facts ();"),
   ("crm", "002b_plans.sql", "CREATE TABLE plans ();")]

def sampleChain (files : List (String × String × String)) : List Migration :=
  (discover sampleSha256 files).toOption.getD []

def sampleRelease : Release sampleSha256 :=
  discovered (show discover sampleSha256 sampleFiles =
    .ok (sampleChain sampleFiles) by decide +kernel)

/-- The release before, without the last migration. -/
def sampleOldRelease : Release sampleSha256 :=
  discovered (show discover sampleSha256 sampleFiles.tail =
    .ok (sampleChain sampleFiles.tail) by decide +kernel)

/-- The upgrade dies after its first migration and is run again; the rollback finds nothing to do.
-/
def sampleSteps : List (Step sampleSha256) :=
  [.start { release := sampleRelease }, .prepare 1,
    .decide 1 .absent, .execute 1 (some { baseline := true }), .die,
    .start { release := sampleRelease }, .prepare 2,
    .decide 2 .absent, .execute 2 (some { baseline := true }),
    .execute 3 (some { baseline := true }),
    .start { release := sampleOldRelease }, .prepare 4, .decide 4 .absent]

def sampleStr (_ : Json) : String := ""

def sampleSite : Site sampleSha256 := (sampleSteps.foldlM (Site.step sampleStr) {}).getD {}

theorem upgraded_and_rolled_back :
    sampleSite.executed.map Migration.migrationId = ["001_init", "002b_plans", "003_plan_steps"] ∧
      (sampleSite.executed.map Migration.migrationId).Nodup ∧
      sampleSite.answers.map (fun a => a.2.toOption) =
        [some (.applied ["002b_plans", "003_plan_steps"]), some (.applied [])] ∧
      ∀ m ∈ sampleRelease.migrations, rowStatus sampleSite.ledger m = "applied" := by
  have hsome : (sampleSteps.foldlM (Site.step sampleStr) {}).isSome = true := by decide +kernel
  have hsite : sampleSteps.foldlM (Site.step sampleStr) {} = some sampleSite := by
    obtain ⟨X, hX⟩ := Option.isSome_iff_exists.mp hsome
    rw [sampleSite, hX]
    rfl
  have hreachable : (migrations sampleStr).Reachable sampleSite :=
    ⟨{}, sampleSteps, ⟨{}, rfl⟩, System.run_of_foldlM hsite⟩
  obtain ⟨hnodup, -, happlied⟩ :=
    (migrations_executed_once sampleSha256 sampleStr).1 sampleSite hreachable
  refine ⟨by decide +kernel, hnodup, by decide +kernel, ?_⟩
  have hanswer : ∃ a ∈ sampleSite.answers, a.1.selector = none ∧
      a.1.release.migrations = sampleRelease.migrations ∧
      a.2.toOption = some (.applied ["002b_plans", "003_plan_steps"]) := by decide +kernel
  obtain ⟨⟨call, answer⟩, hmem, hselector, hrelease, hanswer⟩ := hanswer
  cases answer with
  | error error => cases hanswer
  | ok answer =>
    cases hanswer
    rw [← hrelease]
    exact happlied call _ hmem hselector

end GenusOs.Db
