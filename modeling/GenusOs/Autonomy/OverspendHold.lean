import GenusOs.Autonomy.System

/-!
# Overspend and the hold

An issuer's charges above the amount of an operation put its grant on hold, in the transaction that
records the fact, where the facts of the initial payment are consistent.

* `EvidenceInv`, `reachable_evidenceInv`: the payment journal appends, and never twice.
* `StepCase.hold_kept`: a hold stays until it is cleared.
* `Exceeds.held_iff`: the fact by which the charges exceed the amount places a hold exactly where an
  overspend shows.
* `overspend_held_iff`: over every run.
-/

namespace GenusOs.Autonomy

open GenusOs.Python Transaction

variable {env : Platform} {amb : Ambient} {J : Prop} {scope : Scope} {s t : DB}

/-! ## The journal appends -/

theorem insertionSort_concat {α : Type} {r : α → α → Prop} [DecidableRel r] {l : List α} {x : α}
    (h : ∀ a ∈ l, r a x) : (l ++ [x]).insertionSort r = l.insertionSort r ++ [x] := by
  have hinsert : ∀ (a : α) (m : List α), r a x →
      (m ++ [x]).orderedInsert r a = m.orderedInsert r a ++ [x] := by
    intro a m hax
    induction m with
    | nil => simp [List.orderedInsert, hax]
    | cons b m ih =>
      by_cases hab : r a b
      · simp [List.orderedInsert, hab]
      · simp [List.orderedInsert, hab, ih]
  induction l with
  | nil => rfl
  | cons a l ih =>
    rw [List.cons_append, List.insertionSort_cons, List.insertionSort_cons,
      ih fun b hb => h b (List.mem_cons_of_mem _ hb), hinsert a _ (h a List.mem_cons_self)]

/-- The row that is taken is the last one of its operation. -/
theorem evidence_insert {row : PaymentEvent} (h : s.Accepts row) (id : Uuid) :
    (s.insertEvidence row).evidence scope id =
      s.evidence scope id ++ if row.scope = scope ∧ row.operationId = id then [row] else [] := by
  unfold DB.evidence DB.insertEvidence
  rw [List.filter_append, List.filter_singleton]
  by_cases hrow : row.scope = scope ∧ row.operationId = id
  · obtain ⟨rfl, rfl⟩ := hrow
    simp only [decide_true, Bool.and_self, if_true, and_self]
    refine insertionSort_concat fun e he => ?_
    have hmem : e ∈ s.evidence row.scope row.operationId :=
      (List.perm_insertionSort _ _).mem_iff.mpr he
    have hversion : e.version ∈ (s.evidence row.scope row.operationId).map (·.version) :=
      List.mem_map_of_mem hmem
    rw [h.complete, List.mem_range'_1] at hversion
    have := h.version
    omega
  · have hfalse : (decide (row.scope = scope) && decide (row.operationId = id)) = false := by
      simpa using hrow
    rw [hfalse, if_neg hrow]
    simp

/-- The facts of an operation after a row is taken. -/
theorem facts_insert {row : PaymentEvent} (h : s.Accepts row) (id : Uuid) :
    (s.insertEvidence row).facts scope id =
      s.facts scope id ++ if row.scope = scope ∧ row.operationId = id then [row.fact] else [] := by
  rw [DB.facts, evidence_insert h, List.map_append, DB.facts]
  split <;> rfl

/-- Writes record submissions at most. -/
theorem Writes.facts (h : Writes amb J s t) (scope : Scope) (id : Uuid) :
    ∃ more, t.facts scope id = s.facts scope id ++ more ∧
      ∀ f ∈ more, PaymentFact.kind f = .submitted := by
  induction h with
  | refl => exact ⟨[], (List.append_nil _).symm, by simp⟩
  | @tail u v _ hw ih =>
    obtain ⟨more, hmore, hkind⟩ := ih
    cases hw with
    | submission haccepts hk =>
      refine ⟨_, (facts_insert haccepts id).trans (hmore ▸ List.append_assoc ..), fun f hf => ?_⟩
      rcases List.mem_append.mp hf with hf | hf
      · exact hkind f hf
      · split at hf
        · exact List.mem_singleton.mp hf ▸ hk
        · cases hf
    | operation | event | grants | settings | handoffs | journal => exact ⟨more, hmore, hkind⟩

/-! ## One fact for each event key -/

/-- The facts of every operation have different keys, and merchants report submissions only. -/
structure EvidenceInv (s : DB) : Prop where
  keys : ∀ scope id, ((s.facts scope id).map (·.eventKey)).Nodup
  merchant : ∀ scope id, ∀ f ∈ s.facts scope id, f.source = .merchant → f.kind = .submitted

theorem EvidenceInv.insert {row : PaymentEvent} (hi : EvidenceInv s) (h : s.Accepts row)
    (hm : row.fact.source = .merchant → row.fact.kind = .submitted) :
    EvidenceInv (s.insertEvidence row) where
  keys scope id := by
    rw [facts_insert h, List.map_append]
    split
    · next hrow =>
      obtain ⟨rfl, rfl⟩ := hrow
      refine List.nodup_append.mpr ⟨hi.keys _ _, List.nodup_singleton _, ?_⟩
      intro key hkey key' hkey' heq
      obtain ⟨f, hf, rfl⟩ := List.mem_map.mp hkey
      obtain ⟨e, he, rfl⟩ := List.mem_map.mp hf
      exact h.key e he (heq.trans (List.mem_singleton.mp hkey'))
    · simpa using hi.keys scope id
  merchant scope id f hf := by
    rw [facts_insert h] at hf
    rcases List.mem_append.mp hf with hf | hf
    · exact hi.merchant scope id f hf
    · split at hf
      · exact List.mem_singleton.mp hf ▸ hm
      · cases hf

theorem EvidenceInv.writes (hi : EvidenceInv s) (h : Writes amb J s t) : EvidenceInv t := by
  induction h with
  | refl => exact hi
  | tail _ hw ih =>
    cases hw with
    | submission haccepts hk => exact ih.insert haccepts fun _ => hk
    | operation | event | grants | settings | handoffs | journal => exact ⟨ih.keys, ih.merchant⟩

/-- **Step lemma.** -/
theorem EvidenceInv.step {a : Step} (hi : EvidenceInv s) (h : StepCase env J s a t) :
    EvidenceInv t := by
  cases h with
  | writes h => exact hi.writes h
  | reserve | submit | clear => exact ⟨hi.keys, hi.merchant⟩
  | note _ _ h => exact ⟨(hi.writes h).keys, (hi.writes h).merchant⟩
  | append _ _ _ hissuer h =>
    rcases h.split a.amb J with hw | ⟨row, hfact, haccepts, hw⟩
    · exact hi.writes hw
    · exact (hi.insert haccepts (by rw [hfact]; exact hissuer)).writes hw

theorem reachable_evidenceInv (h : (storeSystem env).Reachable s) : EvidenceInv s :=
  h.invariant (I := EvidenceInv)
    (fun s h₀ => by
      rw [show s = {} from h₀]
      exact ⟨fun _ _ => List.nodup_nil, fun _ _ f hf => by cases hf⟩)
    fun _ _ _ hi hs => hi.step (step_cases hs)

/-! ## A hold stays -/

/-- The owner clears the hold on the operation's grant. -/
def Step.Clears (a : Step) (o : Operation) : Prop :=
  a.call = .clearPaymentHold o.grantId ∧ a.scope = o.scope

variable {grantId : Uuid}

theorem hold_record (s : DB) (scope' : Scope) (subject : Subject) (text : String) :
    grantOnHold (s.record scope' subject text) scope grantId =
      if Event.isHold scope grantId ⟨scope', subject, text⟩ = true then decide (text = HOLD_PLACED)
      else grantOnHold s scope grantId := by
  unfold grantOnHold DB.record
  rw [List.filter_append, List.filter_singleton]
  split
  · next hhold =>
    rw [hhold, cond_true, List.getLast?_concat]
    rfl
  · next hhold => rw [Bool.eq_false_of_not_eq_true hhold, cond_false, List.append_nil]

theorem hold_record_operation (s : DB) (scope' : Scope) (id : Uuid) (text : String) :
    grantOnHold (s.record scope' (.operation id) text) scope grantId =
      grantOnHold s scope grantId := by
  rw [hold_record, if_neg]
  simp [Event.isHold]

theorem Write.hold_kept (h : Write amb J s t) (hs : grantOnHold s scope grantId = true) :
    grantOnHold t scope grantId = true := by
  cases h with
  | @event _ scope' subject text h =>
    rw [hold_record]
    split
    · next hhold =>
      simp only [Event.isHold, Bool.and_eq_true, Bool.or_eq_true, decide_eq_true_eq] at hhold
      obtain ⟨⟨-, rfl⟩, hplaced | hcleared⟩ := hhold
      · exact decide_eq_true hplaced
      · exact absurd hcleared h
    · exact hs
  | operation | submission | grants | settings | handoffs | journal => exact hs

theorem Writes.hold_kept (h : Writes amb J s t) (hs : grantOnHold s scope grantId = true) :
    grantOnHold t scope grantId = true := by
  induction h with
  | refl => exact hs
  | tail _ hw ih => exact hw.hold_kept ih

/-- **A hold stays until it is cleared.** -/
theorem StepCase.hold_kept {a : Step} {o : Operation} (h : StepCase env J s a t)
    (hclear : ¬ a.Clears o) (hs : grantOnHold s o.scope o.grantId = true) :
    grantOnHold t o.scope o.grantId = true := by
  cases h with
  | writes h => exact h.hold_kept hs
  | reserve | submit =>
    rw [hold_record_operation]
    exact hs
  | note _ _ h =>
    rw [hold_record_operation]
    exact h.hold_kept hs
  | append _ _ _ _ h =>
    rcases h.split a.amb J with hw | ⟨row, -, -, hw⟩
    · exact hw.hold_kept hs
    · exact hw.hold_kept (s := s.insertEvidence row) hs
  | @clear cleared hcall =>
    rw [hold_record, if_neg]
    · exact hs
    · intro hhold
      simp only [Event.isHold, Bool.and_eq_true, decide_eq_true_eq, Subject.grant.injEq] at hhold
      exact hclear ⟨by rw [hcall, hhold.1.2], hhold.1.1⟩

theorem hold_kept_run {as : List Step} {o : Operation} (h : (storeSystem env).Run s as t)
    (hclear : ∀ a ∈ as, ¬ a.Clears o) (hs : grantOnHold s o.scope o.grantId = true) :
    grantOnHold t o.scope o.grantId = true :=
  h.preserves_of_labels (I := fun s => grantOnHold s o.scope o.grantId = true)
    (fun _ _ _ ha hs hstep => (step_cases hstep).hold_kept ha hs) hclear hs

theorem hold_placeHold (s : DB) (scope : Scope) (grantId id : Uuid) (reasons : List String) :
    grantOnHold (s.placeHold scope grantId id reasons) scope grantId = true := by
  have hfold : ∀ s : DB, grantOnHold (reasons.foldl (fun db reason =>
      db.record scope (.operation id) ("payment_overspend:" ++ reason)) s) scope grantId =
        grantOnHold s scope grantId := by
    induction reasons with
    | nil => exact fun _ => rfl
    | cons reason reasons ih => exact fun s => (ih _).trans (hold_record_operation _ _ _ _)
  unfold DB.placeHold
  split
  · next hs => exact hs
  · rw [hfold, hold_record, if_pos (by simp [Event.isHold])]
    rfl

/-- Flagging an overspend puts the grant on hold where there is a reason to. -/
theorem hold_flagOverspend {op : Operation} {facts : List PaymentFact} :
    grantOnHold (s.flagOverspend scope op facts) scope op.grantId = true ↔
      grantOnHold s scope op.grantId = true ∨
        overspendReasons (summarizePayments op.proposal facts) ≠ [] := by
  unfold DB.flagOverspend
  dsimp only
  split
  · next hnone => simp [hnone]
  · next hreasons => simp [hold_placeHold, hreasons]

/-! ## Gross charges -/

/-- What the issuer charged for the initial payment, each charge once. -/
def DB.gross (s : DB) (o : Operation) : Nat :=
  (((initialFacts (s.facts o.scope o.id)).filter fun f =>
    f.kind = .charged && f.source = .issuer).dedup.map (·.amountMinor)).sum

theorem gross_eq (hi : EvidenceInv s) (o : Operation) :
    s.gross o = total .charged (initialFacts (s.facts o.scope o.id)) := by
  have hissuer : ((initialFacts (s.facts o.scope o.id)).filter fun f =>
      f.kind = .charged && f.source = .issuer) =
        (initialFacts (s.facts o.scope o.id)).filter (·.kind = .charged) := by
    refine List.filter_congr fun f hf => ?_
    have hmerchant := hi.merchant o.scope o.id f (List.mem_of_mem_filter hf)
    cases hsource : f.source with
    | issuer => simp
    | merchant => simp [hmerchant hsource]
  have hnodup : ((initialFacts (s.facts o.scope o.id)).filter (·.kind = .charged)).Nodup :=
    ((List.Nodup.of_map _ (hi.keys o.scope o.id)).filter _).filter _
  rw [DB.gross, hissuer, hnodup.dedup, total]

theorem initialFacts_append (facts more : List PaymentFact) :
    initialFacts (facts ++ more) = initialFacts facts ++ initialFacts more :=
  List.filter_append ..

/-- Submissions charge nothing. -/
theorem gross_of_more {o : Operation} (hs : EvidenceInv s) (ht : EvidenceInv t)
    {more : List PaymentFact} (h : t.facts o.scope o.id = s.facts o.scope o.id ++ more)
    (hmore : ∀ f ∈ more, PaymentFact.kind f = .submitted) : t.gross o = s.gross o := by
  rw [gross_eq hs, gross_eq ht, h, initialFacts_append, total_append, Nat.add_eq_left]
  refine total_eq_zero fun f hf => ?_
  rw [hmore f (List.mem_of_mem_filter hf)]
  simp

/-- Between the states, the charges come to exceed the amount of the operation. -/
def Exceeds (s t : DB) (o : Operation) : Prop :=
  s.gross o ≤ o.proposal.amountMinor ∧ o.proposal.amountMinor < t.gross o

/-- Charges come to exceed the amount by an appended fact of the initial payment alone. -/
theorem Exceeds.appended {a : Step} {o : Operation} (hx : Exceeds s t o) (hi : EvidenceInv s)
    (h : StepCase env J s a t) :
    ∃ op ∈ s.operations, ∃ fact row more, op.id = o.id ∧ a.call = .append o.id fact ∧
      fact.renewalId = none ∧ t.facts o.scope o.id = s.facts o.scope o.id ++ [fact] ++ more ∧
        (∀ f ∈ more, PaymentFact.kind f = .submitted) ∧
          t = ((s.insertEvidence row).record o.scope (.operation o.id)
          "payment_evidence_recorded").flagOverspend o.scope op
            (s.facts o.scope o.id ++ [fact]) := by
  have ht := hi.step h
  have hsame : t.gross o ≠ s.gross o := fun heq => absurd hx.2 (by have := hx.1; omega)
  have hwrites : ∀ {u : DB} {J : Prop}, Writes a.amb J s u →
      t.facts o.scope o.id = u.facts o.scope o.id → False := by
    intro u J hw hfacts
    obtain ⟨more, hmore, hkind⟩ := hw.facts o.scope o.id
    exact hsame (gross_of_more hi ht (hfacts.trans hmore) hkind)
  cases h with
  | writes h => exact (hwrites h rfl).elim
  | reserve | submit | clear => exact (hwrites (J := False) .refl rfl).elim
  | note _ _ h => exact (hwrites h rfl).elim
  | @append op fact t hcall hop hscope hissuer h =>
    cases h with
    | replay => exact (hwrites (flagOverspend_writes (J := False) op _) rfl).elim
    | @insert row haccepts hrowScope hrowId hfact =>
      have hafter : Writes a.amb False (s.insertEvidence row)
          (((s.insertEvidence row).record a.scope (.operation op.id)
            "payment_evidence_recorded").flagOverspend a.scope op
              (s.facts a.scope op.id ++ [fact])) :=
        (Write.event a.scope (by simp [Ordinary])).writes.trans (flagOverspend_writes _ _)
      obtain ⟨more, hmore, hkind⟩ := hafter.facts o.scope o.id
      rw [facts_insert haccepts] at hmore
      -- the row is one of the operation, or else the facts of the operation are what they were
      by_cases hrow : row.scope = o.scope ∧ row.operationId = o.id
      · rw [if_pos hrow] at hmore
        obtain ⟨hs', hid⟩ := hrow
        rw [hrowScope] at hs'
        rw [hrowId] at hid
        have hinitial : fact.renewalId = none := by
          by_contra hrenewal
          have hnone : initialFacts [row.fact] = [] := by
            rw [hfact]
            simp [initialFacts, hrenewal]
          apply hsame
          rw [gross_eq hi, gross_eq ht, hmore, List.append_assoc, initialFacts_append,
            initialFacts_append, hnone, List.nil_append, total_append, Nat.add_eq_left]
          refine total_eq_zero fun f hf => ?_
          rw [hkind f (List.mem_of_mem_filter hf)]
          simp
        exact ⟨op, hop, fact, row, more, hid, hid ▸ hcall, hinitial, hfact ▸ hmore, hkind,
          by rw [hs', hid]⟩
      · rw [if_neg hrow, List.append_nil] at hmore
        exact (hsame (gross_of_more hi ht hmore hkind)).elim

/-! ## When an overspend shows -/

/-- The initial facts with this step's are consistent, or a renewal shows an overspend already, or
the grant is on hold already. -/
def OverspendShows (s : DB) (a : Step) (o : Operation) : Prop :=
  grantOnHold s o.scope o.grantId = true ∨
    (∃ fact, a.call = .append o.id fact ∧
      Consistent o.proposal.currency (initialFacts (s.facts o.scope o.id ++ [fact]))) ∨
    ∃ r ∈ renewalsOf o.proposal (s.facts o.scope o.id), RenewalFlagged r

/-- A fact of the initial payment is no renewal's. -/
theorem renewalsOf_append {proposal : WebOperation} {facts : List PaymentFact} {fact : PaymentFact}
    (h : fact.renewalId = none) :
    renewalsOf proposal (facts ++ [fact]) = renewalsOf proposal facts := by
  have hids : (facts ++ [fact]).filterMap (·.renewalId) = facts.filterMap (·.renewalId) := by
    simp [List.filterMap_append, h]
  have hgroup : ∀ id : String, (facts ++ [fact]).filter (·.renewalId = some id) =
      facts.filter (·.renewalId = some id) := by
    intro id
    simp [List.filter_append, h]
  simp only [renewalsOf, hids, hgroup]

/-- Charges above the amount show in the position exactly where the facts are consistent. -/
theorem flagged_iff {proposal : WebOperation} {facts : List PaymentFact}
    (hkeys : (facts.map (·.eventKey)).Nodup)
    (hover : proposal.amountMinor < total .charged (initialFacts facts)) :
    Flagged (summarizePayments proposal facts).position ↔
      Consistent proposal.currency (initialFacts facts) := by
  have hnodup : ((initialFacts facts).map (·.eventKey)).Nodup :=
    hkeys.sublist (List.filter_sublist.map _)
  have hgroup : ∀ f ∈ initialFacts facts, f.group = (none, none) := by
    intro f hf
    have hid : f.renewalId = none := by simpa using (List.mem_filter.mp hf).2
    have hon := f.renewalIdentity
    rw [hid] at hon
    rw [PaymentFact.group, hid, Option.isNone_iff_eq_none.mp hon.symm]
  have hok : (∃ p, projectPayment (initialFacts facts) proposal.amountMinor proposal.currency =
      .ok p) ↔ _ := projectPayment_ok_iff hnodup hgroup
  rw [← hok]
  show Flagged (positionOf (initialFacts facts) proposal.amountMinor proposal.currency).1 ↔ _
  unfold positionOf
  cases hp : projectPayment (initialFacts facts) proposal.amountMinor proposal.currency with
  | error e => simp [Flagged]
  | ok p =>
    obtain ⟨hcharged, hlimit⟩ := charged_of_projectPayment hnodup hp
    have hexceeded : p.limitExceeded = true := by
      rw [hlimit, hcharged, decide_eq_true_eq]
      exact lt_of_lt_of_le hover (Nat.le_max_right _ _)
    simp [Flagged, hexceeded]

/-- **The step by which charges exceed the amount places a hold exactly where the overspend
shows.** -/
theorem Exceeds.held_iff {a : Step} {o : Operation} (hx : Exceeds s t o) (hi : EvidenceInv s)
    (h : StepCase env J s a t)
    (hsame : ∀ op ∈ s.operations, op.id = o.id →
      op.proposal = o.proposal ∧ op.grantId = o.grantId) :
    grantOnHold t o.scope o.grantId = true ↔ OverspendShows s a o := by
  have ht := hi.step h
  obtain ⟨op, hop, fact, row, more, hid, hcall, hinitial, hfacts, hkind, rfl⟩ := hx.appended hi h
  obtain ⟨hproposal, hgrant⟩ := hsame op hop hid
  have hover : o.proposal.amountMinor <
      total .charged (initialFacts (s.facts o.scope o.id ++ [fact])) := by
    have hgross := hx.2
    have hmore : total .charged (initialFacts more) = 0 := by
      refine total_eq_zero fun f hf => ?_
      rw [hkind f (List.mem_of_mem_filter hf)]
      simp
    rwa [gross_eq ht, hfacts, initialFacts_append _ more, total_append, hmore,
      Nat.add_zero] at hgross
  have hkeys : ((s.facts o.scope o.id ++ [fact]).map (·.eventKey)).Nodup := by
    have hall := ht.keys o.scope o.id
    rw [hfacts, List.map_append] at hall
    exact (List.nodup_append.mp hall).1
  rw [← hgrant, hold_flagOverspend, hold_record_operation, hgrant, hproposal,
    overspendReasons_ne_nil_iff, flagged_iff hkeys hover, renewalsOf_append hinitial]
  refine or_congr Iff.rfl (or_congr ⟨fun h => ⟨fact, hcall, h⟩, ?_⟩ Iff.rfl)
  rintro ⟨fact', hcall', hconsistent⟩
  rw [hcall, Call.append.injEq] at hcall'
  rwa [hcall'.2]

/-! ## Over runs -/

/-- From the step on by which the charges of the operation exceed its amount, its grant is on hold
until the owner clears it. -/
def HeldUntilCleared (env : Platform) (as : List Step) (o : Operation) : Prop :=
  ∀ before a middle after, as = before ++ a :: (middle ++ after) →
    Exceeds (runSteps env {} before) (runSteps env {} (before ++ [a])) o →
      (∀ b ∈ middle, ¬ b.Clears o) →
        grantOnHold (runSteps env {} (before ++ a :: middle)) o.scope o.grantId = true

theorem runSteps_append (as bs : List Step) :
    runSteps env s (as ++ bs) = runSteps env (runSteps env s as) bs :=
  List.foldl_append

/-- **An overspend holds the grant exactly where it shows.** In a run of the stores, the grant of an
operation is on hold from the moment its charges exceed its amount until the owner clears it,
whatever happens in between, if and only if the facts that were on record at that moment fit
together, or a renewal had shown an overspend, or the grant was on hold already. -/
theorem overspend_held_iff {as : List Step} {o : Operation}
    (ho : o ∈ (runSteps env {} as).operations) :
    HeldUntilCleared env as o ↔
      ∀ before a after, as = before ++ a :: after →
        Exceeds (runSteps env {} before) (runSteps env {} (before ++ [a])) o →
          OverspendShows (runSteps env {} before) a o := by
  have hstep : ∀ before a after, as = before ++ a :: after →
      Exceeds (runSteps env {} before) (runSteps env {} (before ++ [a])) o →
        (grantOnHold (runSteps env {} (before ++ [a])) o.scope o.grantId = true ↔
          OverspendShows (runSteps env {} before) a o) := by
    rintro before a after rfl hx
    have hreach : (storeSystem env).Reachable (runSteps env {} before) :=
      ⟨{}, before, rfl, run_runSteps env before {}⟩
    have hcase : StepCase env True (runSteps env {} before) a (runSteps env {} (before ++ [a])) :=
      step_cases (by rw [runSteps_append]; rfl)
    refine hx.held_iff (reachable_evidenceInv hreach) hcase fun op hop hid => ?_
    -- an operation of the state before is still there at the end, so it is `o`
    obtain ⟨op', hop', hsame⟩ := run_same (run_runSteps env (a :: after) (runSteps env {} before))
      (reachable_keysUnique hreach) hop
    rw [← runSteps_append] at hop'
    have hkeys := reachable_keysUnique
      (⟨{}, _, rfl, run_runSteps env (before ++ a :: after) {}⟩ : (storeSystem env).Reachable _)
    obtain rfl := hkeys.eq hop' ho (hsame.id.trans hid)
    exact ⟨hsame.proposal.symm, hsame.grantId.symm⟩
  constructor
  · intro hheld before a after heq hx
    exact (hstep before a after heq hx).mp (hheld before a [] after heq hx (by simp))
  · intro hshows before a middle after heq hx hclear
    have hplaced := (hstep before a (middle ++ after) heq hx).mpr (hshows before a _ heq hx)
    have hrun := run_runSteps env middle (runSteps env {} (before ++ [a]))
    rw [← runSteps_append, List.append_assoc] at hrun
    exact hold_kept_run hrun hclear hplaced

/-! ## Two authorizations silence an overspend -/

def sampleFact (eventKey : String) (kind : FactKind) (amountMinor : Nat)
    (minor : amountMinor ≤ maxMinor) : PaymentFact :=
  { eventKey, kind, amountMinor, currency := "USD", source := .issuer, minor := minor
    renewalIdentity := renewalIdentity_none }

theorem twenty_le_maxMinor : 20 ≤ maxMinor := by decide

theorem eightThousand_le_maxMinor : 8000 ≤ maxMinor := by decide

/-- A purchase of 20 is charged 8000. -/
def overchargeSteps : List Step :=
  purchaseSteps ++
    [sampleStep 10 (.append 3 (sampleFact "c1" .charged 8000 eightThousand_le_maxMinor))]

/-- The issuer reports a second authorization before the charge. -/
def reauthorizedSteps : List Step :=
  purchaseSteps ++ [sampleStep 10 (.append 3 (sampleFact "a1" .authorized 20 twenty_le_maxMinor)),
    sampleStep 11 (.append 3 (sampleFact "a2" .authorized 20 twenty_le_maxMinor)),
    sampleStep 12 (.append 3 (sampleFact "c1" .charged 8000 eightThousand_le_maxMinor))]

theorem overcharge_held : ∃ o ∈ (runSteps samplePlatform {} overchargeSteps).operations,
    Exceeds (runSteps samplePlatform {} purchaseSteps)
      (runSteps samplePlatform {} overchargeSteps) o ∧
        HeldUntilCleared samplePlatform overchargeSteps o := by
  obtain ⟨o, ho, hid, hearlier, hhigh, hcurrency, hsound, hkinds⟩ :
      ∃ o ∈ (runSteps samplePlatform {} overchargeSteps).operations, o.id = 3 ∧
        (∀ n < 4, (runSteps samplePlatform {} (overchargeSteps.take (n + 1))).gross o ≤
          o.proposal.amountMinor) ∧
        o.proposal.amountMinor < (runSteps samplePlatform {} overchargeSteps).gross o ∧
        let facts := initialFacts ((runSteps samplePlatform {} purchaseSteps).facts o.scope o.id ++
          [sampleFact "c1" .charged 8000 eightThousand_le_maxMinor])
        (∀ f ∈ facts, f.currency = o.proposal.currency) ∧ (∀ f ∈ facts, f.Sound) ∧
          facts.map (·.kind) = [.charged] := by
    decide +kernel
  refine ⟨o, ho, ⟨hearlier 3 (by decide), hhigh⟩, (overspend_held_iff ho).mpr ?_⟩
  intro before a after heq hx
  by_cases hlast : before.length < 4
  · have htake : before ++ [a] = overchargeSteps.take (before.length + 1) := by
      rw [heq.trans (List.append_cons before a after)]
      exact (List.take_left' List.length_append).symm
    have := hearlier before.length hlast
    rw [← htake] at this
    exact absurd hx.2 (Nat.not_lt.mpr this)
  · have hlength := congrArg List.length heq
    simp only [overchargeSteps, purchaseSteps, List.length_append, List.length_cons,
      List.length_nil] at hlength
    obtain rfl : after = [] := List.length_eq_zero_iff.mp (by omega)
    obtain ⟨rfl, hstep⟩ := List.append_inj' heq.symm rfl
    obtain rfl := List.singleton_inj.mp hstep
    refine .inr
      (.inl ⟨sampleFact "c1" .charged 8000 eightThousand_le_maxMinor, by rw [hid]; rfl, ?_⟩)
    obtain ⟨f, hf, hkind⟩ := List.map_eq_singleton_iff.mp hkinds
    rw [hf] at hcurrency hsound ⊢
    exact ⟨hcurrency, hsound, by simp [hkind], by simp [hkind], by simp [hkind]⟩

theorem reauthorized_not_held :
    ∃ o ∈ (runSteps samplePlatform {} reauthorizedSteps).operations,
      ¬ HeldUntilCleared samplePlatform reauthorizedSteps o := by
  obtain ⟨o, ho, hlow, hhigh, hfree⟩ :
      ∃ o ∈ (runSteps samplePlatform {} reauthorizedSteps).operations,
        (runSteps samplePlatform {} (reauthorizedSteps.take 6)).gross o ≤ o.proposal.amountMinor ∧
        o.proposal.amountMinor < (runSteps samplePlatform {} reauthorizedSteps).gross o ∧
        grantOnHold (runSteps samplePlatform {} reauthorizedSteps) o.scope o.grantId = false := by
    decide +kernel
  refine ⟨o, ho, fun hheld => ?_⟩
  have := hheld (reauthorizedSteps.take 6)
    (sampleStep 12 (.append 3 (sampleFact "c1" .charged 8000 eightThousand_le_maxMinor)))
    [] [] rfl ⟨hlow, hhigh⟩ (by simp)
  exact absurd (this.symm.trans hfree) (by decide)

end GenusOs.Autonomy
