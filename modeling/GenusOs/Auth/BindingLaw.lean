import GenusOs.Auth.BindingTables
import Mathlib

/-!
# Single sign-on and the binding of accounts

The interleavings of sign-ins, armings and revocations of binding grants.

* `bindingStep_inv`: what every statement keeps, and an arming that no other one has overtaken.
* `bindings_kept_and_one_grant_live`: an account is bound with one grant of its own, for good, and
  one grant at most is pending for it, where no arming is overtaken.
-/

namespace GenusOs.Auth.Binding

open Rows

variable {db db' : BindingDb} {p q : Pid}

/-! ## Ways to go on -/

namespace BindingDb.Inv

theorem of (h : db.Inv) (hids : KeyUnique (·.id) db'.accounts)
    (hfresh : ∀ a ∈ db'.accounts, a.id < db'.nextId)
    (hledger : Ledger db'.grants db'.nextId db'.nextCall db'.answers db'.bindings)
    (hserials : ∀ q n, db'.serialOf q = some n →
      db.serialOf q = some n ∧ (db.Open n → db'.Open n))
    (hheld : ∀ q txn, db'.txns q = some txn →
      (db.txns q = some txn ∧ Frame db db' q) ∨ txn.Holds db' q) : db'.Inv where
  accountIds := hids
  accountsFresh := hfresh
  ledger := hledger
  calls := fun q n hn => (hserials q n hn).2 (h.calls q n (hserials q n hn).1)
  distinct := fun q q' n hn hn' => h.distinct q q' n (hserials q n hn).1 (hserials q' n hn').1
  held := by
    intro q txn hq
    rcases hheld q txn hq with ⟨hbefore, hframe⟩ | hholds
    · exact (h.held q txn hbefore).frame hframe
    · exact hholds

/-- A transaction goes on, with more locks than before. -/
theorem goOn (h : db.Inv) {txn : Txn} {accountLocks grantLocks : Locks Uuid Pid}
    {identities : Locks Identity Pid} {addresses : Locks (String × String) Pid}
    (hcall : ∀ call, txn.call = some call → db.serialOf p = some call.serial)
    (haccount : ∀ k q, db.accountLocks k = some q → accountLocks k = some q)
    (hgrant : ∀ k q, db.grantLocks k = some q → grantLocks k = some q)
    (hown : txn.Holds { db.goOn p txn with
      accountLocks := accountLocks
      grantLocks := grantLocks
      identities := identities
      addresses := addresses } p) :
    { db.goOn p txn with
      accountLocks := accountLocks
      grantLocks := grantLocks
      identities := identities
      addresses := addresses }.Inv := by
  refine h.of h.accountIds h.accountsFresh h.ledger (fun q n hn => ?_) (fun q txn' hq => ?_)
  · refine ⟨?_, id⟩
    by_cases hqp : q = p
    · subst hqp
      replace hn : ((Function.update db.txns q (some txn) q).bind Txn.call).map (·.serial) =
        some n := hn
      rw [Function.update_self, Option.bind_some] at hn
      obtain ⟨call, hc, rfl⟩ := Option.map_eq_some_iff.mp hn
      exact hcall call hc
    · replace hn : ((Function.update db.txns p (some txn) q).bind Txn.call).map (·.serial) =
        some n := hn
      rwa [Function.update_of_ne hqp] at hn
  · by_cases hqp : q = p
    · subst hqp
      replace hq : Function.update db.txns q (some txn) q = some txn' := hq
      rw [Function.update_self] at hq
      cases hq
      exact .inr hown
    · replace hq : Function.update db.txns p (some txn) q = some txn' := hq
      rw [Function.update_of_ne hqp] at hq
      exact .inl ⟨hq,
        { accounts := fun b hb => .inr ⟨b, hb, rfl, rfl, rfl, fun _ => rfl⟩
          grants := fun g hg _ => hg
          origin := fun g hg => .inr ⟨none, g, hg, .refl g⟩
          accountLocks := fun k hk => haccount k q hk
          grantLocks := fun k hk => hgrant k q hk
          nextId := Nat.le_refl _ }⟩

/-- A transaction ends, having changed rows that no other one holds. -/
theorem ending (h : db.Inv) {accounts : List UserAccount} {grants : List BindingGrant}
    {nextId : Uuid} {answers : List (Nat × Option Uuid)} {bindings : List (Uuid × Uuid)}
    (hids : KeyUnique (·.id) accounts) (hfresh : ∀ a ∈ accounts, a.id < nextId)
    (hledger : Ledger grants nextId db.nextCall answers bindings) (hnext : db.nextId ≤ nextId)
    (hopen : ∀ q, q ≠ p → ∀ n, db.serialOf q = some n → db.Open n →
      Binding.Open grants db.nextCall answers n)
    (haccounts : ∀ q, q ≠ p → ∀ b ∈ accounts, db.nextId ≤ b.id ∨ ∃ a ∈ db.accounts, b.id = a.id ∧
      b.tenantId = a.tenantId ∧ b.email = a.email ∧
        (db.accountLocks a.id = some q → b.idp = a.idp))
    (hgrants : ∀ q, q ≠ p → ∀ g ∈ db.grants, db.grantLocks g.id = some q → g ∈ grants)
    (horigin : ∀ k ∈ grants, db.nextId ≤ k.id ∨ ∃ call, ∃ g ∈ db.grants, Worn call g k) :
    { db.finish p with
      accounts := accounts
      grants := grants
      nextId := nextId
      answers := answers
      bindings := bindings }.Inv := by
  have hne {q : Pid} {txn : Txn} (hq : Function.update db.txns p none q = some txn) : q ≠ p := by
    rintro rfl
    rw [Function.update_self] at hq
    cases hq
  refine h.of hids hfresh hledger (fun q n hn => ?_) (fun q txn hq => ?_)
  · replace hn : ((Function.update db.txns p none q).bind Txn.call).map (·.serial) =
      some n := hn
    obtain ⟨call, hc, rfl⟩ := Option.map_eq_some_iff.mp hn
    obtain ⟨txn, hq, hc⟩ := Option.bind_eq_some_iff.mp hc
    have hqp := hne hq
    rw [Function.update_of_ne hqp] at hn hq
    exact ⟨hn, hopen q hqp _ hn⟩
  · replace hq : Function.update db.txns p none q = some txn := hq
    have hqp := hne hq
    rw [Function.update_of_ne hqp] at hq
    exact .inl ⟨hq,
      { accounts := haccounts q hqp
        grants := hgrants q hqp
        origin := horigin
        accountLocks := fun k hk => Locks.release_eq_some.mpr ⟨hk, hqp⟩
        grantLocks := fun k hk => Locks.release_eq_some.mpr ⟨hk, hqp⟩
        nextId := hnext }⟩

/-- A statement that is a transaction changes rows that nobody holds. -/
theorem direct (h : db.Inv) {accounts : List UserAccount} {grants : List BindingGrant}
    (hids : KeyUnique (·.id) accounts) (hfresh : ∀ a ∈ accounts, a.id < db.nextId)
    (haccounts : ∀ b ∈ accounts, ∃ a ∈ db.accounts, b.id = a.id ∧ b.tenantId = a.tenantId ∧
      b.email = a.email ∧ b.idp = a.idp)
    (hrows : Rowwise (Worn none) db.grants grants)
    (hgrants : ∀ q, ∀ g ∈ db.grants, db.grantLocks g.id = some q → g ∈ grants) :
    { db with accounts := accounts, grants := grants }.Inv := by
  refine h.of hids hfresh (h.ledger.worn hrows nofun)
    (fun q n hn => ⟨hn, fun ho => Open.worn ho hrows nofun⟩) (fun q txn hq => .inl ⟨hq, ?_⟩)
  exact
    { accounts := fun b hb => by
        obtain ⟨a, ha, hid, htenant, hemail, hidp⟩ := haccounts b hb
        exact .inr ⟨a, ha, hid, htenant, hemail, fun _ => hidp⟩
      grants := hgrants q
      origin := fun k hk => by
        obtain ⟨g, hg, hgk⟩ := hrows.origin hk
        exact .inr ⟨none, g, hg, hgk⟩
      accountLocks := fun _ hk => hk
      grantLocks := fun _ hk => hk
      nextId := Nat.le_refl _ }

end BindingDb.Inv

/-! ## Statements -/

/-- A statement of a transaction that is not the last one writes nothing that others see. -/
structure Quiet (db db' : BindingDb) : Prop where
  grants : db'.grants = db.grants
  accounts : db'.accounts = db.accounts

/-- A row that an update of other rows leaves. -/
theorem held_grant {grants : List BindingGrant} {locks : Locks Uuid Pid} {c : BindingGrant → Bool}
    {f : BindingGrant → BindingGrant} {g : BindingGrant} (hg : g ∈ grants)
    (hlock : locks g.id = some q) (hc : ∀ r, c r = true → locks r.id ≠ some q) :
    g ∈ updateWhere c f grants :=
  mem_updateWhere_of_not hg (Bool.eq_false_iff.mpr fun hcg => hc g hcg hlock)

section Statements

variable {call : SignIn} {now : Nat} {row : UserAccount} {grant : BindingGrant} {tenantId : String}

theorem finish_inv (h : db.Inv) : (db.finish p).Inv :=
  h.ending h.accountIds h.accountsFresh h.ledger (Nat.le_refl _) (fun _ _ _ _ ho => ho)
    (fun _ _ b hb => .inr ⟨b, hb, rfl, rfl, rfl, fun _ => rfl⟩) (fun _ _ _ hg _ => hg)
    fun k hk => .inr ⟨none, k, hk, .refl k⟩

/-- The other sign-ins have other serials. -/
theorem serial_ne (h : db.Inv) (hp : db.serialOf p = some call.serial) (hqp : q ≠ p) {n : Nat}
    (hq : db.serialOf q = some n) : call.serial ≠ n := fun heq =>
  hqp (h.distinct q p n hq (heq ▸ hp))

theorem answer_inv (h : db.Inv) (hp : db.serialOf p = some call.serial) (account : Option Uuid) :
    (db.answer p call account).Inv := by
  have hopen := h.calls p _ hp
  refine h.ending h.accountIds h.accountsFresh
    (h.ledger.answer hopen.lt fun _ => hopen.traceless) (Nat.le_refl _)
    (fun q hqp n hn ho => Open.answer ho (serial_ne h hp hqp hn))
    (fun _ _ b hb => .inr ⟨b, hb, rfl, rfl, rfl, fun _ => rfl⟩) (fun _ _ _ hg _ => hg)
    fun k hk => .inr ⟨none, k, hk, .refl k⟩

/-- A sign-in goes on, with no new locks. -/
theorem goOn_inv (h : db.Inv) {txn : Txn}
    (hcall : ∀ call, txn.call = some call → db.serialOf p = some call.serial)
    (hown : txn.Holds (db.goOn p txn) p) : (db.goOn p txn).Inv :=
  h.goOn hcall (fun _ _ hk => hk) (fun _ _ hk => hk) hown

theorem signIn_goOn (h : db.Inv) {txn : Txn} (hp : db.serialOf p = some call.serial)
    (hcall : txn.call = some call) (hown : txn.Holds (db.goOn p txn) p) : (db.goOn p txn).Inv :=
  goOn_inv h (fun _ hc => Option.some.inj (hcall.symm.trans hc) ▸ hp) hown

theorem ownRow_of_byAddress (h : db.Inv) {email : String}
    (hrow : db.byAddress tenantId email = some row) : OwnRow db tenantId email row.id where
  lt := h.accountsFresh row (List.mem_of_find?_eq_some hrow)
  address := by
    intro a ha hid
    rw [h.accountIds.eq ha (List.mem_of_find?_eq_some hrow) hid]
    simpa using List.find?_some hrow

/-- Serials are drawn in order. -/
theorem nextCall_ne (h : db.Inv) {n : Nat} (hq : db.serialOf q = some n) : db.nextCall ≠ n :=
  (h.calls q n hq).lt.ne'

theorem open_nextCall (h : db.Inv) :
    Binding.Open db.grants (db.nextCall + 1) db.answers db.nextCall where
  lt := Nat.lt_succ_self _
  unanswered := fun r hr => (h.ledger.answered r hr).ne
  traceless := fun g hg hn => Nat.lt_irrefl _ (h.ledger.used g hg _ hn).1

theorem counted_inv (h : db.Inv) : { db with nextCall := db.nextCall + 1 }.Inv := by
  refine h.of h.accountIds h.accountsFresh ?_ (fun q n hn => ⟨hn, fun ho => ?_⟩)
    (fun q txn hq => .inl ⟨hq, ?_⟩)
  · exact { h.ledger with
      answered := fun r hr => (h.ledger.answered r hr).trans (Nat.lt_succ_self _)
      used := fun g hg n hn => (h.ledger.used g hg n hn).imp_left (·.trans (Nat.lt_succ_self _)) }
  · exact ⟨ho.lt.trans (Nat.lt_succ_self _), ho.unanswered, ho.traceless⟩
  · exact
      { accounts := fun b hb => .inr ⟨b, hb, rfl, rfl, rfl, fun _ => rfl⟩
        grants := fun g hg _ => hg
        origin := fun k hk => .inr ⟨none, k, hk, .refl k⟩
        accountLocks := fun _ hk => hk
        grantLocks := fun _ hk => hk
        nextId := Nat.le_refl _ }

/-- A sign-in begins, with a serial of its own. -/
theorem begun_inv (h : db.Inv) {txn : Txn} (hcall : txn.call = some call)
    (hserial : call.serial = db.nextCall)
    (hown : txn.Holds ({ db with nextCall := db.nextCall + 1 }.goOn p txn) p) :
    ({ db with nextCall := db.nextCall + 1 }.goOn p txn).Inv := by
  have hcounted := counted_inv h
  have hself : ({ db with nextCall := db.nextCall + 1 }.goOn p txn).serialOf p =
      some db.nextCall := by
    simp [BindingDb.serialOf, BindingDb.goOn, hcall, hserial]
  have hother {q : Pid} (hqp : q ≠ p) :
      ({ db with nextCall := db.nextCall + 1 }.goOn p txn).serialOf q = db.serialOf q := by
    simp [BindingDb.serialOf, BindingDb.goOn, hqp]
  refine
    { accountIds := h.accountIds
      accountsFresh := h.accountsFresh
      ledger := hcounted.ledger
      calls := fun q n hn => ?_
      distinct := fun q q' n hn hn' => ?_
      held := fun q txn' hq => ?_ }
  · by_cases hqp : q = p
    · rw [hqp, hself] at hn
      cases hn
      exact open_nextCall h
    · rw [hother hqp] at hn
      exact hcounted.calls q n hn
  · by_cases hqp : q = p
    · by_cases hqp' : q' = p
      · exact hqp.trans hqp'.symm
      · rw [hqp, hself] at hn
        cases hn
        rw [hother hqp'] at hn'
        exact absurd rfl (nextCall_ne h hn')
    · rw [hother hqp] at hn
      by_cases hqp' : q' = p
      · rw [hqp', hself] at hn'
        cases hn'
        exact absurd rfl (nextCall_ne h hn)
      · rw [hother hqp'] at hn'
        exact h.distinct q q' n hn hn'
  · by_cases hqp : q = p
    · subst hqp
      replace hq : Function.update db.txns q (some txn) q = some txn' := hq
      rw [Function.update_self] at hq
      cases hq
      exact hown
    · replace hq : Function.update db.txns p (some txn) q = some txn' := hq
      rw [Function.update_of_ne hqp] at hq
      refine (hcounted.held q txn' hq).frame ?_
      exact
        { accounts := fun b hb => .inr ⟨b, hb, rfl, rfl, rfl, fun _ => rfl⟩
          grants := fun g hg _ => hg
          origin := fun k hk => .inr ⟨none, k, hk, .refl k⟩
          accountLocks := fun _ hk => hk
          grantLocks := fun _ hk => hk
          nextId := Nat.le_refl _ }

/-- A sign-in is refused by its first request. -/
theorem refused_inv (h : db.Inv) (hserial : call.serial = db.nextCall) :
    ({ db with nextCall := db.nextCall + 1 }.answer p call none).Inv := by
  have hcounted := counted_inv h
  have hopen : Binding.Open db.grants (db.nextCall + 1) db.answers call.serial :=
    hserial ▸ open_nextCall h
  refine hcounted.ending h.accountIds h.accountsFresh
    (Ledger.answer hcounted.ledger hopen.lt fun _ => hopen.traceless) (Nat.le_refl _)
    (fun q _ n hn ho => Open.answer ho (hserial ▸ nextCall_ne h hn))
    (fun _ _ b hb => .inr ⟨b, hb, rfl, rfl, rfl, fun _ => rfl⟩) (fun _ _ _ hg _ => hg)
    fun k hk => .inr ⟨none, k, hk, .refl k⟩

theorem jitProvision_inv (h : db.Inv) (request : SignIn) :
    (db.jitProvision p request).Inv ∧ Quiet db (db.jitProvision p request) := by
  unfold BindingDb.jitProvision
  simp only
  split
  · exact ⟨refused_inv h rfl, rfl, rfl⟩
  · split
    · exact ⟨begun_inv h rfl rfl trivial, rfl, rfl⟩
    · split
      · exact ⟨refused_inv h rfl, rfl, rfl⟩
      · exact ⟨begun_inv h rfl rfl trivial, rfl, rfl⟩

theorem touchLogin_inv (h : db.Inv) (hp : db.serialOf p = some call.serial) {id : Uuid}
    (hstep : db.touchLogin p call id = some db') : db'.Inv ∧ Quiet db db' := by
  unfold BindingDb.touchLogin at hstep
  split at hstep
  · cases hstep
    exact ⟨answer_inv h hp none, rfl, rfl⟩
  · split at hstep
    · cases hstep
      exact ⟨answer_inv h hp none, rfl, rfl⟩
    · split at hstep
      · cases hstep
      · cases hstep
        exact ⟨answer_inv h hp (some id), rfl, rfl⟩

theorem meet_inv (h : db.Inv) (hp : db.serialOf p = some call.serial)
    (hrow : db.byAddress tenantId call.email = some row) :
    (db.meet p call now tenantId row).Inv ∧ Quiet db (db.meet p call now tenantId row) := by
  unfold BindingDb.meet
  split
  · exact ⟨answer_inv h hp none, rfl, rfl⟩
  · have hown := ownRow_of_byAddress h hrow
    exact ⟨signIn_goOn h hp rfl ⟨hown.lt, hown.address⟩, rfl, rfl⟩

theorem lookUp_inv (h : db.Inv) (hp : db.serialOf p = some call.serial) :
    (db.lookUp p call now).Inv ∧ Quiet db (db.lookUp p call now) := by
  unfold BindingDb.lookUp
  split
  · exact ⟨signIn_goOn h hp rfl trivial, rfl, rfl⟩
  · next hrow => exact meet_inv h hp hrow

theorem lookForHolder_inv (h : db.Inv) (hp : db.serialOf p = some call.serial) :
    (db.lookForHolder p call now).Inv ∧ Quiet db (db.lookForHolder p call now) := by
  unfold BindingDb.lookForHolder
  split <;> exact ⟨signIn_goOn h hp rfl trivial, rfl, rfl⟩

theorem lookUpHolder_inv (h : db.Inv) (hp : db.serialOf p = some call.serial) :
    (db.lookUpHolder p call now tenantId).Inv ∧ Quiet db (db.lookUpHolder p call now tenantId) := by
  unfold BindingDb.lookUpHolder
  split
  · exact ⟨signIn_goOn h hp rfl trivial, rfl, rfl⟩
  · next hrow => exact meet_inv h hp hrow

theorem consume_inv (h : db.Inv) (hp : db.serialOf p = some call.serial)
    (hrow : OwnRow db tenantId call.email row.id) :
    (db.consume p call now tenantId row).Inv ∧ Quiet db (db.consume p call now tenantId row) := by
  unfold BindingDb.consume
  simp only
  split
  · exact ⟨signIn_goOn h hp rfl trivial, rfl, rfl⟩
  · next grant hgrant =>
    have hmem := List.argmax_mem hgrant
    simp only [List.mem_filter, Bool.decide_and, Bool.and_eq_true, decide_eq_true_eq,
      Bool.decide_eq_true] at hmem
    obtain ⟨hmem, hfor, hlive, haccepts, hlock⟩ := hmem
    refine ⟨h.goOn (fun c hc => Option.some.inj hc ▸ hp) (fun _ _ hk => hk)
      (fun k q hk => Locks.take_of_held hk hlock)
      ⟨⟨hmem, hlive, haccepts, Locks.take_self⟩, hrow.lt, ?_⟩, rfl, rfl⟩
    obtain ⟨htenant, hemail⟩ := isFor_iff.mp hfor
    rw [htenant, hemail]
    exact hrow.address

theorem bind_inv (h : db.Inv) (hp : db.txns p = some (.consumed call now row grant))
    (hstep : db.bind p call now row grant = some db') : db'.Inv ∧ Quiet db db' := by
  have hserial : db.serialOf p = some call.serial := by simp [BindingDb.serialOf, hp, Txn.call]
  obtain ⟨hgrant, hrow⟩ := h.held p _ hp
  unfold BindingDb.bind at hstep
  split at hstep
  · cases hstep
    exact
      ⟨signIn_goOn h hserial rfl ⟨hgrant.mem, hgrant.live, hgrant.accepts, hgrant.lock⟩, rfl, rfl⟩
  · next account haccount =>
    split at hstep
    · cases hstep
      exact
        ⟨signIn_goOn h hserial rfl ⟨hgrant.mem, hgrant.live, hgrant.accepts, hgrant.lock⟩, rfl, rfl⟩
    · next hfree =>
      split at hstep
      · cases hstep
      · next hlock =>
        split at hstep
        · cases hstep
          exact ⟨answer_inv h hserial none, rfl, rfl⟩
        · split at hstep
          · cases hstep
          · cases hstep
            refine ⟨h.goOn (fun c hc => Option.some.inj hc ▸ hserial)
              (fun k q hk => Locks.take_of_held hk (not_not.mp hlock)) (fun _ _ hk => hk)
              ⟨⟨hgrant.mem, hgrant.live, hgrant.accepts, hgrant.lock⟩, ⟨hrow.lt, hrow.address⟩,
                Locks.take_self, fun a ha hid => ?_⟩, rfl, rfl⟩
            rw [not_or, not_not, not_not] at hfree
            have hid' : account.id = row.id := by simpa using List.find?_some haccount
            rw [h.accountIds.eq ha (List.mem_of_find?_eq_some haccount) (hid.trans hid'.symm)]
            exact hfree.2

theorem lookElsewhere_inv (h : db.Inv) (hp : db.serialOf p = some call.serial) :
    (db.lookElsewhere p call tenantId).Inv ∧ Quiet db (db.lookElsewhere p call tenantId) := by
  unfold BindingDb.lookElsewhere
  split
  · exact ⟨answer_inv h hp none, rfl, rfl⟩
  · exact ⟨signIn_goOn h hp rfl trivial, rfl, rfl⟩

theorem insertAccount_inv (h : db.Inv) (hp : db.serialOf p = some call.serial)
    (hstep : db.insertAccount p call tenantId = some db') : db'.Inv ∧ Quiet db db' := by
  unfold BindingDb.insertAccount at hstep
  split at hstep
  · cases hstep
    exact ⟨answer_inv h hp none, rfl, rfl⟩
  · split at hstep
    · cases hstep
    · cases hstep
      exact ⟨h.goOn (fun c hc => Option.some.inj hc ▸ hp) (fun _ _ hk => hk) (fun _ _ hk => hk)
        trivial, rfl, rfl⟩

theorem commitAccount_inv (h : db.Inv) (hp : db.serialOf p = some call.serial) :
    (db.commitAccount p call tenantId).Inv := by
  have hopen := h.calls p _ hp
  have hledger : Ledger db.grants db.nextId db.nextCall
      (db.answers ++ [(call.serial, some db.nextId)]) db.bindings :=
    h.ledger.answer hopen.lt nofun
  refine h.ending (h.accountIds.insert fun a ha => (h.accountsFresh a ha).ne) (fun a ha => ?_)
    (hledger.draw (Nat.le_succ _)) (Nat.le_succ _)
    (fun q hqp n hn ho => Open.answer ho (serial_ne h hp hqp hn)) (fun _ _ b hb => ?_)
    (fun _ _ _ hg _ => hg) fun k hk => .inr ⟨none, k, hk, .refl k⟩
  · rcases List.mem_append.mp ha with ha | ha
    · exact (h.accountsFresh a ha).trans (Nat.lt_succ_self _)
    · rw [List.mem_singleton.mp ha]
      exact Nat.lt_succ_self _
  · rcases List.mem_append.mp hb with hb | hb
    · exact .inr ⟨b, hb, rfl, rfl, rfl, fun _ => rfl⟩
    · rw [List.mem_singleton.mp hb]
      exact .inl (Nat.le_refl _)

/-- The grants after the sign-in that has consumed one. -/
theorem grants_of_consumed (hgrant : Consumed db p call now grant) {usedBy : Option Identity} :
    ∀ q, q ≠ p → ∀ g ∈ db.grants, db.grantLocks g.id = some q →
      g ∈ updateWhere (fun g => decide (g.id = grant.id)) (·.spent call now usedBy) db.grants := by
  intro q hqp g hg hlock
  refine held_grant hg hlock fun r hr hrq => hqp ?_
  rw [of_decide_eq_true hr, hgrant.lock] at hrq
  exact (Option.some.inj hrq).symm

theorem reboundLost_inv (h : db.Inv) (hp : db.txns p = some (.lost call now grant)) :
    (db.reboundLost p call now grant).Inv ∧
      (OnePending db.grants → OnePending (db.reboundLost p call now grant).grants) := by
  have hserial : db.serialOf p = some call.serial := by simp [BindingDb.serialOf, hp, Txn.call]
  have hopen := h.calls p _ hserial
  have hgrant : Consumed db p call now grant := h.held p _ hp
  unfold BindingDb.reboundLost
  split
  · exact ⟨answer_inv h hserial none, id⟩
  · next won _ =>
    have hrows := @rowwise_spent call now none
      (fun g => decide (g.id = grant.id)) db.grants
    refine ⟨h.ending h.accountIds h.accountsFresh
      ((h.ledger.worn hrows fun c hc => Option.some.inj hc ▸ hopen).answer hopen.lt nofun)
      (Nat.le_refl _) (fun q hqp n hn ho => ?_)
      (fun _ _ b hb => .inr ⟨b, hb, rfl, rfl, rfl, fun _ => rfl⟩) (grants_of_consumed hgrant)
      (fun k hk => ?_), fun hone => hone.worn hrows⟩
    · have hne := serial_ne h hserial hqp hn
      exact (Open.worn ho hrows fun c hc => Option.some.inj hc ▸ hne).answer hne
    · obtain ⟨g, hg, hgk⟩ := hrows.origin hk
      exact .inr ⟨some call, g, hg, hgk⟩

theorem commitBinding_inv (h : db.Inv) (hp : db.txns p = some (.bound call now row grant)) :
    (db.commitBinding p call now row grant).Inv ∧
      (OnePending db.grants → OnePending (db.commitBinding p call now row grant).grants) := by
  have hserial : db.serialOf p = some call.serial := by simp [BindingDb.serialOf, hp, Txn.call]
  have hopen := h.calls p _ hserial
  obtain ⟨hgrant, hrow, hlock, _⟩ := h.held p _ hp
  have hrows := @rowwise_spent call now (some call.identity)
    (fun g => decide (g.id = grant.id)) db.grants
  have hpending : grant.pending = true := (live_iff.mp hgrant.live).1
  refine ⟨h.ending (h.accountIds.updateWhere fun _ _ => rfl) (fun a ha => ?_)
    ((h.ledger.bind hgrant.mem hpending hopen).answer hopen.lt nofun) (Nat.le_refl _)
    (fun q hqp n hn ho => ?_) (fun q hqp b hb => ?_) (grants_of_consumed hgrant)
    (fun k hk => ?_), fun hone => hone.worn hrows⟩
  · obtain ⟨b, hb, rfl⟩ := mem_updateWhere.mp ha
    split <;> exact h.accountsFresh b hb
  · have hne := serial_ne h hserial hqp hn
    exact (Open.worn ho hrows fun c hc => Option.some.inj hc ▸ hne).answer hne
  · obtain ⟨a, ha, rfl⟩ := mem_updateWhere.mp hb
    refine .inr ⟨a, ha, ?_⟩
    split
    · next hid =>
      refine ⟨rfl, rfl, rfl, fun hlock' => absurd ?_ hqp⟩
      rw [of_decide_eq_true hid, hlock] at hlock'
      exact (Option.some.inj hlock').symm
    · exact ⟨rfl, rfl, rfl, fun _ => rfl⟩
  · obtain ⟨g, hg, hgk⟩ := hrows.origin hk
    exact .inr ⟨some call, g, hg, hgk⟩

/-! ## The statements of an arming -/

theorem arm_inv (h : db.Inv) {call : Arming} :
    (db.arm p call now).Inv ∧ Quiet db (db.arm p call now) := by
  unfold BindingDb.arm
  split
  · exact ⟨h, rfl, rfl⟩
  · split
    · exact ⟨h, rfl, rfl⟩
    · exact ⟨goOn_inv h nofun trivial, rfl, rfl⟩

theorem revokePending_inv (h : db.Inv) {call : Arming} : (db.revokePending p call now).Inv := by
  refine goOn_inv h nofun ⟨fun g hg hfor hpending _ => .inl ?_, nofun, fun id hid => ?_⟩
  · refine List.mem_map_of_mem (List.mem_filter.mpr ⟨hg, ?_⟩)
    simp [hfor, hpending]
  · obtain ⟨g, hg, rfl⟩ := List.mem_map.mp hid
    exact h.ledger.fresh g hg

theorem visit_inv (h : db.Inv) {call : Arming} {todo updated known : List Uuid} {id : Uuid}
    (hp : db.txns p = some (.revoking call now todo updated known))
    (hstep : db.visit p call now todo updated known id = some db') :
    db'.Inv ∧ Quiet db db' := by
  obtain ⟨hcovered, hlocks, hknown⟩ := h.held p _ hp
  unfold BindingDb.visit at hstep
  split at hstep
  · cases hstep
  · next hlock =>
    rw [not_not] at hlock
    split at hstep
    · cases hstep
      refine ⟨h.goOn nofun (fun _ _ hk => hk) (fun k q hk => Locks.take_of_held hk hlock)
        ⟨fun g hg hfor hpending hmem => ?_, fun k hk => ?_, hknown⟩, rfl, rfl⟩
      · by_cases hid : g.id = id
        · exact .inr (hid ▸ List.mem_cons_self)
        · exact (hcovered g hg hfor hpending hmem).imp
            (List.mem_erase_of_ne hid).mpr (List.mem_cons_of_mem _)
      · rcases List.mem_cons.mp hk with rfl | hk
        · exact Locks.take_self
        · exact Locks.take_of_held (hlocks k hk) hlock
    · next hnot =>
      cases hstep
      refine ⟨goOn_inv h nofun ⟨fun g hg hfor hpending hmem => ?_, hlocks, hknown⟩, rfl, rfl⟩
      refine (hcovered g hg hfor hpending hmem).imp_left fun htodo => ?_
      refine (List.mem_erase_of_ne fun hid => hnot ?_).mpr htodo
      -- the look-up finds the pending grant
      cases hfind : db.grantById id with
      | none => simpa [hid] using List.find?_eq_none.mp hfind g hg
      | some k =>
        have hkid : k.id = id := by simpa using List.find?_some hfind
        have hkg : k = g :=
          h.ledger.ids.eq (List.mem_of_find?_eq_some hfind) hg (hkid.trans hid.symm)
        rw [hkg]
        exact hpending

theorem commitGrant_inv (h : db.Inv) {call : Arming} {updated known : List Uuid}
    (hp : db.txns p = some (.revoking call now [] updated known)) :
    (db.commitGrant p call now updated).Inv ∧
      ((∀ g ∈ db.grants, g.isFor call.tenantId call.email = true → g.pending = true →
        g.id ∈ known) → OnePending db.grants →
          OnePending (db.commitGrant p call now updated).grants) := by
  obtain ⟨hcovered, hlocks, hknown⟩ := h.held p _ hp
  have hrows := @rowwise_revoked now (fun g => decide (g.id ∈ updated)) db.grants
  refine ⟨h.ending h.accountIds (fun a ha => (h.accountsFresh a ha).trans (Nat.lt_succ_self _))
    ((h.ledger.worn hrows nofun).insert rfl rfl) (Nat.le_succ _)
    (fun q hqp n hn ho => (Open.worn ho hrows nofun).insert rfl)
    (fun _ _ b hb => .inr ⟨b, hb, rfl, rfl, rfl, fun _ => rfl⟩) (fun q hqp g hg hlock => ?_)
    (fun k hk => ?_), fun hcalm hone => ?_⟩
  · refine List.mem_append_left _ (held_grant hg hlock fun r hr hrq => hqp ?_)
    rw [hlocks _ (of_decide_eq_true hr)] at hrq
    exact (Option.some.inj hrq).symm
  · rcases List.mem_append.mp hk with hk | hk
    · obtain ⟨g, hg, hgk⟩ := hrows.origin hk
      exact .inr ⟨none, g, hg, hgk⟩
    · rw [List.mem_singleton.mp hk]
      exact .inl (Nat.le_refl _)
  · -- all that were pending are revoked, so that the new one is alone
    have hnone : ∀ k ∈ updateWhere (fun g => decide (g.id ∈ updated)) (·.revoked now) db.grants,
        k.pending = true → ¬ k.isFor call.tenantId call.email = true := by
      intro k hk hpending hfor
      obtain ⟨g, hg, rfl⟩ := mem_updateWhere.mp hk
      split at hpending
      · rw [not_pending_revoked] at hpending
        cases hpending
      · next hnot =>
        rw [if_neg hnot] at hfor
        rcases hcovered g hg hfor hpending (hcalm g hg hfor hpending) with hnil | hmem
        · cases hnil
        · exact hnot (decide_eq_true hmem)
    intro k hk l hl hkp hlp hfor
    rcases List.mem_append.mp hk with hk | hk <;> rcases List.mem_append.mp hl with hl | hl
    · exact hone.worn hrows k hk l hl hkp hlp hfor
    · rw [List.mem_singleton.mp hl] at hfor
      exact absurd hfor (hnone k hk hkp)
    · rw [List.mem_singleton.mp hk] at hfor
      obtain ⟨htenant, hemail⟩ := isFor_iff.mp hfor
      exact absurd (isFor_iff.mpr ⟨htenant.symm, hemail.symm⟩) (hnone l hl hlp)
    · rw [List.mem_singleton.mp hk, List.mem_singleton.mp hl]

theorem revokeBindingGrant_inv (h : db.Inv) {id : Uuid} {tenant : Option String}
    (hstep : db.revokeBindingGrant id tenant now = some db') :
    db'.Inv ∧ (OnePending db.grants → OnePending db'.grants) := by
  unfold BindingDb.revokeBindingGrant at hstep
  split at hstep
  · cases hstep
    exact ⟨h, fun hone => hone⟩
  · split at hstep
    · cases hstep
      exact ⟨h, fun hone => hone⟩
    · split at hstep
      · cases hstep
      · next hlock =>
        cases hstep
        have hrows := @rowwise_revoked now (fun g => decide (g.id = id)) db.grants
        refine ⟨h.direct h.accountIds h.accountsFresh (fun b hb => ⟨b, hb, rfl, rfl, rfl, rfl⟩)
          hrows fun q g hg hlock' => held_grant hg hlock' fun r hr hrq => ?_,
          fun hone => hone.worn hrows⟩
        rw [of_decide_eq_true hr, not_not.mp hlock] at hrq
        cases hrq

theorem setStatus_inv (h : db.Inv) {id : Uuid} {status : AccountStatus}
    (hstep : db.setStatus id status = some db') : db'.Inv ∧ db'.grants = db.grants := by
  unfold BindingDb.setStatus at hstep
  split at hstep
  · cases hstep
  · cases hstep
    refine ⟨h.direct (h.accountIds.updateWhere fun _ _ => rfl) (fun a ha => ?_) (fun b hb => ?_)
      (Rowwise.refl Worn.refl _) (fun _ _ hg _ => hg), rfl⟩
    · obtain ⟨b, hb, rfl⟩ := mem_updateWhere.mp ha
      split <;> exact h.accountsFresh b hb
    · obtain ⟨a, ha, rfl⟩ := mem_updateWhere.mp hb
      refine ⟨a, ha, ?_⟩
      split <;> exact ⟨rfl, rfl, rfl, rfl⟩

end Statements

/-! ## What becomes of an account -/

/-- The commit binds the account, and marks a grant of its own used and no other. -/
def BindingDb.Binds (db db' : BindingDb) (a b : UserAccount) : Prop :=
  ∃ p call now row, ∃ g ∈ db.grants, db.txns p = some (.bound call now row g) ∧
    g.live now = true ∧ g.isFor a.tenantId a.email = true ∧ g.accepts call.issuer = true ∧
    b.idp = some call.identity ∧
    db'.grants = updateWhere (·.id = g.id) (·.spent call now (some call.identity)) db.grants ∧
    db'.bindings = db.bindings ++ [(g.id, a.id)]

/-- Accounts stay, a bound one with its identity, and one that becomes bound has had a grant. -/
structure BindingDb.StepLawful (db db' : BindingDb) : Prop where
  kept : ∀ id a, db.accountById id = some a →
    ∃ b, db'.accountById id = some b ∧ (a.idp ≠ none → b.idp = a.idp)
  bound : ∀ id a b, db.accountById id = some a → db'.accountById id = some b →
    a.idp = none → b.idp ≠ none → db.Binds db' a b

theorem stepLawful_of_accounts (haccounts : db'.accounts = db.accounts) : db.StepLawful db' where
  kept := fun id a ha => ⟨a, by rw [BindingDb.accountById, haccounts]; exact ha, fun _ => rfl⟩
  bound := by
    intro id a b ha hb hnone hsome
    rw [BindingDb.accountById, haccounts] at hb
    rw [Option.some.inj (ha.symm.trans hb)] at hnone
    exact absurd hnone hsome

theorem find?_update (id k : Uuid) {f : UserAccount → UserAccount} (hf : ∀ a, (f a).id = a.id) :
    (updateWhere (fun a => decide (a.id = id)) f db.accounts).find? (·.id = k) =
      (db.accountById k).map fun a => if a.id = id then f a else a := by
  rw [find?_updateWhere fun a _ => by rw [hf]]
  simp [BindingDb.accountById]

theorem stepLawful_setStatus {id : Uuid} {status : AccountStatus}
    (hstep : db.setStatus id status = some db') : db.StepLawful db' := by
  unfold BindingDb.setStatus at hstep
  split at hstep
  · cases hstep
  · cases hstep
    have hlookup (k : Uuid) := @find?_update db id k
      (fun a => { a with status := status }) fun _ => rfl
    refine ⟨fun k a ha => ?_, fun k a b ha hb hnone hsome => absurd ?_ hsome⟩
    · refine ⟨_, (hlookup k).trans (congrArg _ ha), fun _ => ?_⟩
      dsimp only
      split <;> rfl
    · have hb := (hlookup k).symm.trans hb
      rw [ha, Option.map_some] at hb
      rw [← Option.some.inj hb]
      split <;> exact hnone

theorem stepLawful_commitAccount {call : SignIn} {tenantId : String} :
    db.StepLawful (db.commitAccount p call tenantId) := by
  have hsame {id : Uuid} {a : UserAccount} (ha : db.accountById id = some a) :
      (db.commitAccount p call tenantId).accountById id = some a := by
    show (db.accounts ++ _).find? _ = some a
    rw [List.find?_append, show db.accounts.find? _ = some a from ha]
    rfl
  refine ⟨fun id a ha => ⟨a, hsame ha, fun _ => rfl⟩, fun id a b ha hb hnone hsome => ?_⟩
  rw [hsame ha] at hb
  rw [Option.some.inj hb] at hnone
  exact absurd hnone hsome

theorem stepLawful_commitBinding {call : SignIn} {now : Nat} {row : UserAccount}
    {grant : BindingGrant} (h : db.Inv) (hp : db.txns p = some (.bound call now row grant)) :
    db.StepLawful (db.commitBinding p call now row grant) := by
  obtain ⟨hgrant, hrow, _, hunbound⟩ := h.held p _ hp
  have hlookup (k : Uuid) : (db.commitBinding p call now row grant).accountById k =
      (db.accountById k).map fun a =>
        if a.id = row.id then { a with idp := some call.identity } else a :=
    find?_update row.id k fun _ => rfl
  refine ⟨fun k a ha => ?_, fun k a b ha hb hnone hsome => ?_⟩
  · refine ⟨_, (hlookup k).trans (congrArg _ ha), fun hsome => ?_⟩
    dsimp only
    split
    · next hid => exact absurd (hunbound a (List.mem_of_find?_eq_some ha) hid) hsome
    · rfl
  · rw [hlookup, ha, Option.map_some] at hb
    obtain rfl := Option.some.inj hb
    split at hsome
    · next hid =>
      obtain ⟨htenant, hemail⟩ := hrow.address a (List.mem_of_find?_eq_some ha) hid
      refine ⟨p, call, now, row, grant, hgrant.mem, hp, hgrant.live,
        isFor_iff.mpr ⟨htenant.symm, hemail.symm⟩, hgrant.accepts, ?_, rfl, ?_⟩
      · rw [if_pos hid]
      · rw [hid]
        rfl
    · exact absurd hnone hsome

/-! ## Every statement -/

/-- An arming that commits has seen all grants that are pending for the account. -/
def calm (db : BindingDb) : Act → Bool
  | .next p _ =>
    match db.txns p with
    | some (.revoking call _ [] _ known) =>
      ∀ g ∈ db.grants, g.isFor call.tenantId call.email = true → g.pending = true → g.id ∈ known
    | _ => true
  | _ => true

/-- What a step keeps. -/
structure Advances (db db' : BindingDb) (isCalm : Bool) : Prop where
  inv : db'.Inv
  one : isCalm = true → OnePending db.grants → OnePending db'.grants
  lawful : db.StepLawful db'

theorem Advances.quiet {isCalm : Bool} (h : db'.Inv ∧ Quiet db db') : Advances db db' isCalm where
  inv := h.1
  one := fun _ hone => h.2.grants ▸ hone
  lawful := stepLawful_of_accounts h.2.accounts

theorem next_advances {clock : Nat} {txn : Txn} (h : db.Inv) (hp : db.txns p = some txn)
    (hstep : db.next p clock txn = some db') : Advances db db' (calm db (.next p clock)) := by
  have hserial {call : SignIn} (hcall : txn.call = some call) :
      db.serialOf p = some call.serial := by
    simp [BindingDb.serialOf, hp, hcall]
  cases txn with
  | touching call id => exact .quiet (touchLogin_inv h (hserial rfl) hstep)
  | unknown call =>
    cases hstep
    exact .quiet (lookUp_inv h (hserial rfl))
  | absent call now =>
    cases hstep
    exact .quiet (lookForHolder_inv h (hserial rfl))
  | overridden call now tenantId =>
    cases hstep
    exact .quiet (lookUpHolder_inv h (hserial rfl))
  | found call now tenantId row =>
    cases hstep
    exact .quiet (consume_inv h (hserial rfl) (h.held p _ hp))
  | unarmed call =>
    cases hstep
    exact .quiet ⟨answer_inv h (hserial rfl) _, rfl, rfl⟩
  | consumed call now row grant => exact .quiet (bind_inv h hp hstep)
  | lost call now grant =>
    cases hstep
    obtain ⟨hinv, hone⟩ := reboundLost_inv h hp
    refine ⟨hinv, fun _ => hone, stepLawful_of_accounts ?_⟩
    unfold BindingDb.reboundLost
    split <;> rfl
  | bound call now row grant =>
    cases hstep
    obtain ⟨hinv, hone⟩ := commitBinding_inv h hp
    exact ⟨hinv, fun _ => hone, stepLawful_commitBinding h hp⟩
  | missing call tenantId =>
    cases hstep
    exact .quiet (lookElsewhere_inv h (hserial rfl))
  | vacant call tenantId => exact .quiet (insertAccount_inv h (hserial rfl) hstep)
  | inserted call tenantId =>
    cases hstep
    exact ⟨commitAccount_inv h (hserial rfl), fun _ hone => hone, stepLawful_commitAccount⟩
  | arming call now =>
    cases hstep
    exact .quiet ⟨revokePending_inv h, rfl, rfl⟩
  | revoking call now todo updated known =>
    cases todo with
    | nil =>
      cases hstep
      obtain ⟨hinv, hone⟩ := commitGrant_inv h hp
      refine ⟨hinv, fun hcalm => hone ?_, stepLawful_of_accounts rfl⟩
      rw [calm, hp] at hcalm
      exact of_decide_eq_true hcalm
    | cons => cases hstep

/-- **Every statement keeps the invariant and the identities, and leaves one pending grant for an
account at most, where no arming is overtaken.** -/
theorem bindingStep_advances {a : Act} (h : db.Inv) (hstep : bindingStep db a = some db') :
    Advances db db' (calm db a) := by
  cases a with
  | jitProvision p request =>
    obtain ⟨_, hstep⟩ := Option.ite_none_right_eq_some.mp hstep
    cases hstep
    exact .quiet (jitProvision_inv h request)
  | createBindingGrant p call now =>
    obtain ⟨_, hstep⟩ := Option.ite_none_right_eq_some.mp hstep
    cases hstep
    exact .quiet (arm_inv h)
  | revokeBindingGrant id tenantId now =>
    obtain ⟨hinv, hone⟩ := revokeBindingGrant_inv h hstep
    refine ⟨hinv, fun _ => hone, stepLawful_of_accounts ?_⟩
    rw [bindingStep, BindingDb.revokeBindingGrant] at hstep
    split at hstep
    · cases hstep
      rfl
    · split at hstep
      · cases hstep
        rfl
      · obtain ⟨_, hstep⟩ := Option.ite_none_left_eq_some.mp hstep
        cases hstep
        rfl
  | setStatus id status =>
    obtain ⟨hinv, hgrants⟩ := setStatus_inv h hstep
    exact ⟨hinv, fun _ hone => hgrants ▸ hone, stepLawful_setStatus hstep⟩
  | next p now =>
    obtain ⟨txn, hp, hstep⟩ := Option.bind_eq_some_iff.mp hstep
    exact next_advances h hp hstep
  | visit p id =>
    rw [bindingStep] at hstep
    split at hstep
    · next hp =>
      split at hstep
      · exact .quiet (visit_inv h hp hstep)
      · cases hstep
    · cases hstep
  | abort p =>
    cases hstep
    exact .quiet ⟨finish_inv h, rfl, rfl⟩

/-! ## The law -/

/-- What a grant has bound, in one state. -/
structure BindingDb.Bound (db : BindingDb) : Prop where
  /-- A grant binds one account at most. -/
  once : (db.bindings.map (·.1)).Nodup
  /-- No grant is used by a sign-in that was refused. -/
  refused : ∀ g ∈ db.grants, ∀ n, g.usedIn = some n → (n, none) ∉ db.answers

/-- The law of the bindings, in one state. -/
structure BindingDb.Lawful (db : BindingDb) : Prop extends db.Bound where
  /-- At any time one live grant is there for a tenant and an address at most. -/
  one : ∀ now, ∀ g ∈ db.grants, ∀ h ∈ db.grants, g.live now = true → h.live now = true →
    g.isFor h.tenantId h.email = true → g = h

/-- The runs in which no arming is overtaken by another one. -/
def calmSystem : System BindingDb Act :=
  .ofStep bindingSystem.init fun db a => if calm db a then bindingStep db a else none

theorem inv_reachable (h : bindingSystem.Reachable db) : db.Inv := by
  refine h.invariant (I := BindingDb.Inv) ?_ fun s a t hinv hstep =>
    (bindingStep_advances hinv hstep).inv
  rintro _ ⟨accounts, nextId, rfl, hids, hfresh⟩
  exact ⟨hids, hfresh, ⟨List.nodup_nil, nofun, nofun, nofun, nofun, List.nodup_nil⟩,
    nofun, nofun, nofun⟩

/-- A calm run is a run of the bindings. -/
theorem reachable_of_calm (h : calmSystem.Reachable db) :
    bindingSystem.Reachable db ∧ OnePending db.grants := by
  refine h.invariant (I := fun db => bindingSystem.Reachable db ∧ OnePending db.grants) ?_ ?_
  · intro db hinit
    refine ⟨⟨db, [], hinit, .nil db⟩, ?_⟩
    obtain ⟨accounts, nextId, rfl, -⟩ := hinit
    exact nofun
  · rintro s a t ⟨hs, hone⟩ hstep
    obtain ⟨hcalm, hstep⟩ := Option.ite_none_right_eq_some.mp hstep
    have hrun : bindingSystem.Run s [a] t := .single hstep
    exact ⟨hs.run hrun, (bindingStep_advances (inv_reachable hs) hstep).one hcalm hone⟩

/-- **An identity stays, an account is bound with a grant of its own, a grant binds one account, and
a refused sign-in uses none**, in every run. **One grant at most is live for an account** wherever
no arming is overtaken. -/
theorem bindings_kept_and_one_grant_live (db : BindingDb) :
    (bindingSystem.Reachable db →
      db.Bound ∧ ∀ a db', bindingSystem.step db a db' → db.StepLawful db') ∧
    (calmSystem.Reachable db → db.Lawful) := by
  have hbound (h : bindingSystem.Reachable db) : db.Bound :=
    ⟨(inv_reachable h).ledger.once, fun g hg n hn => ((inv_reachable h).ledger.used g hg n hn).2⟩
  refine ⟨fun h => ⟨hbound h, fun a db' hstep => ?_⟩, fun h => ?_⟩
  · exact (bindingStep_advances (inv_reachable h) hstep).lawful
  · obtain ⟨hreachable, hone⟩ := reachable_of_calm h
    refine ⟨hbound hreachable, fun now g hg k hk hlive hlive' hfor => ?_⟩
    exact hone g hg k hk (live_iff.mp hlive).1 (live_iff.mp hlive').1 hfor

/-! ## Two armings of one account -/

def sampleDb : BindingDb where
  accounts :=
    [{ id := 0, tenantId := "acme", email := "ann@acme.test", role := "owner", status := .active }]
  nextId := 1

theorem sampleDb_init : bindingSystem.init sampleDb :=
  ⟨sampleDb.accounts, 1, rfl, List.nodup_singleton _, by decide⟩

def sampleArming : Arming where
  tenantId := "acme"
  email := "ann@acme.test"
  ttlSeconds := 600
  createdBy := "cli"
  issuer := none

def sampleSignIn : SignIn where
  issuer := "https://idp.test"
  subject := "ann"
  email := "ann@acme.test"
  tenantId := "acme"
  defaultRole := "member"

/-- A grant is armed, and the sign-in binds the account with it. -/
def calmRun : List Act := [.createBindingGrant 0 sampleArming 10, .next 0 10, .next 0 10,
  .jitProvision 1 sampleSignIn, .next 1 20, .next 1 20, .next 1 20, .next 1 20]

theorem armed_account_is_bound : ∃ db : BindingDb, db.Lawful ∧
    (∀ a db', bindingSystem.step db a db' → db.StepLawful db') ∧
    db.bindings = [(1, 0)] ∧ db.answers = [(0, some 0)] ∧
    db.accounts.map (·.idp) = [some sampleSignIn.identity] := by
  have hrun : ∃ db : BindingDb, calmRun.foldlM
      (fun db a => if calm db a then bindingStep db a else none) sampleDb = some db ∧
      db.bindings = [(1, 0)] ∧ db.answers = [(0, some 0)] ∧
      db.accounts.map (·.idp) = [some sampleSignIn.identity] := ⟨_, rfl, rfl, rfl, rfl⟩
  obtain ⟨db, hdb, hrest⟩ := hrun
  obtain ⟨hsteps, hlawful⟩ := bindings_kept_and_one_grant_live db
  have hcalm : calmSystem.Reachable db :=
    ⟨sampleDb, calmRun, sampleDb_init, System.run_of_foldlM hdb⟩
  exact ⟨db, hlawful hcalm, (hsteps (reachable_of_calm hcalm).1).2, hrest⟩

/-- Both revoke before either of them inserts. -/
def overtakenRun : List Act := [.createBindingGrant 0 sampleArming 10,
  .createBindingGrant 1 sampleArming 10, .next 0 10, .next 1 10, .next 0 10, .next 1 10]

theorem two_grants_live : ∃ db : BindingDb, bindingSystem.Reachable db ∧ ¬ db.Lawful := by
  have hrun : ∃ db : BindingDb, overtakenRun.foldlM bindingStep sampleDb = some db ∧
      ∃ g ∈ db.grants, ∃ h ∈ db.grants, g.live 20 = true ∧ h.live 20 = true ∧
        g.isFor h.tenantId h.email = true ∧ g ≠ h := ⟨_, rfl, by decide⟩
  obtain ⟨db, hdb, g, hg, k, hk, hlive, hlive', hfor, hne⟩ := hrun
  exact ⟨db, ⟨sampleDb, _, sampleDb_init, System.run_of_foldlM hdb⟩,
    fun h => hne (h.one 20 g hg k hk hlive hlive' hfor)⟩

end GenusOs.Auth.Binding
