import GenusOs.Auth.BindingGrants
import Mathlib

/-!
# The tables of the binding grants

What the statements of a sign-in and of an arming do to the rows, and what the transactions in
flight rely on.

* `Txn.Holds.frame`: what a transaction holds, whatever the others do.
* `BindingDb.Inv`: the invariant of the tables and the transactions.
-/

namespace GenusOs.Auth.Binding

open Rows

variable {db db' : BindingDb} {p q : Pid}

/-! ## Grants -/

/-- The grant after a transaction of the sign-in, if it is one. -/
structure Worn (call : Option SignIn) (g h : BindingGrant) : Prop where
  id : h.id = g.id
  tenantId : h.tenantId = g.tenantId
  email : h.email = g.email
  pending : h.pending = true → g.pending = true
  usedAt : g.usedAt ≠ none → h.usedAt ≠ none
  usedIn : ∀ n, h.usedIn = some n → g.usedIn = some n ∨ ∃ c, call = some c ∧ c.serial = n

theorem Worn.refl {call : Option SignIn} (g : BindingGrant) : Worn call g g :=
  ⟨rfl, rfl, rfl, fun h => h, fun h => h, fun _ h => .inl h⟩

theorem worn_spent {call : SignIn} {now : Nat} {usedBy : Option Identity} (g : BindingGrant) :
    Worn (some call) g (g.spent call now usedBy) where
  id := rfl
  tenantId := rfl
  email := rfl
  pending := by simp [BindingGrant.pending, BindingGrant.spent]
  usedAt := fun _ => nofun
  usedIn := fun n h => .inr ⟨call, rfl, Option.some.inj h⟩

theorem worn_revoked {now : Nat} (g : BindingGrant) : Worn none g (g.revoked now) where
  id := rfl
  tenantId := rfl
  email := rfl
  pending := by simp [BindingGrant.pending, BindingGrant.revoked]
  usedAt := id
  usedIn := fun _ h => .inl h

theorem isFor_iff {g : BindingGrant} {tenantId email : String} :
    g.isFor tenantId email = true ↔ g.tenantId = tenantId ∧ g.email = email := decide_eq_true_iff

theorem live_iff {g : BindingGrant} {now : Nat} :
    g.live now = true ↔ g.pending = true ∧ now < g.expiresAt := by
  simp [BindingGrant.live]

@[simp] theorem not_pending_revoked {now : Nat} (g : BindingGrant) :
    (g.revoked now).pending = false := by
  simp [BindingGrant.pending, BindingGrant.revoked]

theorem rowwise_spent {call : SignIn} {now : Nat} {usedBy : Option Identity}
    (p : BindingGrant → Bool) (grants : List BindingGrant) :
    Rowwise (Worn (some call)) grants (updateWhere p (·.spent call now usedBy) grants) :=
  Rowwise.updateWhere Worn.refl fun g _ _ => worn_spent g

theorem rowwise_revoked {now : Nat} (p : BindingGrant → Bool) (grants : List BindingGrant) :
    Rowwise (Worn none) grants (updateWhere p (·.revoked now) grants) :=
  Rowwise.updateWhere Worn.refl fun g _ _ => worn_revoked g

/-! ## The ledger -/

/-- The grants, with the sign-ins that have ended and the bindings that were made. -/
structure Ledger (grants : List BindingGrant) (nextId : Uuid) (nextCall : Nat)
    (answers : List (Nat × Option Uuid)) (bindings : List (Uuid × Uuid)) : Prop where
  ids : KeyUnique (·.id) grants
  fresh : ∀ g ∈ grants, g.id < nextId
  answered : ∀ r ∈ answers, r.1 < nextCall
  used : ∀ g ∈ grants, ∀ n, g.usedIn = some n → n < nextCall ∧ (n, none) ∉ answers
  spent : ∀ b ∈ bindings, ∃ g ∈ grants, g.id = b.1 ∧ g.usedAt ≠ none
  once : (bindings.map (·.1)).Nodup

/-- A sign-in that has neither ended nor left a trace on the grants. -/
structure Open (grants : List BindingGrant) (nextCall : Nat) (answers : List (Nat × Option Uuid))
    (n : Nat) : Prop where
  lt : n < nextCall
  unanswered : ∀ r ∈ answers, r.1 ≠ n
  traceless : ∀ g ∈ grants, g.usedIn ≠ some n

section Ledger

variable {grants grants' : List BindingGrant} {nextId nextId' : Uuid} {nextCall n : Nat}
  {answers : List (Nat × Option Uuid)} {bindings : List (Uuid × Uuid)} {call : SignIn}

/-- Grants are revoked, or used by the sign-in that is open. -/
theorem Ledger.worn {call : Option SignIn} (h : Ledger grants nextId nextCall answers bindings)
    (hrows : Rowwise (Worn call) grants grants')
    (hopen : ∀ c, call = some c → Open grants nextCall answers c.serial) :
    Ledger grants' nextId nextCall answers bindings where
  ids := by
    unfold KeyUnique
    rw [hrows.keys fun g _ h hgh => hgh.id]
    exact h.ids
  fresh := by
    intro k hk
    obtain ⟨g, hg, hgk⟩ := hrows.origin hk
    exact hgk.id ▸ h.fresh g hg
  answered := h.answered
  used := by
    intro k hk n hn
    obtain ⟨g, hg, hgk⟩ := hrows.origin hk
    rcases hgk.usedIn n hn with hgn | ⟨c, rfl, rfl⟩
    · exact h.used g hg n hgn
    · have hc := hopen c rfl
      exact ⟨hc.lt, fun hmem => hc.unanswered _ hmem rfl⟩
  spent := by
    intro b hb
    obtain ⟨g, hg, hid, hused⟩ := h.spent b hb
    obtain ⟨k, hk, hgk⟩ := hrows.kept hg
    exact ⟨k, hk, hgk.id.trans hid, hgk.usedAt hused⟩
  once := h.once

/-- A grant is armed. -/
theorem Ledger.insert (h : Ledger grants nextId nextCall answers bindings) {g : BindingGrant}
    (hid : g.id = nextId) (hunused : g.usedIn = none) :
    Ledger (grants ++ [g]) (nextId + 1) nextCall answers bindings where
  ids := h.ids.insert fun k hk heq => (h.fresh k hk).ne (heq.trans hid)
  fresh := by
    intro k hk
    rcases List.mem_append.mp hk with hk | hk
    · exact (h.fresh k hk).trans (Nat.lt_succ_self _)
    · rw [List.mem_singleton.mp hk, hid]
      exact Nat.lt_succ_self _
  answered := h.answered
  used := by
    intro k hk n hn
    rcases List.mem_append.mp hk with hk | hk
    · exact h.used k hk n hn
    · rw [List.mem_singleton.mp hk, hunused] at hn
      cases hn
  spent := fun b hb => by
    obtain ⟨k, hk, hrest⟩ := h.spent b hb
    exact ⟨k, List.mem_append_left _ hk, hrest⟩
  once := h.once

theorem Ledger.draw (h : Ledger grants nextId nextCall answers bindings)
    (hle : nextId ≤ nextId') : Ledger grants nextId' nextCall answers bindings :=
  { h with fresh := fun g hg => (h.fresh g hg).trans_le hle }

/-- A sign-in ends. One that has used a grant is not refused. -/
theorem Ledger.answer (h : Ledger grants nextId nextCall answers bindings) {account : Option Uuid}
    (hlt : n < nextCall) (hrefused : account = none → ∀ g ∈ grants, g.usedIn ≠ some n) :
    Ledger grants nextId nextCall (answers ++ [(n, account)]) bindings where
  ids := h.ids
  fresh := h.fresh
  answered := by
    intro r hr
    rcases List.mem_append.mp hr with hr | hr
    · exact h.answered r hr
    · rw [List.mem_singleton.mp hr]
      exact hlt
  used := by
    intro g hg m hm
    obtain ⟨hltm, hnot⟩ := h.used g hg m hm
    refine ⟨hltm, fun hmem => ?_⟩
    rcases List.mem_append.mp hmem with hmem | hmem
    · exact hnot hmem
    · obtain ⟨rfl, haccount⟩ := Prod.mk.injEq .. ▸ List.mem_singleton.mp hmem
      exact hrefused haccount.symm g hg hm
  spent := h.spent
  once := h.once

/-- A binding with a grant that was pending and is used now. -/
theorem Ledger.bind (h : Ledger grants nextId nextCall answers bindings) {now : Nat}
    {usedBy : Option Identity} {grant : BindingGrant} {id : Uuid} (hgrant : grant ∈ grants)
    (hpending : grant.pending = true) (hopen : Open grants nextCall answers call.serial) :
    Ledger (updateWhere (fun g => decide (g.id = grant.id)) (·.spent call now usedBy) grants) nextId
      nextCall answers (bindings ++ [(grant.id, id)]) := by
  have hledger := h.worn (@rowwise_spent call now usedBy
    (fun g => decide (g.id = grant.id)) grants) fun c hc => Option.some.inj hc ▸ hopen
  refine { hledger with spent := fun b hb => ?_, once := ?_ }
  · rcases List.mem_append.mp hb with hb | hb
    · exact hledger.spent b hb
    · rw [List.mem_singleton.mp hb]
      exact ⟨grant.spent call now usedBy, mem_updateWhere.mpr ⟨grant, hgrant, by simp⟩, rfl, nofun⟩
  · rw [List.map_append, List.nodup_append]
    refine ⟨h.once, List.nodup_singleton _, fun k hk k' hk' heq => ?_⟩
    rw [List.map_singleton, List.mem_singleton] at hk'
    obtain ⟨b, hb, hbk⟩ := List.mem_map.mp hk
    obtain ⟨g, hg, hid, hused⟩ := h.spent b hb
    have hsame : g = grant := h.ids.eq hg hgrant (hid.trans (hbk.trans (heq.trans hk')))
    simp only [BindingGrant.pending, Bool.decide_and, Bool.and_eq_true, decide_eq_true_eq]
      at hpending
    exact hused (hsame ▸ hpending.1)

theorem Open.worn {call : Option SignIn} (h : Open grants nextCall answers n)
    (hrows : Rowwise (Worn call) grants grants') (hne : ∀ c, call = some c → c.serial ≠ n) :
    Open grants' nextCall answers n where
  lt := h.lt
  unanswered := h.unanswered
  traceless := by
    intro k hk hn
    obtain ⟨g, hg, hgk⟩ := hrows.origin hk
    rcases hgk.usedIn n hn with hgn | ⟨c, hc, heq⟩
    · exact h.traceless g hg hgn
    · exact hne c hc heq

theorem Open.insert (h : Open grants nextCall answers n) {g : BindingGrant}
    (hunused : g.usedIn = none) : Open (grants ++ [g]) nextCall answers n where
  lt := h.lt
  unanswered := h.unanswered
  traceless := by
    intro k hk hn
    rcases List.mem_append.mp hk with hk | hk
    · exact h.traceless k hk hn
    · rw [List.mem_singleton.mp hk, hunused] at hn
      cases hn

theorem Open.answer (h : Open grants nextCall answers n) {m : Nat} {account : Option Uuid}
    (hne : m ≠ n) : Open grants nextCall (answers ++ [(m, account)]) n where
  lt := h.lt
  unanswered := by
    intro r hr
    rcases List.mem_append.mp hr with hr | hr
    · exact h.unanswered r hr
    · rw [List.mem_singleton.mp hr]
      exact hne
  traceless := h.traceless

end Ledger

/-! ## What a transaction holds -/

/-- The account that was found is the one of the address. -/
structure OwnRow (db : BindingDb) (tenantId email : String) (id : Uuid) : Prop where
  lt : id < db.nextId
  address : ∀ a ∈ db.accounts, a.id = id → a.tenantId = tenantId ∧ a.email = email

/-- The grant is as it was, under the lock of the transaction. -/
structure Consumed (db : BindingDb) (p : Pid) (call : SignIn) (now : Nat) (grant : BindingGrant) :
    Prop where
  mem : grant ∈ db.grants
  live : grant.live now = true
  accepts : grant.accepts call.issuer = true
  lock : db.grantLocks grant.id = some p

/-- The pending grants that there were are still to look at, or updated. -/
def Covered (grants : List BindingGrant) (call : Arming) (todo updated known : List Uuid) : Prop :=
  ∀ g ∈ grants, g.isFor call.tenantId call.email = true → g.pending = true → g.id ∈ known →
    g.id ∈ todo ∨ g.id ∈ updated

def Txn.Holds (db : BindingDb) (p : Pid) : Txn → Prop
  | .found call _ tenantId row => OwnRow db tenantId call.email row.id
  | .consumed call now row grant =>
    Consumed db p call now grant ∧ OwnRow db grant.tenantId grant.email row.id
  | .lost call now grant => Consumed db p call now grant
  | .bound call now row grant =>
    Consumed db p call now grant ∧ OwnRow db grant.tenantId grant.email row.id ∧
      db.accountLocks row.id = some p ∧ ∀ a ∈ db.accounts, a.id = row.id → a.idp = none
  | .revoking call _ todo updated known =>
    Covered db.grants call todo updated known ∧ (∀ id ∈ updated, db.grantLocks id = some p) ∧
      ∀ id ∈ known, id < db.nextId
  | _ => True

/-- What a transaction relies on is left alone. -/
structure Frame (db db' : BindingDb) (p : Pid) : Prop where
  accounts : ∀ b ∈ db'.accounts, db.nextId ≤ b.id ∨ ∃ a ∈ db.accounts, b.id = a.id ∧
    b.tenantId = a.tenantId ∧ b.email = a.email ∧
      (db.accountLocks a.id = some p → b.idp = a.idp)
  grants : ∀ g ∈ db.grants, db.grantLocks g.id = some p → g ∈ db'.grants
  origin : ∀ h ∈ db'.grants, db.nextId ≤ h.id ∨ ∃ call, ∃ g ∈ db.grants, Worn call g h
  accountLocks : ∀ k, db.accountLocks k = some p → db'.accountLocks k = some p
  grantLocks : ∀ k, db.grantLocks k = some p → db'.grantLocks k = some p
  nextId : db.nextId ≤ db'.nextId

theorem OwnRow.frame {tenantId email : String} {id : Uuid} (h : OwnRow db tenantId email id)
    (hframe : Frame db db' p) : OwnRow db' tenantId email id where
  lt := h.lt.trans_le hframe.nextId
  address := by
    intro b hb hid
    rcases hframe.accounts b hb with hle | ⟨a, ha, hab, htenant, hemail, _⟩
    · exact absurd (hid ▸ hle) (Nat.not_le.mpr h.lt)
    · rw [htenant, hemail]
      exact h.address a ha (hab.symm.trans hid)

theorem Consumed.frame {call : SignIn} {now : Nat} {grant : BindingGrant}
    (h : Consumed db p call now grant) (hframe : Frame db db' p) : Consumed db' p call now grant :=
  ⟨hframe.grants grant h.mem h.lock, h.live, h.accepts, hframe.grantLocks _ h.lock⟩

theorem Worn.isFor {call : Option SignIn} {g h : BindingGrant} (hgh : Worn call g h)
    {tenantId email : String} : h.isFor tenantId email = g.isFor tenantId email := by
  unfold BindingGrant.isFor
  rw [hgh.tenantId, hgh.email]

theorem Txn.Holds.frame {txn : Txn} (h : txn.Holds db p) (hframe : Frame db db' p) :
    txn.Holds db' p := by
  cases txn with
  | found call now tenantId row => exact OwnRow.frame h hframe
  | consumed call now row grant => exact ⟨h.1.frame hframe, h.2.frame hframe⟩
  | lost call now grant => exact Consumed.frame h hframe
  | bound call now row grant =>
    obtain ⟨hgrant, hrow, hlock, hunbound⟩ := h
    refine ⟨hgrant.frame hframe, hrow.frame hframe, hframe.accountLocks _ hlock, ?_⟩
    intro b hb hid
    rcases hframe.accounts b hb with hle | ⟨a, ha, hab, _, _, hidp⟩
    · exact absurd (hid ▸ hle) (Nat.not_le.mpr hrow.lt)
    · have haid : a.id = row.id := hab.symm.trans hid
      rw [hidp (haid ▸ hlock)]
      exact hunbound a ha haid
  | revoking call now todo updated known =>
    obtain ⟨hcovered, hlocks, hknown⟩ := h
    refine ⟨fun k hk hfor hpending hmem => ?_, fun id hid => hframe.grantLocks id (hlocks id hid),
      fun id hid => (hknown id hid).trans_le hframe.nextId⟩
    rcases hframe.origin k hk with hle | ⟨c, g, hg, hgk⟩
    · exact absurd (hknown _ hmem) (Nat.not_lt.mpr hle)
    · rw [hgk.id] at hmem ⊢
      exact hcovered g hg (hgk.isFor ▸ hfor) (hgk.pending hpending) hmem
  | _ => trivial

/-! ## The invariant -/

/-- The sign-in that a connection is for. -/
def BindingDb.serialOf (db : BindingDb) (p : Pid) : Option Nat :=
  ((db.txns p).bind Txn.call).map (·.serial)

def BindingDb.Open (db : BindingDb) (n : Nat) : Prop :=
  Binding.Open db.grants db.nextCall db.answers n

structure BindingDb.Inv (db : BindingDb) : Prop where
  accountIds : KeyUnique (·.id) db.accounts
  accountsFresh : ∀ a ∈ db.accounts, a.id < db.nextId
  ledger : Ledger db.grants db.nextId db.nextCall db.answers db.bindings
  calls : ∀ p n, db.serialOf p = some n → db.Open n
  distinct : ∀ p q n, db.serialOf p = some n → db.serialOf q = some n → p = q
  held : ∀ p txn, db.txns p = some txn → txn.Holds db p

/-- At most one grant is pending for a tenant and an address. -/
def OnePending (grants : List BindingGrant) : Prop :=
  ∀ g ∈ grants, ∀ h ∈ grants, g.pending = true → h.pending = true →
    g.isFor h.tenantId h.email = true → g = h

theorem OnePending.worn {grants grants' : List BindingGrant} {call : Option SignIn}
    (h : OnePending grants) (hrows : Rowwise (Worn call) grants grants') : OnePending grants' := by
  obtain ⟨f, rfl, hf⟩ := hrows
  intro k hk l hl hkp hlp hfor
  obtain ⟨g, hg, rfl⟩ := List.mem_map.mp hk
  obtain ⟨g', hg', rfl⟩ := List.mem_map.mp hl
  have heq : g = g' := by
    refine h g hg g' hg' ((hf g hg).pending hkp) ((hf g' hg').pending hlp) ?_
    rw [(hf g hg).isFor, (hf g' hg').tenantId, (hf g' hg').email] at hfor
    exact hfor
  rw [heq]

end GenusOs.Auth.Binding
