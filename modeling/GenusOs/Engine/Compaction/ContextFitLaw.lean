import GenusOs.Engine.Compaction.ExchangeRemoval
import Mathlib

/-!
# A shrunk conversation can be sent

* `Extends`: the passes write to their own copies only.
* `Shrunk`: the surviving messages are in their order, the last user turn among them.
* `shrunk_in_order_and_paired_iff`: all of it for `shrink_to_fit`.
-/

namespace GenusOs.Engine.Compaction

open GenusOs.Python

variable {price : Pricing} {fit : Fit} {keep : Option Nat} {budget : Int} {env : Platform}
  {h h' k : Store} {refs kept : List Nat} {r : Nat} {m n : Message} {ms ns : List Message}

/-! ## The store -/

/-- The dictionaries of `h` are what they were. -/
structure Store.Extends (h h' : Store) : Prop where
  next : h.next ≤ h'.next
  dict : ∀ r < h.next, h'.dict r = h.dict r

/-- The references are of dictionaries that were made. -/
def Store.Valid (h : Store) (refs : List Nat) : Prop := ∀ r ∈ refs, r < h.next

namespace Store

theorem Extends.refl (h : Store) : h.Extends h := ⟨le_refl _, fun _ _ => rfl⟩

theorem Extends.trans (hk : h.Extends h') (hl : h'.Extends k) : h.Extends k :=
  ⟨hk.next.trans hl.next, fun r hr => (hl.dict r (hr.trans_le hk.next)).trans (hk.dict r hr)⟩

theorem Extends.valid (hk : h.Extends h') (hv : h.Valid refs) : h'.Valid refs :=
  fun r hr => (hv r hr).trans_le hk.next

theorem Extends.values (hk : h.Extends h') (hv : h.Valid refs) : h'.values refs = h.values refs :=
  List.map_congr_left fun r hr => hk.dict r (hv r hr)

theorem extends_alloc (h : Store) (m : Message) : h.Extends (h.alloc m).1 :=
  ⟨Nat.le_succ _, fun _ hr => Function.update_of_ne hr.ne _ _⟩

@[simp] theorem alloc_dict (h : Store) (m : Message) : (h.alloc m).1.dict (h.alloc m).2 = m :=
  Function.update_self ..

theorem alloc_valid (h : Store) (m : Message) : (h.alloc m).2 < (h.alloc m).1.next :=
  Nat.lt_succ_self _

theorem copy_refs (h : Store) (refs : List Nat) :
    (h.copy refs).2 = List.range' h.next refs.length := by
  induction refs generalizing h with
  | nil => rfl
  | cons r refs ih =>
    unfold copy
    rw [List.length_cons, List.range'_succ]
    exact congrArg _ (ih _)

/-- **A copy has the same values** in dictionaries of its own. -/
theorem copy_spec (hv : h.Valid refs) : h.Extends (h.copy refs).1 ∧
    (h.copy refs).1.values (h.copy refs).2 = h.values refs ∧
    (h.copy refs).1.Valid (h.copy refs).2 := by
  induction refs generalizing h with
  | nil => exact ⟨.refl h, rfl, fun _ hr => (List.not_mem_nil hr).elim⟩
  | cons r refs ih =>
    have hrest : h.Valid refs := fun s hs => hv s (List.mem_cons_of_mem r hs)
    have hmade := h.extends_alloc (h.dict r)
    obtain ⟨hext, hvalues, hvalid⟩ := ih (hmade.valid hrest)
    have hnew := h.alloc_valid (h.dict r)
    unfold copy
    dsimp only
    refine ⟨hmade.trans hext, ?_, ?_⟩
    · unfold Store.values at hvalues ⊢
      rw [List.map_cons, List.map_cons, hvalues, hext.dict _ hnew, alloc_dict]
      exact congrArg _ (hmade.values hrest)
    · exact List.forall_mem_cons.mpr ⟨hnew.trans_le hext.next, hvalid⟩

end Store

/-! ## Contents that are cut -/

/-- The message, with perhaps another content. -/
def Cut (m n : Message) : Prop := n = { m with content := n.content }

theorem Cut.refl (m : Message) : Cut m m := rfl

theorem Cut.trans {o : Message} (hmn : Cut m n) (hno : Cut n o) : Cut m o := by
  unfold Cut at *
  rw [hno, hmn]

theorem Cut.content (m : Message) (c : Content) : Cut m { m with content := c } := rfl

theorem Cut.shape (h : Cut m n) : n.shape = m.shape := by
  rw [h]
  rfl

theorem Cut.role (h : Cut m n) : n.role = m.role := by
  rw [h]

theorem shape_of_cuts (h : List.Forall₂ Cut ms ns) :
    ns.map Message.shape = ms.map Message.shape := by
  induction h with
  | nil => rfl
  | cons hcut _ ih => rw [List.map_cons, List.map_cons, hcut.shape, ih]

/-! ## Emptying results -/

/-- Contents of results were changed, in the dictionaries of `refs` only. -/
structure Emptied (refs : List Nat) (h h' : Store) : Prop where
  next : h'.next = h.next
  other : ∀ r ∉ refs, h'.dict r = h.dict r
  cut : ∀ r, Cut (h.dict r) (h'.dict r)
  plain : ∀ r, (h.dict r).isTool = false → h'.dict r = h.dict r

namespace Emptied

theorem refl (refs : List Nat) (h : Store) : Emptied refs h h :=
  ⟨rfl, fun _ _ => rfl, fun _ => .refl _, fun _ _ => rfl⟩

theorem trans (hk : Emptied refs h h') (hl : Emptied refs h' k) : Emptied refs h k where
  next := hl.next.trans hk.next
  other r hr := (hl.other r hr).trans (hk.other r hr)
  cut r := (hk.cut r).trans (hl.cut r)
  plain r hr := by
    have hsame := hk.plain r hr
    rw [hl.plain r (by rw [hsame, hr]), hsame]

theorem cons (hk : Emptied refs h h') (r : Nat) : Emptied (r :: refs) h h' :=
  ⟨hk.next, fun s hs => hk.other s fun hmem => hs (List.mem_cons_of_mem r hmem), hk.cut, hk.plain⟩

theorem setContent (hr : r ∈ refs) (htool : (h.dict r).isTool = true) (c : Content) :
    Emptied refs h (h.setContent r c) := by
  have hself : (h.setContent r c).dict r = { h.dict r with content := c } :=
    Function.update_self ..
  have hother (s : Nat) (hs : s ≠ r) : (h.setContent r c).dict s = h.dict s :=
    Function.update_of_ne hs _ _
  constructor
  case next => rfl
  case other => exact fun s hs => hother s fun heq => hs (heq ▸ hr)
  case cut =>
    intro s
    by_cases hs : s = r
    · rw [hs, hself]
      exact .content _ c
    · rw [hother s hs]
      exact .refl _
  case plain =>
    intro s hs
    refine hother s fun heq => ?_
    rw [heq, htool] at hs
    cases hs

end Emptied

/-- **Emptying results** changes the contents of results only, in the working copies only. -/
theorem emptied_dropToolResults (index : Nat) (h : Store) (total : Int) (dropped : Nat)
    (refs : List Nat) :
    Emptied refs h (dropToolResults price fit keep budget index h total dropped refs).1 := by
  induction refs generalizing index h total dropped with
  | nil => exact .refl [] h
  | cons r refs ih =>
    unfold dropToolResults
    dsimp only
    split
    · exact .refl _ h
    · split
      · exact (ih _ _ _ _).cons r
      · next htool =>
        rw [not_or, Bool.not_eq_false] at htool
        split
        · split
          · exact (ih _ _ _ _).cons r
          · exact (Emptied.setContent List.mem_cons_self htool.2 _).trans ((ih _ _ _ _).cons r)
        · exact (ih _ _ _ _).cons r

/-- The conversation, from message `index` on, with its oldest results emptied until the total is
within the budget. -/
def emptyResults (price : Pricing) (fit : Fit) (keep : Option Nat) (budget : Int) (index : Nat)
    (total : Int) : List Message → List Message
  | [] => []
  | m :: ms =>
    if total ≤ budget then m :: ms
    else if some index = keep ∨ m.isTool = false then
      m :: emptyResults price fit keep budget (index + 1) total ms
    else
      match m.content with
      | .text content =>
        let text := droppedText fit.model content.length
        let empty : Message := { m with content := .text text }
        if content = "" ∨ content.length ≤ text.length then
          m :: emptyResults price fit keep budget (index + 1) total ms
        else
          empty :: emptyResults price fit keep budget (index + 1)
            (total + price.messageTokens empty - price.messageTokens m) ms
      | _ => m :: emptyResults price fit keep budget (index + 1) total ms

/-- The pass over distinct dictionaries empties the values. -/
theorem values_dropToolResults (hn : refs.Nodup) (index : Nat) (h : Store) (total : Int)
    (dropped : Nat) :
    (dropToolResults price fit keep budget index h total dropped refs).1.values refs =
      emptyResults price fit keep budget index total (h.values refs) := by
  induction refs generalizing index h total dropped with
  | nil => rfl
  | cons r refs ih =>
    obtain ⟨hr, hn⟩ := List.nodup_cons.mp hn
    have hvalues (k : Store) : k.values (r :: refs) = k.dict r :: k.values refs := rfl
    have hstep (k : Store) (t : Int) (d : Nat) :
        (dropToolResults price fit keep budget (index + 1) k t d refs).1.values (r :: refs) =
          k.dict r :: emptyResults price fit keep budget (index + 1) t (k.values refs) := by
      rw [hvalues, ih hn, (emptied_dropToolResults (index + 1) k t d refs).other r hr]
    rw [hvalues h]
    unfold dropToolResults emptyResults
    dsimp only
    split
    · rfl
    · split
      · exact hstep h total dropped
      · cases hcontent : (h.dict r).content with
        | text content =>
          dsimp only
          split
          · exact hstep h total dropped
          · have hself (c : Content) : (h.setContent r c).dict r = { h.dict r with content := c } :=
              Function.update_self ..
            have hrest (c : Content) : (h.setContent r c).values refs = h.values refs :=
              List.map_congr_left fun s hs =>
                Function.update_of_ne (fun heq : s = r => hr (heq ▸ hs)) _ _
            rw [hstep, hself, hrest]
        | _ => exact hstep h total dropped

/-! ## What survives -/

/-- The messages of `ns` are messages of `ms` in their order, with perhaps other contents. -/
def Survives (ns ms : List Message) : Prop := List.SublistForall₂ (fun n m => Cut m n) ns ms

instance : IsTrans Message Cut := ⟨fun _ _ _ hmn hno => hmn.trans hno⟩

instance : IsTrans Message fun n m => Cut m n := ⟨fun _ _ _ hmn hno => hno.trans hmn⟩

theorem Survives.trans {os : List Message} (h : Survives os ns) (k : Survives ns ms) :
    Survives os ms :=
  (inferInstance : IsTrans (List Message) (List.SublistForall₂ fun n m => Cut m n)).trans _ _ _ h k

theorem survives_of_sublist (h : ns.Sublist ms) : Survives ns ms :=
  List.sublistForall₂_iff.mpr ⟨ns, List.forall₂_same.mpr fun m _ => .refl m, h⟩

theorem survives_of_cuts (h : List.Forall₂ Cut ms ns) : Survives ns ms :=
  List.sublistForall₂_iff.mpr ⟨ms, h.flip, List.Sublist.refl ms⟩

/-- A surviving message has the role of one that was there. -/
theorem Survives.role {role : String} (h : Survives ns ms) (hms : ∀ m ∈ ms, m.role ≠ role) :
    ∀ n ∈ ns, n.role ≠ role := by
  induction h with
  | nil => exact fun _ hn => (List.not_mem_nil hn).elim
  | cons hcut _ ih =>
    obtain ⟨hfirst, hrest⟩ := List.forall_mem_cons.mp hms
    exact List.forall_mem_cons.mpr ⟨hcut.role ▸ hfirst, ih hrest⟩
  | cons_right _ ih => exact ih (List.forall_mem_cons.mp hms).2

/-- Around the last user turn, which stays, up to `R`, the messages that survive are in their order.
-/
def Shrunk (R : Message → Message → Prop) (ms ns : List Message) : Prop :=
  ∀ pre u post, ms = pre ++ u :: post → u.role = "user" → (∀ m ∈ post, m.role ≠ "user") →
    ∃ npre v npost, ns = npre ++ v :: npost ∧ R u v ∧ Survives npre pre ∧ Survives npost post

section

variable {R : Message → Message → Prop}

theorem Shrunk.imp {S : Message → Message → Prop} (h : Shrunk R ms ns)
    (hRS : ∀ u v, R u v → S u v) :
    Shrunk S ms ns := by
  intro pre u post hms hu hpost
  obtain ⟨npre, v, npost, hns, hR, hbefore, hbehind⟩ := h pre u post hms hu hpost
  exact ⟨npre, v, npost, hns, hRS u v hR, hbefore, hbehind⟩

theorem Shrunk.trans [IsTrans Message R] {os : List Message}
    (hrole : ∀ u v, R u v → v.role = u.role)
    (h : Shrunk R ms ns) (k : Shrunk R ns os) : Shrunk R ms os := by
  intro pre u post hms hu hpost
  obtain ⟨npre, v, npost, hns, hR, hbefore, hbehind⟩ := h pre u post hms hu hpost
  obtain ⟨opre, w, opost, hos, hR', hbefore', hbehind'⟩ :=
    k npre v npost hns ((hrole u v hR).trans hu) (hbehind.role hpost)
  exact ⟨opre, w, opost, hos, IsTrans.trans u v w hR hR',
    hbefore'.trans hbefore, hbehind'.trans hbehind⟩

end

theorem forall₂_append_left {R : Message → Message → Prop} {l : List Message} :
    List.Forall₂ R (ms ++ ns) l → ∃ a b, l = a ++ b ∧
      List.Forall₂ R ms a ∧ List.Forall₂ R ns b := by
  induction ms generalizing l with
  | nil => exact fun h => ⟨[], l, rfl, .nil, h⟩
  | cons m ms ih =>
    intro h
    cases h with
    | cons hm hrest =>
      obtain ⟨a, b, rfl, ha, hb⟩ := ih hrest
      exact ⟨_ :: a, b, rfl, .cons hm ha, hb⟩

theorem shrunk_of_forall₂ {R : Message → Message → Prop}
    (h : List.Forall₂ (fun m n => Cut m n ∧ (m.role = "user" → R m n)) ms ns) : Shrunk R ms ns := by
  intro pre u post hms hu _
  subst hms
  obtain ⟨npre, rest, rfl, hpre, hrest⟩ := forall₂_append_left h
  cases hrest with
  | cons hfirst hpost =>
    exact ⟨npre, _, _, rfl, hfirst.2 hu, survives_of_cuts (hpre.imp fun _ _ hmn => hmn.1),
      survives_of_cuts (hpost.imp fun _ _ hmn => hmn.1)⟩

theorem cuts_refl (ms : List Message) : List.Forall₂ Cut ms ms :=
  List.forall₂_same.mpr fun m _ => .refl m

theorem cuts_trans {os : List Message} (h : List.Forall₂ Cut ms ns) (k : List.Forall₂ Cut ns os) :
    List.Forall₂ Cut ms os := by
  induction h generalizing os with
  | nil => exact k
  | cons hcut _ ih =>
    cases k with
    | cons hcut' hrest => exact .cons (hcut.trans hcut') (ih hrest)

theorem cuts_set {i : Nat} (h : ∀ m, ms[i]? = some m → Cut m n) :
    List.Forall₂ Cut ms (ms.set i n) := by
  induction ms generalizing i with
  | nil => exact .nil
  | cons m ms ih =>
    cases i with
    | zero => exact .cons (h m rfl) (cuts_refl ms)
    | succ i => exact .cons (.refl m) (ih fun x hx => h x (by rwa [List.getElem?_cons_succ]))

theorem shrunk_survivors {doomed : Finset Nat}
    (hkeep : ∀ i u, ms[i]? = some u → u.role = "user" → i ∉ doomed) :
    Shrunk Eq ms (survivors doomed 0 ms) := by
  intro pre u post hms hu hpost
  have hat : pre.length ∉ doomed := hkeep pre.length u (by rw [hms]; simp) hu
  refine ⟨survivors doomed 0 pre, u, survivors doomed (pre.length + 1) post, ?_, rfl,
    survives_of_sublist (survivors_sublist _ _ _), survives_of_sublist (survivors_sublist _ _ _)⟩
  have hcons := survivors_cons doomed pre.length u post
  rw [if_neg hat] at hcons
  rw [hms, ← hcons]
  unfold survivors
  rw [List.zipIdx_append, List.filter_append, List.map_append, Nat.zero_add]

/-! ## Truncating -/

/-- Contents of the kept messages were cut, in new dictionaries. -/
structure Trimmed (h : Store) (kept : List Nat) (h' : Store) (kept' : List Nat) : Prop where
  store : h.Extends h'
  valid : h'.Valid kept'
  cuts : List.Forall₂ Cut (h.values kept) (h'.values kept')

namespace Trimmed

theorem refl (hv : h.Valid kept) : Trimmed h kept h kept := ⟨.refl h, hv, cuts_refl _⟩

theorem trans {k' : Store} {kept' kept'' : List Nat} (hk : Trimmed h kept h' kept')
    (hl : Trimmed h' kept' k' kept'') : Trimmed h kept k' kept'' :=
  ⟨hk.store.trans hl.store, hl.valid, cuts_trans hk.cuts hl.cuts⟩

end Trimmed

variable (price) in
theorem truncated_spec (h : Store) (r : Nat) (allowance : Int) :
    h.Extends (truncated price h r allowance).1 ∧
      (r < h.next → (truncated price h r allowance).2 < (truncated price h r allowance).1.next) ∧
      Cut (h.dict r)
        ((truncated price h r allowance).1.dict (truncated price h r allowance).2) := by
  have hsame : h.Extends h ∧ (r < h.next → r < h.next) ∧ Cut (h.dict r) (h.dict r) :=
    ⟨.refl h, id, .refl _⟩
  have hmade (c : Content) : h.Extends (h.alloc { h.dict r with content := c }).1 ∧
      (r < h.next → (h.alloc { h.dict r with content := c }).2 <
        (h.alloc { h.dict r with content := c }).1.next) ∧
      Cut (h.dict r) ((h.alloc { h.dict r with content := c }).1.dict
        (h.alloc { h.dict r with content := c }).2) := by
    refine ⟨h.extends_alloc _, fun _ => h.alloc_valid _, ?_⟩
    rw [Store.alloc_dict]
    exact .content _ c
  unfold truncated
  split
  · dsimp only
    split
    · exact hsame
    · split
      · exact hmade _
      · exact hmade _
  · exact hsame

variable (price) in
theorem trimmed_store (hv : h.Valid kept) (r : Nat) (allowance : Int) :
    Trimmed h kept (truncated price h r allowance).1 kept := by
  have hext := (truncated_spec price h r allowance).1
  refine ⟨hext, hext.valid hv, ?_⟩
  rw [hext.values hv]
  exact cuts_refl _

variable (price) in
theorem trimmed_set (hv : h.Valid kept) (i : Nat) (allowance : Int) :
    Trimmed h kept (truncated price h (kept.getD i 0) allowance).1
      (kept.set i (truncated price h (kept.getD i 0) allowance).2) := by
  obtain ⟨hext, hvalid, hcut⟩ := truncated_spec price h (kept.getD i 0) allowance
  have hold (r : Nat) (hr : kept[i]? = some r) : kept.getD i 0 = r ∧ r ∈ kept := by
    refine ⟨?_, List.mem_of_getElem? hr⟩
    rw [List.getD_eq_getElem?_getD, hr]
    rfl
  refine ⟨hext, ?_, ?_⟩
  · intro r hr
    by_cases hi : i < kept.length
    · rcases List.mem_or_eq_of_mem_set hr with hr | rfl
      · exact hext.valid hv r hr
      · obtain ⟨hget, hmem⟩ := hold kept[i] (List.getElem?_eq_getElem hi)
        exact hvalid (hget ▸ hv _ hmem)
    · rw [List.set_eq_of_length_le (not_lt.mp hi)] at hr
      exact hext.valid hv r hr
  · rw [Store.values, Store.values, List.map_set]
    have hvalues := hext.values hv
    unfold Store.values at hvalues
    rw [hvalues]
    refine cuts_set fun m hm => ?_
    rw [List.getElem?_map] at hm
    obtain ⟨r, hr, rfl⟩ := Option.map_eq_some_iff.mp hm
    exact (hold r hr).1 ▸ hcut

theorem trimmed_allocate (order : List Nat) (hv : h.Valid kept) (remaining : Int) :
    Trimmed h kept (allocate price h kept remaining order).1
      (allocate price h kept remaining order).2 := by
  induction order generalizing h kept remaining with
  | nil => exact .refl hv
  | cons i order ih =>
    unfold allocate
    dsimp only
    split
    · exact ih hv _
    · have hset := trimmed_set price hv i remaining
      exact hset.trans (ih hset.valid _)

theorem trimmed_tighten (hv : h.Valid kept) (passes : Nat) :
    Trimmed h kept (tighten price budget h kept passes).1
      (tighten price budget h kept passes).2 := by
  induction passes generalizing h kept with
  | zero => exact .refl hv
  | succ passes ih =>
    unfold tighten
    dsimp only
    split
    · exact .refl hv
    · split
      · exact trimmed_store price hv _ _
      · refine (trimmed_set price hv _ _).trans (ih ?_)
        exact (trimmed_set price hv _ _).valid

theorem trimmed_cuts (order : List Nat) (hv : h.Valid kept) :
    Trimmed h kept
      (tighten price budget (allocate price h kept budget order).1
        (allocate price h kept budget order).2 TIGHTEN_PASSES).1
      (tighten price budget (allocate price h kept budget order).1
        (allocate price h kept budget order).2 TIGHTEN_PASSES).2 := by
  have hallocated : Trimmed h kept (allocate price h kept budget order).1 _ :=
    trimmed_allocate order hv budget
  exact hallocated.trans (trimmed_tighten hallocated.valid TIGHTEN_PASSES)

/-! ## The last user turn -/

theorem lastUserIndex_concat (ms : List Message) (m : Message) :
    lastUserIndex (ms ++ [m]) = if m.role = "user" then some ms.length else lastUserIndex ms := by
  have hrest : (List.range ms.length).reverse.find?
      (fun i => (ms ++ [m])[i]?.any (·.role = "user")) =
      lastUserIndex ms := by
    refine List.find?_congr fun i hi => ?_
    rw [List.mem_reverse, List.mem_range] at hi
    rw [List.getElem?_append_left hi]
  have hrange : (List.range (ms ++ [m]).length).reverse =
      ms.length :: (List.range ms.length).reverse := by
    rw [List.length_append, List.length_singleton, List.range_succ, List.reverse_append]
    rfl
  have hlast : (ms ++ [m])[ms.length]? = some m := by
    rw [List.getElem?_append_right (le_refl _), Nat.sub_self]
    rfl
  unfold lastUserIndex at hrest ⊢
  rw [hrange, List.find?_cons, hlast, hrest]
  by_cases hrole : m.role = "user"
  · simp [hrole]
  · simp [hrole]

theorem lastUserIndex_eq {pre post : List Message} {u : Message} (hu : u.role = "user")
    (hpost : ∀ m ∈ post, m.role ≠ "user") : lastUserIndex (pre ++ u :: post) = some pre.length := by
  induction post using List.reverseRecOn with
  | nil => rw [lastUserIndex_concat, if_pos hu]
  | append_singleton post m ih =>
    have hm := hpost m (List.mem_append_right _ List.mem_cons_self)
    rw [← List.cons_append, ← List.append_assoc, lastUserIndex_concat, if_neg hm]
    exact ih fun n hn => hpost n (List.mem_append_left _ hn)

/-! ## The passes over a well paired conversation -/

theorem lastUserIndex_role {i : Nat} (h : lastUserIndex ms = some i) :
    ∃ u, ms[i]? = some u ∧ u.role = "user" := by
  have huser := List.find?_some h
  cases hm : ms[i]? with
  | none =>
    rw [hm] at huser
    cases huser
  | some u =>
    rw [hm, Option.any_some] at huser
    exact ⟨u, rfl, of_decide_eq_true huser⟩

/-- No user turn is removed. -/
theorem shrunk_exchanges {head : Nat} (hw : WellPaired ms) :
    Shrunk Eq ms
      (survivors (dropLoop price keep budget head (price.total ms) ∅ (ms.drop head)).2 0 ms) := by
  refine shrunk_survivors fun i u hu hrole hdoomed => ?_
  have hplain := hw.isPlain_of_user (List.mem_of_getElem? hu) hrole
  rw [Message.isPlain, Bool.and_eq_true, Bool.not_eq_true'] at hplain
  rcases of_mem_dropLoop _ hdoomed with hmem | ⟨j, m, hm, rfl, hkind⟩
  · exact Finset.notMem_empty i hmem
  · rw [List.getElem?_drop] at hm
    obtain rfl := Option.some.inj (hm.symm.trans hu)
    rw [hplain.1, hplain.2] at hkind
    simp at hkind

theorem values_dropToolExchanges (head : Nat) :
    h.values (dropToolExchanges price keep budget h head refs).1 =
      survivors (dropLoop price keep budget head (price.total (h.values refs)) ∅
        ((h.values refs).drop head)).2 0 (h.values refs) := survivors_map h.dict _ 0 refs

/-- What `_truncate_to_budget` keeps. -/
def keptMessages (head : Nat) (ms : List Message) : List Message :=
  ms.take head ++ (((lastUserIndex ms).filter (head ≤ ·)).bind (ms[·]?)).toList

variable (price) (budget) in
theorem truncateToBudget_spec (hv : h.Valid refs) (head : Nat) :
    h.Extends (truncateToBudget price budget h head refs).1 ∧
      List.Forall₂ Cut (keptMessages head (h.values refs))
        ((truncateToBudget price budget h head refs).1.values
          (truncateToBudget price budget h head refs).2) := by
  have hlast (k : Nat) (hk : (lastUserIndex (h.values refs)).filter (head ≤ ·) = some k) :
      refs.getD k 0 ∈ refs ∧ (h.values refs)[k]? = some (h.dict (refs.getD k 0)) := by
    obtain ⟨u, hu, -⟩ := lastUserIndex_role (Option.filter_eq_some_iff.mp hk).1
    rw [Store.values, List.getElem?_map] at hu ⊢
    obtain ⟨r, hr, -⟩ := Option.map_eq_some_iff.mp hu
    rw [List.getD_eq_getElem?_getD, hr]
    exact ⟨List.mem_of_getElem? hr, rfl⟩
  unfold truncateToBudget keptMessages
  dsimp only
  generalize (lastUserIndex (h.values refs)).filter (head ≤ ·) = last at hlast ⊢
  have hvalues : h.values (refs.take head ++ (last.map fun k => refs.getD k 0).toList) =
      (h.values refs).take head ++ (last.bind ((h.values refs)[·]?)).toList := by
    rw [Store.values, List.map_append, List.map_take]
    cases last with
    | none => rfl
    | some k =>
      rw [Option.bind_some, (hlast k rfl).2]
      rfl
  have hvalid : h.Valid (refs.take head ++ (last.map fun k => refs.getD k 0).toList) := by
    intro r hr
    rcases List.mem_append.mp hr with hr | hr
    · exact hv r (List.mem_of_mem_take hr)
    · obtain ⟨k, hk, rfl⟩ := Option.map_eq_some_iff.mp (Option.mem_toList.mp hr)
      exact hv _ (hlast k hk).1
  rw [← hvalues]
  obtain ⟨hext, hsame, hmade⟩ := Store.copy_spec hvalid
  rw [← hsame]
  split
  · exact ⟨hext, cuts_refl _⟩
  · exact ⟨hext.trans (trimmed_cuts _ hmade).store, (trimmed_cuts _ hmade).cuts⟩

theorem shrunk_keptMessages (head : Nat) (ms : List Message) :
    Shrunk Eq ms (keptMessages head ms) := by
  intro pre u post hms hu hpost
  subst hms
  unfold keptMessages
  rw [lastUserIndex_eq hu hpost]
  by_cases hhead : head ≤ pre.length
  · refine ⟨pre.take head, u, [], ?_, rfl, survives_of_sublist (List.take_sublist head pre),
      survives_of_sublist (List.nil_sublist post)⟩
    rw [List.take_append_of_le_length hhead, Option.filter_some, if_pos (by simpa using hhead)]
    simp
  · rw [not_le] at hhead
    obtain ⟨k, rfl⟩ := Nat.exists_eq_add_of_lt hhead
    refine ⟨pre, u, post.take k, ?_, rfl, survives_of_sublist (List.Sublist.refl pre),
      survives_of_sublist (List.take_sublist k post)⟩
    rw [Option.filter_some, if_neg (by simp [Nat.add_assoc]), List.take_append,
      List.take_of_length_le (by omega), show pre.length + k + 1 - pre.length = k + 1 by omega]
    simp

theorem wellPaired_keptMessages {head : Nat} (hhead : WellPaired (ms.take head))
    (huser : ∀ m ∈ ms, m.role = "user" → m.isPlain = true) : WellPaired (keptMessages head ms) := by
  refine hhead.append (wellPaired_of_plain fun m hm => ?_)
  obtain ⟨k, hk, hm⟩ := Option.bind_eq_some_iff.mp (Option.mem_toList.mp hm)
  obtain ⟨u, hu, hrole⟩ := lastUserIndex_role (Option.filter_eq_some_iff.mp hk).1
  obtain rfl := Option.some.inj (hm.symm.trans hu)
  exact huser m (List.mem_of_getElem? hu) hrole

/-! ## The law -/

section

variable (price) (fit) (env)

/-- The conversation with its old results emptied. -/
def tidied (ms : List Message) : List Message :=
  let head := protectedPrefixLen env ms
  ms.take head ++
    emptyResults price fit (lastUserIndex ms) (budgetOf fit) head (price.total ms) (ms.drop head)

/-- How many messages behind the head the removal of exchanges goes over. -/
def removedEnd (ms : List Message) : Nat :=
  let head := protectedPrefixLen env ms
  dropEnd price (lastUserIndex ms) (budgetOf fit) head (price.total (tidied price fit env ms))
    ((tidied price fit env ms).drop head)

/-- The conversation with its old exchanges removed. -/
def thinned (ms : List Message) : List Message :=
  let head := protectedPrefixLen env ms
  ms.take head ++ keepFrom [] (removedEnd price fit env ms) ((tidied price fit env ms).drop head)

/-- Exchanges are removed, and that makes the conversation fit. -/
structure RemovalFits (ms : List Message) : Prop where
  large : fit.hardLimit < price.estimate ms
  needed : budgetOf fit < price.estimate (tidied price fit env ms)
  enough : price.estimate (thinned price fit env ms) ≤ budgetOf fit

/-- Where exchanges are removed and that is enough, none that stays uses the id of a removed one. -/
def ReusesNone (ms : List Message) : Prop :=
  RemovalFits price fit env ms →
    List.Disjoint
      (callIdsOf ((ms.drop (protectedPrefixLen env ms)).take (removedEnd price fit env ms)))
      (callIdsOf ((ms.drop (protectedPrefixLen env ms)).drop (removedEnd price fit env ms)))

/-- Nothing short of the head and the last user turn fits. -/
structure Overflows (ms : List Message) : Prop where
  large : fit.hardLimit < price.estimate ms
  needed : budgetOf fit < price.estimate (tidied price fit env ms)
  vain : budgetOf fit < price.estimate (thinned price fit env ms)

/-- The messages of the outcome. -/
def shrunkMessages (h : Store) (refs : List Nat) : List Message :=
  (shrinkToFit price fit env h refs).1.values (shrinkToFit price fit env h refs).2.messages

end

variable (price) (fit) (env) in
/-- The first pass writes to the copies only, and leaves what users said. -/
theorem emptied_spec (hv : h.Valid refs) {ms : List Message} {emptied : Store × Int × Nat}
    (hms : h.values refs = ms)
    (hemptied : dropToolResults price fit (lastUserIndex ms) (budgetOf fit)
      (protectedPrefixLen env ms) (h.copy refs).1 (price.total ms) 0
      ((h.copy refs).2.drop (protectedPrefixLen env ms)) = emptied) :
    h.Extends emptied.1 ∧ emptied.1.Valid (h.copy refs).2 ∧
      emptied.1.values (h.copy refs).2 = tidied price fit env ms ∧
      List.Forall₂ (fun m n => Cut m n ∧ (m.role = "user" → m = n)) ms
        (tidied price fit env ms) := by
  obtain ⟨hext, hvalues, hvalid⟩ := Store.copy_spec hv
  rw [hms] at hvalues
  have hnodup : (h.copy refs).2.Nodup := by
    rw [Store.copy_refs]
    exact List.nodup_range'
  have hfresh : ∀ r ∈ (h.copy refs).2, h.next ≤ r := by
    rw [Store.copy_refs]
    intro r hr
    exact (List.mem_range'_1.mp hr).1
  generalize hhead : protectedPrefixLen env ms = head at *
  generalize hmade : h.copy refs = made at *
  have hpass : Emptied (made.2.drop head) made.1 emptied.1 := hemptied ▸ emptied_dropToolResults ..
  have hall : List.Forall₂ (fun m n => Cut m n ∧ (m.role = "user" → m = n)) ms
      (emptied.1.values made.2) := by
    rw [← hvalues, Store.values, Store.values, List.forall₂_map_left_iff,
      List.forall₂_map_right_iff]
    refine List.forall₂_same.mpr fun r _ => ⟨hpass.cut r, fun huser => (hpass.plain r ?_).symm⟩
    rw [Message.isTool, huser]
    rfl
  have htidied : emptied.1.values made.2 = tidied price fit env ms := by
    have hfront : emptied.1.values (made.2.take head) = ms.take head := by
      rw [← hvalues, Store.values, Store.values, ← List.map_take]
      refine List.map_congr_left fun r hr => hpass.other r fun hmem => ?_
      exact List.disjoint_take_drop hnodup (le_refl head) hr hmem
    have hback : emptied.1.values (made.2.drop head) = emptyResults price fit (lastUserIndex ms)
        (budgetOf fit) head (price.total ms) (ms.drop head) := by
      rw [← hemptied, values_dropToolResults (hnodup.sublist (List.drop_sublist _ _)), ← hvalues,
        Store.values, Store.values, List.map_drop]
    rw [tidied, hhead, ← hfront, ← hback, Store.values, Store.values, Store.values,
      ← List.map_append, List.take_append_drop]
  refine ⟨⟨hext.next.trans_eq hpass.next.symm, fun r hr => ?_⟩, ?_, htidied, htidied ▸ hall⟩
  · rw [hpass.other r fun hmem => ?_, hext.dict r hr]
    exact absurd (hfresh r (List.mem_of_mem_drop hmem)) (not_le.mpr hr)
  · intro r hr
    rw [hpass.next]
    exact hvalid r hr

/-- What the four outcomes give back. -/
inductive Outcome (price : Pricing) (fit : Fit) (env : Platform) (ms out : List Message) : Prop
  | fits (h : price.estimate ms ≤ fit.hardLimit) (hout : out = ms)
  | emptied (h : fit.hardLimit < price.estimate ms)
      (hfits : price.estimate (tidied price fit env ms) ≤ budgetOf fit)
      (hout : out = tidied price fit env ms)
  | removed (h : RemovalFits price fit env ms) (hout : out = thinned price fit env ms)
  | truncated (h : Overflows price fit env ms)
      (hout : List.Forall₂ Cut
        (keptMessages (protectedPrefixLen env ms) (thinned price fit env ms)) out)

theorem lastUserIndex_shape {i : Nat} (hs : ns.map Message.shape = ms.map Message.shape)
    (hm : ns[i]? = some m) (hi : some i = lastUserIndex ms) : m.role = "user" := by
  obtain ⟨u, hu, hrole⟩ := lastUserIndex_role hi.symm
  have hat : (ns.map Message.shape)[i]? = (ms.map Message.shape)[i]? := by rw [hs]
  rw [List.getElem?_map, List.getElem?_map, hm, hu] at hat
  have hshape : m.shape = u.shape := Option.some.inj hat
  exact (congrArg (·.1) hshape).trans hrole

theorem take_head (env : Platform) (ms ns : List Message) :
    (ms.take (protectedPrefixLen env ms) ++ ns).take (protectedPrefixLen env ms) =
      ms.take (protectedPrefixLen env ms) := by
  have hlen : (ms.take (protectedPrefixLen env ms)).length = protectedPrefixLen env ms := by
    rw [List.length_take, min_eq_left (protectedPrefixLen_le env ms)]
  rw [List.take_append_of_le_length hlen.ge, List.take_take, min_self]

theorem survivors_tidied (hw : WellPaired ms)
    (hcuts : List.Forall₂ (fun m n => Cut m n ∧ (m.role = "user" → m = n)) ms
      (tidied price fit env ms)) :
    survivors (dropLoop price (lastUserIndex ms) (budgetOf fit) (protectedPrefixLen env ms)
        (price.total (tidied price fit env ms)) ∅
        ((tidied price fit env ms).drop (protectedPrefixLen env ms))).2 0
        (tidied price fit env ms) =
      thinned price fit env ms := by
  have hshape := shape_of_cuts (hcuts.imp fun _ _ hmn => hmn.1)
  rw [survivors_exchanges ((wellPaired_congr hshape).mpr hw)
    (fun i m hm => lastUserIndex_shape hshape hm)
    ((protectedPrefixLen_le env ms).trans_eq hcuts.length_eq)]
  exact congrArg (· ++ _) (take_head env ms _)

variable (price) (fit) (env) in
/-- **The passes of `shrink_to_fit`** write to dictionaries of their own only. -/
theorem shrinkToFit_spec (hv : h.Valid refs) (hw : WellPaired (h.values refs)) :
    h.Extends (shrinkToFit price fit env h refs).1 ∧
      Outcome price fit env (h.values refs) (shrunkMessages price fit env h refs) := by
  generalize hms : h.values refs = ms at hw
  unfold shrunkMessages shrinkToFit
  rw [hms]
  dsimp only
  split
  case isTrue hfits => exact ⟨.refl h, .fits hfits hms⟩
  case isFalse hlarge =>
    rw [not_le] at hlarge
    have hcopy : (h.copy refs).1.values (h.copy refs).2 = ms := (Store.copy_spec hv).2.1.trans hms
    rw [hcopy]
    generalize hemptied : dropToolResults price fit (lastUserIndex ms) (budgetOf fit)
      (protectedPrefixLen env ms) (h.copy refs).1 (price.total ms) 0
      ((h.copy refs).2.drop (protectedPrefixLen env ms)) = emptied
    obtain ⟨hext, hvalid, htidied, hcuts⟩ := emptied_spec price fit env hv hms hemptied
    have hthinned : emptied.1.values (dropToolExchanges price (lastUserIndex ms) (budgetOf fit)
        emptied.1 (protectedPrefixLen env ms) (h.copy refs).2).1 = thinned price fit env ms := by
      rw [values_dropToolExchanges, htidied, survivors_tidied hw hcuts]
    by_cases hneeded : budgetOf fit < price.estimate (tidied price fit env ms)
    · rw [htidied, if_pos hneeded, hthinned]
      by_cases hvain : budgetOf fit < price.estimate (thinned price fit env ms)
      · have hleft : emptied.1.Valid (dropToolExchanges price (lastUserIndex ms) (budgetOf fit)
            emptied.1 (protectedPrefixLen env ms) (h.copy refs).2).1 :=
          fun r hr => hvalid r ((survivors_sublist _ _ _).subset hr)
        obtain ⟨hmore, hcut⟩ :=
          truncateToBudget_spec price (budgetOf fit) hleft (protectedPrefixLen env ms)
        rw [hthinned] at hcut
        have hover : Overflows price fit env ms := ⟨hlarge, hneeded, hvain⟩
        rw [if_pos hvain]
        split
        · exact ⟨hext.trans hmore, .truncated hover hcut⟩
        · exact ⟨hext.trans hmore, .truncated hover hcut⟩
      · have hfit : RemovalFits price fit env ms := ⟨hlarge, hneeded, not_lt.mp hvain⟩
        rw [if_neg hvain]
        split
        · exact ⟨hext, .removed hfit hthinned⟩
        · exact ⟨hext, .removed hfit hthinned⟩
    · rw [htidied, if_neg hneeded, htidied, if_neg hneeded]
      split
      · exact ⟨hext, .emptied hlarge (not_lt.mp hneeded) htidied⟩
      · exact ⟨hext, .emptied hlarge (not_lt.mp hneeded) htidied⟩

/-- What the removal leaves is paired exactly where no call that stays has the id of a removed one.
-/
theorem wellPaired_thinned
    (hshape : (tidied price fit env ms).map Message.shape = ms.map Message.shape)
    (hw : WellPaired (tidied price fit env ms))
    (hhead : WellPaired (ms.take (protectedPrefixLen env ms))) :
    WellPaired (thinned price fit env ms) ↔
      List.Disjoint
        (callIdsOf ((ms.drop (protectedPrefixLen env ms)).take (removedEnd price fit env ms)))
        (callIdsOf ((ms.drop (protectedPrefixLen env ms)).drop (removedEnd price fit env ms))) := by
  have hsame : (tidied price fit env ms).take (protectedPrefixLen env ms) =
      ms.take (protectedPrefixLen env ms) := take_head env ms _
  have htail : WellPaired ((tidied price fit env ms).drop (protectedPrefixLen env ms)) := by
    rw [← hsame] at hhead
    rwa [← List.take_append_drop (protectedPrefixLen env ms) (tidied price fit env ms),
      hhead.append_iff] at hw
  have htaken (s : Nat) :
      callIdsOf (((tidied price fit env ms).drop (protectedPrefixLen env ms)).take s) =
      callIdsOf ((ms.drop (protectedPrefixLen env ms)).take s) :=
    callIdsOf_congr (by simp only [List.map_take, List.map_drop, hshape])
  have hdropped (s : Nat) :
      callIdsOf (((tidied price fit env ms).drop (protectedPrefixLen env ms)).drop s) =
        callIdsOf ((ms.drop (protectedPrefixLen env ms)).drop s) :=
    callIdsOf_congr (by simp only [List.map_drop, hshape])
  rw [thinned, hhead.append_iff, wellPaired_keepFrom_iff htail, htaken, hdropped]

/-- **A shrunk conversation.** The dictionaries that were there are not modified, the messages that
survive are in their order around the last user turn, which is cut only where nothing less than that
fits, and the conversation is paired exactly where no removed exchange shares an id with one that
stays. -/
theorem shrunk_in_order_and_paired_iff (hv : h.Valid refs) (hw : WellPaired (h.values refs))
    (hhead : WellPaired ((h.values refs).take (protectedPrefixLen env (h.values refs)))) :
    h.Extends (shrinkToFit price fit env h refs).1 ∧
      Shrunk Cut (h.values refs) (shrunkMessages price fit env h refs) ∧
      (¬Overflows price fit env (h.values refs) →
        Shrunk Eq (h.values refs) (shrunkMessages price fit env h refs)) ∧
      (WellPaired (shrunkMessages price fit env h refs) ↔
        ReusesNone price fit env (h.values refs)) := by
  obtain ⟨hext, hout⟩ := shrinkToFit_spec price fit env hv hw
  obtain ⟨-, -, -, hcuts⟩ := emptied_spec price fit env hv rfl rfl
  refine ⟨hext, ?_⟩
  generalize h.values refs = ms at *
  generalize shrunkMessages price fit env h refs = out at *
  have hshape := shape_of_cuts (hcuts.imp fun _ _ hmn => hmn.1)
  have hpaired : WellPaired (tidied price fit env ms) := (wellPaired_congr hshape).mpr hw
  have htidied : Shrunk Eq ms (tidied price fit env ms) :=
    shrunk_of_forall₂ hcuts
  have hthinned : Shrunk Eq ms (thinned price fit env ms) := by
    refine htidied.trans (fun u v huv => huv ▸ rfl) ?_
    rw [← survivors_tidied hw hcuts]
    exact shrunk_exchanges hpaired
  have hcut {os : List Message} (hos : Shrunk Eq ms os) : Shrunk Cut ms os :=
    hos.imp fun u v huv => huv ▸ .refl u
  -- Everywhere but behind the removal the conversation stays paired.
  have hwhole (hno : ¬RemovalFits price fit env ms) (hp : WellPaired out) :
      WellPaired out ↔ ReusesNone price fit env ms := iff_of_true hp fun hfit => (hno hfit).elim
  cases hout with
  | fits hfits hsame =>
    subst hsame
    have hsame : Shrunk Eq out out := shrunk_of_forall₂ (List.forall₂_same.mpr fun m _ =>
      ⟨.refl m, fun _ => rfl⟩)
    exact ⟨hcut hsame, fun _ => hsame, hwhole (fun hfit => hfit.large.not_ge hfits) hw⟩
  | emptied _ hfits hsame =>
    subst hsame
    exact ⟨hcut htidied, fun _ => htidied, hwhole (fun hfit => hfit.needed.not_ge hfits) hpaired⟩
  | removed hfit hsame =>
    subst hsame
    refine ⟨hcut hthinned, fun _ => hthinned, ?_⟩
    rw [wellPaired_thinned hshape hpaired hhead]
    exact ⟨fun hdisjoint _ => hdisjoint, fun hnone => hnone hfit⟩
  | truncated hover htrim =>
    have husers : ∀ m ∈ thinned price fit env ms, m.role = "user" → m.isPlain = true := by
      rw [← survivors_tidied hw hcuts]
      exact fun m hm hu => hpaired.isPlain_of_user ((survivors_sublist _ _ _).subset hm) hu
    have hkept :
        WellPaired (keptMessages (protectedPrefixLen env ms) (thinned price fit env ms)) := by
      refine wellPaired_keptMessages ?_ husers
      rw [thinned, take_head]
      exact hhead
    have hlast : Shrunk Eq ms _ :=
      hthinned.trans (fun u v huv => huv ▸ rfl) (shrunk_keptMessages (protectedPrefixLen env ms) _)
    have htrimmed : Shrunk Cut _ out :=
      shrunk_of_forall₂ (htrim.imp fun _ _ hmn => ⟨hmn, fun _ => hmn⟩)
    refine ⟨(hcut hlast).trans (fun u v huv => huv.role) htrimmed, fun hno => (hno hover).elim, ?_⟩
    refine hwhole (fun hfit => hover.vain.not_ge hfit.enough) ?_
    exact (wellPaired_congr (shape_of_cuts htrim)).mpr hkept

/-- A store of the messages alone. -/
def Store.ofMessages (ms : List Message) : Store := ⟨ms.length, fun r => ms.getD r { role := "" }⟩

/-- `estimate_for` and its characters a token where the texts are empty. -/
def emptyPricing : Pricing where
  estimate := heuristicTokens
  room allowance _ := (allowance * 36 / 10).toNat

def smallWindow : Fit := ⟨"local", 1000, 600, 300⟩

/-- Two exchanges behind the head. -/
def twoExchanges (first second : String) : List Message :=
  [{ role := "system" }, { role := "user" }, { role := "assistant" },
    { role := "assistant", toolCalls := [{ id := first }] },
    { role := "tool", toolCallId := first },
    { role := "assistant", toolCalls := [{ id := second }] },
    { role := "tool", toolCallId := second },
    { role := "user" }]

/-- Where both calls have one id, the result of the second goes with the first. -/
theorem reused_id_splits_exchange :
    ¬ ∀ (price : Pricing) (fit : Fit) (env : Platform) (h : Store) (refs : List Nat),
      h.Valid refs → WellPaired (h.values refs) →
      WellPaired ((h.values refs).take (protectedPrefixLen env (h.values refs))) →
      (∃ m ∈ h.values refs, m.role = "user") →
      WellPaired (shrunkMessages price fit env h refs) := by
  intro h
  have hlost : ¬WellPaired (shrunkMessages emptyPricing smallWindow plainPlatform
      (Store.ofMessages (twoExchanges "c1" "c1")) (List.range 8)) := by decide
  refine hlost (h _ _ _ _ _ ?_ (by decide) (by decide) ⟨{ role := "user" }, by decide, rfl⟩)
  unfold Store.Valid
  decide

/-- Two calls of their own ids: the second stays, with its result. -/
theorem distinct_ids_stay_paired :
    WellPaired (shrunkMessages emptyPricing smallWindow plainPlatform
      (Store.ofMessages (twoExchanges "c1" "c2")) (List.range 8)) :=
  (shrunk_in_order_and_paired_iff (by unfold Store.Valid; decide) (by decide) (by decide)).2.2.2.mpr
    fun _ => List.disjoint_left.mpr (by decide)

end GenusOs.Engine.Compaction
