import GenusOs.Engine.RepeatVariants
import GenusOs.Library.Run
import Mathlib

/-!
# What a refusal of a variant says about the calls before it

A run is noted as the observations of each family and what made it forget them. The streak of a
family counts back to a call that was new or to a refusal, so that a streak of four covers three
stale calls only, where it began with a new one.

* `tracked_step`: the streak, the silence and the kept families against what was noted.
* `refusal_earned_iff`: a refusal is earned if and only if the fourth last observation was stale.
-/

namespace GenusOs.Engine.RepeatVariants

open Python

/-! ## The run and what is noted of it -/

/-- What a call brought. -/
structure Obs where
  novel : Bool
  silent : Bool
  deriving DecidableEq

/-- By what a family is told from the other kept ones. -/
abbrev Key := String × Signature

def Family.key (f : Family) : Key := (f.toolName, f.tokens)

inductive Event
  | observed (k : Key) (o : Obs)
  /-- By a refusal or by `spend`. -/
  | reset (k : Key)
  | evicted (k : Key)
  deriving DecidableEq

/-- The family that an event is about. -/
def Event.key : Event → Key
  | .observed k _ | .reset k | .evicted k => k

/-- What an event leaves of the observations of its family. -/
def Event.leaves (observed : List Obs) : Event → List Obs
  | .observed _ o => o :: observed
  | .reset _ | .evicted _ => []

/-- The observations of a family since it was last refused, spent or evicted, the newest first. -/
def sinceReset (k : Key) (log : List Event) : List Obs :=
  log.foldl (fun observed e => if e.key = k then e.leaves observed else observed) []

inductive Act
  | verdict (toolName : String) (args : Dict)
  | observe (toolName : String) (args : Dict) (result : Option Dict)
  | spend (toolName : String) (args : Dict)

variable (lib : Lib)

/-- The state after a call that may raise. -/
def orSame (t : Tracker) : Except String Tracker → Tracker
  | .ok t' => t'
  | .error _ => t

namespace Tracker

variable (t : Tracker)

def step : Act → Tracker
  | .verdict toolName args => orSame t ((t.verdict lib toolName args).map (·.2))
  | .observe toolName args result => orSame t (t.observe lib toolName args result)
  | .spend toolName args => orSame t (t.spend lib toolName args)

/-- The family that a call is found in. -/
def familyOf (toolName : String) (args : Dict) : Option Family :=
  match signature lib toolName args with
  | .ok (some tokens) => t.find toolName tokens
  | _ => none

def refuses (toolName : String) (args : Dict) : Bool :=
  match t.verdict lib toolName args with
  | .ok (some v, _) => v.isRefusal
  | _ => false

/-- The family that makes room for another one. -/
def evictions (toolName : String) (tokens : Signature) : List Event :=
  if (t.find toolName tokens).isNone ∧ MAX_FAMILIES ≤ t.length then
    ((t.argmin Family.calls).map fun f => .evicted f.key).toList
  else []

/-- What is noted of a call. -/
def events : Act → List Event
  | .verdict toolName args =>
    if t.refuses lib toolName args then
      ((t.familyOf lib toolName args).map fun f => .reset f.key).toList
    else []
  | .spend toolName args => ((t.familyOf lib toolName args).map fun f => .reset f.key).toList
  | .observe toolName args result =>
    if toolName ∉ VARIANT_TOOLS then []
    else match signature lib toolName args with
      | .ok (some tokens) =>
        t.evictions toolName tokens ++
          (((t.withFamily toolName tokens).find toolName tokens).map fun f =>
          .observed f.key ⟨f.novel lib (resultText lib result),
            isSilent lib toolName result⟩).toList
      | _ => []

end Tracker

/-- A tracker and what has been noted. -/
def tracking : System (Tracker × List Event) Act :=
  System.record { init := (· = []), step := fun t act t' => t' = t.step lib act }
    fun t act => t.events lib act

/-! ## Signatures that are the same -/

variable {lib} {t : Tracker} {f g : Family} {toolName : String}
    {tokens : Signature} {log : List Event}
  {k : Key} {args : Dict}

theorem jaccard_self (a : Finset String) : jaccard a a = 1 := by
  unfold jaccard
  by_cases h : a = ∅
  · rw [if_pos (.inl h), if_pos rfl]
  · rw [if_neg (by tauto), Finset.inter_self, Finset.union_self, div_self]
    rw [Ne, Nat.cast_eq_zero]
    exact fun hcard => h (Finset.card_eq_zero.mp hcard)

theorem sameFamily_self (tokens : Signature) : sameFamily toolName tokens tokens = true := by
  unfold sameFamily
  rw [jaccard_self]
  split
  · exact decide_eq_true rfl
  · decide +kernel

/-! ## What was noted -/

theorem sinceReset_snoc (e : Event) : sinceReset k (log ++ [e]) =
    if e.key = k then e.leaves (sinceReset k log) else sinceReset k log := by
  unfold sinceReset
  rw [List.foldl_append]
  rfl

theorem sinceReset_self (e : Event) : sinceReset e.key
    (log ++ [e]) = e.leaves (sinceReset e.key log) := by
  rw [sinceReset_snoc, if_pos rfl]

/-- What is noted of one family says nothing of another. -/
theorem sinceReset_ne {e : Event} (h : e.key ≠ k) :
    sinceReset k (log ++ [e]) = sinceReset k log := by
  rw [sinceReset_snoc, if_neg h]

theorem sinceReset_append_of_ne {es : List Event} (h : ∀ e ∈ es, e.key ≠ k) :
    sinceReset k (log ++ es) = sinceReset k log := by
  induction es generalizing log with
  | nil => rw [List.append_nil]
  | cons e es ih =>
    obtain ⟨he, hes⟩ := List.forall_mem_cons.mp h
    rw [List.append_cons, ih hes, sinceReset_ne he]

/-! ## The invariant -/

/-- Signatures of one tool that are not the same family. -/
def Apart (k k' : Key) : Prop := k.1 = k'.1 → sameFamily k.1 k.2 k'.2 = false

/-- Nothing was new since the family was refused or spent, so that its streak counts from there. -/
def BegunAtReset (observed : List Obs) : Prop := ∀ o ∈ observed, o.novel = false

/-- The counters of a family, against what was observed of it since it was reset. -/
structure Accounted (observed : List Obs) (f : Family) : Prop where
  streak : f.streak ≤ observed.length
  /-- The streak began where the family was reset, or at a call that was new. -/
  begun : (f.streak = observed.length ∧ BegunAtReset observed) ∨
    0 < f.streak ∧ ∃ o, observed[f.streak - 1]? = some o ∧ o.novel = true
  stale : ∀ o ∈ observed.take (f.streak - 1), o.novel = false
  silent : ∀ o, observed.head? = some o → f.silent = o.silent

structure Inv (t : Tracker) (log : List Event) : Prop where
  bounded : t.length ≤ MAX_FAMILIES
  distinct : (t.map Family.key).Pairwise Apart
  accounted : ∀ f ∈ t, Accounted (sinceReset f.key log) f
  gone : ∀ k ∉ t.map Family.key, sinceReset k log = []

theorem keys_nodup {keys : List Key} (h : keys.Pairwise Apart) : keys.Nodup := by
  refine h.imp fun {k k'} hapart heq => ?_
  have hself : sameFamily k.1 k.2 k.2 = true := sameFamily_self k.2
  rw [← heq] at hapart
  rw [hapart rfl] at hself
  cases hself

theorem accounted_nil (hstreak : f.streak = 0) : Accounted [] f := by
  refine ⟨by rw [hstreak]; exact Nat.zero_le _, .inl ⟨hstreak, nofun⟩, ?_, ?_⟩
  · rw [List.take_nil]
    exact fun o ho => absurd ho List.not_mem_nil
  · intro o ho
    cases ho

/-- What `observe` does to the counters. -/
theorem accounted_observe {observed : List Obs} {result : Option Dict} (h : Accounted observed f) :
    Accounted (⟨f.novel lib (resultText lib result), isSilent lib toolName result⟩ :: observed)
      (f.observe lib toolName result) := by
  have hsame :
      ({ f with calls := f.calls + 1, silent := isSilent lib toolName result } : Family).novel lib
      (resultText lib result) = f.novel lib (resultText lib result) := rfl
  unfold Family.observe
  dsimp only
  rw [hsame]
  split
  · next hnovel =>
    refine ⟨Nat.succ_le_succ (Nat.zero_le _), .inr ⟨Nat.one_pos, _, rfl, hnovel⟩,
      fun o ho => absurd ho List.not_mem_nil, ?_⟩
    rintro o ⟨⟩
    rfl
  · next hstale =>
    refine ⟨Nat.succ_le_succ h.streak, ?_, ?_, ?_⟩
    · rcases h.begun with ⟨hlength, hbegun⟩ | ⟨hpos, o, ho, hnovel⟩
      · refine .inl ⟨congrArg Nat.succ hlength, ?_⟩
        exact List.forall_mem_cons.mpr ⟨Bool.eq_false_iff.mpr hstale, hbegun⟩
      · refine .inr ⟨Nat.succ_pos _, o, ?_, hnovel⟩
        show (_ :: observed)[f.streak + 1 - 1]? = some o
        rw [Nat.add_sub_cancel, List.getElem?_cons, if_neg hpos.ne']
        exact ho
    · intro o ho
      dsimp only at ho
      rw [Nat.add_sub_cancel] at ho
      cases hstreak : f.streak with
      | zero =>
        rw [hstreak] at ho
        cases ho
      | succ n =>
        have hrest := h.stale
        rw [hstreak, Nat.add_sub_cancel] at hrest
        rw [hstreak, List.take_succ_cons] at ho
        rcases List.mem_cons.mp ho with rfl | ho
        · exact Bool.eq_false_iff.mpr hstale
        · exact hrest o ho
    · rintro o ⟨⟩
      rfl

/-! ## Writing a family -/

theorem updateFirst_keys {p : Family → Bool} {write : Family → Family}
    (hkey : ∀ f, (write f).key = f.key) :
    (updateFirst p write t).map Family.key = t.map Family.key := by
  induction t with
  | nil => rfl
  | cons f t ih =>
    unfold updateFirst
    split
    · rw [List.map_cons, List.map_cons, hkey]
    · rw [List.map_cons, List.map_cons, ih]

theorem updateFirst_of_none {p : Family → Bool} {write : Family → Family}
    (hfind : t.find? p = none) :
    updateFirst p write t = t := by
  induction t with
  | nil => rfl
  | cons a t ih =>
    obtain ⟨ha, ht⟩ := List.forall_mem_cons.mp (List.find?_eq_none.mp hfind)
    unfold updateFirst
    rw [if_neg ha, ih (List.find?_eq_none.mpr ht)]

theorem mem_updateFirst {p : Family → Bool} {write : Family → Family}
    (hnodup : (t.map Family.key).Nodup)
    (hfind : t.find? p = some f) (hg : g ∈ updateFirst p write t) :
    g = write f ∨ g ∈ t ∧ g.key ≠ f.key := by
  induction t with
  | nil => cases hfind
  | cons a t ih =>
    obtain ⟨hnew, hnodup⟩ := List.nodup_cons.mp hnodup
    unfold updateFirst at hg
    rw [List.find?_cons] at hfind
    cases hp : p a with
    | true =>
      rw [hp] at hfind hg
      obtain rfl := Option.some.inj hfind
      rcases List.mem_cons.mp hg with rfl | hg
      · exact .inl rfl
      · refine .inr ⟨List.mem_cons_of_mem a hg, fun heq => hnew ?_⟩
        rw [← heq]
        exact List.mem_map_of_mem hg
    | false =>
      rw [hp] at hfind hg
      rcases List.mem_cons.mp hg with rfl | hg
      · refine .inr ⟨List.mem_cons_self, fun heq => hnew ?_⟩
        rw [heq]
        exact List.mem_map_of_mem (List.mem_of_find?_eq_some hfind)
      · rcases ih hnodup hfind hg with hwritten | ⟨hmem, hne⟩
        · exact .inl hwritten
        · exact .inr ⟨List.mem_cons_of_mem a hmem, hne⟩

/-- A family is written and what is noted is about it. -/
theorem Inv.write {write : Family → Family} {es : List Event} (hinv : Inv t log)
    (hfind : t.find toolName tokens = some f) (hkey : ∀ f, (write f).key = f.key)
    (hes : ∀ e ∈ es, e.key = f.key) (hacc : Accounted (sinceReset f.key (log ++ es)) (write f)) :
    Inv (updateFirst (·.asks toolName tokens) write t) (log ++ es) where
  bounded := by
    rw [← List.length_map Family.key, updateFirst_keys hkey, List.length_map]
    exact hinv.bounded
  distinct := by
    rw [updateFirst_keys hkey]
    exact hinv.distinct
  accounted := by
    intro g hg
    rcases mem_updateFirst (keys_nodup hinv.distinct) hfind hg with rfl | ⟨hmem, hne⟩
    · rw [hkey]
      exact hacc
    · rw [sinceReset_append_of_ne fun e he => hes e he ▸ hne.symm]
      exact hinv.accounted g hmem
  gone := by
    intro k hk
    rw [updateFirst_keys hkey] at hk
    rw [sinceReset_append_of_ne]
    · exact hinv.gone k hk
    · intro e he heq
      rw [← heq, hes e he] at hk
      exact hk (List.mem_map_of_mem (List.mem_of_find?_eq_some hfind))

/-! ## Opening a family -/

theorem asks_self :
    ({ toolName := toolName, tokens := tokens } : Family).asks toolName tokens = true := by
  unfold Family.asks
  rw [sameFamily_self, Bool.and_true]
  exact decide_eq_true rfl

/-- Where none is found, the signature is apart from the kept ones. -/
theorem apart_of_find_none (h : t.find toolName tokens = none) (hf : f ∈ t) :
    Apart f.key (toolName, tokens) := by
  intro htool
  have hasks := List.find?_eq_none.mp h f hf
  unfold Family.asks at hasks
  rw [Bool.not_eq_true, Bool.and_eq_false_iff] at hasks
  rcases hasks with hother | hsame
  · exact absurd htool (of_decide_eq_false hother)
  · rw [show f.key.1 = toolName from htool]
    exact hsame

theorem Inv.makeRoom (hinv : Inv t log) (hnone : t.find toolName tokens = none) :
    Inv t.makeRoom (log ++ t.evictions toolName tokens) ∧ t.makeRoom.length < MAX_FAMILIES ∧
      ∀ f ∈ t.makeRoom, f ∈ t := by
  unfold Tracker.makeRoom Tracker.evictions
  rw [hnone]
  by_cases hfull : MAX_FAMILIES ≤ t.length
  · rw [if_pos hfull, if_pos ⟨rfl, hfull⟩]
    cases hleast : t.argmin Family.calls with
    | none =>
      rw [List.argmin_eq_none.mp hleast] at hfull
      exact absurd hfull (by decide)
    | some least =>
      dsimp only [Option.map_some, Option.toList_some]
      have hmem : least ∈ t := List.argmin_mem hleast
      have hkeys := keys_nodup hinv.distinct
      have hsub : List.Sublist (t.erase least) t := List.erase_sublist
      have hiff (g : Family) : g ∈ t.erase least ↔ g ≠ least ∧ g ∈ t :=
        (hkeys.of_map _).mem_erase_iff
      have hlength : (t.erase least).length < MAX_FAMILIES := by
        rw [List.length_erase_of_mem hmem]
        have hbounded := hinv.bounded
        have hpos : 0 < MAX_FAMILIES := by decide
        omega
      refine ⟨⟨hlength.le, hinv.distinct.sublist (hsub.map _), ?_, ?_⟩,
        hlength, fun g hg => hsub.subset hg⟩
      · intro g hg
        obtain ⟨hne, hg⟩ := (hiff g).mp hg
        rw [sinceReset_ne]
        · exact hinv.accounted g hg
        · exact fun heq => hne (List.inj_on_of_nodup_map hkeys hg hmem heq.symm)
      · intro k hk
        by_cases heq : least.key = k
        · exact heq ▸ sinceReset_self (.evicted least.key)
        · have hother : (Event.evicted least.key).key ≠ k := heq
          rw [sinceReset_ne hother]
          refine hinv.gone k fun hkept => hk ?_
          obtain ⟨g, hg, rfl⟩ := List.mem_map.mp hkept
          exact List.mem_map_of_mem ((hiff g).mpr ⟨fun h => heq (h ▸ rfl), hg⟩)
  · rw [if_neg hfull, if_neg fun h => hfull h.2, List.append_nil]
    exact ⟨hinv, Nat.lt_of_not_le hfull, fun _ h => h⟩

/-- After `withFamily` the call has its family. -/
theorem Inv.withFamily (hinv : Inv t log) (toolName : String) (tokens : Signature) :
    Inv (t.withFamily toolName tokens) (log ++ t.evictions toolName tokens) ∧
      ∃ f, (t.withFamily toolName tokens).find toolName tokens = some f := by
  unfold Tracker.withFamily
  cases hfind : t.find toolName tokens with
  | some f =>
    have hnone : t.evictions toolName tokens = [] := by
      unfold Tracker.evictions
      rw [hfind]
      exact if_neg fun h => by cases h.1
    rw [hnone, List.append_nil]
    exact ⟨hinv, f, hfind⟩
  | none =>
    obtain ⟨hroom, hlength, hsub⟩ := hinv.makeRoom hfind
    have hapart : ∀ g ∈ t.makeRoom, Apart g.key (toolName, tokens) := fun g hg =>
      apart_of_find_none hfind (hsub g hg)
    have hnew : ((toolName, tokens) : Key) ∉ t.makeRoom.map Family.key := by
      intro hkept
      obtain ⟨g, hg, hkey⟩ := List.mem_map.mp hkept
      have hself := hapart g hg
      rw [hkey] at hself
      have hsame := hself rfl
      rw [sameFamily_self] at hsame
      cases hsame
    rw [if_neg (by simp)]
    constructor
    · refine ⟨?_, ?_, ?_, ?_⟩
      · rw [List.length_append]
        exact hlength
      · rw [List.map_append, List.pairwise_append]
        refine ⟨hroom.distinct, List.pairwise_singleton _ _, fun k hk k' hk' => ?_⟩
        obtain ⟨g, hg, rfl⟩ := List.mem_map.mp hk
        rw [List.mem_singleton.mp hk']
        exact hapart g hg
      · intro g hg
        rcases List.mem_append.mp hg with hg | hg
        · exact hroom.accounted g hg
        · rw [List.mem_singleton.mp hg]
          have hgone := hroom.gone (toolName, tokens) hnew
          unfold Family.key
          rw [hgone]
          exact accounted_nil rfl
      · intro k hk
        rw [List.map_append, List.mem_append, not_or] at hk
        exact hroom.gone k hk.1
    · refine Option.isSome_iff_exists.mp ?_
      unfold Tracker.find
      rw [List.find?_isSome]
      exact ⟨_, List.mem_append_right _ List.mem_cons_self, asks_self⟩

/-! ## A call -/

theorem Inv.spent (hinv : Inv t log) (hfind : t.find toolName tokens = some f) :
    Inv (updateFirst (·.asks toolName tokens) Family.spent t) (log ++ [.reset f.key]) := by
  refine hinv.write hfind (fun _ => rfl) (fun e he => by rw [List.mem_singleton.mp he]; rfl) ?_
  have hreset : sinceReset f.key (log ++ [.reset f.key]) = [] := sinceReset_self (.reset f.key)
  rw [hreset]
  exact accounted_nil rfl

theorem Inv.observed {result : Option Dict} (hinv : Inv t log)
    (hfind : t.find toolName tokens = some f) :
    Inv (updateFirst (·.asks toolName tokens) (fun f => f.observe lib toolName result) t)
      (log ++
        [.observed f.key ⟨f.novel lib (resultText lib result), isSilent lib toolName result⟩]) := by
  have hkey (f : Family) : (f.observe lib toolName result).key = f.key := by
    unfold Family.observe
    dsimp only
    split <;> rfl
  refine hinv.write hfind hkey (fun e he => by rw [List.mem_singleton.mp he]; rfl) ?_
  have hseen := @sinceReset_self log
    (.observed f.key ⟨f.novel lib (resultText lib result), isSilent lib toolName result⟩)
  dsimp only [Event.key, Event.leaves] at hseen
  rw [hseen]
  exact accounted_observe (hinv.accounted f (List.mem_of_find?_eq_some hfind))

theorem step_verdict : t.step lib (.verdict toolName args) =
    orSame t ((t.verdict lib toolName args).map (·.2)) := rfl

theorem events_verdict : t.events lib (.verdict toolName args) =
    if t.refuses lib toolName args then
      ((t.familyOf lib toolName args).map fun f => Event.reset f.key).toList
    else [] := rfl

theorem events_spend : t.events lib (.spend toolName args) =
    ((t.familyOf lib toolName args).map fun f => Event.reset f.key).toList := rfl

/-- What a verdict can be, and what it writes. -/
theorem verdict_cases {v : Option Verdict} {t' : Tracker}
    (h : t.verdict lib toolName args = .ok (v, t')) :
    (v = none ∧ t' = t) ∨ ∃ tokens f, signature lib toolName args = .ok (some tokens) ∧
      t.find toolName tokens = some f ∧
      ((v = some (.refused f.refusalNote f.calls) ∧ REFUSE_AT ≤ f.streak + 1 ∧
          toolName ∈ REFUSABLE_TOOLS ∧ f.silent = false ∧
          t' = updateFirst (·.asks toolName tokens) Family.spent t) ∨
        (v = some (.noted f.repeatNote) ∧
          t' = updateFirst (·.asks toolName tokens) (fun f => { f with noted := true }) t)) := by
  unfold Tracker.verdict at h
  split at h
  · cases h
    exact .inl ⟨rfl, rfl⟩
  cases hsignature : signature lib toolName args with
  | error error =>
    rw [hsignature] at h
    cases h
  | ok found =>
    rw [hsignature] at h
    cases found with
    | none =>
      cases h
      exact .inl ⟨rfl, rfl⟩
    | some tokens =>
      dsimp only at h
      cases hfind : t.find toolName tokens with
      | none =>
        rw [hfind] at h
        cases h
        exact .inl ⟨rfl, rfl⟩
      | some f =>
        rw [hfind] at h
        dsimp only at h
        split at h
        · next hrefused =>
          cases h
          refine .inr ⟨tokens, f, rfl, hfind, .inl ⟨rfl, hrefused.1, hrefused.2.1, ?_, rfl⟩⟩
          exact Bool.eq_false_iff.mpr hrefused.2.2
        split at h
        · cases h
          exact .inr ⟨tokens, f, rfl, hfind, .inr ⟨rfl, rfl⟩⟩
        · cases h
          exact .inl ⟨rfl, rfl⟩

/-- A refusal, from the family that it is about. -/
theorem refuses_spec (h : t.refuses lib toolName args = true) :
    ∃ tokens f, t.find toolName tokens = some f ∧ t.familyOf lib toolName args = some f ∧
      REFUSE_AT ≤ f.streak + 1 ∧ toolName ∈ REFUSABLE_TOOLS ∧ f.silent = false ∧
      t.step lib (.verdict toolName args) =
        updateFirst (·.asks toolName tokens) Family.spent t := by
  unfold Tracker.refuses at h
  cases hverdict : t.verdict lib toolName args with
  | error error =>
    rw [hverdict] at h
    cases h
  | ok found =>
    obtain ⟨v, t'⟩ := found
    rw [hverdict] at h
    rcases verdict_cases hverdict with ⟨rfl, -⟩ | ⟨tokens, f, hsignature, hfind, hcases⟩
    · cases h
    rcases hcases with ⟨rfl, hstreak, htool, hsilent, rfl⟩ | ⟨rfl, -⟩
    · refine ⟨tokens, f, hfind, ?_, hstreak, htool, hsilent, ?_⟩
      · unfold Tracker.familyOf
        rw [hsignature]
        exact hfind
      · rw [step_verdict, hverdict]
        rfl
    · cases h

/-- **Step lemma.** A call keeps the counters in line with what is noted. -/
theorem tracked_step (act : Act) (hinv : Inv t log) :
    Inv (t.step lib act) (log ++ t.events lib act) := by
  cases act with
  | verdict toolName args =>
    by_cases hrefuses : t.refuses lib toolName args = true
    · obtain ⟨tokens, f, hfind, hfamily, -, -, -, hstep⟩ := refuses_spec hrefuses
      rw [hstep, events_verdict, if_pos hrefuses, hfamily]
      exact hinv.spent hfind
    · rw [events_verdict, if_neg hrefuses, List.append_nil, step_verdict]
      cases hverdict : t.verdict lib toolName args with
      | error error => exact hinv
      | ok found =>
        obtain ⟨v, t'⟩ := found
        show Inv t' log
        rcases verdict_cases hverdict with ⟨-, rfl⟩ | ⟨tokens, f, -, hfind, ⟨rfl, -⟩ | ⟨-, rfl⟩⟩
        · exact hinv
        · unfold Tracker.refuses at hrefuses
          rw [hverdict] at hrefuses
          exact absurd rfl hrefuses
        · have hacc : Accounted (sinceReset f.key (log ++ [])) { f with noted := true } := by
            rw [List.append_nil]
            have h := hinv.accounted f (List.mem_of_find?_eq_some hfind)
            exact ⟨h.streak, h.begun, h.stale, h.silent⟩
          have hnoted :
              Inv (updateFirst (·.asks toolName tokens) (fun f => { f with noted := true }) t)
              (log ++ []) :=
            hinv.write hfind (fun _ => rfl) (fun e he => absurd he List.not_mem_nil) hacc
          rwa [List.append_nil] at hnoted
  | observe toolName args result =>
    unfold Tracker.events Tracker.step Tracker.observe
    dsimp only
    split
    · rw [List.append_nil]
      exact hinv
    cases hsignature : signature lib toolName args with
    | error error =>
      dsimp only
      rw [List.append_nil]
      exact hinv
    | ok found =>
      cases found with
      | none =>
        dsimp only
        rw [List.append_nil]
        exact hinv
      | some tokens =>
        dsimp only [orSame]
        obtain ⟨hroom, f, hfind⟩ := hinv.withFamily toolName tokens
        rw [hfind, ← List.append_assoc]
        exact hroom.observed hfind
  | spend toolName args =>
    rw [events_spend]
    unfold Tracker.step Tracker.spend Tracker.familyOf
    dsimp only
    cases hsignature : signature lib toolName args with
    | error error =>
      rw [Option.map_none, Option.toList_none, List.append_nil]
      exact hinv
    | ok found =>
      cases found with
      | none =>
        rw [Option.map_none, Option.toList_none, List.append_nil]
        exact hinv
      | some tokens =>
        dsimp only [orSame]
        cases hfind : t.find toolName tokens with
        | none =>
          rw [Option.map_none, Option.toList_none, List.append_nil, updateFirst_of_none hfind]
          exact hinv
        | some f => exact hinv.spent hfind

/-! ## Runs -/

theorem inv_nil : Inv [] [] where
  bounded := Nat.zero_le _
  distinct := List.Pairwise.nil
  accounted := fun _ hf => absurd hf List.not_mem_nil
  gone := fun _ _ => rfl

/-- **Run lemma.** -/
theorem tracked_reachable (h : (tracking lib).Reachable (t, log)) : Inv t log := by
  refine h.invariant (I := fun s => Inv s.1 s.2) ?_ ?_
  · rintro ⟨t, log⟩ ⟨ht, hlog⟩
    rw [show t = [] from ht, show log = [] from hlog]
    exact inv_nil
  · rintro ⟨t, log⟩ act ⟨t', log'⟩ hinv ⟨ht, hlog⟩
    rw [show t' = t.step lib act from ht, show log' = log ++ t.events lib act from hlog]
    exact tracked_step act hinv

/-- What is noted stays. -/
theorem run_extends {s s' : Tracker × List Event} {acts : List Act}
    (h : System.Run (tracking lib) s acts s') : ∃ more, s'.2 = s.2 ++ more := by
  induction h with
  | nil s => exact ⟨[], (List.append_nil _).symm⟩
  | cons hstep _ ih =>
    obtain ⟨more, hmore⟩ := ih
    exact ⟨_, hmore.trans (by rw [hstep.2, List.append_assoc])⟩

def Event.observes (k : Key) : Event → Bool
  | .observed k' _ => k' = k
  | _ => false

/-- A family knows of no more observations than there were. -/
theorem length_sinceReset_le (more : List Event) : (sinceReset k (log ++ more)).length ≤
    (sinceReset k log).length + more.countP (Event.observes k) := by
  induction more generalizing log with
  | nil => simp
  | cons e more ih =>
    rw [List.append_cons, List.countP_cons]
    have hstep : (sinceReset k (log ++ [e])).length ≤
        (sinceReset k log).length + if e.observes k = true then 1 else 0 := by
      rw [sinceReset_snoc]
      cases e with
      | observed k' o =>
        by_cases hk : k' = k
        · simp [Event.key, Event.leaves, Event.observes, hk]
        · simp [Event.key, Event.observes, hk]
      | reset k' =>
        by_cases hk : k' = k
        · simp [Event.key, Event.leaves, hk]
        · simp [Event.key, hk]
      | evicted k' =>
        by_cases hk : k' = k
        · simp [Event.key, Event.leaves, hk]
        · simp [Event.key, hk]
    have hrest := @ih (log ++ [e])
    omega

/-- The last four observations brought nothing new, and the last of them said something. -/
def Earned (observed : List Obs) : Prop :=
  4 ≤ observed.length ∧ (∀ o ∈ observed.take 4, o.novel = false) ∧
    ∃ o, observed.head? = some o ∧ o.silent = false

/-- A streak of four covers the last three observations. -/
theorem earned_iff {observed : List Obs} (hacc : Accounted observed f)
    (hstreak : REFUSE_AT ≤ f.streak + 1)
    (hsilent : f.silent = false) :
    Earned observed ↔ ∀ o, observed[3]? = some o → o.novel = false := by
  unfold REFUSE_AT at hstreak
  have hlength := hacc.streak
  match observed, hlength with
  | a :: b :: c :: d :: rest, hlength =>
    have hstale : ∀ o ∈ [a, b, c], o.novel = false := by
      intro o ho
      obtain ⟨n, hn⟩ : ∃ n, f.streak - 1 = n + 3 := ⟨f.streak - 4, by omega⟩
      have hstale := hacc.stale
      rw [hn] at hstale
      refine hstale o ?_
      simp only [List.take_succ_cons, List.mem_cons]
      simp only [List.mem_cons, List.not_mem_nil, or_false] at ho
      tauto
    constructor
    · rintro ⟨-, hfour, -⟩ o ho
      refine hfour o ?_
      obtain rfl : d = o := by simpa using ho
      simp
    · intro hfourth
      refine ⟨by simp, ?_, a, rfl, ?_⟩
      · intro o ho
        have hcases : o ∈ [a, b, c] ∨ o = d := by simpa [or_assoc] using ho
        rcases hcases with ho | rfl
        · exact hstale o ho
        · exact hfourth o rfl
      · rw [← hacc.silent a rfl]
        exact hsilent
  | [], hlength => simp only [List.length_nil] at hlength; omega
  | [_], hlength => simp only [List.length_cons, List.length_nil] at hlength; omega
  | [_, _], hlength => simp only [List.length_cons, List.length_nil] at hlength; omega
  | [_, _, _], hlength => simp only [List.length_cons, List.length_nil] at hlength; omega

/-- The fourth last observation is a stale one where the streak does not begin there. -/
theorem fourth_stale_iff {observed : List Obs} (hacc : Accounted observed f)
    (hstreak : REFUSE_AT ≤ f.streak + 1) :
    (∀ o, observed[3]? = some o → o.novel = false) ↔
      REFUSE_AT ≤ f.streak ∨ BegunAtReset observed := by
  unfold REFUSE_AT at hstreak ⊢
  constructor
  · intro hfourth
    rcases hacc.begun with ⟨-, hbegun⟩ | ⟨-, o, ho, hnovel⟩
    · exact .inr hbegun
    · refine .inl ?_
      by_contra hshort
      rw [show f.streak - 1 = 3 by omega] at ho
      rw [hfourth o ho] at hnovel
      cases hnovel
  · rintro (hlong | hbegun) o ho
    · refine hacc.stale o ?_
      rw [List.mem_take_iff_getElem]
      obtain ⟨hlt, hget⟩ := List.getElem?_eq_some_iff.mp ho
      exact ⟨3, by omega, hget⟩
    · exact hbegun o (List.mem_of_getElem? ho)

/-- **The law of the variants.** A refusal is of `exec`; it is earned if and only if the fourth last
observation of the family brought nothing new, which is to say that the streak is of five or more,
or began where the family was refused or spent; the family is not refused again before four more
observations of it; and the kept families are few and apart. -/
theorem refusal_earned_iff (h : (tracking lib).Reachable (t, log)) :
    (∀ toolName args, t.refuses lib toolName args = true → toolName = "exec" ∧
      ∃ f, t.familyOf lib toolName args = some f ∧
        (Earned (sinceReset f.key log) ↔
          ∀ o, (sinceReset f.key log)[3]? = some o → o.novel = false) ∧
        (Earned (sinceReset f.key log) ↔
          REFUSE_AT ≤ f.streak ∨ BegunAtReset (sinceReset f.key log)) ∧
        ∀ acts t' log', System.Run (tracking lib)
            (t.step lib (.verdict toolName args), log ++ t.events lib (.verdict toolName args))
            acts (t', log') →
          ∀ toolName' args' f', t'.refuses lib toolName' args' = true →
            t'.familyOf lib toolName' args' = some f' → f'.key = f.key →
            ∃ more, log' = log ++ .reset f.key :: more ∧ 4 ≤ more.countP (Event.observes f.key)) ∧
    t.length ≤ MAX_FAMILIES ∧
    t.Pairwise fun f g => f.toolName = g.toolName →
      sameFamily f.toolName f.tokens g.tokens = false := by
  have hinv := tracked_reachable h
  refine ⟨?_, hinv.bounded, List.pairwise_map.mp hinv.distinct⟩
  intro toolName args hrefuses
  obtain ⟨tokens, f, hfind, hfamily, hstreak, htool, hsilent, -⟩ := refuses_spec hrefuses
  have hacc := hinv.accounted f (List.mem_of_find?_eq_some hfind)
  have hearned := earned_iff hacc hstreak hsilent
  refine ⟨List.mem_singleton.mp htool, f, hfamily, hearned,
    hearned.trans (fourth_stale_iff hacc hstreak), ?_⟩
  · intro acts t' log' hrun toolName' args' f' hrefuses' hfamily' hkey
    have hevents : t.events lib (.verdict toolName args) = [.reset f.key] := by
      rw [events_verdict, if_pos hrefuses, hfamily]
      rfl
    have hstep : (tracking lib).step (t, log) (.verdict toolName args)
        (t.step lib (.verdict toolName args), log ++ t.events lib (.verdict toolName args)) :=
          ⟨rfl, rfl⟩
    have hinv' := tracked_reachable ((h.run (.single hstep)).run hrun)
    obtain ⟨more, hmore⟩ := run_extends hrun
    rw [hevents] at hmore
    dsimp only at hmore
    obtain ⟨tokens', f'', hfind', hfamily'', hstreak', -⟩ := refuses_spec hrefuses'
    rw [hfamily'] at hfamily''
    obtain rfl := Option.some.inj hfamily''
    refine ⟨more, by rw [hmore, List.append_assoc]; rfl, ?_⟩
    have hlength := (hinv'.accounted f' (List.mem_of_find?_eq_some hfind')).streak
    rw [hkey, hmore] at hlength
    have hbound := @length_sinceReset_le (log ++ [.reset f.key]) f.key more
    have hreset : sinceReset f.key (log ++ [.reset f.key]) = [] := sinceReset_self (.reset f.key)
    rw [hreset, List.length_nil] at hbound
    unfold REFUSE_AT at hstreak'
    omega

/-! ### A command that says the same again and again -/

/-- Plain texts are their own lower case. -/
def plainLib : Lib where
  lower := id
  str := fun _ => ""
  floatText := fun _ => ""
  urlparse := fun _ => none
  digest := fun text =>
    if text = "same" then "0967115f2813a3541eaef77de9d9d5773f1c0c04314b0bbfe4ff3b3b1c55b5d5" else ""

def sampleArgs : Dict := [("command", .str "python t.py")]

def sampleCall : Act := .observe "exec" sampleArgs (some [("stdout", .str "same")])

def sampleKey : Key := ("exec", ["python", "t.py"])

/-- The command was observed `n` times. -/
def observedTimes : Nat → Tracker × List Event
  | 0 => ([], [])
  | n + 1 =>
    let s := observedTimes n
    (s.1.step plainLib sampleCall, s.2 ++ s.1.events plainLib sampleCall)

theorem observedTimes_reachable (n : Nat) : (tracking plainLib).Reachable (observedTimes n) := by
  induction n with
  | zero => exact ⟨([], []), [], ⟨rfl, rfl⟩, .nil _⟩
  | succ n ih => exact ih.run (.single (a := sampleCall) ⟨rfl, rfl⟩)

theorem observedTimes_four : (observedTimes 4).1.refuses plainLib "exec" sampleArgs = true ∧
    ((observedTimes 4).1.familyOf plainLib "exec" sampleArgs).map Family.key = some sampleKey ∧
    sinceReset sampleKey (observedTimes 4).2 =
      [⟨false, false⟩, ⟨false, false⟩, ⟨false, false⟩, ⟨true, false⟩] := by
  decide +kernel

/-- After five the streak is of five. -/
theorem fifth_refusal_earned :
    ∃ f, (observedTimes 5).1.familyOf plainLib "exec" sampleArgs = some f ∧
    f.streak = 5 ∧ Earned (sinceReset f.key (observedTimes 5).2) := by
  have hrefuses : (observedTimes 5).1.refuses plainLib "exec" sampleArgs = true := by decide +kernel
  have hstreak :
      ((observedTimes 5).1.familyOf plainLib "exec" sampleArgs).map Family.streak = some 5 := by
    decide +kernel
  have hreachable : (tracking plainLib).Reachable ((observedTimes 5).1, (observedTimes 5).2) :=
    observedTimes_reachable 5
  obtain ⟨-, f, hfamily, -, hearned, -⟩ :=
    (refusal_earned_iff hreachable).1 "exec" sampleArgs hrefuses
  rw [hfamily] at hstreak
  have hlong : f.streak = 5 := Option.some.inj hstreak
  exact ⟨f, hfamily, hlong, hearned.mpr (.inl hlong.ge)⟩

/-- After four the first of them was new. -/
theorem fourth_refusal_unearned : (tracking plainLib).Reachable (observedTimes 4) ∧
    ¬ ∀ toolName args, (observedTimes 4).1.refuses plainLib toolName args = true →
      ∃ f, (observedTimes 4).1.familyOf plainLib toolName args = some f ∧
        Earned (sinceReset f.key (observedTimes 4).2) := by
  refine ⟨observedTimes_reachable 4, fun h => ?_⟩
  obtain ⟨hrefuses, hkey, hobserved⟩ := observedTimes_four
  obtain ⟨f, hfamily, -, hnovel, -⟩ := h "exec" sampleArgs hrefuses
  rw [hfamily] at hkey
  rw [Option.some.inj hkey, hobserved] at hnovel
  exact absurd (hnovel ⟨true, false⟩ (by decide)) (by decide)

end GenusOs.Engine.RepeatVariants
