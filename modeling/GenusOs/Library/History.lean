import GenusOs.Library.Rows
import Mathlib

/-!
# Histories

A history is the list of what a system has done, oldest first. It is lawful if what stands in front
of each entry allows it. What a history has come to is a fold over it.

* `Lawful.concat`, `Lawful.append`: a lawful history goes on.
* `Lawful.nodup`: entries of a kind that allows no second one with their key.
* `says_updateOne`, `says_updateWhere`, `lawful_updateWhere`: a table whose rows are what the
  history says of their keys, and an update with an entry for each of its rows.
-/

namespace GenusOs.History

variable {ε κ : Type*} {allowed allowed' : List ε → ε → Prop} {log new : List ε} {e : ε}

/-- Every entry is allowed by what stands in front of it. -/
def Lawful (allowed : List ε → ε → Prop) (log : List ε) : Prop :=
  ∀ front e back, log = front ++ e :: back → allowed front e

namespace Lawful

theorem nil : Lawful allowed [] := by
  intro front e back h
  exact absurd h (by simp)

theorem append (h : Lawful allowed log)
    (hnew : ∀ front e back, new = front ++ e :: back → allowed (log ++ front) e) :
    Lawful allowed (log ++ new) := by
  intro front e back hsplit
  rcases List.append_eq_append_iff.mp hsplit with ⟨middle, rfl, hmiddle⟩ | ⟨middle, rfl, hmiddle⟩
  · exact hnew middle e back hmiddle
  · -- the entry ends the old part or stands inside of it
    cases middle with
    | nil =>
      rw [List.nil_append] at hmiddle
      have hfirst := hnew [] e back hmiddle.symm
      rwa [List.append_nil, List.append_nil] at *
    | cons a middle =>
      obtain ⟨rfl, -⟩ := List.cons.inj hmiddle
      exact h front e middle rfl

theorem concat (h : Lawful allowed log) (he : allowed log e) : Lawful allowed (log ++ [e]) := by
  refine h.append fun front a back hsplit => ?_
  cases front with
  | nil =>
    obtain ⟨rfl, -⟩ := List.cons.inj hsplit
    rwa [List.append_nil]
  | cons b front =>
    have hlength := congrArg List.length hsplit
    simp at hlength

theorem front {back : List ε} (h : Lawful allowed (log ++ back)) : Lawful allowed log := by
  intro front e rest hsplit
  exact h front e (rest ++ back) (by rw [hsplit, List.append_assoc, List.cons_append])

theorem mono (himp : ∀ front e, allowed front e → allowed' front e) (h : Lawful allowed log) :
    Lawful allowed' log :=
  fun front e back hsplit => himp front e (h front e back hsplit)

/-- Entries of one kind whose keys differ from those in front of them have different keys. -/
theorem nodup {kind : ε → Bool} {key : ε → κ} (h : Lawful allowed log)
    (hnew : ∀ front e, Lawful allowed front → allowed front e → kind e = true →
      ∀ e' ∈ front, kind e' = true → key e' ≠ key e) :
    ((log.filter kind).map key).Nodup := by
  induction log using List.reverseRecOn with
  | nil => exact List.nodup_nil
  | append_singleton log e ih =>
    rw [List.filter_append, List.map_append]
    by_cases hkind : kind e = true
    · rw [List.filter_singleton, hkind]
      refine (ih h.front).append (List.nodup_singleton _) ?_
      rintro _ hmem hsingle
      obtain ⟨e', he', rfl⟩ := List.mem_map.mp hmem
      obtain ⟨hmem, hkind'⟩ := List.mem_filter.mp he'
      exact hnew log e h.front (h log e [] rfl) hkind e' hmem hkind' (List.mem_singleton.mp hsingle)
    · rw [List.filter_singleton, Bool.eq_false_iff.mpr hkind]
      simpa using ih h.front

end Lawful

/-! ## Tables and their histories -/

open Rows

variable {α : Type*} {key : α → κ} {about : ε → κ}
    {Says : List ε → α → Prop} {rows : List α} {r s : α}
  {p : α → Bool} {f : α → α} {entry : α → ε}

/-- What a history says of a row does not depend on the entries of others. -/
def Frames (about : ε → κ) (key : α → κ) (Says : List ε → α → Prop) : Prop :=
  ∀ log e r, about e ≠ key r → Says log r → Says (log ++ [e]) r

theorem Frames.append (h : Frames about key Says) (hne : ∀ e ∈ new, about e ≠ key r)
    (hr : Says log r) :
    Says (log ++ new) r := by
  induction new generalizing log with
  | nil =>
    rw [List.append_nil]
    exact hr
  | cons e new ih =>
    obtain ⟨he, hnew⟩ := List.forall_mem_cons.mp hne
    rw [List.append_cons]
    exact ih hnew (h log e r he hr)

/-- An update of one row, with its entry. -/
theorem says_updateOne [DecidableEq κ] (h : Frames about key Says)
    (hkeys : KeyUnique key rows) (hr : r ∈ rows) (he : about e = key r)
    (hkept : ∀ r ∈ rows, Says log r) (hnew : Says (log ++ [e]) (f r))
    (hs : s ∈ updateWhere (fun s => key s = key r) f rows) : Says (log ++ [e]) s := by
  rcases mem_updateWhere_key hkeys hr hs with rfl | ⟨hs, hne⟩
  · exact hnew
  · exact h log e s (fun heq => hne (heq.symm.trans he)) (hkept s hs)

/-- Every row that is updated has its one entry. -/
theorem entries_split {front back : List ε} (hkeys : KeyUnique key rows)
    (habout : ∀ r, about (entry r) = key r)
    (h : (rows.filter p).map entry = front ++ e :: back) : ∃ r ∈ rows, p r = true ∧ e = entry r ∧
      (∀ e' ∈ front, about e' ≠ key r) ∧ ∀ e' ∈ back, about e' ≠ key r := by
  have he : e ∈ (rows.filter p).map entry := h ▸ List.mem_append_right _ List.mem_cons_self
  obtain ⟨r, hmem, rfl⟩ := List.mem_map.mp he
  obtain ⟨hr, hp⟩ := List.mem_filter.mp hmem
  have hnodup : (((rows.filter p).map entry).map about).Nodup := by
    rw [List.map_map, show about ∘ entry = key from funext habout]
    exact hkeys.sublist (List.filter_sublist.map key)
  rw [h, List.map_append, List.map_cons, List.nodup_append, List.nodup_cons, habout] at hnodup
  obtain ⟨-, ⟨hback, -⟩, hfront⟩ := hnodup
  exact ⟨r, hr, hp, rfl, fun e' he' => hfront _ (List.mem_map_of_mem he') _ List.mem_cons_self,
    fun e' he' heq => hback (List.mem_map.mpr ⟨e', he', heq⟩)⟩

/-- An update of several rows, with an entry for each. -/
theorem says_updateWhere (h : Frames about key Says) (hkeys : KeyUnique key rows)
    (habout : ∀ r, about (entry r) = key r) (hkey : ∀ r, key (f r) = key r)
    (hkept : ∀ r ∈ rows, Says log r)
    (hstep : ∀ log r, p r = true → Says log r → Says (log ++ [entry r]) (f r))
    (hs : s ∈ updateWhere p f rows) : Says (log ++ (rows.filter p).map entry) s := by
  obtain ⟨r, hr, rfl⟩ := mem_updateWhere.mp hs
  split
  · next hp =>
    -- its own entry stands between those of others
    have he : entry r ∈ (rows.filter p).map entry :=
      List.mem_map_of_mem (List.mem_filter.mpr ⟨hr, hp⟩)
    obtain ⟨front, back, hsplit⟩ := List.append_of_mem he
    obtain ⟨r', hr', -, heq, hfront, hback⟩ := entries_split hkeys habout hsplit
    obtain rfl : r' = r := hkeys.eq hr' hr (by rw [← habout r', ← heq, habout])
    rw [hsplit, List.append_cons, ← List.append_assoc, ← List.append_assoc]
    refine h.append (fun e' he' => hkey r' ▸ hback e' he')
      (hstep _ r' hp (h.append hfront (hkept r' hr)))
  · next hp =>
    refine h.append (fun e he heq => hp ?_) (hkept r hr)
    obtain ⟨r', hmem, rfl⟩ := List.mem_map.mp he
    obtain ⟨hr', hp'⟩ := List.mem_filter.mp hmem
    rw [habout] at heq
    exact hkeys.eq hr' hr heq ▸ hp'

theorem lawful_updateWhere (h : Frames about key Says) (hkeys : KeyUnique key rows)
    (habout : ∀ r, about (entry r) = key r) (hkept : ∀ r ∈ rows, Says log r)
    (hlog : Lawful allowed log)
    (hallowed : ∀ log r, p r = true → Says log r → allowed log (entry r)) :
    Lawful allowed (log ++ (rows.filter p).map entry) := by
  refine hlog.append fun front e back hsplit => ?_
  obtain ⟨r, hr, hp, rfl, hfront, -⟩ := entries_split hkeys habout hsplit
  exact hallowed _ r hp (h.append hfront (hkept r hr))

end GenusOs.History
