import Mathlib

/-!
# Rows of a table

A table is the list of its rows. `updateWhere` is an `UPDATE … SET … WHERE …`, which changes all
rows that meet the condition at once; `KeyUnique` and `IndexUnique` are a primary key and a partial
unique index, with what keeps them.
-/

namespace GenusOs.Rows

variable {α κ ι : Type*}

/-- `UPDATE rows SET f WHERE p`. -/
def updateWhere (p : α → Bool) (f : α → α) (rows : List α) : List α :=
  rows.map fun r => if p r then f r else r

/-- `cur.rowcount` after it. -/
def rowcount (p : α → Bool) (rows : List α) : Nat := rows.countP p

/-- `ORDER BY time DESC LIMIT 1`. -/
def newest {τ : Type*} [LinearOrder τ] (time : α → τ) (rows : List α) : Option α := rows.argmax time

/-- `ORDER BY time LIMIT 1`. -/
def oldest {τ : Type*} [LinearOrder τ] (time : α → τ) (rows : List α) : Option α := rows.argmin time

/-- A primary key. -/
def KeyUnique (key : α → κ) (rows : List α) : Prop := (rows.map key).Nodup

/-- A unique index on the rows that meet `q`. -/
def IndexUnique (key : α → κ) (q : α → Bool) (index : α → ι) (rows : List α) : Prop :=
  ∀ r ∈ rows, ∀ s ∈ rows, q r = true → q s = true → index r = index s → key r = key s

variable {key : α → κ} {index : α → ι} {p q : α → Bool} {f : α → α} {rows : List α} {r s : α}

theorem mem_updateWhere :
    s ∈ updateWhere p f rows ↔ ∃ r ∈ rows, s = if p r then f r else r := by
  unfold updateWhere
  rw [List.mem_map]
  exact exists_congr fun r => and_congr_right fun _ => eq_comm

/-- A row the condition misses stays. -/
theorem mem_updateWhere_of_not (hr : r ∈ rows) (hp : p r = false) : r ∈ updateWhere p f rows :=
  mem_updateWhere.mpr ⟨r, hr, by simp [hp]⟩

/-- An update whose condition no row meets. -/
theorem updateWhere_of_not (h : ∀ r ∈ rows, p r = false) : updateWhere p f rows = rows := by
  unfold updateWhere
  conv_rhs => rw [← List.map_id rows]
  refine List.map_congr_left fun r hr => ?_
  rw [h r hr]
  rfl

/-- A look-up that an update does not change finds the row it left. -/
theorem find?_updateWhere (hq : ∀ r, p r = true → q (f r) = q r) :
    (updateWhere p f rows).find? q = (rows.find? q).map fun r => if p r then f r else r := by
  have hsame : (q ∘ fun r => if p r then f r else r) = q := by
    funext r
    by_cases hp : p r = true
    · simp [hp, hq r hp]
    · simp [hp]
  unfold updateWhere
  rw [List.find?_map, hsame]

/-- A look-up finds no row of an update outside of its condition. -/
theorem find?_updateWhere_of_not (hp : ∀ r ∈ rows, p r = true → q r = false)
    (hq : ∀ r, p r = true → q (f r) = q r) :
    (updateWhere p f rows).find? q = rows.find? q := by
  rw [find?_updateWhere hq]
  rcases hfind : rows.find? q with _ | r
  · rfl
  · have hr : ¬ p r = true := fun hpr => by
      have hnot := hp r (List.mem_of_find?_eq_some hfind) hpr
      cases hnot.symm.trans (List.find?_some hfind)
    simp [hr]

/-- An update outside of a condition. -/
theorem filter_updateWhere (hp : ∀ r, p r = true → q r = false) (hf : ∀ r, q (f r) = q r) :
    (updateWhere p f rows).filter q = rows.filter q := by
  unfold updateWhere
  induction rows with
  | nil => rfl
  | cons r rows ih =>
    rw [List.map_cons, List.filter_cons, List.filter_cons, ih]
    by_cases hr : p r = true
    · simp [hr, hf, hp r hr]
    · simp [hr]

/-- Rows that an update moves under a condition. -/
theorem countP_updateWhere (hbefore : ∀ r, p r = true → q r = false)
    (hafter : ∀ r, p r = true → q (f r) = true) :
    (updateWhere p f rows).countP q = rows.countP q + rows.countP p := by
  unfold updateWhere
  induction rows with
  | nil => rfl
  | cons r rows ih =>
    rw [List.map_cons, List.countP_cons, List.countP_cons, List.countP_cons, ih]
    by_cases hp : p r = true
    · simp only [hp, hbefore r hp, hafter r hp, if_true, Bool.false_eq_true, if_false]
      omega
    · simp only [hp, Bool.false_eq_true, if_false]
      omega

/-- An update that moves no row under or from under a condition. -/
theorem countP_updateWhere_of_same (h : ∀ r, p r = true → q (f r) = q r) :
    (updateWhere p f rows).countP q = rows.countP q := by
  unfold updateWhere
  rw [List.countP_map]
  refine List.countP_congr fun r _ => ?_
  by_cases hp : p r = true
  · simp [hp, h r hp]
  · simp [hp]

/-- Rows that an update moves from under a condition. -/
theorem countP_updateWhere_of_leaves (h : ∀ r, p r = true → q (f r) = false) :
    (updateWhere p f rows).countP q + (rows.filter fun r => p r && q r).length = rows.countP q := by
  unfold updateWhere
  rw [← List.countP_eq_length_filter]
  induction rows with
  | nil => rfl
  | cons r rows ih =>
    rw [List.map_cons, List.countP_cons, List.countP_cons, List.countP_cons, ← ih]
    by_cases hp : p r = true
    · simp only [hp, h r hp, if_true, Bool.true_and, Bool.false_eq_true, if_false]
      omega
    · simp only [hp, Bool.false_and, Bool.false_eq_true, if_false]
      omega

/-- Equal keys are one row. -/
theorem KeyUnique.eq (h : KeyUnique key rows) (hr : r ∈ rows) (hs : s ∈ rows)
    (hk : key r = key s) : r = s :=
  List.inj_on_of_nodup_map h hr hs hk

/-- An update that leaves a column alone. -/
theorem map_updateWhere (hf : ∀ r, p r = true → key (f r) = key r) :
    (updateWhere p f rows).map key = rows.map key := by
  unfold updateWhere
  rw [List.map_map]
  refine List.map_congr_left fun r _ => ?_
  by_cases hp : p r = true
  · simp [hp, hf r hp]
  · simp [hp]

theorem KeyUnique.updateWhere (h : KeyUnique key rows)
    (hf : ∀ r, p r = true → key (f r) = key r) : KeyUnique key (updateWhere p f rows) := by
  unfold KeyUnique
  rw [map_updateWhere hf]
  exact h

theorem KeyUnique.insert (h : KeyUnique key rows) (hr : ∀ s ∈ rows, key s ≠ key r) :
    KeyUnique key (rows ++ [r]) := by
  unfold KeyUnique
  rw [List.map_append, List.nodup_append]
  refine ⟨h, List.nodup_singleton _, ?_⟩
  intro k hk k' hk' heq
  obtain ⟨s, hs, rfl⟩ := List.mem_map.mp hk
  rw [List.map_singleton, List.mem_singleton] at hk'
  exact hr s hs (heq.trans hk')

/-- An update that moves no row into the index, nor along it, keeps it unique. -/
theorem IndexUnique.updateWhere (h : IndexUnique key q index rows)
    (hkey : ∀ r, p r = true → key (f r) = key r)
    (hindex : ∀ r, p r = true → index (f r) = index r)
    (hq : ∀ r, p r = true → q (f r) = true → q r = true) :
    IndexUnique key q index (updateWhere p f rows) := by
  have hback : ∀ s ∈ Rows.updateWhere p f rows, q s = true →
      ∃ r ∈ rows, q r = true ∧ index r = index s ∧ key r = key s := by
    intro s hs hqs
    obtain ⟨r, hr, rfl⟩ := mem_updateWhere.mp hs
    by_cases hp : p r = true
    · simp only [hp, ↓reduceIte] at hqs ⊢
      exact ⟨r, hr, hq r hp hqs, (hindex r hp).symm, (hkey r hp).symm⟩
    · simp only [hp, Bool.false_eq_true, ↓reduceIte] at hqs ⊢
      exact ⟨r, hr, hqs, rfl, rfl⟩
  intro s hs s' hs' hqs hqs' hi
  obtain ⟨r, hr, hqr, hir, hkr⟩ := hback s hs hqs
  obtain ⟨r', hr', hqr', hir', hkr'⟩ := hback s' hs' hqs'
  rw [← hkr, ← hkr']
  exact h r hr r' hr' hqr hqr' (hir.trans (hi.trans hir'.symm))

theorem IndexUnique.insert (h : IndexUnique key q index rows)
    (hr : ∀ s ∈ rows, q s = true → index s ≠ index r) :
    IndexUnique key q index (rows ++ [r]) := by
  intro s hs s' hs' hqs hqs' hi
  rcases List.mem_append.mp hs with h₁ | h₁ <;> rcases List.mem_append.mp hs' with h₂ | h₂
  · exact h s h₁ s' h₂ hqs hqs' hi
  · rw [List.mem_singleton.mp h₂] at hi
    exact absurd hi (hr s h₁ hqs)
  · rw [List.mem_singleton.mp h₁] at hi
    exact absurd hi.symm (hr s' h₂ hqs')
  · rw [List.mem_singleton.mp h₁, List.mem_singleton.mp h₂]

/-- At most one row of an index. -/
theorem IndexUnique.countP_le_one [DecidableEq ι] (hk : KeyUnique key rows)
    (h : IndexUnique key q index rows) (i : ι) :
    rows.countP (fun r => q r && index r = i) ≤ 1 := by
  rw [List.countP_eq_length_filter]
  have hmem : ∀ r ∈ rows.filter (fun r => q r && index r = i),
      r ∈ rows ∧ q r = true ∧ index r = i := by
    intro r hr
    simpa using hr
  have hnodup := hk.sublist ((List.filter_sublist (p := fun r => q r && index r = i)).map key)
  match hfilter : rows.filter (fun r => q r && index r = i) with
  | [] => simp
  | [_] => simp
  | r :: s :: rest =>
    rw [hfilter] at hmem hnodup
    obtain ⟨hr, hqr, hir⟩ := hmem r (by simp)
    obtain ⟨hs, hqs, his⟩ := hmem s (by simp)
    have heq := h r hr s hs hqr hqs (hir.trans his.symm)
    simp [heq] at hnodup

/-! ## Updates of one row -/

/-- `UPDATE …; if cur.rowcount != 1: raise`. -/
def updateOne (p : α → Bool) (f : α → α) (rows : List α) : Option (List α) :=
  if rowcount p rows = 1 then some (updateWhere p f rows) else none

/-- The row that it hits. -/
theorem updateOne_spec {rows' : List α} [DecidableEq κ] (hkeys : KeyUnique key rows)
    (h : updateOne p f rows = some rows') :
    ∃ r ∈ rows, p r = true ∧ rows' = updateWhere (fun s => key s = key r) f rows := by
  unfold updateOne at h
  split at h
  · next hone =>
    cases h
    rw [rowcount, List.countP_eq_length_filter, List.length_eq_one_iff] at hone
    obtain ⟨r, hone⟩ := hone
    have hr : r ∈ rows.filter p := hone ▸ List.mem_singleton_self r
    obtain ⟨hr, hp⟩ := List.mem_filter.mp hr
    refine ⟨r, hr, hp, List.map_congr_left fun s hs => ?_⟩
    have hiff : p s = true ↔ key s = key r := by
      constructor
      · intro hps
        have hmem : s ∈ rows.filter p := List.mem_filter.mpr ⟨hs, hps⟩
        rw [hone] at hmem
        rw [List.mem_singleton.mp hmem]
      · intro hsame
        rw [hkeys.eq hs hr hsame]
        exact hp
    simp only [hiff, decide_eq_true_eq]
  · cases h

/-- What stands in a table after an update of one row. -/
theorem mem_updateWhere_key [DecidableEq κ] (hkeys : KeyUnique key rows) (hr : r ∈ rows)
    (hs : s ∈ updateWhere (fun s => key s = key r) f rows) :
    s = f r ∨ s ∈ rows ∧ key s ≠ key r := by
  obtain ⟨a, ha, rfl⟩ := mem_updateWhere.mp hs
  by_cases hkey : key a = key r
  · rw [if_pos (decide_eq_true hkey), hkeys.eq ha hr hkey]
    exact .inl rfl
  · rw [if_neg (by simpa using hkey)]
    exact .inr ⟨ha, hkey⟩

/-- A sum over a table after an update of one row. -/
theorem sum_map_updateWhere_key [DecidableEq κ] {w : α → Int}
    (hkeys : KeyUnique key rows) (hr : r ∈ rows) :
    ((updateWhere (fun s => key s = key r) f rows).map w).sum =
      (rows.map w).sum - w r + w (f r) := by
  induction rows with
  | nil => cases hr
  | cons a rows ih =>
    unfold KeyUnique at hkeys
    rw [List.map_cons, List.nodup_cons] at hkeys
    obtain ⟨ha, hkeys⟩ := hkeys
    have hcons : updateWhere (fun s => key s = key r) f (a :: rows) =
        (if key a = key r then f a else a) :: updateWhere (fun s => key s = key r) f rows := by
      unfold updateWhere
      simp
    rw [hcons, List.map_cons, List.map_cons, List.sum_cons, List.sum_cons]
    rcases List.mem_cons.mp hr with rfl | hmem
    · have hrest : updateWhere (fun s => key s = key r) f rows = rows :=
        updateWhere_of_not fun s hs => decide_eq_false fun heq => ha (heq ▸ List.mem_map_of_mem hs)
      rw [hrest, if_pos rfl]
      ring
    · have hne : key a ≠ key r := fun heq => ha (heq ▸ List.mem_map_of_mem hmem)
      rw [if_neg hne, ih hkeys hmem]
      ring

/-! ## Selections -/

/-- `ORDER BY … LIMIT …`: what the limit cuts off has `limit` others in front of it. -/
theorem mem_take_of_countP {le : α → α → Prop} {a : α} {l : List α} {limit : Nat}
    (hsorted : l.Pairwise le) (hle : ∀ b, le b a → q b = true) (ha : a ∈ l) (hself : q a = true)
    (hfew : l.countP q ≤ limit) : a ∈ l.take limit := by
  rw [← List.take_append_drop limit l, List.mem_append] at ha
  rcases ha with ha | hdrop
  · exact ha
  exfalso
  have hlong : limit < l.length := by
    by_contra hshort
    rw [List.drop_eq_nil_of_le (not_lt.mp hshort)] at hdrop
    exact List.not_mem_nil hdrop
  have hcross : ∀ b ∈ l.take limit, le b a := by
    rw [← List.take_append_drop limit l] at hsorted
    exact fun b hb => (List.pairwise_append.mp hsorted).2.2 b hb a hdrop
  have hfront : (l.take limit).countP q = limit := by
    rw [List.countP_eq_length.mpr fun b hb => hle b (hcross b hb), List.length_take]
    omega
  have hbehind : 0 < (l.drop limit).countP q := List.countP_pos_iff.mpr ⟨a, hdrop, hself⟩
  have hall : l.countP q = (l.take limit).countP q + (l.drop limit).countP q := by
    rw [← List.countP_append, List.take_append_drop]
  omega

/-- `INSERT … ON CONFLICT DO NOTHING`. -/
def insertNew [DecidableEq κ] (key : α → κ) (rows : List α) (r : α) : List α :=
  if rows.any fun s => key s = key r then rows else rows ++ [r]

theorem KeyUnique.insertNew [DecidableEq κ] (h : KeyUnique key rows) :
    KeyUnique key (insertNew key rows r) := by
  unfold Rows.insertNew
  split
  · exact h
  · next hfree =>
    refine h.insert fun s hs heq => hfree (List.any_eq_true.mpr ⟨s, hs, decide_eq_true heq⟩)

variable {new : List α}

/-- A table becomes another, every row by `P`. -/
def Rowwise (P : α → α → Prop) (rows rows' : List α) : Prop :=
  ∃ f, rows' = rows.map f ∧ ∀ r ∈ rows, P r (f r)

namespace Rowwise

variable {P Q R : α → α → Prop} {rows' rows'' : List α}

theorem refl (h : ∀ r, P r r) (rows : List α) : Rowwise P rows rows :=
  ⟨id, (List.map_id rows).symm, fun r _ => h r⟩

theorem trans (hR : ∀ r s t, P r s → Q s t → R r t) (h : Rowwise P rows rows')
    (h' : Rowwise Q rows' rows'') : Rowwise R rows rows'' := by
  obtain ⟨f, rfl, hf⟩ := h
  obtain ⟨g, rfl, hg⟩ := h'
  refine ⟨g ∘ f, List.map_map, fun r hr => ?_⟩
  exact hR r (f r) (g (f r)) (hf r hr) (hg (f r) (List.mem_map_of_mem hr))

theorem mono (hPQ : ∀ r ∈ rows, ∀ s, P r s → Q r s) (h : Rowwise P rows rows') :
    Rowwise Q rows rows' := by
  obtain ⟨f, rfl, hf⟩ := h
  exact ⟨f, rfl, fun r hr => hPQ r hr (f r) (hf r hr)⟩

theorem updateWhere (hrefl : ∀ r, P r r) (hf : ∀ r ∈ rows, p r = true → P r (f r)) :
    Rowwise P rows (Rows.updateWhere p f rows) := by
  refine ⟨_, rfl, fun r hr => ?_⟩
  by_cases hp : p r = true
  · rw [if_pos hp]
    exact hf r hr hp
  · rw [if_neg hp]
    exact hrefl r

/-- What became of a row. -/
theorem kept (h : Rowwise P rows rows') (hr : r ∈ rows) : ∃ r' ∈ rows', P r r' := by
  obtain ⟨f, rfl, hf⟩ := h
  exact ⟨f r, List.mem_map_of_mem hr, hf r hr⟩

/-- Where a row comes from. -/
theorem origin (h : Rowwise P rows rows') (hs : s ∈ rows') : ∃ r ∈ rows, P r s := by
  obtain ⟨f, rfl, hf⟩ := h
  obtain ⟨r, hr, rfl⟩ := List.mem_map.mp hs
  exact ⟨r, hr, hf r hr⟩

/-- The keys stay, one for one. -/
theorem keys (hkey : ∀ r ∈ rows, ∀ s, P r s → key s = key r) (h : Rowwise P rows rows') :
    rows'.map key = rows.map key := by
  obtain ⟨f, rfl, hf⟩ := h
  rw [List.map_map]
  exact List.map_congr_left fun r hr => hkey r hr (f r) (hf r hr)

end Rowwise

end GenusOs.Rows
