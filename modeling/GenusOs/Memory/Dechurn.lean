import GenusOs.Library.Words
import GenusOs.Memory.Facts
import GenusOs.Python.Str
import Mathlib

/-!
# What the cleanup of near duplicates drops

`cluster_near_dup_losers` looks at the pairs of each entity's bucket on its own. Near duplication is
not transitive, so what a dropped fact duplicates may be dropped too; and a fact that names an
entity twice stands in that bucket twice, as its own duplicate.

* `mem_losers`: a loser names an entity twice, or has a newer near duplicate.
* `losers_chain`: from a loser, newer near duplicates lead to a fact that stays.
-/

namespace GenusOs.Memory

open Python

variable {T : Texts} {jaccard : Rat} {facts : List Fact}
    {f g x y : Fact} {entity : String} {id : Nat}

/-- `_norm_tokens`, `lower` being `str.lower`. -/
def normTokens (lower : String → String) (text : String) : Finset String :=
  let spaced := (lower text).toList.map fun c =>
    if ('a' ≤ c ∧ c ≤ 'z') ∨ ('0' ≤ c ∧ c ≤ '9') ∨ c = ' ' then c else ' '
  ((words isSpace spaced).map String.ofList).toFinset

/-- The Jaccard overlap of the tokens. -/
def overlap (T : Texts) (a b : Fact) : Rat :=
  let ta := T.normTokens a.factText
  let tb := T.normTokens b.factText
  ((ta ∩ tb).card : Rat) / (ta ∪ tb).card

theorem nearDuplicates_iff (hpos : 0 < jaccard) :
    nearDuplicates T jaccard f g = true ↔ jaccard ≤ overlap T f g := by
  unfold nearDuplicates overlap
  simp only [Bool.and_eq_true, decide_eq_true_eq]
  constructor
  · exact fun h => h.2
  · intro h
    -- without tokens the overlap is zero
    refine ⟨⟨?_, ?_⟩, h⟩
    · intro hempty
      rw [Finset.card_eq_zero.mp hempty, Finset.empty_inter, Finset.card_empty, Nat.cast_zero,
        zero_div] at h
      exact absurd h (not_le.mpr hpos)
    · intro hempty
      rw [Finset.card_eq_zero.mp hempty, Finset.inter_empty, Finset.card_empty, Nat.cast_zero,
        zero_div] at h
      exact absurd h (not_le.mpr hpos)

/-! ## Pairs of a bucket -/

theorem mem_pairs {α : Type} {l : List α} {x y : α} : (x, y) ∈ pairs l ↔ List.Sublist [x, y] l := by
  induction l with
  | nil => simp [pairs]
  | cons a l ih =>
    unfold pairs
    rw [List.mem_append, ih, List.mem_map]
    constructor
    · rintro (⟨b, hb, heq⟩ | hl)
      · obtain ⟨rfl, rfl⟩ := Prod.mk.inj heq
        exact List.cons_sublist_cons.mpr (List.singleton_sublist.mpr hb)
      · exact hl.cons a
    · intro h
      cases h with
      | cons _ h => exact .inr h
      | cons_cons _ h => exact .inl ⟨y, List.singleton_sublist.mp h, rfl⟩

theorem mem_bucket (h : f ∈ bucket facts entity) : f ∈ facts ∧ entity ∈ f.entities := by
  obtain ⟨g, hg, hf⟩ := List.mem_flatMap.mp h
  obtain ⟨e, he, rfl⟩ := List.mem_map.mp hf
  obtain ⟨he, heq⟩ := List.mem_filter.mp he
  exact ⟨hg, of_decide_eq_true heq ▸ he⟩

/-- A fact stands in a bucket as often as it names the entity. -/
theorem repeats_of_pair (hkeys : Rows.KeyUnique Fact.id facts)
    (h : List.Sublist [x, y] (bucket facts entity)) (hid : x.id = y.id) :
    x ∈ facts ∧ ¬ x.entities.Nodup := by
  induction facts with
  | nil => cases h
  | cons f facts ih =>
    obtain ⟨hnew, hkeys⟩ := List.nodup_cons.mp hkeys
    unfold bucket at h
    rw [List.flatMap_cons, List.sublist_append_iff] at h
    obtain ⟨own, rest, hsplit, hown, hrest⟩ := h
    have hcopies : ∀ z ∈ own, z = f := by
      intro z hz
      obtain ⟨e, -, rfl⟩ := List.mem_map.mp (hown.subset hz)
      rfl
    match own, hsplit with
    | [], hsplit =>
      rw [List.nil_append] at hsplit
      rw [← hsplit] at hrest
      obtain ⟨hmem, hrepeats⟩ := ih hkeys hrest
      exact ⟨List.mem_cons_of_mem f hmem, hrepeats⟩
    | [z], hsplit =>
      -- the other copy is another fact with the same id
      obtain ⟨rfl, rfl⟩ : x = z ∧ [y] = rest := by simpa using hsplit
      obtain rfl : x = f := hcopies x List.mem_cons_self
      have hy : y ∈ facts := (mem_bucket (hrest.subset List.mem_cons_self)).1
      exact absurd (hid ▸ List.mem_map_of_mem hy) hnew
    | z :: w :: own, hsplit =>
      obtain rfl : x = z := by simpa using (List.cons.inj hsplit).1
      obtain rfl : x = f := hcopies x List.mem_cons_self
      refine ⟨List.mem_cons_self, fun hnodup => ?_⟩
      have hlen := hown.length_le
      rw [List.length_map, ← List.countP_eq_length_filter] at hlen
      have hcount := List.nodup_iff_count_le_one.mp hnodup entity
      simp only [List.length_cons] at hlen
      have heq : x.entities.countP (fun e => decide (e = entity)) = x.entities.count entity := by
        unfold List.count
        congr 1
      omega

/-! ## Chains -/

/-- `g` is in the list, newer than `f`, shares an entity with it and overlaps it. -/
structure NewerDuplicate (T : Texts) (jaccard : Rat) (facts : List Fact) (f g : Fact) : Prop where
  mem : g ∈ facts
  newer : f.id < g.id
  shared : ∃ e, e ∈ f.entities ∧ e ∈ g.entities
  overlaps : jaccard ≤ overlap T f g

theorem overlap_comm (a b : Fact) : overlap T a b = overlap T b a := by
  unfold overlap
  dsimp only
  rw [Finset.inter_comm, Finset.union_comm]

/-- **A loser** names an entity twice, or has a newer near duplicate. -/
theorem mem_losers (hpos : 0 < jaccard) (hkeys : Rows.KeyUnique Fact.id facts)
    (h : id ∈ clusterNearDupLosers T jaccard facts) :
    ∃ f ∈ facts, f.id = id ∧
      (¬ f.entities.Nodup ∨ ∃ g, NewerDuplicate T jaccard facts f g) := by
  unfold clusterNearDupLosers at h
  rw [List.mem_insertionSort, List.mem_dedup, List.mem_flatMap] at h
  obtain ⟨entity, -, h⟩ := h
  obtain ⟨⟨x, y⟩, hpair, rfl⟩ := List.mem_map.mp h
  obtain ⟨hpair, hnear⟩ := List.mem_filter.mp hpair
  have hsub := mem_pairs.mp hpair
  obtain ⟨hx, hex⟩ := mem_bucket (hsub.subset List.mem_cons_self)
  obtain ⟨hy, hey⟩ := mem_bucket (hsub.subset (List.mem_cons_of_mem x List.mem_cons_self))
  have hover := (nearDuplicates_iff hpos).mp hnear
  dsimp only at hover ⊢
  rcases Nat.lt_trichotomy x.id y.id with hlt | heq | hlt
  · rw [Nat.min_eq_left hlt.le]
    exact ⟨x, hx, rfl, .inr ⟨y, hy, hlt, ⟨entity, hex, hey⟩, hover⟩⟩
  · rw [← heq, Nat.min_self]
    exact ⟨x, hx, rfl, .inl (repeats_of_pair hkeys hsub heq).2⟩
  · rw [Nat.min_eq_right hlt.le]
    exact ⟨y, hy, rfl, .inr ⟨x, hx, hlt, ⟨entity, hey, hex⟩, overlap_comm y x ▸ hover⟩⟩

/-- The last of a chain of newer near duplicates, where it is dropped, is dropped as its own
duplicate. -/
def OwnDuplicate (T : Texts) (jaccard : Rat) (facts : List Fact) (k : Fact) : Prop :=
  ¬ k.entities.Nodup ∧ ∀ g, ¬ NewerDuplicate T jaccard facts k g

/-- Newer near duplicates lead up to one that stays, or that is its own duplicate only. -/
theorem chain_from (hpos : 0 < jaccard) (hkeys : Rows.KeyUnique Fact.id facts) (hf : f ∈ facts) :
    ∃ k ∈ facts, Relation.ReflTransGen (NewerDuplicate T jaccard facts) f k ∧ f.id ≤ k.id ∧
      (k.id ∉ clusterNearDupLosers T jaccard facts ∨ OwnDuplicate T jaccard facts k) := by
  -- by how far the newest fact is ahead
  obtain ⟨newest, hnewest⟩ : ∃ newest, ∀ g ∈ facts, g.id ≤ newest :=
    ⟨(facts.map Fact.id).foldr max ⊥, fun g hg =>
      List.le_max_of_le (List.mem_map_of_mem hg) le_rfl⟩
  induction hd : newest - f.id using Nat.strong_induction_on generalizing f with
  | _ d ih =>
    by_cases hnext : ∃ g, NewerDuplicate T jaccard facts f g
    · obtain ⟨g, hg⟩ := hnext
      have hnew := hnewest g hg.mem
      have hlt := hg.newer
      obtain ⟨k, hk, hchain, hle, hend⟩ := ih (newest - g.id) (by omega) hg.mem rfl
      exact ⟨k, hk, .head hg hchain, hlt.le.trans hle, hend⟩
    rw [not_exists] at hnext
    refine ⟨f, hf, .refl, le_rfl, ?_⟩
    by_cases hlost : f.id ∈ clusterNearDupLosers T jaccard facts
    · obtain ⟨f', hf', hid, hcases⟩ := mem_losers hpos hkeys hlost
      obtain rfl : f' = f := hkeys.eq hf' hf hid
      exact .inr ⟨hcases.resolve_right fun ⟨g, hg⟩ => hnext g hg, hnext⟩
    · exact .inl hlost

/-- **What a dropped fact leaves behind.** A chain of newer near duplicates leads to a newer fact
that stays, or ends at one that names an entity twice and has no newer near duplicate. -/
theorem losers_chain (T : Texts) (jaccard : Rat) (facts : List Fact) (hpos : 0 < jaccard)
    (hkeys : Rows.KeyUnique Fact.id facts) :
    ∀ id ∈ clusterNearDupLosers T jaccard facts, ∃ f ∈ facts, f.id = id ∧
      ∃ k ∈ facts, Relation.ReflTransGen (NewerDuplicate T jaccard facts) f k ∧
        (k.id ∉ clusterNearDupLosers T jaccard facts ∧ f.id < k.id ∨
          OwnDuplicate T jaccard facts k) := by
  intro id hid
  obtain ⟨f, hf, rfl, -⟩ := mem_losers hpos hkeys hid
  obtain ⟨k, hk, hchain, hle, hend⟩ := chain_from hpos hkeys hf
  refine ⟨f, hf, rfl, k, hk, hchain, hend.imp_left fun hstays => ⟨hstays, ?_⟩⟩
  refine lt_of_le_of_ne hle fun heq => hstays ?_
  rwa [← heq]

/-! ### A text that is reworded twice -/

/-- The tokens of lower case texts. -/
def wordTexts : Texts where
  normTokens := normTokens fun text => text
  numbersDiffer _ _ := false
  computeFactHash text _ _ := text

/-- A fact about one entity. -/
def reworded (id : Nat) (factText : String) : Fact :=
  { id, tenantId := "acme", factText, category := "org", entities := ["office"] }

def rewordings : List Fact :=
  [reworded 1 "office moved to lisbon", reworded 2 "moved to lisbon today",
    reworded 3 "to lisbon today early"]

theorem rewordings_chain : ∃ f ∈ rewordings, f.id = 1 ∧ ∃ k ∈ rewordings,
    Relation.ReflTransGen (NewerDuplicate wordTexts (3 / 5) rewordings) f k ∧
      (k.id ∉ clusterNearDupLosers wordTexts (3 / 5) rewordings ∧ f.id < k.id ∨
        OwnDuplicate wordTexts (3 / 5) rewordings k) :=
  losers_chain wordTexts (3 / 5) rewordings (by norm_num) (by unfold Rows.KeyUnique; decide) 1
    (by decide +kernel)

/-- The oldest wording has one near duplicate, the second, and both are dropped. -/
theorem second_wording_dropped_too :
    ¬ ∀ id ∈ clusterNearDupLosers wordTexts (3 / 5) rewordings, ∃ f ∈ rewordings, f.id = id ∧
      ∃ g, NewerDuplicate wordTexts (3 / 5) rewordings f g ∧
        g.id ∉ clusterNearDupLosers wordTexts (3 / 5) rewordings := by
  have hlosers : clusterNearDupLosers wordTexts (3 / 5) rewordings = [1, 2] := by decide +kernel
  have hfar : overlap wordTexts (reworded 1 "office moved to lisbon")
      (reworded 3 "to lisbon today early") < 3 / 5 := by decide +kernel
  have hids : ∀ f ∈ rewordings, f.id = 1 → f = reworded 1 "office moved to lisbon" := by
    simp [rewordings, reworded]
  have hlast : ∀ g ∈ rewordings, g.id ∉ [1, 2] → g = reworded 3 "to lisbon today early" := by
    simp [rewordings, reworded]
  rw [hlosers]
  intro h
  obtain ⟨f, hf, hid, g, hdup, hstays⟩ := h 1 List.mem_cons_self
  obtain rfl := hids f hf hid
  obtain rfl := hlast g hdup.mem hstays
  exact absurd hdup.overlaps (not_le.mpr hfar)

/-- A fact that names its entity twice is dropped for itself. -/
example : clusterNearDupLosers wordTexts (9 / 10)
    [{ reworded 1 "office moved" with entities := ["office", "office"] }] = [1] := by
  decide +kernel

end GenusOs.Memory
