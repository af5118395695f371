import Mathlib

/-!
# Least closures over a finite table

`closure links members rows` is what a `WITH RECURSIVE … UNION` returns: the rows to start from and
every row of the table that a chain of links leads to. Each round moves the rows that are linked
from what was found so far out of the table, so a table of `n` rows is exhausted after `n` rounds.

* `mem_closure_iff`: the closure is reachability along links inside of the table.
-/

namespace GenusOs

variable {α : Type*}

/-- The rounds of a recursive query, at most as many as there are rows left. -/
def closureWithin (links : α → α → Bool) : Nat → List α → List α → List α
  | 0, members, _ => members
  | rounds + 1, members, rows =>
    closureWithin links rounds (members ++ rows.filter fun r => members.any (links · r))
      (rows.filter fun r => !members.any (links · r))

def closure (links : α → α → Bool) (members rows : List α) : List α :=
  closureWithin links rows.length members rows

/-- One link inside of a table. -/
def LinkedIn (links : α → α → Bool) (rows : List α) (a b : α) : Prop :=
  links a b = true ∧ b ∈ rows

variable {links : α → α → Bool} {members rows : List α} {a b : α}

theorem members_subset_closureWithin (rounds : Nat) :
    members ⊆ closureWithin links rounds members rows := by
  induction rounds generalizing members rows with
  | zero => exact List.Subset.refl _
  | succ rounds ih => exact List.Subset.trans (List.subset_append_left _ _) ih

/-- The rounds add rows of the table only, and each along a chain of links. -/
theorem closureWithin_sound {rounds : Nat} (h : b ∈ closureWithin links rounds members rows) :
    ∃ a ∈ members, Relation.ReflTransGen (LinkedIn links rows) a b := by
  induction rounds generalizing members rows with
  | zero => exact ⟨b, h, .refl⟩
  | succ rounds ih =>
    obtain ⟨c, hc, hpath⟩ := ih h
    have hpath' : Relation.ReflTransGen (LinkedIn links rows) c b := by
      refine Relation.ReflTransGen.mono ?_ _ _ hpath
      intro x y hxy
      exact ⟨hxy.1, (List.mem_filter.mp hxy.2).1⟩
    rcases List.mem_append.mp hc with hc | hc
    · exact ⟨c, hc, hpath'⟩
    · obtain ⟨hrow, hlinked⟩ := List.mem_filter.mp hc
      obtain ⟨a, ha, hlink⟩ := List.any_eq_true.mp hlinked
      exact ⟨a, ha, .head ⟨hlink, hrow⟩ hpath'⟩

/-- With a round for every row nothing that is linked is left behind. -/
theorem closureWithin_closed {rounds : Nat} (hrounds : rows.length ≤ rounds)
    (ha : a ∈ closureWithin links rounds members rows) (hlink : LinkedIn links rows a b) :
    b ∈ closureWithin links rounds members rows := by
  induction rounds generalizing members rows with
  | zero =>
    have hnil : rows = [] := List.eq_nil_of_length_eq_zero (Nat.le_zero.mp hrounds)
    rw [hnil] at hlink
    cases hlink.2
  | succ rounds ih =>
    by_cases hfound : b ∈ rows.filter fun r => members.any (links · r)
    · exact members_subset_closureWithin rounds (List.mem_append_right _ hfound)
    · have hleft : b ∈ rows.filter fun r => !members.any (links · r) := by
        apply List.mem_filter.mpr
        refine ⟨hlink.2, ?_⟩
        have := mt (fun hany => List.mem_filter.mpr ⟨hlink.2, hany⟩) hfound
        simpa using this
      by_cases hshrinks : (rows.filter fun r => !members.any (links · r)).length ≤ rounds
      · exact ih hshrinks ha ⟨hlink.1, hleft⟩
      · -- nothing was found in this round, so the members are closed already
        have hall : ∀ r ∈ rows, (!members.any (links · r)) = true := by
          apply List.filter_eq_self.mp
          apply List.filter_sublist.eq_of_length_le
          omega
        have hnone : ∀ (n : Nat) (rest : List α), (∀ r ∈ rest, r ∈ rows) →
            closureWithin links n members rest ⊆ members := by
          intro n
          induction n with
          | zero => exact fun _ _ => List.Subset.refl _
          | succ n ihn =>
            intro rest hrest
            have hempty : (rest.filter fun r => members.any (links · r)) = [] := by
              apply List.filter_eq_nil_iff.mpr
              intro r hr
              simpa using hall r (hrest r hr)
            unfold closureWithin
            rw [hempty, List.append_nil]
            exact ihn _ fun r hr => hrest r (List.mem_filter.mp hr).1
        have hmember := hnone (rounds + 1) rows (fun _ hr => hr) ha
        have hfree := hall b hlink.2
        rw [Bool.not_eq_true', List.any_eq_false] at hfree
        exact absurd hlink.1 (hfree a hmember)

/-- **The closure is reachability along links inside of the table.** -/
theorem mem_closure_iff :
    b ∈ closure links members rows ↔
      ∃ a ∈ members, Relation.ReflTransGen (LinkedIn links rows) a b := by
  constructor
  · exact closureWithin_sound
  · rintro ⟨a, ha, hpath⟩
    induction hpath with
    | refl => exact members_subset_closureWithin _ ha
    | tail _ hlink ih => exact closureWithin_closed (Nat.le_refl _) ih hlink

/-- Rows that nothing in the table links to are out of reach. -/
theorem closure_append_unlinked {row : α} (hmembers : members ⊆ rows)
    (hfree : ∀ r ∈ rows, links r row = false) :
    b ∈ closure links members (rows ++ [row]) ↔ b ∈ closure links members rows := by
  rw [mem_closure_iff, mem_closure_iff]
  constructor
  · rintro ⟨a, ha, hpath⟩
    refine ⟨a, ha, ?_⟩
    -- every row on the way is an old one, so no link leads to the new row
    have hold : Relation.ReflTransGen (LinkedIn links rows) a b ∧ b ∈ rows := by
      induction hpath with
      | refl => exact ⟨.refl, hmembers ha⟩
      | @tail b c _ hlink ih =>
        obtain ⟨hleads, hrow⟩ := ih
        have hin : c ∈ rows := by
          rcases List.mem_append.mp hlink.2 with h | h
          · exact h
          · have hlinked := hlink.1
            rw [List.mem_singleton.mp h, hfree b hrow] at hlinked
            cases hlinked
        exact ⟨hleads.tail ⟨hlink.1, hin⟩, hin⟩
    exact hold.1
  · rintro ⟨a, ha, hpath⟩
    refine ⟨a, ha, Relation.ReflTransGen.mono ?_ _ _ hpath⟩
    intro x y hxy
    exact ⟨hxy.1, List.mem_append_left _ hxy.2⟩

end GenusOs
