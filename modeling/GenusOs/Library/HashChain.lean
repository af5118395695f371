import Mathlib

/-!
# Hash chains

A chain is a list of events of which each holds its position, the hash of its predecessor and the
hash of its own material. `Verified` is what a verifier checks from the first event on.

* `Verified.append_iff`, `Verified.concat_iff`: what a longer chain has to meet.
* `Verified.positions`: the positions count up without a gap.
* `Verified.material_eq`: with a hash free of collisions, two chains of one length that end in one
  hash hold the same material throughout.
-/

namespace GenusOs

/-- How a chain reads its events. -/
structure ChainView (ε μ η : Type*) where
  position : ε → Nat
  previous : ε → η
  hash : ε → η
  material : ε → μ
  digest : μ → η

namespace ChainView

variable {ε μ η : Type*} (V : ChainView ε μ η)

/-- The hash the next event has to name, after a chain that began with `h`. -/
def lastHash (h : η) (es : List ε) : η := (es.getLast?.map V.hash).getD h

/-- An event at its place in the chain. -/
structure Linked (n : Nat) (h : η) (e : ε) : Prop where
  position : V.position e = n
  previous : V.previous e = h
  hash : V.hash e = V.digest (V.material e)

/-- A chain from position `n` on, after the hash `h`. -/
def Verified : Nat → η → List ε → Prop
  | _, _, [] => True
  | n, h, e :: es => V.Linked n h e ∧ Verified (n + 1) (V.hash e) es

variable {V} {n : Nat} {h h' : η} {e e' : ε} {es fs : List ε}

@[simp] theorem lastHash_nil : V.lastHash h [] = h := rfl

@[simp] theorem lastHash_concat : V.lastHash h (es ++ [e]) = V.hash e := by
  simp [lastHash]

theorem lastHash_cons : V.lastHash h (e :: es) = V.lastHash (V.hash e) es := by
  rw [lastHash, lastHash, List.getLast?_cons]
  cases es.getLast? <;> rfl

namespace Verified

theorem append_iff : V.Verified n h (es ++ fs) ↔
    V.Verified n h es ∧ V.Verified (n + es.length) (V.lastHash h es) fs := by
  induction es generalizing n h with
  | nil => simp [Verified]
  | cons e es ih =>
    rw [List.cons_append, Verified, Verified, ih, and_assoc, lastHash_cons, List.length_cons,
      Nat.add_right_comm, Nat.add_assoc n]

theorem concat_iff : V.Verified n h (es ++ [e]) ↔
    V.Verified n h es ∧ V.Linked (n + es.length) (V.lastHash h es) e := by
  rw [append_iff]
  simp [Verified]

/-- Positions count up without a gap. -/
theorem positions (hv : V.Verified n h es) : es.map V.position = List.range' n es.length := by
  induction es generalizing n h with
  | nil => rfl
  | cons e es ih =>
    obtain ⟨hlinked, hrest⟩ := hv
    rw [List.map_cons, List.length_cons, List.range'_succ, hlinked.position, ih hrest]

/-- **Tamper evidence.** The last hash determines the material of the whole chain. -/
theorem material_eq
    (hdigest : ∀ e e', V.digest (V.material e) = V.digest (V.material e') →
      V.material e = V.material e')
    (hprevious : ∀ e e', V.material e = V.material e' → V.previous e = V.previous e')
    (hes : V.Verified n h es) (hfs : V.Verified n h fs) (hlength : es.length = fs.length)
    (hlast : V.lastHash h es = V.lastHash h fs) : es.map V.material = fs.map V.material := by
  induction es using List.reverseRecOn generalizing fs with
  | nil =>
    rw [List.eq_nil_of_length_eq_zero hlength.symm]
  | append_singleton es e ih =>
    rcases List.eq_nil_or_concat' fs with rfl | ⟨fs, f, rfl⟩
    · simp at hlength
    · obtain ⟨hes, he⟩ := concat_iff.mp hes
      obtain ⟨hfs, hf⟩ := concat_iff.mp hfs
      rw [lastHash_concat, lastHash_concat] at hlast
      have hmaterial : V.material e = V.material f := by
        apply hdigest
        rw [← he.hash, ← hf.hash, hlast]
      -- the material names the predecessor, so the chains before agree as well
      have hbefore : V.lastHash h es = V.lastHash h fs := by
        rw [← he.previous, ← hf.previous, hprevious e f hmaterial]
      have hlength' : es.length = fs.length := by
        simpa using hlength
      rw [List.map_append, List.map_append, ih hes hfs hlength' hbefore, List.map_singleton,
        List.map_singleton, hmaterial]

/-- Every hash of a chain is the one of its material. -/
theorem hashes (hv : V.Verified n h es) :
    es.map V.hash = es.map fun e => V.digest (V.material e) := by
  induction es generalizing n h with
  | nil => rfl
  | cons f es ih =>
    obtain ⟨hlinked, hrest⟩ := hv
    rw [List.map_cons, List.map_cons, hlinked.hash, ih hrest]

end Verified

end ChainView

end GenusOs
