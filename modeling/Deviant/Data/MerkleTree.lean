import Mathlib.Algebra.Order.Ring.Nat
import Mathlib.Data.Nat.Bitwise
import Mathlib.Tactic.Ring

namespace Deviant.Data

open List

/-! Complete binary hash trees over a list of leaves, padded with uncommitted leaves.

The hash of two subtrees of height `d` is taken with `d` as a third argument.  The table of the
roots of empty subtrees comes with the hash and carries its own recurrence. -/

structure MerkleHash (H : Type) where
  combine : H → H → (depth : Nat) → H
  uncommitted : H
  emptyRoot : Nat → H
  emptyRoot_zero : emptyRoot 0 = uncommitted
  emptyRoot_succ : ∀ d, emptyRoot (d + 1) = combine (emptyRoot d) (emptyRoot d) d

namespace MerkleHash

variable {H : Type} (hash : MerkleHash H)

/-- The root of the complete tree of height `d` that holds the first `2 ^ d` of `leaves` from left
to right, and uncommitted leaves behind the last of them. -/
def root : (d : Nat) → (leaves : List H) → H
  | 0, leaves => leaves.headD hash.uncommitted
  | d + 1, leaves => hash.combine (root d (leaves.take (2 ^ d))) (root d (leaves.drop (2 ^ d))) d

@[simp] theorem root_nil : hash.root d [] = hash.emptyRoot d := by
  induction d with
  | zero => exact hash.emptyRoot_zero.symm
  | succ d ih => simp [root, ih, hash.emptyRoot_succ]

theorem root_succ_of_le {d : Nat} {leaves : List H} (short : leaves.length ≤ 2 ^ d) :
    hash.root (d + 1) leaves = hash.combine (hash.root d leaves) (hash.emptyRoot d) d := by
  rw [root, take_of_length_le short, drop_of_length_le short, root_nil]

theorem root_succ_append {d : Nat} {block : List H} (tail : List H) (full : block.length = 2 ^ d) :
    hash.root (d + 1) (block ++ tail) = hash.combine (hash.root d block) (hash.root d tail) d := by
  rw [root, take_left' full, drop_left' full]

/-! A subtree that grows to the right: `covered` are the leaves under it, `rest` those still to
come.  Nothing is to come while it has room. -/

structure Covers (d : Nat) (top : H) (covered rest : List H) : Prop where
  root : top = hash.root d covered
  size : covered.length ≤ 2 ^ d
  full : covered.length < 2 ^ d → rest = []

variable {hash} {d : Nat} {top : H} {covered rest : List H}

theorem Covers.right (covers : hash.Covers d top covered rest) {sibling : H}
    (next : sibling = hash.root d (rest.take (2 ^ d))) :
    hash.Covers (d + 1) (hash.combine top sibling d) (covered ++ rest.take (2 ^ d))
      (rest.drop (2 ^ d)) := by
  subst next
  cases covers.size.lt_or_eq with
  | inl room =>
    obtain rfl := covers.full room
    refine ⟨?_, by simp; omega, by simp⟩
    simp [hash.root_succ_of_le covers.size, covers.root]
  | inr full =>
    refine ⟨?_, by simp; omega, fun room => ?_⟩
    · rw [hash.root_succ_append _ full, covers.root]
    · have short : rest.length ≤ 2 ^ d := by
        simp only [length_append, length_take, full] at room
        omega
      exact drop_of_length_le short

theorem Covers.left (covers : hash.Covers d top covered rest) {block : List H}
    (full : block.length = 2 ^ d) :
    hash.Covers (d + 1) (hash.combine (hash.root d block) top d) (block ++ covered) rest := by
  have size := covers.size
  refine ⟨?_, by simp; omega, fun room => covers.full ?_⟩
  · rw [hash.root_succ_append _ full, covers.root]
  · simp only [length_append, full] at room
    omega

theorem Covers.whole (covers : hash.Covers d top covered rest)
    (fits : (covered ++ rest).length ≤ 2 ^ d) :
    top = hash.root d (covered ++ rest) := by
  have nothing : rest = [] := by
    cases covers.size.lt_or_eq with
    | inl room => exact covers.full room
    | inr full =>
      rw [length_append] at fits
      exact eq_nil_of_length_eq_zero (by omega)
  rw [nothing, append_nil]
  exact covers.root

/-! Authentication paths, lowest sibling first; a set bit says that the sibling is on the left. -/

variable (hash)

def foldPath : (d : Nat) → (element : H) → (path : List (Bool × H)) → H
  | _, element, [] => element
  | d, element, (true, sibling) :: path => foldPath (d + 1) (hash.combine sibling element d) path
  | d, element, (false, sibling) :: path => foldPath (d + 1) (hash.combine element sibling d) path

theorem foldPath_append :
    hash.foldPath d element (low ++ high) = hash.foldPath (d + low.length)
      (hash.foldPath d element low) high := by
  induction low generalizing d element with
  | nil => rfl
  | cons step low ih =>
    obtain ⟨bit, sibling⟩ := step
    cases bit <;> simp only [cons_append, foldPath, ih, length_cons] <;>
      rw [show d + 1 + low.length = d + (low.length + 1) by omega]

end MerkleHash

theorem testBit_digit {d low : Nat} (high : Nat) (bit : Bool) (small : low < 2 ^ d) :
    (2 ^ (d + 1) * high + (2 ^ d * bit.toNat + low)).testBit d = bit := by
  have quotient : (2 ^ (d + 1) * high + (2 ^ d * bit.toNat + low)) / 2 ^ d = 2 * high + bit.toNat := by
    rw [show 2 ^ (d + 1) * high + (2 ^ d * bit.toNat + low) = low +
      2 ^ d * (2 * high + bit.toNat) by ring,
      Nat.add_mul_div_left _ _ (Nat.two_pow_pos d), Nat.div_eq_of_lt small, Nat.zero_add]
  rw [Nat.testBit_eq_decide_div_mod_eq, quotient]
  cases bit <;> simp

end Deviant.Data
