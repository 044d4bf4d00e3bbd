import Deviant.Sapling.WitnessCache

namespace Deviant.Sapling

open Data List
open IncrementalMerkleTree (appendAll)

/-! The number of leaves as `size` reads it off the spine.  The literal `1` it shifts is an `int`,
so at the highest level of a Sapling tree the shift reaches the sign bit, and the negative word is
widened to `size_t`. -/

variable {H : Type} {hash : MerkleHash H}

/-- `1 << level`, converted to `size_t` when it is added. -/
def shiftedOne (level : Nat) : BitVec 64 := ((1#32) <<< level).signExtend 64

/-- The loop of `size` over the parents from `level` on. -/
def sizeFrom : (parents : List (Option H)) → (level : Nat) → (ret : BitVec 64) → BitVec 64
  | [], _, ret => ret
  | parent :: parents, level, ret =>
    sizeFrom parents (level + 1) (if parent.isSome then ret + shiftedOne level else ret)

def oneIf (leaf : Option H) : BitVec 64 := if leaf.isSome then 1 else 0

def IncrementalMerkleTree.size (tree : IncrementalMerkleTree H) : BitVec 64 :=
  sizeFrom tree.parents 1 (oneIf tree.left + oneIf tree.right)

def IncrementalWitness.position (witness : IncrementalWitness H) :
    BitVec 64 := witness.tree.size - 1

/-- What the sign bit takes away from a spine that ends at level `top`. -/
def signLoss (top : Nat) : BitVec 64 := if top = 32 then 2 ^ 32 else 0

theorem shiftedOne_eq :
    ∀ level < 32, shiftedOne level = BitVec.ofNat 64 (2 ^ level) - signLoss (level + 1) := by
  decide

theorem Spine.sizeFrom {ret : BitVec 64} (spine : Spine hash d parents front)
    (canonical : parents.getLast? ≠ some none) (nonempty : parents ≠ [])
    (low : d + parents.length ≤ 32) :
    sizeFrom parents d ret = ret + BitVec.ofNat 64 front.length -
      signLoss (d + parents.length) := by
  induction spine generalizing ret with
  | nil d => exact absurd rfl nonempty
  | @skip d parents front above ih =>
    rw [height_cons] at low ⊢
    cases parents with
    | nil => exact absurd rfl canonical
    | cons parent parents => exact ih (by simpa using canonical) (cons_ne_nil _ _) low
  | @hold d parents front block full above ih =>
    rw [height_cons] at low ⊢
    have here := shiftedOne_eq d (by omega)
    cases parents with
    | nil =>
      cases above
      simp only [Sapling.sizeFrom, here, Option.isSome_some, if_true, nil_append, full]
      exact (add_sub_assoc _ _ _).symm
    | cons parent parents =>
      -- only the highest parent can reach the sign bit
      have inner : signLoss (d + 1) = 0 := if_neg (by simp at low; omega)
      rw [length_append, full, BitVec.ofNat_add, Sapling.sizeFrom,
        ih (by simpa using canonical) (cons_ne_nil _ _) low, Option.isSome_some,
        if_pos rfl, here, inner]
      ring

theorem Newest.count (newest : Newest left right pair) :
    oneIf left + oneIf right = BitVec.ofNat 64 pair.length := by
  cases newest <;> rfl

theorem Newest.length_le (newest : Newest left right pair) : pair.length ≤ 2 := by
  cases newest <;> simp

theorem Represents.size (holds : Represents hash tree front pair) (low : 1 + tree.parents.length ≤ 32) :
    tree.size = BitVec.ofNat 64 (front ++ pair).length - signLoss (1 + tree.parents.length) := by
  rw [IncrementalMerkleTree.size, holds.newest.count, length_append, BitVec.ofNat_add]
  obtain ⟨left, right, parents⟩ := tree
  cases parents with
  | nil =>
    cases holds.spine
    simp [sizeFrom, signLoss]
  | cons parent parents =>
    rw [holds.spine.sizeFrom holds.canonical (cons_ne_nil _ _) low]
    ring

/-- The highest parent is there from the leaf on that no longer fits below it. -/
theorem Represents.top_iff (holds : Represents hash tree front pair)
    (fits : (front ++ pair).length ≤ 2 ^ 32) :
    1 + tree.parents.length = 32 ↔ 2 ^ 31 < (front ++ pair).length := by
  have most := holds.spine.length_add_le
  have few := holds.parents_lt (by decide) fits
  constructor
  · intro top
    by_contra small
    have := holds.parents_lt (show 1 ≤ 31 by decide) (not_lt.mp small)
    omega
  · intro large
    have short := holds.newest.length_le
    rw [length_append] at large
    have above : 31 < 1 + tree.parents.length :=
      (Nat.pow_lt_pow_iff_right (show 1 < 2 by decide)).mp (by omega)
    omega

theorem appendAll_size (hash : MerkleHash H) {leaves : List H} (fits : leaves.length ≤ 2 ^ 32) :
    ∃ tree, appendAll hash saplingTreeDepth leaves = .ok tree ∧
      tree.size = BitVec.ofNat 64 leaves.length - if 2 ^ 31 < leaves.length then 2 ^ 32 else 0 := by
  obtain ⟨tree, front, pair, built, holds, rfl, -⟩ :=
    appendAll_represents hash (show 1 ≤ 32 by decide) fits
  have few := holds.parents_lt (show 1 ≤ 32 by decide) fits
  refine ⟨tree, built, ?_⟩
  rw [holds.size (by omega), signLoss]
  simp only [holds.top_iff fits]

/-- A full half of the Sapling tree can be counted, and not one leaf more. -/
theorem notePosition_exact_iff (hash : MerkleHash H) (leaves : List H)
    (fits : leaves.length ≤ 2 ^ saplingTreeDepth) :
    ∃ tree, appendAll hash saplingTreeDepth leaves = .ok tree ∧
      ((tree.size.toNat = leaves.length ∧
        (leaves ≠ [] → tree.witness.position.toNat = leaves.length - 1)) ↔
        leaves.length ≤ 2 ^ 31) := by
  obtain ⟨tree, built, size⟩ := appendAll_size hash fits
  refine ⟨tree, built, ?_⟩
  rw [IncrementalMerkleTree.witness, IncrementalWitness.position, size]
  change leaves.length ≤ 2 ^ 32 at fits
  constructor
  · rintro ⟨counted, -⟩
    by_contra large
    have loss : ((2 : BitVec 64) ^ 32).toNat = 2 ^ 32 := by decide
    rw [if_pos (not_le.mp large), BitVec.toNat_sub, BitVec.toNat_ofNat, loss] at counted
    omega
  · intro small
    rw [if_neg (not_lt.mpr small)]
    have counted : (BitVec.ofNat 64 leaves.length - 0).toNat = leaves.length := by
      simp
      omega
    refine ⟨counted, fun started => ?_⟩
    have := length_pos_iff.mpr started
    rw [BitVec.toNat_sub, counted]
    simp
    omega

theorem notePosition_exact_three :
    ∃ tree, appendAll sampleHash saplingTreeDepth [5, 6, 7] = .ok tree ∧ tree.size.toNat = 3 ∧
      tree.witness.position.toNat = 2 := by
  obtain ⟨tree, built, iff⟩ := notePosition_exact_iff sampleHash [5, 6, 7] (by decide)
  obtain ⟨size, position⟩ := iff.mpr (by decide)
  exact ⟨tree, built, size, position (by simp)⟩

/-- One leaf more than half of the tree and `size` is a number just below `2 ^ 64`. -/
theorem size_past_half :
    ∃ tree, appendAll sampleHash saplingTreeDepth (replicate (2 ^ 31 + 1) 5) = .ok tree ∧
      tree.size.toNat = 2 ^ 64 - 2 ^ 31 + 1 ∧ tree.witness.position.toNat = 2 ^ 64 - 2 ^ 31 := by
  obtain ⟨tree, built, size⟩ := @appendAll_size _ sampleHash (replicate (2 ^ 31 + 1) 5)
    (by rw [length_replicate]; decide)
  rw [length_replicate] at size
  refine ⟨tree, built, ?_⟩
  rw [IncrementalMerkleTree.witness, IncrementalWitness.position, size]
  decide

end Deviant.Sapling
