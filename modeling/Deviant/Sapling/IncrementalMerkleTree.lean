import Deviant.Data.MerkleTree
import Deviant.Primitives.Transaction
import Deviant.Serialize.Serialize

namespace Deviant.Sapling

open Data List

/-! The incremental Merkle tree (`sapling/incrementalmerkletree.cpp`): two leaves and the collapsed
subtrees to their left. -/

structure IncrementalMerkleTree (H : Type) where
  left : Option H := none
  right : Option H := none
  parents : List (Option H) := []
deriving DecidableEq

inductive TreeError where
  | treeIsFull
  | treeHasNoCursor
  | noPathAtBeginning
deriving DecidableEq

variable {H : Type} (hash : MerkleHash H)

/-- `PathFiller::next`: the queue first, then the roots of empty subtrees. -/
def nextFiller (depth : Nat) : List H → H × List H
  | [] => (hash.emptyRoot depth, [])
  | h :: queue => (h, queue)

def leafOrFiller (leaf : Option H) (queue : List H) : H × List H :=
  match leaf with
  | some h => (h, queue)
  | none => nextFiller hash 0 queue

/-- The loop of `root` over the parents. -/
def climb : (parents : List (Option H)) → (d : Nat) → (root : H) → (queue : List H) → H × List H
  | [], _, root, queue => (root, queue)
  | some parent :: parents, d, root, queue =>
    climb parents (d + 1) (hash.combine parent root d) queue
  | none :: parents, d, root, queue =>
    climb parents (d + 1) (hash.combine root (nextFiller hash d queue).1 d) (nextFiller hash d queue).2

/-- The loop of `root` above the parents, `count` levels high. -/
def extend : (count d : Nat) → (root : H) → (queue : List H) → H
  | 0, _, root, _ => root
  | count + 1, d, root, queue =>
    extend count (d + 1) (hash.combine root (nextFiller hash d queue).1 d) (nextFiller hash d queue).2

/-- The loop of `append` over at most `room` levels. -/
def carry : (room i : Nat) → (combined : H) → (parents : List (Option H)) → List (Option H)
  | 0, _, _, parents => parents
  | _ + 1, _, combined, [] => [some combined]
  | _ + 1, _, combined, none :: parents => some combined :: parents
  | room + 1, i, combined, some parent :: parents =>
    none :: carry room (i + 1) (hash.combine parent combined (i + 1)) parents

namespace IncrementalMerkleTree

variable (tree : IncrementalMerkleTree H)

def last : Except TreeError H :=
  match tree.right, tree.left with
  | some h, _ => .ok h
  | none, some h => .ok h
  | none, none => .error .treeHasNoCursor

def isComplete (depth : Nat) : Bool :=
  tree.left.isSome && tree.right.isSome && tree.parents.length == depth - 1 &&
    tree.parents.all Option.isSome

def append (depth : Nat) (tree : IncrementalMerkleTree H) (obj : H) :
    Except TreeError (IncrementalMerkleTree H) :=
  if tree.isComplete depth then .error .treeIsFull
  else
    match tree.left, tree.right with
    | none, _ => .ok { tree with left := some obj }
    | some _, none => .ok { tree with right := some obj }
    | some left, some right =>
      .ok {
        left := some obj, right := none
        parents := carry hash depth 0 (hash.combine left right 0) tree.parents }

def root (depth : Nat) (fillerHashes : List H) : H :=
  let left := leafOrFiller hash tree.left fillerHashes
  let right := leafOrFiller hash tree.right left.2
  let collapsed := climb hash tree.parents 1 (hash.combine left.1 right.1 0) right.2
  extend hash (depth - (1 + tree.parents.length)) (1 + tree.parents.length) collapsed.1 collapsed.2

def appendAll (depth : Nat) (leaves : List H) : Except TreeError (IncrementalMerkleTree H) :=
  leaves.foldlM (append hash depth) {}

end IncrementalMerkleTree

/-! `Spine d parents front` says that the parents from level `d` on hold exactly the leaves
`front`. -/

inductive Spine : (d : Nat) → (parents : List (Option H)) → (front : List H) → Prop
  | nil (d : Nat) : Spine d [] []
  | skip {d : Nat} {parents : List (Option H)} {front : List H} (above : Spine (d + 1) parents front) :
      Spine d (none :: parents) front
  | hold {d : Nat} {parents : List (Option H)} {front block : List H} (full : block.length = 2 ^ d)
      (above : Spine (d + 1) parents front) :
      Spine d (some (hash.root d block) :: parents) (front ++ block)

inductive Newest : (left right : Option H) → (pair : List H) → Prop
  | empty : Newest none none []
  | one (a : H) : Newest (some a) none [a]
  | two (a b : H) : Newest (some a) (some b) [a, b]

structure Represents (tree : IncrementalMerkleTree H) (front pair : List H) : Prop where
  spine : Spine hash 1 tree.parents front
  newest : Newest tree.left tree.right pair
  started : pair = [] → front = []
  canonical : tree.parents.getLast? ≠ some none

variable {hash} {d : Nat} {parents : List (Option H)} {front : List H}

theorem height_cons : d + (parent :: parents).length = d + 1 + parents.length := by
  rw [length_cons, ← Nat.add_assoc, Nat.add_right_comm]

namespace Spine

variable (spine : Spine hash d parents front)

include spine

theorem length_add_le : front.length + 2 ^ d ≤ 2 ^ (d + parents.length) := by
  induction spine with
  | nil d => simp
  | @skip d parents front above ih =>
    rw [height_cons]
    rw [pow_succ] at ih
    omega
  | @hold d parents front block full above ih =>
    rw [height_cons, length_append, full]
    omega

theorem all_isSome_iff :
    parents.all Option.isSome = true ↔ front.length + 2 ^ d = 2 ^ (d + parents.length) := by
  induction spine with
  | nil d => simp
  | @skip d parents front above ih =>
    have bound := above.length_add_le
    rw [height_cons]
    have positive := Nat.two_pow_pos d
    simp only [all_cons, Option.isSome_none, Bool.false_and, Bool.false_eq_true, false_iff]
    omega
  | @hold d parents front block full above ih =>
    rw [height_cons, length_append, full, Nat.add_assoc, ← Nat.two_mul, ← pow_succ']
    simpa using ih

theorem le_length (canonical : parents.getLast? ≠ some none) (nonempty : parents ≠ []) :
    2 ^ (d + parents.length) ≤ 2 * front.length := by
  induction spine with
  | nil d => exact absurd rfl nonempty
  | @skip d parents front above ih =>
    cases parents with
    | nil => exact absurd rfl canonical
    | cons parent parents =>
      rw [height_cons]
      exact ih (by simpa using canonical) (cons_ne_nil _ _)
  | @hold d parents front block full above ih =>
    rw [height_cons, length_append, full]
    cases parents with
    | nil =>
      rw [length_nil, Nat.add_zero, pow_succ]
      omega
    | cons parent parents =>
      have := ih (by simpa using canonical) (cons_ne_nil _ _)
      omega

theorem dvd_length : 2 ^ d ∣ front.length := by
  induction spine with
  | nil d => simp
  | skip above ih => exact (pow_dvd_pow 2 (Nat.le_succ _)).trans ih
  | hold full above ih =>
    rw [length_append, full]
    exact Nat.dvd_add ((pow_dvd_pow 2 (Nat.le_succ _)).trans ih) (dvd_refl _)

theorem carry {room i : Nat} {block : List H} (level : d = i + 1) (full : block.length = 2 ^ d)
    (enough : parents.length < room) :
    Spine hash d (carry hash room i (hash.root d block) parents) (front ++ block) := by
  induction spine generalizing room i block with
  | nil d =>
    obtain ⟨room, rfl⟩ : ∃ n, room = n + 1 := ⟨room - 1, by simp at enough; omega⟩
    exact .hold full (.nil _)
  | skip above ih =>
    obtain ⟨room, rfl⟩ : ∃ n, room = n + 1 := ⟨room - 1, by omega⟩
    exact .hold full above
  | @hold d parents front older sized above ih =>
    obtain ⟨room, rfl⟩ : ∃ n, room = n + 1 := ⟨room - 1, by omega⟩
    have both : (older ++ block).length = 2 ^ (d + 1) := by
      rw [length_append, sized, full, pow_succ]
      omega
    have above' := @ih room (i + 1) (older ++ block) (by omega) both (by simpa using enough)
    rw [hash.root_succ_append block sized, ← append_assoc] at above'
    subst level
    exact .skip above'

end Spine

theorem carry_getLast? (canonical : parents.getLast? ≠ some none) (enough : parents.length < room) :
    carry hash room i combined parents ≠ [] ∧
      (carry hash room i combined parents).getLast? ≠ some none := by
  induction parents generalizing room i combined with
  | nil =>
    obtain ⟨room, rfl⟩ : ∃ n, room = n + 1 := ⟨room - 1, by simp at enough; omega⟩
    simp [carry]
  | cons parent parents ih =>
    obtain ⟨room, rfl⟩ : ∃ n, room = n + 1 := ⟨room - 1, by omega⟩
    cases parent with
    | none =>
      refine ⟨cons_ne_nil _ _, ?_⟩
      cases parents with
      | nil => simp [carry]
      | cons parent parents => simpa [carry] using canonical
    | some parent =>
      have tail : parents.getLast? ≠ some none := by
        cases parents with
        | nil => simp
        | cons parent parents => simpa using canonical
      obtain ⟨nonempty, last⟩ :=
        @ih room (i + 1) (hash.combine parent combined (i + 1)) tail (by simpa using enough)
      refine ⟨cons_ne_nil _ _, ?_⟩
      rw [carry, List.getLast?_cons_of_ne_nil nonempty]
      exact last

namespace Represents

variable {tree : IncrementalMerkleTree H} {pair : List H} {depth : Nat}

variable (holds : Represents hash tree front pair)

include holds

theorem parents_lt (positive : 1 ≤ depth) (fits : (front ++ pair).length ≤ 2 ^ depth) :
    tree.parents.length < depth := by
  by_cases none : tree.parents = []
  · simp only [none, length_nil]
    omega
  · have bound := holds.spine.le_length holds.canonical none
    have nonempty : pair ≠ [] := by
      intro missing
      rw [holds.started missing, length_nil] at bound
      have := Nat.two_pow_pos (1 + tree.parents.length)
      omega
    have newest := length_pos_iff.mpr nonempty
    rw [length_append] at fits
    rw [Nat.add_comm, pow_succ] at bound
    exact (Nat.pow_lt_pow_iff_right (show 1 < 2 by decide)).mp (by omega)

theorem isComplete_iff (positive : 1 ≤ depth) :
    tree.isComplete depth = true ↔ (front ++ pair).length = 2 ^ depth := by
  have most := holds.spine.length_add_le
  have all := holds.spine.all_isSome_iff
  have even := holds.spine.dvd_length
  obtain ⟨depth, rfl⟩ : ∃ n, depth = n + 1 := ⟨depth - 1, by omega⟩
  obtain ⟨left, right, parents⟩ := tree
  simp only [length_append, pow_one] at *
  cases holds.newest with
  | empty =>
    rw [holds.started rfl]
    simpa [IncrementalMerkleTree.isComplete] using (Nat.two_pow_pos (depth + 1)).ne
  | one a =>
    have odd : front.length + 1 ≠ 2 ^ (depth + 1) := by
      omega
    simpa [IncrementalMerkleTree.isComplete] using odd
  | two a b =>
    simp only [IncrementalMerkleTree.isComplete, Option.isSome_some, Bool.true_and,
      Bool.and_eq_true, beq_iff_eq, length_cons, length_nil, Nat.add_sub_cancel, all]
    constructor
    · rintro ⟨height, present⟩
      rw [height, Nat.add_comm 1 depth] at present
      exact present
    · intro full
      have height : parents.length = depth := by
        have below : parents.length < depth + 1 :=
          holds.parents_lt (Nat.succ_le_succ (Nat.zero_le depth)) (by simp [full])
        have above : depth + 1 ≤ 1 + parents.length := by
          refine (Nat.pow_le_pow_iff_right (show 1 < 2 by decide)).mp ?_
          omega
        omega
      exact ⟨height, by rw [height, Nat.add_comm 1 depth]; exact full⟩

theorem append (positive : 1 ≤ depth) (fits : (front ++ pair).length ≤ 2 ^ depth) (obj : H) :
    if (front ++ pair).length = 2 ^ depth then tree.append hash depth obj = .error .treeIsFull
    else ∃ tree' front' pair', tree.append hash depth obj = .ok tree' ∧
      Represents hash tree' front' pair' ∧ front' ++ pair' = front ++ pair ++ [obj] ∧
      pair' ≠ [] := by
  have few := holds.parents_lt positive fits
  split
  case isTrue full =>
    rw [IncrementalMerkleTree.append, if_pos ((holds.isComplete_iff positive).mpr full)]
  case isFalse room =>
    have open' : ¬ tree.isComplete depth = true := fun complete =>
      room ((holds.isComplete_iff positive).mp complete)
    obtain ⟨left, right, parents⟩ := tree
    unfold IncrementalMerkleTree.append
    rw [if_neg open']
    cases holds.newest with
    | empty =>
      exact ⟨_, front, [obj], rfl,
        ⟨holds.spine, .one obj, by simp, holds.canonical⟩, by simp, by simp⟩
    | one a =>
      exact ⟨_, front, [a, obj], rfl,
        ⟨holds.spine, .two a obj, by simp, holds.canonical⟩, by simp, by simp⟩
    | two a b =>
      have spine : Spine hash 1 (carry hash depth 0 (hash.root 1 [a, b]) parents) (front ++ [a, b]) :=
        holds.spine.carry rfl rfl few
      exact ⟨_, front ++ [a, b], [obj], rfl,
        ⟨spine, .one obj, by simp, (carry_getLast? holds.canonical few).2⟩, by simp, by simp⟩

end Represents

end Deviant.Sapling
