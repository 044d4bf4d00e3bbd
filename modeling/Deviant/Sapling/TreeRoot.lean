import Deviant.Sapling.IncrementalMerkleTree

namespace Deviant.Sapling

open Data Primitives Serialize IncrementalMerkleTree

/-! The root of a tree, alone or filled up with the leaves that came after it, and the tree's
serialisation. -/

variable {H : Type} (hash : MerkleHash H)

/-! The levels at which `root` asks the filler for a subtree, in the order of the questions. -/

def gapsFrom (depth : Nat) : (parents : List (Option H)) → (d : Nat) → List Nat
  | [], d => List.range' d (depth - d)
  | some _ :: parents, d => gapsFrom depth parents (d + 1)
  | none :: parents, d => d :: gapsFrom depth parents (d + 1)

def leafGap (leaf : Option H) : List Nat := if leaf.isSome then [] else [0]

def IncrementalMerkleTree.gaps (tree : IncrementalMerkleTree H) (depth : Nat) : List Nat :=
  leafGap tree.left ++ (leafGap tree.right ++ gapsFrom depth tree.parents 1)

/-- At every gap the filler answers with the root of the next leaves of `rest`, as many as the gap
has room for. -/
def Supplies : (gaps : List Nat) → (queue rest : List H) → Prop
  | [], _, _ => True
  | d :: gaps, queue, rest =>
    (nextFiller hash d queue).1 = hash.root d (rest.take (2 ^ d)) ∧
      Supplies gaps (nextFiller hash d queue).2 (rest.drop (2 ^ d))

variable {hash} {d depth : Nat} {parents : List (Option H)} {front covered rest queue : List H}
    {top : H}

theorem supplies_nil (gaps : List Nat) : Supplies hash gaps [] [] := by
  induction gaps with
  | nil => trivial
  | cons d gaps ih => exact ⟨by simp [nextFiller], by simpa [nextFiller] using ih⟩

theorem Spine.climb (spine : Spine hash d parents front) (covers : hash.Covers d top covered rest)
    (supplies : Supplies hash (gapsFrom depth parents d) queue rest) :
    ∃ covered' rest',
      hash.Covers (d + parents.length) (climb hash parents d top queue).1 covered' rest' ∧
      covered' ++ rest' = front ++ (covered ++ rest) ∧
      Supplies hash (List.range' (d + parents.length) (depth - (d + parents.length)))
        (climb hash parents d top queue).2 rest' := by
  induction spine generalizing top covered rest queue with
  | nil d => exact ⟨covered, rest, covers, rfl, supplies⟩
  | @skip d parents front above ih =>
    obtain ⟨next, later⟩ := supplies
    obtain ⟨covered', rest', covers', leaves, supplies'⟩ := ih (covers.right next) later
    rw [height_cons]
    refine ⟨covered', rest', covers', ?_, supplies'⟩
    rw [leaves, List.append_assoc, List.take_append_drop]
  | @hold d parents front block full above ih =>
    obtain ⟨covered', rest', covers', leaves, supplies'⟩ := ih (covers.left full) supplies
    rw [height_cons]
    exact ⟨covered', rest', covers', by simp [leaves], supplies'⟩

theorem extend_covers (covers : hash.Covers d top covered rest)
    (supplies : Supplies hash (List.range' d count) queue rest) :
    ∃ covered' rest', hash.Covers (d + count) (extend hash count d top queue) covered' rest' ∧
      covered' ++ rest' = covered ++ rest := by
  induction count generalizing d top covered rest queue with
  | zero => exact ⟨covered, rest, covers, rfl⟩
  | succ count ih =>
    obtain ⟨next, later⟩ := supplies
    obtain ⟨covered', rest', covers', leaves⟩ := ih (covers.right next) later
    refine ⟨covered', rest', ?_, ?_⟩
    · rw [← Nat.add_assoc, Nat.add_right_comm]
      exact covers'
    · rw [leaves, List.append_assoc, List.take_append_drop]

namespace Represents

variable {tree : IncrementalMerkleTree H} {pair : List H}

variable (holds : Represents hash tree front pair)

include holds

theorem lowest (supplies : Supplies hash (tree.gaps depth) queue rest) (started : pair = [] → rest = []) :
    ∃ covered' rest', hash.Covers 1 (hash.combine (leafOrFiller hash tree.left queue).1
        (leafOrFiller hash tree.right (leafOrFiller hash tree.left queue).2).1 0) covered' rest' ∧
      covered' ++ rest' = pair ++ rest ∧ Supplies hash (gapsFrom depth tree.parents 1)
        (leafOrFiller hash tree.right (leafOrFiller hash tree.left queue).2).2 rest' := by
  obtain ⟨left, right, parents⟩ := tree
  cases holds.newest with
  | empty =>
    obtain rfl := started rfl
    obtain ⟨first, second, later⟩ := supplies
    simp only [List.take_nil, List.drop_nil, MerkleHash.root_nil] at first second later
    refine ⟨[], [], ⟨?_, by simp, by simp⟩, rfl, later⟩
    simp only [leafOrFiller, first, second, MerkleHash.root_nil]
    exact (hash.emptyRoot_succ 0).symm
  | one a =>
    obtain ⟨next, later⟩ := supplies
    have single : hash.Covers 0 a [a] rest := ⟨rfl, by simp, by simp⟩
    exact ⟨_, _, single.right next, by rw [List.append_assoc, List.take_append_drop], later⟩
  | two a b => exact ⟨[a, b], rest, ⟨rfl, by simp, by simp⟩, rfl, supplies⟩

theorem root_filled (positive : 1 ≤ depth) (supplies : Supplies hash (tree.gaps depth) queue rest)
    (started : pair = [] → rest = []) (fits : (front ++ pair ++ rest).length ≤ 2 ^ depth) :
    tree.root hash depth queue = hash.root depth (front ++ pair ++ rest) := by
  have few : tree.parents.length < depth := holds.parents_lt positive (by simp at fits ⊢; omega)
  obtain ⟨covered₁, rest₁, covers₁, leaves₁, supplies₁⟩ := holds.lowest supplies started
  obtain ⟨covered₂, rest₂, covers₂, leaves₂, supplies₂⟩ := holds.spine.climb covers₁ supplies₁
  obtain ⟨covered₃, rest₃, covers₃, leaves₃⟩ := extend_covers covers₂ supplies₂
  have leaves : covered₃ ++ rest₃ = front ++ pair ++ rest := by
    rw [leaves₃, leaves₂, leaves₁, List.append_assoc]
  rw [Nat.add_sub_cancel' (by omega)] at covers₃
  rw [← leaves] at fits ⊢
  exact covers₃.whole fits

theorem root (positive : 1 ≤ depth) (fits : (front ++ pair).length ≤ 2 ^ depth) :
    tree.root hash depth [] = hash.root depth (front ++ pair) := by
  have filled := holds.root_filled positive (supplies_nil (tree.gaps depth)) (fun _ => rfl)
    (by simpa using fits)
  simpa using filled

end Represents

theorem appendAll_concat : appendAll hash depth (leaves ++ [obj]) =
      appendAll hash depth leaves >>= fun tree => tree.append hash depth obj := by
  simp [appendAll]

theorem appendAll_represents (hash : MerkleHash H) (positive : 1 ≤ depth)
    (fits : leaves.length ≤ 2 ^ depth) :
    ∃ tree front pair, appendAll hash depth leaves = .ok tree ∧
      Represents hash tree front pair ∧ front ++ pair = leaves ∧ (pair = [] → leaves = []) := by
  induction leaves using List.reverseRecOn with
  | nil => exact ⟨{}, [], [], rfl, ⟨.nil 1, .empty, fun _ => rfl, by simp⟩, rfl, fun _ => rfl⟩
  | append_singleton leaves obj ih =>
    rw [List.length_append, List.length_singleton] at fits
    obtain ⟨tree, front, pair, built, holds, whole, -⟩ := ih (by omega)
    have appended := holds.append positive (by rw [whole]; omega) obj
    rw [whole, if_neg (by omega)] at appended
    obtain ⟨tree', front', pair', built', holds', whole', nonempty⟩ := appended
    refine ⟨tree', front', pair', ?_, holds', whole', fun missing => absurd missing nonempty⟩
    rw [appendAll_concat, built]
    exact built'

def IncrementalMerkleTree.wfcheck (depth : Nat) (tree : IncrementalMerkleTree H) :
    Except StreamError Unit :=
  if depth ≤ tree.parents.length then .error .treeHasTooManyParents
  else if tree.parents.getLast?.any Option.isNone then .error .nonCanonicalParent
  else if !tree.left.isSome && tree.right.isSome then .error .rightShouldNotExist
  else if !tree.left.isSome && decide (0 < tree.parents.length) then .error .parentsShouldNotBeUnempty
  else .ok ()

def treeBytes (tree : IncrementalMerkleTree Uint256) : Bytes :=
  writeOptional writeUint256 tree.left ++
    (writeOptional writeUint256 tree.right ++ writeVector (writeOptional writeUint256) tree.parents)

def writeTree (depth : Nat) (tree : IncrementalMerkleTree Uint256) : Except StreamError Bytes := do
  tree.wfcheck depth
  pure (treeBytes tree)

def readTree (depth : Nat) : StreamReader (IncrementalMerkleTree Uint256) := do
  let left ← readOptional readUint256
  let right ← readOptional readUint256
  let parents ← readVector (readOptional readUint256)
  let tree : IncrementalMerkleTree Uint256 := { left := left, right := right, parents := parents }
  StateT.lift (tree.wfcheck depth)
  pure tree

theorem Represents.wfcheck (holds : Represents hash tree front pair)
    (few : tree.parents.length < depth) : tree.wfcheck depth = .ok () := by
  have canonical := holds.canonical
  have started := holds.started
  obtain ⟨left, right, parents⟩ := tree
  unfold IncrementalMerkleTree.wfcheck
  rw [if_neg (by omega), if_neg]
  · cases holds.newest with
    | empty =>
      have spine := holds.spine
      rw [started rfl] at spine
      have empty : parents = [] := by
        by_contra some
        have bound := spine.le_length canonical some
        simp at bound
      simp [empty]
    | one a => simp
    | two a b => simp
  · cases last : parents.getLast? with
    | none => simp
    | some parent =>
      cases parent with
      | none => exact absurd last canonical
      | some parent => simp

theorem reads_readTree (checked : tree.wfcheck depth = .ok ())
    (small : tree.parents.length ≤ maxSize) : Reads (readTree depth) (treeBytes tree) tree := by
  have slot : ∀ value, Reads (readOptional readUint256) (writeOptional writeUint256 value) value :=
    fun value => reads_readOptional fun content _ => reads_readUint256 content
  refine (slot tree.left).bind ((slot tree.right).bind ?_)
  refine (reads_readVector small fun parent _ => slot parent).last ?_
  have passes : Reads (StateT.lift (tree.wfcheck depth) : StreamReader Unit) [] () := by
    intro rest
    rw [checked]
    rfl
  exact passes.last Reads.pure

theorem Represents.written {tree : IncrementalMerkleTree Uint256} {hash : MerkleHash Uint256}
    {front pair : List Uint256} (holds : Represents hash tree front pair)
    (few : tree.parents.length < depth) (bounded : depth ≤ maxSize) :
    writeTree depth tree = .ok (treeBytes tree) ∧ Reads (readTree depth) (treeBytes tree) tree := by
  have checked := holds.wfcheck few
  refine ⟨?_, reads_readTree checked (by omega)⟩
  rw [writeTree, checked]
  rfl

/-- For every number of leaves the depth allows: the tree is built, its root is that of the complete
tree, one more append throws exactly on a full tree, and the tree survives serialisation. -/
theorem incrementalMerkleTree_correct (hash : MerkleHash Uint256) (depth : Nat)
    (positive : 1 ≤ depth) (bounded : depth ≤ maxSize) (leaves : List Uint256)
    (fits : leaves.length ≤ 2 ^ depth) :
    ∃ tree, appendAll hash depth leaves = .ok tree ∧
      tree.root hash depth [] = hash.root depth leaves ∧
      (∀ obj, (∃ error, tree.append hash depth obj = .error error) ↔ leaves.length = 2 ^ depth) ∧
      tree.wfcheck depth = .ok () ∧ ∃ bytes, writeTree depth tree = .ok bytes ∧
      Reads (readTree depth) bytes tree := by
  obtain ⟨tree, front, pair, built, holds, rfl, -⟩ := appendAll_represents hash positive fits
  have few := holds.parents_lt positive fits
  refine ⟨tree, built, holds.root positive fits, fun obj => ?_, holds.wfcheck few, treeBytes tree,
    holds.written few bounded⟩
  have appended := holds.append positive fits obj
  split at appended
  case isTrue full => exact iff_of_true ⟨_, appended⟩ full
  case isFalse room =>
    obtain ⟨tree', -, -, built', -⟩ := appended
    refine iff_of_false ?_ room
    rw [built']
    rintro ⟨error, threw⟩
    cases threw

def sampleHash : MerkleHash Uint256 where
  combine left right depth := left + 3 * right + BitVec.ofNat 256 depth
  uncommitted := 1
  emptyRoot := Nat.rec 1 fun depth below => below + 3 * below + BitVec.ofNat 256 depth
  emptyRoot_zero := rfl
  emptyRoot_succ _ := rfl

theorem incrementalMerkleTree_three_leaves : ∃ tree, appendAll sampleHash 2 [5, 6, 7] = .ok tree ∧
      tree.root sampleHash 2 [] = sampleHash.root 2 [5, 6, 7] := by
  obtain ⟨tree, built, root, -⟩ :=
    incrementalMerkleTree_correct sampleHash 2 (by decide) (by decide) [5, 6, 7] (by decide)
  exact ⟨tree, built, root⟩

end Deviant.Sapling
