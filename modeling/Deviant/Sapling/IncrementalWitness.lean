import Deviant.Sapling.TreeRoot

namespace Deviant.Sapling

open Data Primitives Serialize

/-! Witnesses of a leaf: the tree as it was right after the leaf, the uncle subtrees filled since,
and a cursor tree for the uncle that is being filled. -/

structure IncrementalWitness (H : Type) where
  tree : IncrementalMerkleTree H
  filled : List H := []
  cursor : Option (IncrementalMerkleTree H) := none
  cursorDepth : Nat := 0
deriving DecidableEq

/-- Siblings as bit vectors and the index bits, from the root downwards. -/
structure MerklePath where
  authenticationPath : List (List Bool)
  index : List Bool
deriving DecidableEq

def byteBits (c : UInt8) : List Bool := (List.range 8).map fun j => c.toNat.testBit (7 - j)

def convertBytesVectorToVector (bytes : Bytes) : List Bool := bytes.flatMap byteBits

def hashBits (h : Uint256) : List Bool := convertBytesVectorToVector (writeUint256 h)

variable {H : Type} (hash : MerkleHash H)

/-- The loop of `next_depth` over the parents. -/
def nextDepthFrom : (parents : List (Option H)) → (d skip : Nat) → Nat
  | [], d, skip => d + skip
  | some _ :: parents, d, skip => nextDepthFrom parents (d + 1) skip
  | none :: _, d, 0 => d
  | none :: parents, d, skip + 1 => nextDepthFrom parents (d + 1) skip

variable (tree : IncrementalMerkleTree H)

def IncrementalMerkleTree.nextDepth (skip : Nat) : Nat :=
  match tree.left, tree.right, skip with
  | none, _, 0 => 0
  | none, none, 1 => 0
  | none, none, skip + 2 => nextDepthFrom tree.parents 1 skip
  | none, some _, skip + 1 => nextDepthFrom tree.parents 1 skip
  | some _, none, 0 => 0
  | some _, none, skip + 1 => nextDepthFrom tree.parents 1 skip
  | some _, some _, skip => nextDepthFrom tree.parents 1 skip

/-- The steps of a path, lowest first: whether the sibling is on the left, and the sibling. -/
def pathParents :
    (parents : List (Option H)) → (d : Nat) → (queue : List H) → List (Bool × H) × List H
  | [], _, queue => ([], queue)
  | some parent :: parents, d, queue =>
    ((true, parent) :: (pathParents parents (d + 1) queue).1, (pathParents parents (d + 1) queue).2)
  | none :: parents, d, queue =>
    ((false, (nextFiller hash d queue).1) :: (pathParents parents (d + 1)
      (nextFiller hash d queue).2).1,
      (pathParents parents (d + 1) (nextFiller hash d queue).2).2)

def pathAbove : (count d : Nat) → (queue : List H) → List (Bool × H)
  | 0, _, _ => []
  | count + 1, d, queue => (false, (nextFiller hash d queue).1) :: pathAbove count (d + 1)
    (nextFiller hash d queue).2

/-- The lowest step; the newest leaf is a left child while there is no right one. -/
def pathLeaf (left : H) (right : Option H) (queue : List H) : (Bool × H) × List H :=
  match right with
  | some _ => ((true, left), queue)
  | none => ((false, (nextFiller hash 0 queue).1), (nextFiller hash 0 queue).2)

def IncrementalMerkleTree.pathSteps (depth : Nat) (fillerHashes : List H) :
    Except TreeError (List (Bool × H)) :=
  match tree.left with
  | none => .error .noPathAtBeginning
  | some left =>
    let leaf := pathLeaf hash left tree.right fillerHashes
    let collapsed := pathParents hash tree.parents 1 leaf.2
    .ok (leaf.1 :: collapsed.1 ++
      pathAbove hash (depth - (1 + tree.parents.length)) (1 + tree.parents.length) collapsed.2)

def merklePath (steps : List (Bool × Uint256)) : MerklePath where
  authenticationPath := (steps.map fun step => hashBits step.2).reverse
  index := (steps.map Prod.fst).reverse

namespace IncrementalWitness

variable (witness : IncrementalWitness H)

def partialPath : List H :=
  match witness.cursor with
  | none => witness.filled
  | some cursor => witness.filled ++ [cursor.root hash witness.cursorDepth []]

def element : Except TreeError H := witness.tree.last

def root (depth : Nat) : H := witness.tree.root hash depth (witness.partialPath hash)

def path (hash : MerkleHash Uint256) (witness : IncrementalWitness Uint256) (depth : Nat) :
    Except TreeError MerklePath :=
  merklePath <$> witness.tree.pathSteps hash depth (witness.partialPath hash)

def finishCursor (cursor : IncrementalMerkleTree H) : IncrementalWitness H :=
  if cursor.isComplete witness.cursorDepth then
    { witness with filled := witness.filled ++ [cursor.root hash witness.cursorDepth []], cursor := none }
  else { witness with cursor := some cursor }

/-- Without a cursor, the next gap is looked up and a leaf or a new cursor put there. -/
def startCursor (depth : Nat) (witness : IncrementalWitness H) (obj : H) :
    Except TreeError (IncrementalWitness H) :=
  let cursorDepth := witness.tree.nextDepth witness.filled.length
  if depth ≤ cursorDepth then .error .treeIsFull
  else if cursorDepth = 0 then
    .ok { witness with filled := witness.filled ++ [obj], cursorDepth := cursorDepth }
  else do
    let cursor ← IncrementalMerkleTree.append hash depth {} obj
    .ok { witness with cursor := some cursor, cursorDepth := cursorDepth }

def append (depth : Nat) (witness : IncrementalWitness H) (obj : H) :
    Except TreeError (IncrementalWitness H) :=
  match witness.cursor with
  | some cursor => do
      let cursor ← cursor.append hash depth obj
      .ok (witness.finishCursor hash cursor)
  | none => witness.startCursor hash depth obj

end IncrementalWitness

def IncrementalMerkleTree.witness : IncrementalWitness H := { tree := tree }

def writeCursor (depth : Nat) : Option (IncrementalMerkleTree Uint256) → Except StreamError Bytes
  | none => .ok [0]
  | some cursor => do
      let bytes ← writeTree depth cursor
      .ok (1 :: bytes)

def writeWitness (depth : Nat) (witness : IncrementalWitness Uint256) :
    Except StreamError Bytes := do
  let tree ← writeTree depth witness.tree
  let cursor ← writeCursor depth witness.cursor
  .ok (tree ++ (writeVector writeUint256 witness.filled ++ cursor))

def readWitness (depth : Nat) : StreamReader (IncrementalWitness Uint256) := do
  let tree ← readTree depth
  let filled ← readVector readUint256
  let cursor ← readOptional (readTree depth)
  pure { tree := tree, filled := filled, cursor := cursor, cursorDepth := tree.nextDepth filled.length }

/-- The uncles `filled` are the roots of the first blocks of the later leaves, one for each of the
first gaps. -/
inductive Filled : (gaps : List Nat) → (filled later : List H) → Prop
  | nil (gaps : List Nat) : Filled gaps [] []
  | cons {d : Nat} {gaps : List Nat} {block filled later : List H} (full : block.length = 2 ^ d)
      (others : Filled gaps filled later) :
      Filled (d :: gaps) (hash.root d block :: filled) (block ++ later)

end Deviant.Sapling
