import Deviant.BlockIndex.Index

namespace Deviant.BlockIndex

open Primitives

/-! The block index with what is kept beside it. -/

/-- `mapBlockIndex` and its companions.  The active chain has its tip first. -/
structure BlockTree where
  mapBlockIndex : BlockMap := ∅
  /-- Parents and those of their children that have data and wait for an ancestor. -/
  mapBlocksUnlinked : List (Uint256 × Uint256) := []
  setBlockIndexCandidates : List Uint256 := []
  pindexBestInvalid : Option Uint256 := none
  chainActive : List Uint256 := []

/-- The addresses of the entries, which are the last resort of their order. -/
structure IndexEnv where
  address : Uint256 → Nat

namespace BlockTree

def deref (tree : BlockTree) (pindex : Uint256) :
    CBlockIndex := (tree.mapBlockIndex.lookup pindex).getD {}

theorem deref_of_lookup {tree : BlockTree} (found : tree.mapBlockIndex.lookup pindex = some entry) :
    tree.deref pindex = entry := by
  unfold deref
  rw [found, Option.getD_some]

def setEntry (pindex : Uint256) (entry : CBlockIndex) (tree : BlockTree) : BlockTree :=
  { tree with mapBlockIndex := tree.mapBlockIndex.insert pindex entry }

section

variable (env : IndexEnv) (tree : BlockTree)

/-- `CBlockIndexWorkComparator`: the first block has less work, or came later. -/
def lessWork (a b : Uint256) : Bool :=
  let pa := tree.deref a
  let pb := tree.deref b
  if pa.nChainWork > pb.nChainWork then false
  else if pa.nChainWork < pb.nChainWork then true
  else if pa.nSequenceId < pb.nSequenceId then false
  else if pa.nSequenceId > pb.nSequenceId then true
  else decide (env.address a > env.address b)

def tip : Option Uint256 := tree.chainActive.head?

def notWorseThanTip (pindex : Uint256) :
    Bool := tree.tip.all fun tip => !tree.lessWork env pindex tip

end

end BlockTree

end Deviant.BlockIndex
