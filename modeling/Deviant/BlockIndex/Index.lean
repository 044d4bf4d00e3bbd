import Deviant.Data.MapMerge
import Deviant.Primitives.Transaction

namespace Deviant.BlockIndex

open Data Primitives

/-! The tree of block headers that a node knows, `mapBlockIndex`.  A pointer to an entry is the hash
under which the entry is stored. -/

instance neZeroEight : NeZero 8 := inferInstance

def blockValidTransactions : Fin 8 := 3

/-- The bits of `nStatus`: how far the block was validated, what is on disk, and whether it
failed. -/
structure BlockStatus where
  valid : Fin 8 := 0
  haveData : Bool := false
  haveUndo : Bool := false
  failedValid : Bool := false
  failedChild : Bool := false
deriving DecidableEq

namespace BlockStatus

def failed (nStatus : BlockStatus) : Bool := nStatus.failedValid || nStatus.failedChild

def raiseValidity (nUpTo : Fin 8) (nStatus : BlockStatus) : BlockStatus :=
  if nStatus.failed then nStatus
  else if nStatus.valid < nUpTo then { nStatus with valid := nUpTo }
  else nStatus

theorem haveData_raiseValidity (nStatus : BlockStatus) :
    (nStatus.raiseValidity nUpTo).haveData = nStatus.haveData := by
  unfold raiseValidity
  split
  · rfl
  · split <;> rfl

end BlockStatus

/-- An entry, with what chain selection reads and writes of it.  Of `nChainTx`, a 32-bit sum, it asks
only whether it is nought. -/
structure CBlockIndex where
  pprev : Option Uint256 := none
  pskip : Option Uint256 := none
  nHeight : Nat := 0
  nUndoPos : Nat := 0
  nChainWork : Nat := 0
  nChainTx : Nat := 0
  nStatus : BlockStatus := {}
  nSequenceId : Nat := 0
deriving DecidableEq

def invertLowestOne (n : Nat) : Nat := n &&& (n - 1)

def getSkipHeight (height : Nat) : Nat :=
  if height < 2 then 0
  else if height % 2 = 1 then invertLowestOne (invertLowestOne (height - 1)) + 1
  else invertLowestOne height

abbrev BlockMap := Table Uint256 CBlockIndex

/-- The loop of `GetAncestor`, with the height of the entry it is at.  The height falls with each
turn. -/
def walkToAncestor (blocks : BlockMap) (height : Nat) : Nat → Nat → Uint256 → Option Uint256
  | 0, _, pindexWalk => some pindexWalk
  | fuel + 1, heightWalk, pindexWalk =>
    if heightWalk ≤ height then some pindexWalk
    else
      let heightSkip := getSkipHeight heightWalk
      let heightSkipPrev := getSkipHeight (heightWalk - 1)
      if heightSkip = height ∨
        (heightSkip > height ∧ ¬ (heightSkipPrev + 2 < heightSkip ∧ heightSkipPrev ≥ height)) then
        ((blocks.lookup pindexWalk).bind (·.pskip)).bind (walkToAncestor blocks height fuel heightSkip)
      else ((blocks.lookup pindexWalk).bind (·.pprev)).bind
        (walkToAncestor blocks height fuel (heightWalk - 1))

def getAncestor (blocks : BlockMap) (pindex : Uint256) (height : Nat) : Option Uint256 :=
  match blocks.lookup pindex with
  | none => none
  | some entry =>
    if height > entry.nHeight then none
      else walkToAncestor blocks height entry.nHeight entry.nHeight pindex

end Deviant.BlockIndex
