import Deviant.BlockIndex.BlockTree
import Deviant.Data.Forest

namespace Deviant.BlockIndex

open Data Primitives

/-! Chain selection: the best candidate is looked for, and the active chain is moved to it block by
block.  A result is `none` where the code runs into an assertion or a null pointer. -/

/-- What `ConnectBlock` says of a block, and where the undo data of the block would go. -/
structure Verdict where
  accepts : Uint256 → Bool
  undoPos : Uint256 → Nat

def blockValidScripts : Fin 8 := 5

namespace BlockTree

section

variable (env : IndexEnv) (verdict : Verdict)

section

variable (tree : BlockTree)

variable (pindexNew : Uint256)

section

variable (pindex : Uint256)

def parentOf : Option Uint256 := (tree.deref pindex).pprev

def heightOf : Nat := (tree.deref pindex).nHeight

def statusOf : BlockStatus := (tree.deref pindex).nStatus

/-- The blocks that a loop meets which follows `pprev` from a block. -/
def ancestors : List Uint256 := walk tree.parentOf (tree.heightOf pindex) pindex

def setStatus (nStatus : BlockStatus) (tree : BlockTree) : BlockTree :=
  tree.setEntry pindex { tree.deref pindex with nStatus := nStatus }

variable (tree : BlockTree)

def eraseCandidate : BlockTree :=
  { tree with
    setBlockIndexCandidates :=
      tree.setBlockIndexCandidates.filter fun other => decide (other ≠ pindex) }

/-- `pindexBestInvalid` moves to an invalid block with more work. -/
def noteInvalid : BlockTree :=
  if tree.pindexBestInvalid.all fun best =>
    decide ((tree.deref best).nChainWork < (tree.deref pindexNew).nChainWork) then
    { tree with pindexBestInvalid := some pindexNew }
  else tree

/-- `InvalidChainFound`, which asserts that there is a tip. -/
def invalidChainFound : Option BlockTree :=
  if tree.tip.isNone then none else some (tree.noteInvalid pindexNew)

/-- `InvalidBlockFound`, for a failure that is no possible corruption. -/
def invalidBlockFound : Option BlockTree :=
  ((tree.setStatus pindex { tree.statusOf pindex with failedValid := true }).eraseCandidate
    pindex).invalidChainFound pindex

end

/-- The last element of `setBlockIndexCandidates` in its order. -/
def bestCandidate : Option Uint256 :=
  tree.setBlockIndexCandidates.foldl (fun best pindex =>
    match best with
    | none => some pindex
    | some pindexBest => if tree.lessWork env pindexBest pindex then some pindex
      else some pindexBest) none

def unusable (pindexTest : Uint256) : Bool :=
  (tree.statusOf pindexTest).failed || !(tree.statusOf pindexTest).haveData

/-- A block above an unusable one is taken out: it is marked, or has to wait for the missing
data. -/
def dropBlock (fFailedChain : Bool) (pindexFailed : Uint256) (tree : BlockTree) : BlockTree :=
  let marked :=
    if fFailedChain then tree.setStatus pindexFailed { tree.statusOf pindexFailed
      with failedChild := true }
    else { tree with mapBlocksUnlinked :=
      tree.mapBlocksUnlinked ++ ((tree.parentOf pindexFailed).map fun pprev =>
        (pprev, pindexFailed)).toList }
  marked.eraseCandidate pindexFailed

def dropBranch (above : List Uint256) (pindexTest : Uint256) (tree : BlockTree) : BlockTree :=
  let fFailedChain := (tree.statusOf pindexTest).failed
  let noted := if fFailedChain then tree.noteInvalid pindexNew else tree
  (above.foldl (fun tree pindexFailed => tree.dropBlock fFailedChain pindexFailed)
    noted).eraseCandidate pindexTest

/-- `assert(pindexTest->nChainTx || pindexTest->nHeight == 0)`. -/
def linkedOrRoot (pindexTest : Uint256) : Bool :=
  decide ((tree.deref pindexTest).nChainTx ≠ 0) || decide (tree.heightOf pindexTest = 0)

def branch : List Uint256 :=
  (tree.ancestors pindexNew).takeWhile fun pindexTest => !tree.chainActive.contains pindexTest

def usableBranch : List Uint256 :=
  (tree.branch pindexNew).takeWhile fun pindexTest => !tree.unusable pindexTest

end

/-- The loop takes up the best candidate until one is usable up to the active chain.  Every
candidate that is not is erased. -/
def findMostWorkChain : Nat → BlockTree → Option (Option Uint256 × BlockTree)
  | 0, _ => none
  | turns + 1, tree =>
    match tree.bestCandidate env with
    | none => some (none, tree)
    | some pindexNew =>
      let tested :=
        tree.usableBranch pindexNew ++ ((tree.branch pindexNew).find? tree.unusable).toList
      if !tested.all tree.linkedOrRoot then none
      else
        match (tree.branch pindexNew).find? tree.unusable with
        | none => some (some pindexNew, tree)
        | some pindexTest =>
          findMostWorkChain turns
          (tree.dropBranch pindexNew (tree.usableBranch pindexNew) pindexTest)

variable (tree : BlockTree)

/-- `PruneBlockIndexCandidates`, which asserts that a candidate is left. -/
def pruneBlockIndexCandidates : Option BlockTree :=
  let left := tree.setBlockIndexCandidates.filter (tree.notWorseThanTip env)
  if left.isEmpty then none else some { tree with setBlockIndexCandidates := left }

/-- `DisconnectTip` until the fork is the tip.  There is no going below the genesis block. -/
def disconnectTo (pindexFork : Option Uint256) : List Uint256 → Option (List Uint256)
  | [] => some []
  | tip :: below =>
    if some tip = pindexFork then some (tip :: below)
    else if below.isEmpty then none
    else disconnectTo pindexFork below

/-- The entry of a block that was connected.  The genesis block is not looked at. -/
def connectedEntry (pos : Nat) (pindex : CBlockIndex) : CBlockIndex :=
  if pindex.pprev.isNone then pindex
  else if !pindex.nStatus.haveUndo then
    { pindex with
      nUndoPos := pos
      nStatus := { pindex.nStatus with haveUndo := true }.raiseValidity blockValidScripts }
  else { pindex with nStatus := pindex.nStatus.raiseValidity blockValidScripts }

/-- `ConnectTip`, and whether the block was accepted. -/
def connectTip (pindexNew : Uint256) (tree : BlockTree) : Option (Bool × BlockTree) :=
  if tree.parentOf pindexNew ≠ tree.tip then none
  else if verdict.accepts pindexNew then
    let connected :=
      tree.setEntry pindexNew (connectedEntry (verdict.undoPos pindexNew) (tree.deref pindexNew))
    some (true, { connected with chainActive := pindexNew :: tree.chainActive })
  else (tree.invalidBlockFound pindexNew).map fun failed => (false, failed)

def findFork (pindex : Uint256) : Option Uint256 :=
  match tree.chainActive with
  | [] => none
  | _ :: below =>
    let start :=
      if tree.heightOf pindex > below.length then getAncestor tree.mapBlockIndex pindex below.length
      else some pindex
    start.bind fun pindexStart => (tree.ancestors pindexStart).find? tree.chainActive.contains

inductive Progress where
  | invalid
  | better
  | through
deriving DecidableEq

/-- The blocks of a batch are connected until one is invalid or the tip has more work than the old
one. -/
def connectBlocks (pindexOldTip : Option Uint256) (last : Option Uint256) :
    List Uint256 → BlockTree → Option (Progress × BlockTree)
  | [], tree => some (.through, tree)
  | pindexConnect :: rest, tree =>
    match tree.connectTip verdict pindexConnect with
    | none => none
    | some (false, failed) =>
      last.bind fun pindexLast => (failed.invalidChainFound pindexLast).map fun noted =>
        (.invalid, noted)
    | some (true, connected) =>
      match connected.pruneBlockIndexCandidates env with
      | none => none
      | some pruned =>
        if pindexOldTip.all fun old =>
            pruned.tip.any fun tip =>
              decide ((pruned.deref old).nChainWork < (pruned.deref tip).nChainWork) then
          some (.better, pruned)
        else connectBlocks pindexOldTip last rest pruned

def connectBatches (pindexMostWork : Uint256) (pindexOldTip : Option Uint256) :
    Nat → Int → BlockTree → Option (Bool × BlockTree)
  | 0, _, _ => none
  | turns + 1, nHeight, tree =>
    if nHeight = tree.heightOf pindexMostWork then some (false, tree)
    else
      let nTargetHeight := min (nHeight + 32) (tree.heightOf pindexMostWork)
      let vpindexToConnect :=
        ((getAncestor tree.mapBlockIndex pindexMostWork nTargetHeight.toNat).elim []
          tree.ancestors).takeWhile fun pindexIter =>
        decide ((tree.heightOf pindexIter : Int) ≠ nHeight)
      match tree.connectBlocks env verdict pindexOldTip vpindexToConnect.getLast?
        vpindexToConnect.reverse with
      | none => none
      | some (.invalid, after) => some (true, after)
      | some (.better, after) => some (false, after)
      | some (.through, after) => connectBatches pindexMostWork pindexOldTip turns nTargetHeight after

/-- `ActivateBestChainStep`, and whether an invalid block was found. -/
def activateBestChainStep (pindexMostWork : Uint256) (tree : BlockTree) :
    Option (Bool × BlockTree) :=
  let pindexFork := tree.findFork pindexMostWork
  match disconnectTo pindexFork tree.chainActive with
  | none => none
  | some chainActive =>
    let disconnected := { tree with chainActive := chainActive }
    disconnected.connectBatches env verdict pindexMostWork tree.tip (tree.heightOf pindexMostWork + 2)
      (pindexFork.elim (-1) fun fork => tree.heightOf fork)

def targetOrSearch (pindexMostWork : Option Uint256) (tree : BlockTree) :
    Option (Option Uint256 × BlockTree) :=
  match pindexMostWork with
  | some pindex => some (some pindex, tree)
  | none => tree.findMostWorkChain env (tree.setBlockIndexCandidates.length + 1)

def activateInner (startingTip : Option Uint256) : Nat → Option Uint256 → Bool → BlockTree →
    Option (Option Uint256 × Bool × BlockTree)
  | 0, _, _, _ => none
  | turns + 1, pindexMostWork, blocksConnected, tree =>
    match tree.targetOrSearch env pindexMostWork with
    | none => none
    | some (none, found) => some (none, blocksConnected, found)
    | some (some pindex, found) =>
      if found.tip = some pindex then some (some pindex, blocksConnected, found)
      else
        match found.activateBestChainStep env verdict pindex with
        | none => none
        | some (fInvalidFound, after) =>
          let pindexMostWork := if fInvalidFound then none else some pindex
          if after.tip.all fun tip => startingTip.any fun start => after.lessWork env tip start then
            activateInner startingTip turns pindexMostWork true after
          else some (pindexMostWork, true, after)

def activateOuter (innerTurns : Nat) : Nat → Option Uint256 → BlockTree → Option BlockTree
  | 0, _, _ => none
  | turns + 1, pindexMostWork, tree =>
    match tree.activateInner env verdict tree.tip innerTurns pindexMostWork false with
    | none => none
    | some (pindexMostWork, blocksConnected, after) =>
      if !blocksConnected then some after
      else if pindexMostWork = after.tip then some after
      else activateOuter innerTurns turns pindexMostWork after

def topHeight : Nat := (tree.mapBlockIndex.entries.map fun entry => entry.2.nHeight).foldr max 0

/-- Turns that are enough for the loops: every block fails at most once, and between two failures
the chain grows by a block in each turn. -/
def activationTurns : Nat := (tree.mapBlockIndex.entries.length + 1) * (tree.topHeight + 2)

/-- `ActivateBestChain`, without interruption or system error. -/
def activateBestChain : Option BlockTree :=
  tree.activateOuter env verdict tree.activationTurns tree.activationTurns none

end

end BlockTree

end Deviant.BlockIndex
