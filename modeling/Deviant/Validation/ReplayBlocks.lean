import Deviant.Chain.BlockPath
import Deviant.TxDB.CoinsViewDB
import Deviant.Validation.DisconnectBlock

namespace Deviant.Validation

open Chain Coins Consensus Data Primitives TxDB
open ViewProgram (setBestBlock)

/-! Recovering the chain state after a flush that did not finish. -/

structure BlockFiles where
  readBlockFromDisk : CBlockIndex → Option CBlock
  undoReadFromDisk : CBlockIndex → Option CBlockUndo

/-- Unlike `UpdateCoins`, this also spends what zerocoin spends name as their previous outputs. -/
def rollforwardInputs (tx : CTransaction) : ViewProgram Unit :=
  if tx.isCoinBase then pure ()
  else do
    let _ ← spendInputs tx.vin
    pure ()

def rollforwardTxs (env : Env) (nHeight : Nat) (fSkipInvalid : Bool) :
    List CTransaction → ViewProgram Unit
  | [] => pure ()
  | tx :: rest => do
      rollforwardInputs tx
      -- Every addition may be an overwrite.
      addCoins env tx nHeight true fSkipInvalid
      rollforwardTxs env nHeight fSkipInvalid rest

section

variable (env : Env) (files : BlockFiles)

def rollforwardBlock (pindex : CBlockIndex) : ViewProgram Bool :=
  match files.readBlockFromDisk pindex with
  | none => pure false
  | some block => do
      rollforwardTxs env pindex.nHeight (skipInvalidUTXOS env.params pindex.nHeight) block.vtx
      pure true

def rollforward (pindexNew : BlockPath) : List Nat → ViewProgram Bool
  | [] => pure true
  | nHeight :: later =>
    match pindexNew.getAncestor nHeight with
    | [] => .fail (.assertion "pindex")
    | pindex :: _ => do
        if ← rollforwardBlock env files pindex then rollforward pindexNew later
        else pure false

end

/-- The old tip and the fork; a null old tip means that the first flush did not finish. -/
def oldAndFork (blocks : BlockMap) (hashOld : Uint256) (pindexNew : BlockPath) :
    Except Failure (Option (BlockPath × BlockPath)) :=
  if hashOld = 0 then .ok (some ([], []))
  else
    match blocks.find hashOld with
    | none => .ok none
    | some pindexOld => (pindexOld.lastCommonAncestor pindexNew).map fun pindexFork =>
      some (pindexOld, pindexFork)

def bottom {σ : Type} : CCoinsView σ → σ
  | .base view => view
  | .cache _ below => bottom below

variable [PedersenHash] (env : Env) (files : BlockFiles)

/-- Disconnect a block of the old branch.  An unclean result is fine: the block may never have been
applied as a whole. -/
def rollbackBlock (pindex : CBlockIndex) (pprev : BlockPath) :
    ViewProgram Bool :=
  match files.readBlockFromDisk pindex with
  | none => pure false
  | some block =>
    match pprev with
    | [] => .fail (.assertion "pindex->pprev")
    | prev :: _ => do
        let result ← disconnectBlock env block prev (files.undoReadFromDisk pindex)
        pure (decide (result ≠ .failed))

/-- Go back along the old branch to the fork.  The genesis block is never disconnected. -/
def rollback (pindexFork : BlockPath) : (pindexOld : BlockPath) → ViewProgram Bool
  | [] => if pindexFork = [] then pure true else .fail (.assertion "pindexOld")
  | pindex :: pprev =>
    if pindex :: pprev = pindexFork then pure true
    else if pindex.nHeight = 0 then rollback pindexFork pprev
    else do
      if ← rollbackBlock env files pindex pprev then rollback pindexFork pprev
      else pure false

def replay (pindexOld pindexFork pindexNew : BlockPath) :
    ViewProgram Bool := do
  if ← rollback env files pindexFork pindexOld then
    let nForkHeight := pindexFork.nHeight
    if ← rollforward env files pindexNew (List.range' (nForkHeight + 1)
      (pindexNew.nHeight - nForkHeight)) then
      setBestBlock pindexNew.hash
      pure true
    else pure false
  else pure false

def replayAndFlush (pindexOld pindexFork pindexNew : BlockPath)
    (db : CCoinsViewDB) : Except Failure (Bool × CCoinsViewDB) :=
  match Program.run CCoinsViewCache.step (replay env files pindexOld pindexFork pindexNew)
    { below := .base db } with
  | .error reason => .error reason
  | .ok (false, _) => .ok (false, db)
  | .ok (true, cache) => cache.flush.map fun flushed => (true, bottom flushed.below)

def replayBlocks (blocks : BlockMap) (db : CCoinsViewDB) : Except Failure (Bool × CCoinsViewDB) :=
  match db.getHeadBlocks with
  | [] => .ok (true, db)
  | [hashNew, hashOld] =>
    match blocks.find hashNew with
    | none => .ok (false, db)
    | some pindexNew =>
      match oldAndFork blocks hashOld pindexNew with
      | .error reason => .error reason
      | .ok none => .ok (false, db)
      | .ok (some (pindexOld, pindexFork)) =>
        replayAndFlush env files pindexOld pindexFork pindexNew db
  | _ => .ok (false, db)

end Deviant.Validation
