import Deviant.Validation.UpdateCoins

namespace Deviant.Validation

open Coins Consensus Primitives
open ViewProgram (setNullifiers popAnchor setBestBlock)

/-! Disconnecting a block. -/

/-- Erasing from the zerocoin database always succeeds; parsing what to erase need not.  An input
counts as a private spend here by its script alone. -/
def disconnectZerocoinInputs (zerocoin : Zerocoin) (tx : CTransaction) :
    List CTxIn → Except Rejection Bool
  | [] => .ok true
  | input :: rest =>
    if input.isZerocoinPublicSpend then
      match zerocoin.parseZerocoinPublicSpend input tx with
      | none => .ok false
      | some _ => disconnectZerocoinInputs zerocoin tx rest
    else if CScript.isZerocoinSpend input.scriptSig then
      match zerocoin.txInToZerocoinSpend input with
      | none => .error (.runtimeError "TxInToZerocoinSpend")
      | some _ => disconnectZerocoinInputs zerocoin tx rest
    else disconnectZerocoinInputs zerocoin tx rest

def disconnectZerocoinTx (zerocoin : Zerocoin) (tx : CTransaction) : Except Rejection Bool := do
  let spendsErased ← if tx.hasZerocoinSpendInputs then disconnectZerocoinInputs zerocoin tx tx.vin
    else pure true
  pure (spendsErased && tx.vout.all fun out => !out.isZerocoinMint || zerocoin.txOutToPublicCoin out)

def disconnectTx (env : Env) (tx : CTransaction) (txundo : CTxUndo) :
    ViewProgram DisconnectResult := do
  let erased ← ViewProgram.lift (disconnectZerocoinTx env.zerocoin tx)
  if !erased then pure .failed
  else
    let fClean ← spendOutputsFrom tx.hash 0 tx.vout
    if hasNoCoinInputs tx then pure (combine fClean .ok)
    else
      setNullifiers tx false
      if txundo.vprevout.length ≠ tx.vin.length then pure .failed
      else
        let result ← restoreInputs (tx.vin.zip txundo.vprevout).reverse
        pure (combine fClean result)

/-- Undo transactions in reverse order: the last one comes first in the list. -/
def disconnectTxs (env : Env) : List (CTransaction × CTxUndo) → ViewProgram DisconnectResult
  | [] => pure .ok
  | (tx, txundo) :: earlier => do
      match ← disconnectTx env tx txundo with
      | .failed => pure .failed
      | result =>
        let rest ← disconnectTxs env earlier
        pure (combine (decide (result = .ok)) rest)

/-- The Sapling anchor of the chain up to a block.  Before the upgrade the header does not hold
it. -/
def anchorOf [PedersenHash] (params : Params) (pindex : CBlockIndex) : Uint256 :=
  if params.networkUpgradeActive pindex.nHeight .upgradeV5_0 then pindex.hashFinalSaplingRoot
  else SaplingMerkleTree.emptyRoot

/-- The undo data is what was read from disk, if it could be read.  The coinbase has no record. -/
def disconnectBlock [PedersenHash] (env : Env) (block : CBlock) (pprev : CBlockIndex)
    (blockUndo : Option CBlockUndo) : ViewProgram DisconnectResult :=
  match blockUndo with
  | none => pure .failed
  | some blockUndo => do
      if blockUndo.vtxundo.length + 1 ≠ block.vtx.length then pure .failed
      else
        match ← disconnectTxs env (block.vtx.zip ({} :: blockUndo.vtxundo)).reverse with
        | .failed => pure .failed
        | result =>
          popAnchor (anchorOf env.params pprev)
          setBestBlock pprev.hash
          pure result

end Deviant.Validation
