import Deviant.Budget.Voting
import Deviant.Validation.ConnectBlock
import Deviant.Validation.DisconnectBlock

namespace Deviant.Index

open Budget.Voting (isPayToPublicKeyHash)
open Coins Consensus Data Primitives Validation
open ViewProgram
    (accessCoin getSaplingAnchorAt getBestAnchor getBestBlock pushAnchor popAnchor setBestBlock
  setNullifiers lift)

/-! The address index, the index of unspent outputs by address and the index of spent outputs, as
`ConnectBlock` and `DisconnectBlock` keep them when they are enabled.  Both collect their changes in
vectors along their loops and write them to the block tree database at the end. -/

structure Address where
  type : Nat
  hashBytes : List UInt8
deriving DecidableEq

def noAddress : Address := ⟨0, List.replicate 20 0⟩

def isPayToWitnessPubkeyHash (script : CScript) :
    Bool := script.length == 22 && script.take 2 == [0x00, 0x14]

def addressOf (script : CScript) : Option Address :=
  if CScript.isPayToScriptHash script then some ⟨2, (script.drop 2).take 20⟩
  else if isPayToPublicKeyHash script then some ⟨1, (script.drop 3).take 20⟩
  else if isPayToWitnessPubkeyHash script then some ⟨1, script.drop 2⟩
  else none

structure CAddressIndexKey where
  address : Address
  blockHeight : Nat
  txindex : Nat
  txhash : Uint256
  index : Nat
  spending : Bool
deriving DecidableEq

structure CAddressUnspentKey where
  address : Address
  outpoint : COutPoint
deriving DecidableEq

structure CAddressUnspentValue where
  satoshis : Int
  script : CScript
  blockHeight : Nat
deriving DecidableEq

namespace CAddressUnspentValue

def null : CAddressUnspentValue := ⟨-1, [], 0⟩

def isNull (value : CAddressUnspentValue) : Bool := value.satoshis == -1

/-- What a batch does with a value: a null value erases. -/
def written (value : CAddressUnspentValue) :
    Option CAddressUnspentValue := if value.isNull then none else some value

end CAddressUnspentValue

structure CSpentIndexValue where
  txid : Uint256
  inputIndex : Nat
  blockHeight : Nat
  satoshis : Int
  address : Address
deriving DecidableEq

namespace CSpentIndexValue

def null : CSpentIndexValue := ⟨0, 0, 0, 0, noAddress⟩

def isNull (value : CSpentIndexValue) : Bool := value.txid == 0

def written (value : CSpentIndexValue) :
    Option CSpentIndexValue := if value.isNull then none else some value

end CSpentIndexValue

@[ext] structure Indexes where
  addressIndex : CAddressIndexKey → Option Int
  addressUnspentIndex : CAddressUnspentKey → Option CAddressUnspentValue
  spentIndex : COutPoint → Option CSpentIndexValue

structure IndexBatch where
  addressIndex : List (CAddressIndexKey × Int) := []
  addressUnspentIndex : List (CAddressUnspentKey × CAddressUnspentValue) := []
  spentIndex : List (COutPoint × CSpentIndexValue) := []
deriving DecidableEq

namespace IndexBatch

def append (first second : IndexBatch) : IndexBatch where
  addressIndex := first.addressIndex ++ second.addressIndex
  addressUnspentIndex := first.addressUnspentIndex ++ second.addressUnspentIndex
  spentIndex := first.spentIndex ++ second.spentIndex

instance : Append IndexBatch := ⟨append⟩

def concat (batches : List IndexBatch) : IndexBatch := batches.foldr (· ++ ·) {}

end IndexBatch

def writeAddressIndex (index : CAddressIndexKey → Option Int) (vect : List (CAddressIndexKey × Int)) :
    CAddressIndexKey → Option Int :=
  applyWrites index (vect.map fun entry => (entry.1, some entry.2))

def eraseAddressIndex (index : CAddressIndexKey → Option Int) (vect : List (CAddressIndexKey × Int)) :
    CAddressIndexKey → Option Int :=
  applyWrites index (vect.map fun entry => (entry.1, none))

def updateAddressUnspentIndex (index : CAddressUnspentKey → Option CAddressUnspentValue)
    (vect : List (CAddressUnspentKey × CAddressUnspentValue)) :
    CAddressUnspentKey → Option CAddressUnspentValue :=
  applyWrites index (vect.map fun entry => (entry.1, entry.2.written))

def updateSpentIndex (index : COutPoint → Option CSpentIndexValue)
    (vect : List (COutPoint × CSpentIndexValue)) :
    COutPoint → Option CSpentIndexValue :=
  applyWrites index (vect.map fun entry => (entry.1, entry.2.written))

/-- What the spent index says of an output: the input that spent it, and what it paid to whom. -/
def spentValue (nHeight : Nat) (txhash : Uint256) (j : Nat) (out : CTxOut) : CSpentIndexValue :=
  ⟨txhash, j, nHeight, out.nValue, (addressOf out.scriptPubKey).getD noAddress⟩

section

variable (nHeight i : Nat)

/-- An output spent by the input `j` of the transaction `i`. -/
def spendBatch (txhash : Uint256) (j : Nat) (prevout : COutPoint) (out : CTxOut) : IndexBatch where
  addressIndex := ((addressOf out.scriptPubKey).map fun address =>
    (⟨address, nHeight, i, txhash, j, true⟩, out.nValue * -1)).toList
  addressUnspentIndex := ((addressOf out.scriptPubKey).map fun address =>
    (⟨address, prevout⟩, CAddressUnspentValue.null)).toList
  spentIndex := [(prevout, spentValue nHeight txhash j out)]

/-- The output `k` of the transaction `i`. -/
def receiveBatch (txhash : Uint256) (out : CTxOut) (k : Nat) : IndexBatch where
  addressIndex := ((addressOf out.scriptPubKey).map fun address =>
    (⟨address, nHeight, i, txhash, k, false⟩, out.nValue)).toList
  addressUnspentIndex := ((addressOf out.scriptPubKey).map fun address =>
    (⟨address, ⟨txhash, k⟩⟩, ⟨out.nValue, out.scriptPubKey, nHeight⟩)).toList

def receivesBatch (tx : CTransaction) : IndexBatch :=
  .concat (tx.vout.zipIdx.map fun (out, k) => receiveBatch nHeight i tx.hash out k)

def recordInputs (txhash : Uint256) : Nat → List CTxIn → ViewProgram IndexBatch
  | _, [] => pure {}
  | j, input :: rest => do
      let coin ← accessCoin input.prevout
      let later ← recordInputs txhash (j + 1) rest
      pure (spendBatch nHeight i txhash j input.prevout coin.out ++ later)

def recordSpends (tx : CTransaction) : ViewProgram IndexBatch :=
  if hasNoCoinInputs tx then pure {} else recordInputs nHeight i tx.hash 0 tx.vin

/-- Connect the transaction `i`.  The inputs are recorded, before the coins are updated, by
questions to the view; where they stand among the other checks does not matter. -/
def connectTxIndexed (env : Env) (block : CBlock) (pindex pprev : CBlockIndex) (i : Nat)
    (tx : CTransaction) (totals : BlockTotals) : ViewProgram (BlockTotals × IndexBatch) := do
  let spends ← recordSpends pindex.nHeight i tx
  let totals ← connectTx env block pindex pprev (i == 0) tx totals
  pure (totals, spends ++ receivesBatch pindex.nHeight i tx)

def connectTxsIndexed (env : Env) (block : CBlock) (pindex pprev : CBlockIndex) :
    (i : Nat) → List CTransaction → BlockTotals → ViewProgram (BlockTotals × IndexBatch)
  | _, [], totals => pure (totals, {})
  | i, tx :: rest, totals => do
      let (totals, batch) ← connectTxIndexed env block pindex pprev i tx totals
      let (totals, later) ← connectTxsIndexed env block pindex pprev (i + 1) rest totals
      pure (totals, batch ++ later)

def Indexes.connect (indexes : Indexes) (batch : IndexBatch) : Indexes where
  addressIndex := writeAddressIndex indexes.addressIndex batch.addressIndex
  addressUnspentIndex :=
    updateAddressUnspentIndex indexes.addressUnspentIndex batch.addressUnspentIndex
  spentIndex := updateSpentIndex indexes.spentIndex batch.spentIndex

def connectBlockBodyIndexed [PedersenHash] (env : Env) (block : CBlock) (pindex pprev : CBlockIndex)
    (indexes : Indexes) : ViewProgram (CBlockUndo × Indexes) := do
  lift (checkBlockKind env block pindex)
  match ← getSaplingAnchorAt (← getBestAnchor) with
  | none => .fail (.assertion "view.GetSaplingAnchorAt(view.GetBestAnchor(), sapling_tree)")
  | some saplingTree =>
    let (totals, batch) ← connectTxsIndexed env block pindex pprev 0 block.vtx { saplingTree }
    pushAnchor totals.saplingTree
    lift (checkTotals env block pindex totals)
    let blockundo ← finishBlock pindex false { vtxundo := totals.vtxundo }
    pure (blockundo, indexes.connect batch)

/-- `ConnectBlock` of a block with a parent, to be stored, with the indexes it leaves. -/
def connectBlockIndexed [PedersenHash] (env : Env) (block : CBlock) (pindex pprev : CBlockIndex)
    (indexes : Indexes) : ViewProgram (CBlockUndo × Indexes) := do
  lift (checkBlock env block true true true)
  let hashBest ← getBestBlock
  if hashBest ≠ pprev.hash then .fail (.assertion "hashPrevBlock == view.GetBestBlock()")
  else if block.hash = env.params.hashGenesisBlock then do
    let blockundo ← finishBlock pindex false {}
    pure (blockundo, indexes)
  else connectBlockBodyIndexed env block pindex pprev indexes

/-- The output `k` of the transaction `i` taken back. -/
def unreceiveBatch (txhash : Uint256) (out : CTxOut) (k : Nat) : IndexBatch where
  addressIndex := ((addressOf out.scriptPubKey).map fun address =>
    (⟨address, nHeight, i, txhash, k, false⟩, out.nValue)).toList
  addressUnspentIndex := ((addressOf out.scriptPubKey).map fun address =>
    (⟨address, ⟨txhash, k⟩⟩, CAddressUnspentValue.null)).toList

def unreceivesBatch (tx : CTransaction) : IndexBatch :=
  .concat (tx.vout.zipIdx.reverse.map fun (out, k) => unreceiveBatch nHeight i tx.hash out k)

/-- The input `j` of the transaction `i` taken back.  The coin is the one that was restored; its
height is the one in the undo record once `ApplyTxInUndo` has completed the record. -/
def unspendBatch (txhash : Uint256) (j : Nat) (prevout : COutPoint) (coin : Coin) : IndexBatch where
  addressIndex := ((addressOf coin.out.scriptPubKey).map fun address =>
    (⟨address, nHeight, i, txhash, j, true⟩, coin.out.nValue * -1)).toList
  addressUnspentIndex := ((addressOf coin.out.scriptPubKey).map fun address =>
    (⟨address, prevout⟩, ⟨coin.out.nValue, coin.out.scriptPubKey, coin.nHeight⟩)).toList
  spentIndex := [(prevout, CSpentIndexValue.null)]

/-- `restoreInputs` with the indexes: the inputs with their indices, the last one first. -/
def restoreInputsIndexed (txhash : Uint256) :
    List ((CTxIn × Coin) × Nat) → ViewProgram (DisconnectResult × IndexBatch)
  | [] => pure (.ok, {})
  | ((input, undo), j) :: earlier => do
      match ← applyTxInUndo undo input.prevout with
      | .failed => pure (.failed, {})
      | result => do
          let coin ← accessCoin input.prevout
          let (rest, batch) ← restoreInputsIndexed txhash earlier
          pure (combine (decide (result = .ok)) rest,
            unspendBatch nHeight i txhash j input.prevout coin ++ batch)

end

def disconnectTxIndexed (env : Env) (nHeight i : Nat) (tx : CTransaction) (txundo : CTxUndo) :
    ViewProgram (DisconnectResult × IndexBatch) := do
  let erased ← ViewProgram.lift (disconnectZerocoinTx env.zerocoin tx)
  if !erased then pure (.failed, {})
  else
    let fClean ← spendOutputsFrom tx.hash 0 tx.vout
    if hasNoCoinInputs tx then pure (combine fClean .ok, unreceivesBatch nHeight i tx)
    else
      setNullifiers tx false
      if txundo.vprevout.length ≠ tx.vin.length then pure (.failed, {})
      else
        let (result, batch) ← restoreInputsIndexed nHeight i tx.hash
          (tx.vin.zip txundo.vprevout).zipIdx.reverse
        pure (combine fClean result, unreceivesBatch nHeight i tx ++ batch)

def disconnectTxsIndexed (env : Env) (nHeight : Nat) :
    List ((CTransaction × CTxUndo) × Nat) → ViewProgram (DisconnectResult × IndexBatch)
  | [] => pure (.ok, {})
  | ((tx, txundo), i) :: earlier => do
      match ← disconnectTxIndexed env nHeight i tx txundo with
      | (.failed, _) => pure (.failed, {})
      | (result, batch) => do
          let (rest, later) ← disconnectTxsIndexed env nHeight earlier
          pure (combine (decide (result = .ok)) rest, batch ++ later)

/-- The vector of the spent index is collected like the others, but nothing is done with it. -/
def Indexes.disconnect (indexes : Indexes) (batch : IndexBatch) : Indexes where
  addressIndex := eraseAddressIndex indexes.addressIndex batch.addressIndex
  addressUnspentIndex :=
    updateAddressUnspentIndex indexes.addressUnspentIndex batch.addressUnspentIndex
  spentIndex := indexes.spentIndex

def disconnectBlockIndexed [PedersenHash] (env : Env) (block : CBlock) (pindex pprev : CBlockIndex)
    (blockUndo : Option CBlockUndo) (indexes : Indexes) : ViewProgram (DisconnectResult × Indexes) :=
  match blockUndo with
  | none => pure (.failed, indexes)
  | some blockUndo => do
      if blockUndo.vtxundo.length + 1 ≠ block.vtx.length then pure (.failed, indexes)
      else
        match ← disconnectTxsIndexed env pindex.nHeight
          (block.vtx.zip ({} :: blockUndo.vtxundo)).zipIdx.reverse with
        | (.failed, _) => pure (.failed, indexes)
        | (result, batch) => do
            popAnchor (anchorOf env.params pprev)
            setBestBlock pprev.hash
            pure (result, indexes.disconnect batch)

end Deviant.Index
