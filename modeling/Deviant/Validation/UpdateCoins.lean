import Deviant.Coins.ViewProgram
import Deviant.Consensus.Params
import Deviant.Data.KeyedWrites

namespace Deviant.Validation

open Coins Consensus Primitives
open ViewProgram (haveCoin accessCoin spendCoin addCoin setNullifiers)

/-! Applying a transaction to a coins view, and taking it back. -/

inductive DisconnectResult where
  | ok
  | unclean
  | failed
deriving DecidableEq

def skipInvalidUTXOS (params : Params) (nHeight : Nat) : Bool :=
  params.isMain && params.networkUpgradeActive nHeight .upgradeZC &&
    decide ((nHeight : Int) ≤ params.heightLastInvalidUTXO)

def combine : Bool → DisconnectResult → DisconnectResult
  | _, .failed => .failed
  | false, _ => .unclean
  | true, result => result

@[simp] theorem combine_true (result : DisconnectResult) : combine true result = result := by
  cases result <;> rfl

theorem combine_ne_failed (notFailed : result ≠ .failed) : combine fClean result ≠ .failed := by
  cases fClean <;> cases result <;> simp [combine] at notFailed ⊢

def outputCoin (tx : CTransaction) (nHeight : Nat) (out : CTxOut) : Coin where
  fCoinBase := tx.isCoinBase
  fCoinStake := tx.isCoinStake
  out := out
  nHeight := nHeight

section

variable (env : Env)

variable (tx : CTransaction)

def addOutput (nHeight : Nat) (check fSkipInvalid : Bool) (i : Nat) (out : CTxOut) :
    ViewProgram Unit :=
  if fSkipInvalid && decide (⟨tx.hash, i⟩ ∈ env.invalidOutPoints) then do
    -- A banned output: a no-op unless a coin is there.
    let _ ← spendCoin ⟨tx.hash, i⟩
    pure ()
  else if check then do
    let overwrite ← haveCoin ⟨tx.hash, i⟩
    addCoin ⟨tx.hash, i⟩ (outputCoin tx nHeight out) overwrite
  else addCoin ⟨tx.hash, i⟩ (outputCoin tx nHeight out) false

def addCoinsFrom (tx : CTransaction) (nHeight : Nat) (check fSkipInvalid : Bool) :
    Nat → List CTxOut → ViewProgram Unit
  | _, [] => pure ()
  | i, out :: rest => do
      addOutput env tx nHeight check fSkipInvalid i out
      addCoinsFrom tx nHeight check fSkipInvalid (i + 1) rest

def addCoins (nHeight : Nat) (check fSkipInvalid : Bool) : ViewProgram Unit :=
  addCoinsFrom env tx nHeight check fSkipInvalid 0 tx.vout

def spendInputs : List CTxIn → ViewProgram (List Coin)
  | [] => pure []
  | input :: rest => do
      let coin ← spendCoin input.prevout
      let coins ← spendInputs rest
      pure (coin :: coins)

/-- A transaction without coin inputs: a coinbase, or a zerocoin spend. -/
def hasNoCoinInputs : Bool := tx.isCoinBase || tx.hasZerocoinSpendInputs

def spendTxInputs : ViewProgram (List Coin) :=
  if hasNoCoinInputs tx then pure [] else spendInputs tx.vin

def updateCoins (nHeight : Nat) (fSkipInvalid : Bool) : ViewProgram CTxUndo := do
  let vprevout ← spendTxInputs tx
  setNullifiers tx true
  addCoins env tx nHeight false fSkipInvalid
  pure { vprevout }

end

/-- `MAX_BLOCK_SIZE_CURRENT` over the serialized size of an empty output. -/
def maxOutputsPerBlock : Nat := 2500000 / 9

/-- The first coin found among `count` outputs of a transaction from an index on. -/
def accessByTxidFrom (txid : Uint256) : Nat → Nat → ViewProgram Coin
  | _, 0 => pure Coin.empty
  | n, count + 1 => do
      let alternate ← accessCoin ⟨txid, n⟩
      if alternate.isSpent then accessByTxidFrom txid (n + 1) count else pure alternate

def accessByTxid (txid : Uint256) : ViewProgram Coin := accessByTxidFrom txid 0 maxOutputsPerBlock

def applyTxInUndo (undo : Coin) (out : COutPoint) : ViewProgram DisconnectResult := do
  let overwrites ← haveCoin out
  if undo.nHeight == 0 then
    -- Metadata missing from an old undo record: take it from another output of the transaction.
    let alternate ← accessByTxid out.hash
    if alternate.isSpent then pure .failed
    else
      addCoin out { alternate with out := undo.out } overwrites
      pure (if overwrites then .unclean else .ok)
  else
    addCoin out undo overwrites
    pure (if overwrites then .unclean else .ok)

/-- Spend the outputs of a transaction, from an index on; are they all there and as in the block? -/
def spendOutputsFrom (hash : Uint256) : Nat → List CTxOut → ViewProgram Bool
  | _, [] => pure true
  | o, out :: rest => do
      if CScript.isUnspendable out.scriptPubKey || out.isZerocoinMint then
        spendOutputsFrom hash (o + 1) rest
      else
        let coin ← spendCoin ⟨hash, o⟩
        let fClean ← spendOutputsFrom hash (o + 1) rest
        pure (decide (out = coin.out) && fClean)

def restoreInputs : List (CTxIn × Coin) → ViewProgram DisconnectResult
  | [] => pure .ok
  | (input, undo) :: earlier => do
      match ← applyTxInUndo undo input.prevout with
      | .failed => pure .failed
      | result =>
        let rest ← restoreInputs earlier
        pure (combine (decide (result = .ok)) rest)

end Deviant.Validation
