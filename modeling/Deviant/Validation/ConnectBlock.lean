import Deviant.Validation.CheckBlock
import Deviant.Validation.UpdateCoins

namespace Deviant.Validation

open Coins Consensus Primitives
open ViewProgram (haveCoin accessCoin getNullifier getSaplingAnchorAt getBestAnchor getBestBlock
  pushAnchor setBestBlock lift)

/-! Connecting a block. -/

def haveCoins : List CTxIn → ViewProgram Bool
  | [] => pure true
  | input :: rest => do
      if ← haveCoin input.prevout then haveCoins rest else pure false

def haveInputs (tx : CTransaction) : ViewProgram Bool :=
  if hasNoCoinInputs tx then pure true else haveCoins tx.vin

def haveSpendRequirements : List SpendDescription → ViewProgram Bool
  | [] => pure true
  | spend :: rest => do
      if ← getNullifier spend.nullifier then pure false
      else if (← getSaplingAnchorAt spend.anchor).isNone then pure false
      else haveSpendRequirements rest

def haveShieldedRequirements (tx : CTransaction) : ViewProgram Bool :=
  if tx.isShieldedTx then haveSpendRequirements tx.shieldedSpends else pure true

def sumInputs : List CTxIn → Int → ViewProgram Int
  | [], nResult => pure nResult
  | input :: rest, nResult => do
      let coin ← accessCoin input.prevout
      sumInputs rest (wrap64 (nResult + coin.out.nValue))

def getValueIn (tx : CTransaction) : ViewProgram Int :=
  if tx.isCoinBase then pure 0
  else if tx.hasZerocoinSpendInputs then pure (getZerocoinSpent tx)
  else do
    let nResult ← sumInputs tx.vin 0
    let shielded ← lift (getShieldedValueIn tx)
    pure (wrap64 (nResult + shielded))

def p2shSigOps (env : Env) : List CTxIn → ViewProgram Nat
  | [] => pure 0
  | input :: rest => do
      let coin ← accessCoin input.prevout
      let nSigOps ← p2shSigOps env rest
      pure (nSigOps + if CScript.isPayToScriptHash coin.out.scriptPubKey then
        env.verifier.p2shSigOpCount coin.out.scriptPubKey input.scriptSig else 0)

variable (env : Env)

def getSpendHeight : ViewProgram Nat := do
  match env.node.blockHeight (← getBestBlock) with
  | none => .fail (.assertion "mapBlockIndex.find(inputs.GetBestBlock())")
  | some nHeight => pure (nHeight + 1)

def checkInputValues (params : Params) (nSpendHeight : Nat) : List CTxIn → Int → ViewProgram Int
  | [], nValueIn => pure nValueIn
  | input :: rest, nValueIn => do
      let coin ← accessCoin input.prevout
      if coin.isSpent then .fail (.assertion "!coin.IsSpent()")
      else
        lift (require (!(coin.fCoinBase || coin.fCoinStake) ||
          decide ((params.nCoinbaseMaturity : Int) ≤ nSpendHeight - coin.nHeight))
          "bad-txns-premature-spend-of-coinbase-coinstake")
        lift (require (params.moneyRange coin.out.nValue &&
          params.moneyRange (wrap64 (nValueIn + coin.out.nValue))) "bad-txns-inputvalues-outofrange")
        checkInputValues params nSpendHeight rest (wrap64 (nValueIn + coin.out.nValue))

def checkTxInputs (params : Params) (tx : CTransaction) (nSpendHeight : Nat) :
    ViewProgram Unit := do
  lift (require (← haveInputs tx) "")
  lift (require (← haveShieldedRequirements tx) "")
  let nTransparent ← checkInputValues params nSpendHeight tx.vin 0
  let shielded ← lift (getShieldedValueIn tx)
  let nValueIn := wrap64 (nTransparent + shielded)
  if tx.isCoinStake then pure ()
  else
    let nValueOut ← lift (getValueOut tx)
    lift (require (decide (nValueOut ≤ nValueIn)) "bad-txns-in-belowout")
    let nTxFee := wrap64 (nValueIn - nValueOut)
    lift (require (decide (0 ≤ nTxFee)) "bad-txns-fee-negative")
    lift (require (params.moneyRange nTxFee) "bad-txns-fee-outofrange")

def checkScripts (env : Env) (tx : CTransaction) (fCLTVIsActivated : Bool) :
    Nat → List CTxIn → ViewProgram Unit
  | _, [] => pure ()
  | i, input :: rest => do
      let coin ← accessCoin input.prevout
      if coin.isSpent then .fail (.assertion "!coin.IsSpent()")
      else
        lift (require (env.verifier.scriptCheck tx i coin.out fCLTVIsActivated)
          "mandatory-script-verify-flag-failed")
        checkScripts env tx fCLTVIsActivated (i + 1) rest

def checkInputs (tx : CTransaction) (fScriptChecks fCLTVIsActivated : Bool) : ViewProgram Unit :=
  if hasNoCoinInputs tx then pure ()
  else do
    checkTxInputs env.params tx (← getSpendHeight env)
    if fScriptChecks then checkScripts env tx fCLTVIsActivated 0 tx.vin

/-- What the loop over the transactions of a block accumulates. -/
structure BlockTotals where
  nFees : Int := 0
  nValueIn : Int := 0
  nValueOut : Int := 0
  nSigOps : Nat := 0
  saplingTree : SaplingMerkleTree
  vtxundo : List CTxUndo := []

variable (block : CBlock)

variable (pindex : CBlockIndex)

section

variable (tx : CTransaction)

def checkMaintenance : Except Rejection Unit := do
  let fZerocoinMaintenance := decide (env.node.spork16ZerocoinMaintenance < block.nTime)
  let fSaplingMaintenance := decide (env.node.spork20SaplingMaintenance < block.nTime)
  require (env.node.isInitialBlockDownload || !(fZerocoinMaintenance && tx.containsZerocoins)) ""
  require (env.node.isInitialBlockDownload || !(fSaplingMaintenance && tx.isShieldedTx)) ""
  require (!(env.params.networkUpgradeActive pindex.nHeight .upgradeV5_0 && tx.containsZerocoins)) ""

def connectMints : Except Rejection Unit := do
  require (!(tx.hasZerocoinMintOutputs &&
    env.params.networkUpgradeActive pindex.nHeight .upgradeZCPublic)) ""
  require (tx.vout.all fun out => !out.isZerocoinMint || env.zerocoin.txOutToPublicCoin out) ""

def parseZerocoinSpend (zerocoin : Zerocoin) (tx : CTransaction) (input : CTxIn) :
    Except Rejection Nat :=
  if input.isZerocoinPublicSpend then
    match zerocoin.parseZerocoinPublicSpend input tx with
    | none => .error (.rejected "")
    | some denomination => .ok denomination
  else
    match zerocoin.txInToZerocoinSpend input with
    | none => .error (.runtimeError "TxInToZerocoinSpend")
    | some denomination => .ok denomination

/-- Parse and check the zerocoin spends of a transaction, adding their denominations. -/
def connectZerocoinInputs (env : Env) (block : CBlock) (pindex : CBlockIndex) (tx : CTransaction) :
    List CTxIn → Int → Except Rejection Int
  | [], nValueIn => .ok nValueIn
  | input :: rest, nValueIn =>
    if !input.isZerocoinSpend && !input.isZerocoinPublicSpend then
      connectZerocoinInputs env block pindex tx rest nValueIn
    else do
      require (env.params.networkUpgradeActive pindex.nHeight .upgradeZCPublic ==
        input.isZerocoinPublicSpend) ""
      let denomination ← parseZerocoinSpend env.zerocoin tx input
      require (env.zerocoin.contextualCheckZerocoinSpend tx input pindex.nHeight block.hash) ""
      connectZerocoinInputs env block pindex tx rest (wrap64 (nValueIn + denomination * coinUnit))

def connectZerocoinSpends (nValueIn : Int) : Except Rejection Int :=
  if !tx.hasZerocoinSpendInputs then .ok nValueIn
  else do
    match env.zerocoin.isTransactionInChain tx.hash with
    | none => pure ()
    | some nHeightTx =>
      require (env.node.fVerifyingBlocks && decide (pindex.nHeight ≤ nHeightTx))
        "bad-txns-inputs-missingorspent"
    connectZerocoinInputs env block pindex tx tx.vin nValueIn

/-- The checks of coin inputs and shielded spends; returns the signature operations so far. -/
def connectSpends (nSigOps : Nat) : ViewProgram Nat :=
  if hasNoCoinInputs tx then pure nSigOps
  else do
    lift (require (← haveInputs tx) "bad-txns-inputs-missingorspent")
    lift (require (← haveShieldedRequirements tx) "bad-txns-sapling-requirements-not-met")
    let nP2SHSigOps ← p2shSigOps env tx.vin
    lift (require (decide (nSigOps + nP2SHSigOps ≤ maxBlockSigopsCurrent)) "bad-blk-sigops")
    pure (nSigOps + nP2SHSigOps)

/-- The fee of a transaction, added to the fees so far; a coinstake pays none. -/
def addFee (nFees : Int) : ViewProgram Int :=
  if tx.isCoinStake then pure nFees
  else do
    let valueIn ← getValueIn tx
    let valueOut ← lift (getValueOut tx)
    pure (wrap64 (nFees + wrap64 (valueIn - valueOut)))

end

def connectValues (pindex pprev : CBlockIndex) (tx : CTransaction) (nFees nValueIn : Int) :
    ViewProgram (Int × Int) :=
  if tx.isCoinBase then pure (nFees, nValueIn)
  else do
    let nFees ← addFee tx nFees
    let valueIn ← getValueIn tx
    let fScriptChecks := decide (env.node.totalBlocksEstimate ≤ pindex.nHeight)
    let fCLTVIsActivated := env.params.networkUpgradeActive pprev.nHeight .upgradeBIP65
    checkInputs env tx fScriptChecks fCLTVIsActivated
    pure (nFees, wrap64 (nValueIn + valueIn))

/-- Connect one transaction.  The first one leaves no undo record. -/
def connectTx (pindex pprev : CBlockIndex) (isFirst : Bool) (tx : CTransaction)
    (totals : BlockTotals) : ViewProgram BlockTotals := do
  let nSigOps := totals.nSigOps + env.verifier.legacySigOpCount tx
  lift (require (decide (nSigOps ≤ maxBlockSigopsCurrent)) "bad-blk-sigops")
  lift (checkMaintenance env block pindex tx)
  lift (connectMints env pindex tx)
  let nValueIn ← lift (connectZerocoinSpends env block pindex tx totals.nValueIn)
  let nSigOps ← connectSpends env tx nSigOps
  let (nFees, nValueIn) ← connectValues env pindex pprev tx totals.nFees nValueIn
  let valueOut ← lift (getValueOut tx)
  let txundo ← updateCoins env tx pindex.nHeight (skipInvalidUTXOS env.params pindex.nHeight)
  pure {
    nFees
    nValueIn
    nValueOut := wrap64 (totals.nValueOut + valueOut)
    nSigOps
    saplingTree := totals.saplingTree ++
      if tx.isShieldedTx then tx.shieldedOutputs.map OutputDescription.cmu else []
    vtxundo := if isFirst then totals.vtxundo else totals.vtxundo ++ [txundo] }

def connectTxs (env : Env) (block : CBlock) (pindex pprev : CBlockIndex) :
    (isFirst : Bool) → List CTransaction → BlockTotals → ViewProgram BlockTotals
  | _, [], totals => pure totals
  | isFirst, tx :: rest, totals => do
      let totals ← connectTx env block pindex pprev isFirst tx totals
      connectTxs env block pindex pprev false rest totals

def BlockTotals.nMint (totals : BlockTotals) : Int :=
  wrap64 (wrap64 (totals.nValueOut - totals.nValueIn) + totals.nFees)

def nExpectedMint (totals : BlockTotals) : Int :=
  if block.isProofOfStake then Env.getBlockValue env pindex.nHeight
  else wrap64 (Env.getBlockValue env pindex.nHeight + totals.nFees)

def checkBlockKind : Except Rejection Unit := do
  let isPoSActive := env.params.networkUpgradeActive pindex.nHeight .upgradePOS
  require (isPoSActive || !block.isProofOfStake) "PoS-early"
  require (!isPoSActive || block.isProofOfStake) "PoW-ended"
  require (pindex.nChainSaplingValue.all fun value => decide (0 ≤ value))
    "turnstile-violation-sapling-shielded-pool"

def finishBlock (fJustCheck : Bool) (blockundo : CBlockUndo) : ViewProgram CBlockUndo :=
  if fJustCheck then pure blockundo
  else do
    setBestBlock pindex.hash
    pure blockundo

def checkTotals [PedersenHash] (env : Env) (block : CBlock) (pindex : CBlockIndex)
    (totals : BlockTotals) :
    Except Rejection Unit := do
  require (!env.params.networkUpgradeActive pindex.nHeight .upgradeV5_0 ||
    block.hashFinalSaplingRoot == SaplingMerkleTree.root totals.saplingTree) "bad-sapling-root-in-block"
  require (isBlockValueValid env pindex.nHeight (nExpectedMint env block pindex totals) totals.nMint)
    "bad-cb-amount"

def connectBlockBody [PedersenHash] (env : Env) (block : CBlock) (pindex pprev : CBlockIndex)
    (fJustCheck : Bool) : ViewProgram CBlockUndo := do
  lift (checkBlockKind env block pindex)
  match ← getSaplingAnchorAt (← getBestAnchor) with
  | none => .fail (.assertion "view.GetSaplingAnchorAt(view.GetBestAnchor(), sapling_tree)")
  | some saplingTree =>
    let totals ← connectTxs env block pindex pprev true block.vtx { saplingTree }
    pushAnchor totals.saplingTree
    lift (checkTotals env block pindex totals)
    finishBlock pindex fJustCheck { vtxundo := totals.vtxundo }

def connectBlock [PedersenHash] (env : Env) (block : CBlock) (pindex : CBlockIndex)
    (pprev : Option CBlockIndex) (fJustCheck : Bool) : ViewProgram CBlockUndo := do
  lift (checkBlock env block (!fJustCheck) (!fJustCheck) (!fJustCheck))
  let hashBest ← getBestBlock
  if hashBest ≠ pprev.elim 0 CBlockIndex.hash then
    .fail (.assertion "hashPrevBlock == view.GetBestBlock()")
  else if block.hash = env.params.hashGenesisBlock then
    -- The transactions of the genesis block are not connected.
    finishBlock pindex fJustCheck {}
  else
    match pprev with
    | none => .fail (.assertion "pindex->pprev")
    | some pprev => connectBlockBody env block pindex pprev fJustCheck

end Deviant.Validation
