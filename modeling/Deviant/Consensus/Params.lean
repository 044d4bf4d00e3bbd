import Deviant.Coins.View

namespace Deviant.Consensus

open Coins Primitives

/-! Consensus parameters, blocks, and what validation reads from outside the
chain state: the parts of the node, and the cryptographic and serialization
functions, that are taken as they are. -/

inductive UpgradeIndex where
  | upgradePOS
  | upgradeZC
  | upgradeBIP65
  | upgradeZCPublic
  | upgradeV5_0
deriving DecidableEq

structure Params where
  isMain : Bool
  isTestnet : Bool
  hashGenesisBlock : Uint256
  nMaxMoneyOut : Int
  nCoinbaseMaturity : Nat
  nBudgetCycleBlocks : Nat
  heightLastInvalidUTXO : Int
  heightLastZCWrappedSerials : Int
  zcMaxPublicSpendsPerTx : Nat
  zcMaxSpendsPerTx : Nat
  zcTimeStart : Nat
  /-- The activation height of an upgrade, `none` for `NO_ACTIVATION_HEIGHT`. -/
  vUpgrades : UpgradeIndex → Option Nat

namespace Params

def networkUpgradeActive (params : Params) (nHeight : Nat) (idx : UpgradeIndex) : Bool :=
  match params.vUpgrades idx with
  | none => false
  | some nActivationHeight => decide (nActivationHeight ≤ nHeight)

def moneyRange (params : Params) (nValue : Int) : Bool :=
  decide (0 ≤ nValue) && decide (nValue ≤ params.nMaxMoneyOut)

theorem moneyRange_iff {params : Params} :
    params.moneyRange nValue = true ↔ 0 ≤ nValue ∧ nValue ≤ params.nMaxMoneyOut := by
  simp [moneyRange]

end Params

def intMax : Nat := 2 ^ 31 - 1

def mainParams : Params where
  isMain := true
  isTestnet := false
  hashGenesisBlock := 0x00000e697a1e963f6ae8288419ffb0d59de9d232bac8efda8c6491d1c31e3139
  nMaxMoneyOut := 100000000 * coinUnit
  nCoinbaseMaturity := 10
  nBudgetCycleBlocks := 43200
  heightLastInvalidUTXO := intMax
  heightLastZCWrappedSerials := intMax
  zcMaxPublicSpendsPerTx := 637
  zcMaxSpendsPerTx := 7
  zcTimeStart := 1529589600
  vUpgrades
    | .upgradePOS => some 501
    | .upgradeZC => some 1
    | .upgradeBIP65 => some intMax
    | .upgradeZCPublic => some intMax
    | .upgradeV5_0 => some 1780000

structure CBlock where
  hash : Uint256
  hashPrevBlock : Uint256
  hashMerkleRoot : Uint256
  hashFinalSaplingRoot : Uint256
  nTime : Nat
  vtx : List CTransaction
deriving DecidableEq

def CBlock.isProofOfStake (block : CBlock) : Bool :=
  match block.vtx with
  | _ :: second :: _ => second.isCoinStake
  | _ => false

/-- A block index entry as connecting and disconnecting read it.  A hash is never null. -/
structure CBlockIndex where
  hash : Uint256
  nHeight : Nat
  hashFinalSaplingRoot : Uint256
  nChainSaplingValue : Option Int := none
  notNull : hash ≠ 0
deriving DecidableEq

theorem one_ne_null : (1 : Uint256) ≠ 0 := by decide

theorem two_ne_null : (2 : Uint256) ≠ 0 := by decide

structure CTxUndo where
  vprevout : List Coin := []
deriving DecidableEq

structure CBlockUndo where
  vtxundo : List CTxUndo := []
deriving DecidableEq

/-- The zerocoin library and its database, as far as block validation asks them.
A spend parses to its denomination; parsing a private spend may throw. -/
structure Zerocoin where
  parseZerocoinPublicSpend : CTxIn → CTransaction → Option Nat
  txInToZerocoinSpend : CTxIn → Option Nat
  txOutToPublicCoin : CTxOut → Bool
  contextualCheckZerocoinSpend : CTransaction → CTxIn → Nat → Uint256 → Bool
  checkZerocoinSpend : CTransaction → (fVerifySignature fFakeSerialAttack : Bool) → Bool
  isTransactionInChain : Uint256 → Option Nat

structure Verifier where
  totalSize : CTransaction → Nat
  serializeSize : CBlock → Nat
  checkProofOfWork : CBlock → Bool
  /-- The Merkle root of the transactions, and whether the tree was mutated. -/
  blockMerkleRoot : CBlock → Uint256 × Bool
  checkBlockSignature : CBlock → Bool
  legacySigOpCount : CTransaction → Nat
  /-- `scriptPubKey.GetSigOpCount(scriptSig)` of a pay-to-script-hash output. -/
  p2shSigOpCount : (scriptPubKey scriptSig : CScript) → Nat
  /-- `CScriptCheck` of the input at an index, with or without `CHECKLOCKTIMEVERIFY`. -/
  scriptCheck : CTransaction → Nat → CTxOut → (fCLTVIsActivated : Bool) → Bool

/-- The node's globals.  Functions of the masternode and budget modules that ask for
block rewards receive `GetBlockValue` of this node. -/
structure Node where
  isInitialBlockDownload : Bool
  moneySupply : Int
  masternodeSynced : Bool
  /-- The tip of the active chain: its hash and height. -/
  tip : Option (Uint256 × Nat)
  /-- The height of a block in `mapBlockIndex`. -/
  blockHeight : Uint256 → Option Nat
  /-- The tip is less than a day old. -/
  tipIsRecent : Bool
  fVerifyingBlocks : Bool
  isV6Active : Bool
  totalBlocksEstimate : Nat
  spork13Superblocks : Bool
  spork16ZerocoinMaintenance : Nat
  spork19ColdstakingMaintenance : Bool
  spork20SaplingMaintenance : Nat
  expectedPayeeAmount : Nat → Option Int
  /-- `GetTotalBudget` as a function of the block value it starts from. -/
  totalBudget : Int → Int
  checkColdStakeFreeOutput : (getBlockValue : Nat → Int) → CTransaction → Nat → Bool
  isBlockPayeeValid : (getBlockValue : Nat → Int) → CBlock → Nat → Bool

structure Env where
  params : Params
  zerocoin : Zerocoin
  verifier : Verifier
  node : Node
  /-- The list of `invalid_out`. -/
  invalidOutPoints : List COutPoint

/-- Surroundings that let everything pass: every outside check succeeds, no spork is on, and the
node is synced with no chain yet. -/
def Env.trusting (params : Params) : Env where
  params := params
  zerocoin := {
    parseZerocoinPublicSpend := fun _ _ => some 1
    txInToZerocoinSpend := fun _ => some 1
    txOutToPublicCoin := fun _ => true
    contextualCheckZerocoinSpend := fun _ _ _ _ => true
    checkZerocoinSpend := fun _ _ _ => true
    isTransactionInChain := fun _ => none }
  verifier := {
    totalSize := fun _ => 0
    serializeSize := fun _ => 0
    checkProofOfWork := fun _ => true
    blockMerkleRoot := fun block => (block.hashMerkleRoot, false)
    checkBlockSignature := fun _ => true
    legacySigOpCount := fun _ => 0
    p2shSigOpCount := fun _ _ => 0
    scriptCheck := fun _ _ _ _ => true }
  node := {
    isInitialBlockDownload := false
    moneySupply := 0
    masternodeSynced := true
    tip := none
    blockHeight := fun _ => none
    tipIsRecent := true
    fVerifyingBlocks := false
    isV6Active := false
    totalBlocksEstimate := 0
    spork13Superblocks := false
    spork16ZerocoinMaintenance := 4070908800
    spork19ColdstakingMaintenance := false
    spork20SaplingMaintenance := 4070908800
    expectedPayeeAmount := fun _ => none
    totalBudget := fun _ => 0
    checkColdStakeFreeOutput := fun _ _ _ => true
    isBlockPayeeValid := fun _ _ _ => true }
  invalidOutPoints := []

end Deviant.Consensus
