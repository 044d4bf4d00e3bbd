import Deviant.Consensus.TxVerify

namespace Deviant.Validation

open Coins Consensus Primitives

/-! The block reward, and the checks of a block that need no coins. -/

/-- The subsidy schedule.  A literal that is no whole number of coins is the value the source's
`double` product has once it is truncated to an integer. -/
def blockSubsidy (nHeight : Nat) : Int :=
  if 0 < nHeight ∧ nHeight < 501 then 21400 * coinUnit
  else if 501 ≤ nHeight ∧ nHeight < 225650 then 20 * coinUnit
  else if nHeight < 751300 ∧ 225650 ≤ nHeight then 1639999999
  else if nHeight < 1276950 ∧ 751300 ≤ nHeight then 1344800000
  else if nHeight < 1802600 ∧ 1276950 ≤ nHeight then 1102800000
  else if nHeight < 2328250 ∧ 1802600 ≤ nHeight then 904400000
  else if nHeight < 2853900 ∧ 2328250 ≤ nHeight then 608000000
  else if nHeight < 3379550 ∧ 2853900 ≤ nHeight then 608000000
  else if nHeight < 3905200 ∧ 3379550 ≤ nHeight then 498600000
  else if nHeight < 4430850 ∧ 3905200 ≤ nHeight then 409000000
  else if nHeight < 4956500 ∧ 4430850 ≤ nHeight then 335399999
  else if nHeight < 5482150 ∧ 4956500 ≤ nHeight then 275000000
  else if nHeight < 6007800 ∧ 5482150 ≤ nHeight then 225400000
  else if nHeight < 6533450 ∧ 6007800 ≤ nHeight then 184800000
  else if nHeight < 7378560 ∧ 6533450 ≤ nHeight then 1 * coinUnit
  else if nHeight < 10013760 ∧ 7378560 ≤ nHeight then 90000000
  else if nHeight < 12648960 ∧ 10013760 ≤ nHeight then 80000000
  else if nHeight < 15284160 ∧ 12648960 ≤ nHeight then 70000000
  else if nHeight < 17919360 ∧ 15284160 ≤ nHeight then 60000000
  else if nHeight < 20554560 ∧ 17919360 ≤ nHeight then 50000000
  else if nHeight < 23189760 ∧ 20554560 ≤ nHeight then 40000000
  else if nHeight < 25824960 ∧ 23189760 ≤ nHeight then 30000000
  else 25000000

def getBlockValue (params : Params) (moneySupply : Int) (nHeight : Nat) : Int :=
  if params.nMaxMoneyOut ≤ wrap64 (moneySupply + blockSubsidy nHeight) then 0
    else blockSubsidy nHeight

section

variable (env : Env)

/-- `GetBlockValue` on this node. -/
def Env.getBlockValue (nHeight : Nat) : Int :=
  Validation.getBlockValue env.params env.node.moneySupply nHeight

/-- What `IsBlockValueValid` adds to the expected value on account of the budget. -/
def budgetAllowance (nHeight : Nat) : Int :=
  if !env.node.masternodeSynced then
    if nHeight % env.params.nBudgetCycleBlocks < 100
      then env.node.totalBudget (Env.getBlockValue env nHeight)
    else 0
  else if env.node.spork13Superblocks then (env.node.expectedPayeeAmount nHeight).getD 0
  else 0

def isBlockValueValid (nHeight : Nat) (nExpectedValue nMinted : Int) : Bool :=
  if !env.node.masternodeSynced && decide (nHeight % env.params.nBudgetCycleBlocks < 100) &&
      env.params.isTestnet then true
  else if nHeight == 609500 || decide (nHeight ≤ 1780000) then true
  else decide (nMinted ≤ wrap64 (nExpectedValue + budgetAllowance env nHeight))

def isBlockBetweenFakeSerialAttackRange (params : Params) (nHeight : Nat) : Bool :=
  params.isMain && decide ((nHeight : Int) ≤ params.heightLastZCWrappedSerials)

def maxBlockSizeCurrent : Nat := 2500000
def maxBlockShieldedTxesSize : Nat := 750000
def maxBlockSigopsCurrent : Nat := 50000
def maxBlockSigopsLegacy : Nat := 20000

variable (block : CBlock)

def getTotalShieldedTxSize : Nat :=
  ((block.vtx.filter CTransaction.isShieldedTx).map env.verifier.totalSize).sum

/-- The height the masternode and budget checks assume for the block, zero when unknown. -/
def paymentHeight : Nat :=
  match env.node.tip with
  | none => 0
  | some (tipHash, tipHeight) =>
    if tipHash == block.hashPrevBlock then tipHeight + 1
    else
      match env.node.blockHeight block.hashPrevBlock with
      | none => 0
      | some prevHeight => prevHeight + 1

def checkBlockForm : Except Rejection Unit := do
  require (block.vtx.head?.any CTransaction.isCoinBase) "bad-cb-missing"
  require (block.vtx.tail.all fun tx => !tx.isCoinBase) "bad-cb-multiple"
  if block.isProofOfStake then
    require (block.vtx.head?.any fun tx =>
      match tx.vout with
      | [out] => out.isEmpty
      | _ => false) "bad-cb-pos"
    require ((block.vtx.drop 2).all fun tx => !tx.isCoinStake) "bad-cs-multiple"

def zerocoinActive : Bool := decide (env.params.zcTimeStart < block.nTime)

def nextHeight : Nat :=
  match env.node.tip with
  | none => 0
  | some (_, tipHeight) => tipHeight + 1

def saplingActive : Bool := env.params.networkUpgradeActive (nextHeight env) .upgradeV5_0

def checkBlockTransactions (env : Env) (block : CBlock) (fColdStakingActive : Bool) :
    List CTransaction → Except Rejection Unit
  | [] => .ok ()
  | tx :: rest => do
      checkTransaction env tx (zerocoinActive env block)
        (isBlockBetweenFakeSerialAttackRange env.params (nextHeight env)) fColdStakingActive
        (saplingActive env)
      require (!(saplingActive env && tx.containsZerocoins)) ""
      checkBlockTransactions env block fColdStakingActive rest

def checkBlock (fCheckPOW fCheckMerkleRoot fCheckSig : Bool) : Except Rejection Unit := do
  require (block.isProofOfStake || !fCheckPOW || env.verifier.checkProofOfWork block) "high-hash"
  let (hashMerkleRoot, mutated) := env.verifier.blockMerkleRoot block
  require (!fCheckMerkleRoot || block.hashMerkleRoot == hashMerkleRoot) "bad-txnmrklroot"
  require (!fCheckMerkleRoot || !mutated) "bad-txns-duplicate"
  let nBlockSize := env.verifier.serializeSize block
  require (!block.vtx.isEmpty && decide (block.vtx.length ≤ maxBlockSizeCurrent) &&
    decide (nBlockSize ≤ maxBlockSizeCurrent)) "bad-blk-length"
  require (!(decide (maxBlockShieldedTxesSize < nBlockSize) &&
    decide (maxBlockShieldedTxesSize < getTotalShieldedTxSize env block))) "bad-blk-shielded-size"
  checkBlockForm block
  let nHeight := paymentHeight env block
  let fCheckPayments := nHeight != 0 && !env.node.isInitialBlockDownload
  require (!fCheckPayments || !block.isProofOfStake || (block.vtx[1]?).all fun coinstake =>
    env.node.checkColdStakeFreeOutput (Env.getBlockValue env) coinstake nHeight) "bad-p2cs-outs"
  require (!fCheckPayments || env.node.isBlockPayeeValid (Env.getBlockValue env) block nHeight)
    "bad-cb-payee"
  checkBlockTransactions env block (!fCheckPayments || !env.node.spork19ColdstakingMaintenance) block.vtx
  let nSigOps := (block.vtx.map env.verifier.legacySigOpCount).sum
  require (decide (nSigOps ≤
    if zerocoinActive env block then maxBlockSigopsCurrent else maxBlockSigopsLegacy)) "bad-blk-sigops"
  require (!fCheckSig || env.verifier.checkBlockSignature block) "bad-PoS-sig"

end

theorem checkBlockTransactions_ok
    (passed : checkBlockTransactions env block fColdStakingActive txs = .ok ()) :
    ∀ tx ∈ txs, TransactionChecked env.params (zerocoinActive env block)
      (saplingActive env) tx := by
  induction txs with
  | nil => simp
  | cons tx rest ih =>
    obtain ⟨_, checked, passed⟩ := bind_eq_ok.mp passed
    rw [require_bind_eq_ok] at passed
    intro other member
    rcases List.mem_cons.mp member with rfl | later
    · exact checkTransaction_ok checked
    · exact ih passed.2 other later

/-- What `CheckBlock` establishes about the transactions of a block. -/
structure BlockChecked (env : Env) (block : CBlock) : Prop where
  form : checkBlockForm block = .ok ()
  transactions : ∀ tx ∈ block.vtx,
    TransactionChecked env.params (zerocoinActive env block) (saplingActive env) tx

theorem checkBlock_ok (passed : checkBlock env block fCheckPOW fCheckMerkleRoot fCheckSig =
      .ok ()) : BlockChecked env block := by
  simp only [checkBlock, require_bind_eq_ok] at passed
  obtain ⟨-, -, -, -, -, passed⟩ := passed
  obtain ⟨_, form, passed⟩ := bind_eq_ok.mp passed
  simp only [require_bind_eq_ok] at passed
  obtain ⟨-, -, passed⟩ := passed
  obtain ⟨_, transactions, -⟩ := bind_eq_ok.mp passed
  exact ⟨form, checkBlockTransactions_ok transactions⟩

end Deviant.Validation
