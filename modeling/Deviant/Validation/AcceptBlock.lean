import Deviant.Validation.ReplayBlocks
import Deviant.Validation.TipIndependence
import Deviant.Validation.TxUndo

namespace Deviant.Validation

open Chain Coins Consensus Data Primitives

/-! Accepting a block: the checks between its arrival and its being written to disk, among them
those of the output that a proof-of-stake block stakes. -/

def blockTxs (files : BlockFiles) (pindex : CBlockIndex) : List (Nat × CTransaction) :=
  ((files.readBlockFromDisk pindex).elim [] CBlock.vtx).map (pindex.nHeight, ·)

/-- The transactions of a chain, oldest first.  Those of the genesis block are never connected. -/
def chainTxs (files : BlockFiles) : BlockPath → List (Nat × CTransaction)
  | [] => []
  | [_] => []
  | pindex :: pprev :: path => chainTxs files (pprev :: path) ++ blockTxs files pindex

def connectCoins (env : Env) (coins : COutPoint → Option Coin) (entry : Nat × CTransaction) :
    COutPoint → Option Coin :=
  applyWrites coins (connectWrites env entry.1 entry.2)

def utxoSet (env : Env) (files : BlockFiles) (path : BlockPath) : COutPoint → Option Coin :=
  (chainTxs files path).foldl (connectCoins env) fun _ => none

/-- Consensus parameters that only staking reads, and the argument `-maxreorg`. -/
structure StakingParams where
  nStakeMinAge : Nat
  nStakeMinDepth : Nat
  /-- The activation height of `UPGRADE_V3_4`. -/
  heightV3_4 : Nat
  maxReorg : Int

def mainStaking : StakingParams where
  nStakeMinAge := 60 * 60
  nStakeMinDepth := 100
  heightV3_4 := intMax
  maxReorg := 100

/-- The block index and the active chain, with the coins at its tip. -/
structure ChainTip (env : Env) (files : BlockFiles) where
  mapBlockIndex : BlockMap
  /-- `nStatus & BLOCK_FAILED_MASK` and `nStatus & BLOCK_HAVE_DATA`. -/
  failed : Uint256 → Bool
  haveData : Uint256 → Bool
  chainActive : BlockPath
  pcoinsTip : COutPoint → Option Coin
  current : pcoinsTip = utxoSet env files chainActive

inductive StakeInput where
  | coin (outputFrom : CTxOut) (outpointFrom : COutPoint) (pindexFrom : BlockPath)
  | zerocoin (txin : CTxIn) (pindexFrom : BlockPath)

structure AcceptSources where
  checkWork : CBlock → BlockPath → Bool
  /-- `Checkpoints::CheckBlock` for an exact match. -/
  matchesCheckpoint : Nat → Uint256 → Bool
  /-- The time, checkpoint and version checks of `ContextualCheckBlockHeader`. -/
  checkHeader : CBlock → BlockPath → Bool
  contextualCheckBlock : CBlock → BlockPath → Bool
  mempoolGet : Uint256 → Option CTransaction
  fTxIndex : Bool
  /-- A transaction and the hash of its block, by the transaction index. -/
  readTxIndex : Uint256 → Option (CTransaction × Uint256)
  blockTime : CBlockIndex → Nat
  /-- The block a zerocoin stake is from, on the active chain. -/
  initLegacyStake : (chainActive : BlockPath) → CTxIn → Option BlockPath
  legacyContextCheck : (chainActive : BlockPath) → CTxIn → Nat → Bool
  checkKernelHash : (pindexPrev : BlockPath) → StakeInput → CBlock → Bool
  verifyStakeScript : CTransaction → CTxOut → Bool
  library : ZerocoinLibrary
  isSerialInBlockchain : Nat → Option Nat
  contextualCheckZerocoinSpendNoSerialCheck : CTransaction → CoinSpend → Nat → Bool
  writeBlockToDisk : CBlock → Bool

/-- `chainActive.Contains`, of a block with its ancestors. -/
def contains (chainActive path : BlockPath) : Bool :=
  !path.isEmpty && decide (chainActive.getAncestor path.nHeight = path)

section

variable {env : Env} {files : BlockFiles} (staking : StakingParams) (sources : AcceptSources)

def coinOfTxid (coins : COutPoint → Option Coin) (txid : Uint256) : Option Coin :=
  (List.range maxOutputsPerBlock).findSome? fun n => coins ⟨txid, n⟩

variable (tip : ChainTip env files)

/-- `GetTransaction` with `fAllowSlow`.  A transaction of the mempool comes with the null hash. -/
def getTransaction (hash : Uint256) : Option (CTransaction × Uint256) :=
  match sources.mempoolGet hash with
  | some tx => some (tx, 0)
  | none =>
    if sources.fTxIndex then sources.readTxIndex hash
    else do
      let coin ← coinOfTxid tip.pcoinsTip hash
      let pindexSlow ← (tip.chainActive.getAncestor coin.nHeight).head?
      let block ← files.readBlockFromDisk pindexSlow
      let tx ← block.vtx.find? (·.hash = hash)
      pure (tx, pindexSlow.hash)

/-- The index is not checked in the source: beyond the outputs the read is undefined. -/
def newDeviantStake (txin : CTxIn) : Option StakeInput :=
  if txin.isZerocoinSpend then none
  else do
    let (txPrev, hashBlock) ← getTransaction sources tip txin.prevout.hash
    let pindexFrom ← tip.mapBlockIndex.find hashBlock
    guard (contains tip.chainActive pindexFrom)
    let outputFrom ← txPrev.vout[txin.prevout.n]?
    pure (.coin outputFrom txin.prevout pindexFrom)

def loadStakeInput (block : CBlock) (pindexPrev : BlockPath) : Option StakeInput := do
  guard (block.hashPrevBlock = pindexPrev.hash)
  guard block.isProofOfStake
  let txin ← block.vtx[1]?.bind fun tx => tx.vin.head?
  if txin.isZerocoinSpend then
    let pindexFrom ← sources.initLegacyStake tip.chainActive txin
    pure (.zerocoin txin pindexFrom)
  else newDeviantStake sources tip txin

def hasStakeMinAgeOrDepth (contextHeight contextTime utxoFromBlockHeight utxoFromBlockTime : Nat) :
    Bool :=
  if contextHeight < staking.heightV3_4 then
    decide ((utxoFromBlockTime + staking.nStakeMinAge) % 2 ^ 32 ≤ contextTime)
  else decide ((staking.nStakeMinDepth : Int) ≤ (contextHeight : Int) - utxoFromBlockHeight)

def contextCheck (stakeInput : StakeInput) (nHeight nTime : Nat) : Bool :=
  match stakeInput with
  | .coin _ _ pindexFrom =>
    !env.params.networkUpgradeActive (nHeight + 1) .upgradeZCPublic ||
      hasStakeMinAgeOrDepth staking nHeight nTime pindexFrom.nHeight
      (pindexFrom.head?.elim 0 sources.blockTime)
  | .zerocoin txin _ => sources.legacyContextCheck tip.chainActive txin nHeight

def checkStakeSignature (block : CBlock) : StakeInput → Bool
  | .coin outputFrom _ _ => block.vtx[1]?.any fun tx => sources.verifyStakeScript tx outputFrom
  | .zerocoin _ _ => true

def checkProofOfStake (block : CBlock) (pindexPrev : BlockPath) : Except Rejection Unit :=
  -- The height of the parent is read first.
  if pindexPrev.isEmpty then .error (.runtimeError "pindexPrev")
  else match loadStakeInput sources tip block pindexPrev with
  | none => .error (.rejected "stake input initialization failed")
  | some stakeInput => do
      require (contextCheck staking sources tip stakeInput (pindexPrev.nHeight + 1) block.nTime)
        "stake input failing contextual checks"
      require (sources.checkKernelHash pindexPrev stakeInput block) "kernel hash check fails"
      require (checkStakeSignature sources block stakeInput) "signature fails"

variable (reconsider : ChainTip env files → BlockPath → ChainTip env files)

/-- The parent of a block, null for the genesis block, and the node as it is then: a parent that
failed but is a checkpoint is reconsidered, and the best chain activated. -/
def getPrevIndex (tip : ChainTip env files) (block : CBlock) :
    Except Rejection (ChainTip env files × BlockPath) :=
  if block.hash = env.params.hashGenesisBlock then .ok (tip, [])
  else
    match tip.mapBlockIndex.find block.hashPrevBlock with
    | none => .error (.rejected "prevblk-not-found")
    | some pindexPrev =>
      if !tip.failed block.hashPrevBlock then .ok (tip, pindexPrev)
      else if sources.matchesCheckpoint pindexPrev.nHeight block.hashPrevBlock then
        .ok (reconsider tip pindexPrev, pindexPrev)
      else .error (.rejected "bad-prevblk")

def acceptBlockHeader (block : CBlock) (pindexPrev : BlockPath) : Except Rejection Nat :=
  match tip.mapBlockIndex.find block.hash with
  | some pindex => do
      require (!tip.failed block.hash) "duplicate"
      pure pindex.nHeight
  | none =>
    if block.hash = env.params.hashGenesisBlock then .ok 0
    else do
      require (decide ((tip.chainActive.nHeight : Int) - (pindexPrev.nHeight + 1 : Nat) <
        staking.maxReorg))
        "forked chain older than max reorganization depth"
      require (sources.checkHeader block pindexPrev) "ContextualCheckBlockHeader failed"
      pure (pindexPrev.nHeight + 1)

def checkPublicCoinSpendEnforced (params : Params) (nHeight : Nat) (isPublicSpend : Bool) : Bool :=
  params.networkUpgradeActive nHeight .upgradeZCPublic == isPublicSpend

def privateSerial (input : CTxIn) : Except Rejection Nat :=
  match sources.library.txInToZerocoinSpend input with
  | none => .error (.runtimeError "TxInToZerocoinSpend")
  | some spend => .ok spend.coinSerialNumber

def spendSerial (tx : CTransaction) (input : CTxIn) : Except Rejection Nat :=
  if input.isZerocoinPublicSpend then
    match (sources.library.getOutput input.prevout).bind (sources.library.parseCoinSpend input tx) with
    | none => .error (.rejected "bad-txns-invalid-zdev")
    | some spend => .ok spend.coinSerialNumber
  else privateSerial sources input

def addBlockSerial (params : Params) (nHeight : Nat) (tx : CTransaction) (input : CTxIn)
    (inBlockSerials : List Nat) : Except Rejection (List Nat) :=
  if params.networkUpgradeActive nHeight .upgradeZC &&
    (input.isZerocoinSpend || input.isZerocoinPublicSpend) then do
    require (checkPublicCoinSpendEnforced params nHeight input.isZerocoinPublicSpend) ""
    let serial ← spendSerial sources tx input
    require (decide (serial ∉ inBlockSerials)) "serial double spent on the same block"
    pure (inBlockSerials ++ [serial])
  else .ok inBlockSerials

def checkBlockInputs (params : Params) (nHeight : Nat) (deviantInputs : List CTxIn) :
    List (CTransaction × CTxIn) → (inBlockSerials : List Nat) → Except Rejection Unit
  | [], _ => .ok ()
  | (tx, input) :: rest, inBlockSerials => do
      let inBlockSerials ← addBlockSerial sources params nHeight tx input inBlockSerials
      require (tx.isCoinStake || deviantInputs.all fun deviantIn =>
        decide (deviantIn.prevout ≠ input.prevout))
        "double spent coinstake input inside block"
      checkBlockInputs params nHeight deviantInputs rest inBlockSerials

def addForkSerial (hasZDEVInputs : Bool) (input : CTxIn) (vBlockSerials : List Nat) :
    Except Rejection (List Nat) :=
  if hasZDEVInputs && input.isZerocoinSpend then
    (privateSerial sources input).map fun serial => vBlockSerials ++ [serial]
  else .ok vBlockSerials

/-- The inputs of a block of the fork: none may spend what the stake spends. -/
def scanInputs (deviantInputs : List CTxIn) (hasZDEVInputs : Bool) :
    List CTxIn → (vBlockSerials : List Nat) → Except Rejection (List Nat)
  | [], vBlockSerials => .ok vBlockSerials
  | input :: rest, vBlockSerials => do
      let vBlockSerials ← addForkSerial sources hasZDEVInputs input vBlockSerials
      require (deviantInputs.all fun stakeIn => decide (stakeIn.prevout ≠ input.prevout))
        "input already spent on a previous block"
      scanInputs deviantInputs hasZDEVInputs rest vBlockSerials

/-- Back along the fork until the active chain: the height of the split and the serial numbers met.
`bl` is the block of the first entry. -/
def scanFork (files : BlockFiles) (chainActive : BlockPath) (deviantInputs : List CTxIn)
    (hasZDEVInputs : Bool) :
    (prev : BlockPath) → (bl : CBlock) → (readBlock : Int) → (vBlockSerials : List Nat) →
      Except Rejection (Nat × List Nat)
  | [], _, _, _ => .error (.runtimeError "prev")
  | pindex :: pprev, bl, readBlock, vBlockSerials =>
    if contains chainActive (pindex :: pprev) then .ok (pindex.nHeight, vBlockSerials)
    else do
      require (decide (readBlock + 1 ≠ staking.maxReorg)) "forked chain longer than maximum reorg limit"
      let vBlockSerials ← scanInputs sources deviantInputs hasZDEVInputs
        (bl.vtx.flatMap CTransaction.vin) vBlockSerials
      match pprev.head?.bind files.readBlockFromDisk with
      | none => .error (.rejected "previous block not on disk")
      | some bl => scanFork files chainActive deviantInputs hasZDEVInputs pprev bl (readBlock + 1) vBlockSerials

section

variable (stakeTxIn : CTransaction) (nHeight : Nat)

def checkForkSerials (splitHeight : Nat) (vBlockSerials : List Nat) :
    List CTxIn → Except Rejection Unit
  | [] => .ok ()
  | zdevInput :: rest =>
    match sources.library.txInToZerocoinSpend zdevInput with
    | none => .error (.runtimeError "TxInToZerocoinSpend")
    | some spend => do
        require (decide (spend.coinSerialNumber ∉ vBlockSerials)) "serial double spent on fork"
        require ((sources.isSerialInBlockchain spend.coinSerialNumber).all fun nHeightTx =>
          decide (splitHeight < nHeightTx)) "serial double spent on main chain"
        require (sources.contextualCheckZerocoinSpendNoSerialCheck stakeTxIn spend nHeight)
          "bad-txns-invalid-zdev"
        checkForkSerials splitHeight vBlockSerials rest

def checkFork (files : BlockFiles) (chainActive : BlockPath) (stakeTxIn : CTransaction)
    (nHeight : Nat) (pindexPrev : BlockPath) : Except Rejection Unit :=
  match pindexPrev.head?.bind files.readBlockFromDisk with
  | none => .error (.rejected "previous block not on disk")
  | some bl => do
      let zDEVInputs := stakeTxIn.vin.filter CTxIn.isZerocoinSpend
      let deviantInputs := stakeTxIn.vin.filter fun input => !input.isZerocoinSpend
      let (splitHeight, vBlockSerials) ←
        scanFork staking sources files chainActive deviantInputs (!zDEVInputs.isEmpty) pindexPrev bl 0 []
      checkForkSerials sources stakeTxIn nHeight splitHeight vBlockSerials zDEVInputs

/-- `ContextualCheckZerocoinSpend` of the zerocoin inputs of a stake on the tip. -/
def checkTipSpends : List CTxIn → Except Rejection Unit
  | [] => .ok ()
  | zdevInput :: rest =>
    match sources.library.txInToZerocoinSpend zdevInput with
    | none => .error (.runtimeError "TxInToZerocoinSpend")
    | some spend => do
        require (sources.contextualCheckZerocoinSpendNoSerialCheck stakeTxIn spend nHeight &&
          (sources.isSerialInBlockchain spend.coinSerialNumber).isNone) "bad-txns-invalid-zdev"
        checkTipSpends rest

/-- The coins at the tip are looked up for a stake without zerocoin inputs, but a missing coin
matters only to a block on the tip. -/
def checkTipCoins (isBlockFromFork : Bool) : Except Rejection Unit :=
  if !stakeTxIn.hasZerocoinSpendInputs then
    require (stakeTxIn.vin.all fun input =>
        !(((tip.pcoinsTip input.prevout).getD Coin.empty).isSpent && !isBlockFromFork))
      "coin stake inputs not-available/already-spent on main chain"
  else if !isBlockFromFork then
    checkTipSpends sources stakeTxIn nHeight (stakeTxIn.vin.filter CTxIn.isZerocoinSpend)
  else .ok ()

end

def checkStake (block : CBlock) (stakeTxIn : CTransaction) (nHeight : Nat)
    (pindexPrev : BlockPath) : Except Rejection Unit := do
  let isBlockFromFork := !pindexPrev.isEmpty && decide (tip.chainActive ≠ pindexPrev)
  checkBlockInputs sources env.params nHeight (stakeTxIn.vin.filter fun input => !input.isZerocoinSpend)
    (block.vtx.flatMap fun tx => tx.vin.map fun input => (tx, input)) []
  if isBlockFromFork then checkFork staking sources files tip.chainActive stakeTxIn nHeight pindexPrev
  checkTipCoins sources tip stakeTxIn nHeight isBlockFromFork

inductive Acceptance where
  | alreadyHave
  /-- The block was written and reached `ReceivedBlockTransactions`. -/
  | stored
deriving DecidableEq

def acceptBlockOn (block : CBlock) (pindexPrev : BlockPath) : Except Rejection Acceptance := do
  require (decide (block.hash = env.params.hashGenesisBlock) || sources.checkWork block pindexPrev)
    "incorrect proof of work"
  if block.isProofOfStake then checkProofOfStake staking sources tip block pindexPrev
  let nHeight ← acceptBlockHeader staking sources tip block pindexPrev
  if tip.haveData block.hash then pure .alreadyHave
  else do
    if 100000 < nHeight then do
      checkBlock (atTip env tip.chainActive.hash tip.chainActive.nHeight env.node.tipIsRecent)
        block true true true
      require (sources.contextualCheckBlock block pindexPrev) "ContextualCheckBlock"
    match if block.isProofOfStake then block.vtx[1]? else none with
    | some stakeTxIn => checkStake staking sources tip block stakeTxIn nHeight pindexPrev
    | none => pure ()
    require (sources.writeBlockToDisk block) "Failed to write block"
    pure .stored

def acceptBlock (tip : ChainTip env files) (block : CBlock) : Except Rejection Acceptance := do
  let (tip, pindexPrev) ← getPrevIndex sources reconsider tip block
  acceptBlockOn staking sources tip block pindexPrev

end

end Deviant.Validation
