import Deviant.Data.IndexedRead
import Deviant.Validation.AcceptBlock
import Deviant.Validation.FreeOutput

namespace Deviant.Validation.Indexed

open Chain Coins Consensus Data Primitives

/-! The checks `ProcessNewBlock` runs on a block from the network, with every read by index of
`block.vtx`, of a transaction's inputs and of the outputs of a previous transaction.  What these
checks compute is what the functions of the same names compute in `Deviant.Validation`, where a
read out of range is a refusal. -/

/-- What the checks ask of the rest of the program, besides what accepting a block asks. -/
structure BlockSources where
  accept : AcceptSources
  isBudgetPaymentBlock : Nat → Bool
  /-- `IsBlockPayeeValid` once the transaction with the payments is chosen. -/
  payeeAccepted : (txNew : CTransaction) → CBlock → (nHeight : Nat) → Bool
  vchBlockSigEmpty : CBlock → Bool
  /-- The signature of a block by the key of a zerocoin spend, and by that of a staked output. -/
  signedBySpend : CBlock → CTxIn → Bool
  signedByOutput : CBlock → CTxOut → CTxIn → Bool
  /-- The loop of `ContextualCheckBlock` over the transactions. -/
  contextualTransactions : CBlock → (nHeight : Nat) → Bool
  /-- `CScript() << nHeight`. -/
  heightScript : Nat → CScript

variable {env : Env} {files : BlockFiles} (staking : StakingParams) (sources : BlockSources)

variable (tip : ChainTip env files)

def tipEnv : Env :=
  { env with node := { env.node with
      tip := tip.chainActive.head?.map fun pindex => (pindex.hash, pindex.nHeight)
      blockHeight := fun hash => (tip.mapBlockIndex.find hash).map BlockPath.nHeight } }

def getOutput (prevout : COutPoint) : Option (Option CTxOut) :=
  match getTransaction sources.accept tip prevout.hash with
  | none => some none
  | some (txPrev, _) =>
    if txPrev.vout.length < prevout.n then some none
    else (readAt txPrev.vout prevout.n).map some

section

variable (tx : CTransaction)

def freeOutputAllowed (lastOut : CTxOut) (nHeight : Nat) : Option Bool :=
  if lastOut.nValue = getMasternodePayment env nHeight then some true
  else if isRegTestNet env.params then some false
  else if !env.node.masternodeSynced then do
    let input ← readAt tx.vin 0
    match getTransaction sources.accept tip input.prevout.hash with
    | none => some false
    | some (txPrev, _) => do
        let out ← readAt txPrev.vout input.prevout.n
        pure (decide (sumValues tx.vout.tail = wrap64 (out.nValue + Env.getBlockValue env nHeight)))
  else some (sources.isBudgetPaymentBlock nHeight && env.node.spork13Superblocks)

def checkColdStakeFreeOutput (nHeight : Nat) : Option Bool :=
  if !hasP2CSOutputs env.node.isV6Active tx then some true
  else
    match tx.vout.reverse with
    | lastOut :: previous :: _ :: _ =>
      if lastOut.scriptPubKey ≠ previous.scriptPubKey
        then freeOutputAllowed sources tip tx lastOut nHeight
      else some true
    | _ => some true

def isBlockPayeeValid (env : Env) (block : CBlock) (nHeight : Nat) : Option Bool :=
  if !env.node.masternodeSynced then some true
  else do
    let txNew ← readAt block.vtx (if env.params.networkUpgradeActive nHeight .upgradePOS then 1 else 0)
    pure (sources.payeeAccepted txNew block nHeight)

/-- The output that a public spend names; a private one has none. -/
def spentOutput (txin : CTxIn) : Option (Option CTxOut) :=
  if txin.isZerocoinPublicSpend then getOutput sources tip txin.prevout else some none

def redeemSpend (library : ZerocoinLibrary) (tx : CTransaction) (txin : CTxIn)
    (prevOut : Option CTxOut) (serials : List Nat) : Option CoinSpend := do
  let newSpend ←
    if txin.isZerocoinPublicSpend then prevOut.bind (library.parseCoinSpend txin tx)
    else library.txInToZerocoinSpend txin
  guard (newSpend.denomination ≠ 0)
  guard (newSpend.denomination = txin.nSequence)
  guard (newSpend.txOutHash = library.hashTxOut tx.vout)
  guard (!txin.isZerocoinPublicSpend || prevOut.any fun prevOut =>
    library.validateInput txin prevOut tx)
  guard (newSpend.coinSerialNumber ∉ serials)
  pure newSpend

def redeemSpends (tip : ChainTip env files) (tx : CTransaction) :
    List CTxIn → (serials : List Nat) → (nTotalRedeemed : Int) → (fValidated : Bool) →
      Option (Option (Int × Bool))
  | [], _, nTotalRedeemed, fValidated => some (some (nTotalRedeemed, fValidated))
  | txin :: rest, serials, nTotalRedeemed, fValidated =>
    if !txin.isZerocoinSpend && !txin.isZerocoinPublicSpend then
      redeemSpends tip tx rest serials nTotalRedeemed fValidated
    else do
      let prevOut ← spentOutput sources tip txin
      match redeemSpend sources.accept.library tx txin prevOut serials with
      | none => some none
      | some newSpend =>
        redeemSpends tip tx rest (newSpend.coinSerialNumber :: serials)
          (wrap64 (nTotalRedeemed + coinUnit * newSpend.denomination)) true

def tooManyOutputs : Bool :=
  decide (2 < tx.vout.length) && decide (2 < tx.vout.countP fun out => !out.isZerocoinMint) &&
    !tx.isCoinStake

/-- The end of `CheckZerocoinSpend`. -/
def redeemedVerdict : Option (Int × Bool) → Bool
  | none => false
  | some (nTotalRedeemed, fValidated) =>
    if tx.isCoinStake then fValidated
    else
      match getValueOut tx with
      | .error _ => false
      | .ok nValueOut => if nTotalRedeemed < nValueOut then false else fValidated

def checkZerocoinSpend : Option Bool :=
  if tooManyOutputs tx then some false
  else (redeemSpends sources tip tx tx.vin [] 0 false).map (redeemedVerdict tx)

def requireRead (run : Option Bool) (reason : String) : ExceptT Rejection Option Unit :=
  ExceptT.mk (run.map fun condition => require condition reason)

/-- `CheckTransaction` up to the zerocoin spends. -/
def checkTransactionOpening (env : Env) (tx : CTransaction) (fColdStakingActive fSaplingActive : Bool) :
    Except Rejection Unit := do
  require (!(tx.vin.isEmpty && tx.sapData.any fun data => data.vShieldedSpend.isEmpty))
    "bad-txns-vin-empty"
  require (!(tx.vout.isEmpty && tx.sapData.any fun data => data.vShieldedOutput.isEmpty))
    "bad-txns-vout-empty"
  require (!fSaplingActive || (decide (1 ≤ tx.nVersion) && decide (tx.nVersion < txVersionTooHigh)))
    "bad-tx-version-too-high"
  require (decide (env.verifier.totalSize tx ≤
    if tx.isShieldedTx then maxTxSizeAfterSapling else maxZerocoinTxSize)) "bad-txns-oversize"
  let nValueOut ← SaplingValidation.checkTransaction env.params tx fSaplingActive
  checkSpecialTx tx fSaplingActive
  checkOutputs env.params env.node.isV6Active fColdStakingActive tx tx.vout nValueOut
  checkDuplicateInputs tx.vin []

/-- The conditions on the zerocoin inputs that come before `CheckZerocoinSpend`. -/
def checkSpendCount (params : Params) (tx : CTransaction) (fZerocoinActive : Bool) :
    Except Rejection Unit := do
  let nZCSpendCount := tx.vin.countP fun input => input.isZerocoinSpend &&
    !input.isZerocoinPublicSpend
  require (!fZerocoinActive || decide (nZCSpendCount ≤ params.zcMaxSpendsPerTx)) ""
  require (!(fZerocoinActive && tx.hasZerocoinSpendInputs) ||
    tx.vin.all fun input => input.isZerocoinSpend || input.isZerocoinPublicSpend) ""

def checkInputForm (params : Params) (tx : CTransaction) (fZerocoinActive : Bool) :
    ExceptT Rejection Option Unit :=
  if tx.isCoinBase then do
    let input ← reading (readAt tx.vin 0)
    settled (require (decide (2 ≤ input.scriptSig.length) && decide (input.scriptSig.length ≤ 150))
      "bad-cb-length")
  else settled (Consensus.checkInputForm params tx fZerocoinActive)

def checkTransaction (fZerocoinActive fColdStakingActive fSaplingActive : Bool) :
    ExceptT Rejection Option Unit := do
  settled (checkTransactionOpening env tx fColdStakingActive fSaplingActive)
  settled (checkSpendCount env.params tx fZerocoinActive)
  requireRead (if fZerocoinActive &&
    tx.hasZerocoinSpendInputs then checkZerocoinSpend sources tip tx else some true) ""
  checkInputForm env.params tx fZerocoinActive

end

def checkBlockTransactions (tip : ChainTip env files) (block : CBlock) :
    List CTransaction → ExceptT Rejection Option Unit
  | [] => pure ()
  | tx :: rest => do
      checkTransaction sources tip tx (zerocoinActive env block)
        (coldStakingActive (tipEnv tip) block) (saplingActive (tipEnv tip))
      settled (require (!(saplingActive (tipEnv tip) && tx.containsZerocoins)) "")
      checkBlockTransactions tip block rest

section

variable (block : CBlock)

def checkBlockSignature : Option Bool :=
  if !block.isProofOfStake then some (sources.vchBlockSigEmpty block)
  else if sources.vchBlockSigEmpty block then some false
  else do
    let coinstake ← readAt block.vtx 1
    let txin ← readAt coinstake.vin 0
    if txin.isZerocoinSpend then pure (sources.signedBySpend block txin)
    else do
      let txout ← readAt coinstake.vout 1
      pure (sources.signedByOutput block txout txin)

/-- `CheckBlock` up to the form of the block. -/
def checkBlockOpening (env : Env) (block : CBlock) : Except Rejection Unit := do
  require (block.isProofOfStake || env.verifier.checkProofOfWork block) "high-hash"
  let (hashMerkleRoot, mutated) := env.verifier.blockMerkleRoot block
  require (block.hashMerkleRoot == hashMerkleRoot) "bad-txnmrklroot"
  require (!mutated) "bad-txns-duplicate"
  let nBlockSize := env.verifier.serializeSize block
  require (!block.vtx.isEmpty && decide (block.vtx.length ≤ maxBlockSizeCurrent) &&
    decide (nBlockSize ≤ maxBlockSizeCurrent)) "bad-blk-length"
  require (!(decide (maxBlockShieldedTxesSize < nBlockSize) &&
    decide (maxBlockShieldedTxesSize < getTotalShieldedTxSize env block))) "bad-blk-shielded-size"
  checkBlockForm block

def checksPayments (env : Env) (block : CBlock) : Bool :=
  paymentHeight env block != 0 && !env.node.isInitialBlockDownload

def coldStakeAccepted : Option Bool :=
  if checksPayments (tipEnv tip) block && block.isProofOfStake then do
    let coinstake ← readAt block.vtx 1
    checkColdStakeFreeOutput sources tip coinstake (paymentHeight (tipEnv tip) block)
  else some true

def payeeAccepted : Option Bool :=
  if checksPayments (tipEnv tip) block then isBlockPayeeValid sources env block
    (paymentHeight (tipEnv tip) block)
  else some true

def checkSigOps (env : Env) (block : CBlock) : Except Rejection Unit :=
  require (decide ((block.vtx.map env.verifier.legacySigOpCount).sum ≤
    if zerocoinActive env block then maxBlockSigopsCurrent else maxBlockSigopsLegacy)) "bad-blk-sigops"

def checkBlock : ExceptT Rejection Option Unit := do
  settled (checkBlockOpening env block)
  requireRead (coldStakeAccepted sources tip block) "bad-p2cs-outs"
  requireRead (payeeAccepted sources tip block) "bad-cb-payee"
  checkBlockTransactions sources tip block block.vtx
  settled (checkSigOps env block)
  requireRead (checkBlockSignature sources block) "bad-PoS-sig"

def newDeviantStake (txin : CTxIn) : Option (Option StakeInput) :=
  if txin.isZerocoinSpend then some none
  else
    match getTransaction sources.accept tip txin.prevout.hash with
    | none => some none
    | some (txPrev, hashBlock) =>
      match tip.mapBlockIndex.find hashBlock with
      | none => some none
      | some pindexFrom =>
        if contains tip.chainActive pindexFrom then do
          let outputFrom ← readAt txPrev.vout txin.prevout.n
          pure (some (.coin outputFrom txin.prevout pindexFrom))
        else some none

variable (pindexPrev : BlockPath)

def loadStakeInput : Option (Option StakeInput) :=
  if block.hashPrevBlock ≠ pindexPrev.hash then some none
  else if !block.isProofOfStake then some none
  else do
    let coinstake ← readAt block.vtx 1
    let txin ← readAt coinstake.vin 0
    if txin.isZerocoinSpend then
      pure ((sources.accept.initLegacyStake tip.chainActive txin).map fun pindexFrom =>
        .zerocoin txin pindexFrom)
    else newDeviantStake sources tip txin

def checkStakeSignature : StakeInput → Option Bool
  | .coin outputFrom _ _ => do
      let tx ← readAt block.vtx 1
      let _txin ← readAt tx.vin 0
      pure (sources.accept.verifyStakeScript tx outputFrom)
  | .zerocoin _ _ => some true

def checkStakeInput (stakeInput : StakeInput) : ExceptT Rejection Option Unit := do
  settled (require (contextCheck staking sources.accept tip stakeInput (pindexPrev.nHeight + 1)
    block.nTime)
    "stake input failing contextual checks")
  settled (require (sources.accept.checkKernelHash pindexPrev stakeInput block) "kernel hash check fails")
  requireRead (checkStakeSignature sources block stakeInput) "signature fails"

def checkProofOfStake : ExceptT Rejection Option Unit :=
  if pindexPrev.isEmpty then settled (.error (.runtimeError "pindexPrev"))
  else do
    let loaded ← reading (loadStakeInput sources tip block pindexPrev)
    match loaded with
    | none => settled (.error (.rejected "stake input initialization failed"))
    | some stakeInput => checkStakeInput staking sources tip block pindexPrev stakeInput

/-- The new entry's stake modifier is made from the first input of the second transaction once
`UPGRADE_V3_4` is active. -/
def addToBlockIndex : Option Unit :=
  match tip.mapBlockIndex.find block.hash with
  | some _ => some ()
  | none =>
    match tip.mapBlockIndex.find block.hashPrevBlock with
    | none => some ()
    | some pprev =>
      if pprev.nHeight + 1 < staking.heightV3_4 then some ()
      else do
        let tx ← readAt block.vtx 1
        let _txin ← readAt tx.vin 0
        pure ()

def acceptBlockHeader : ExceptT Rejection Option Nat := do
  let nHeight ← settled (Validation.acceptBlockHeader staking sources.accept tip block pindexPrev)
  reading (addToBlockIndex staking tip block)
  pure nHeight

def contextualCheckBlock : Option Bool :=
  if !sources.contextualTransactions block (if pindexPrev.isEmpty then 0 else pindexPrev.nHeight +
    1) then some false
  else if pindexPrev.isEmpty then some true
  else do
    let coinbase ← readAt block.vtx 0
    let input ← readAt coinbase.vin 0
    pure ((sources.heightScript (pindexPrev.nHeight + 1)).isPrefixOf input.scriptSig)

end

def spendSerial (tx : CTransaction) (input : CTxIn) : ExceptT Rejection Option Nat :=
  if input.isZerocoinPublicSpend then do
    let prevOut ← reading (getOutput sources tip input.prevout)
    match prevOut.bind (sources.accept.library.parseCoinSpend input tx) with
    | none => settled (.error (.rejected "bad-txns-invalid-zdev"))
    | some spend => settled (.ok spend.coinSerialNumber)
  else settled (privateSerial sources.accept input)

def addBlockSerial (nHeight : Nat) (tx : CTransaction) (input : CTxIn) (inBlockSerials : List Nat) :
    ExceptT Rejection Option (List Nat) :=
  if env.params.networkUpgradeActive nHeight .upgradeZC &&
    (input.isZerocoinSpend || input.isZerocoinPublicSpend) then do
    settled (require (checkPublicCoinSpendEnforced env.params nHeight input.isZerocoinPublicSpend) "")
    let serial ← spendSerial sources tip tx input
    settled (require (decide (serial ∉ inBlockSerials)) "serial double spent on the same block")
    pure (inBlockSerials ++ [serial])
  else pure inBlockSerials

def checkBlockInputs (tip : ChainTip env files) (nHeight : Nat) (deviantInputs : List CTxIn) :
    List (CTransaction × CTxIn) → (inBlockSerials : List Nat) → ExceptT Rejection Option Unit
  | [], _ => pure ()
  | (tx, input) :: rest, inBlockSerials => do
      let inBlockSerials ← addBlockSerial sources tip nHeight tx input inBlockSerials
      settled (require (tx.isCoinStake || deviantInputs.all fun deviantIn =>
        decide (deviantIn.prevout ≠ input.prevout))
        "double spent coinstake input inside block")
      checkBlockInputs tip nHeight deviantInputs rest inBlockSerials

variable (block : CBlock)

def blockInputs : List (CTransaction × CTxIn) :=
  block.vtx.flatMap fun tx => tx.vin.map fun input => (tx, input)

def spentOutputs (tx : CTransaction) :
    List CTxIn := tx.vin.filter fun input => !input.isZerocoinSpend

/-- The checks of the stake after those of the block's inputs: they read by iterators only. -/
def checkStakeSpent (stakeTxIn : CTransaction) (nHeight : Nat) (pindexPrev : BlockPath) :
    Except Rejection Unit := do
  let isBlockFromFork := !pindexPrev.isEmpty && decide (tip.chainActive ≠ pindexPrev)
  if isBlockFromFork then checkFork staking sources.accept files tip.chainActive stakeTxIn nHeight pindexPrev
  checkTipCoins sources.accept tip stakeTxIn nHeight isBlockFromFork

section

variable (nHeight : Nat) (pindexPrev : BlockPath)

def checkStake : ExceptT Rejection Option Unit :=
  if block.isProofOfStake then do
    let stakeTxIn ← reading (readAt block.vtx 1)
    checkBlockInputs sources tip nHeight (spentOutputs stakeTxIn) (blockInputs block) []
    settled (checkStakeSpent staking sources tip stakeTxIn nHeight pindexPrev)
  else pure ()

/-- A block whose data is new.  `CheckBlock` has passed with all its checks, which the block
remembers (`fChecked`): its second call does nothing. -/
def storeNewBlock : ExceptT Rejection Option Acceptance := do
  requireRead (if 100000 < nHeight then contextualCheckBlock sources block pindexPrev else some true)
    "ContextualCheckBlock"
  checkStake staking sources tip block nHeight pindexPrev
  settled (require (sources.accept.writeBlockToDisk block) "Failed to write block")
  pure .stored

def storeBlock : ExceptT Rejection Option Acceptance :=
  if tip.haveData block.hash then pure .alreadyHave
    else storeNewBlock staking sources tip block nHeight pindexPrev

end

/-- `CheckProofOfStake` of a block that has a stake. -/
def checkBlockStake (pindexPrev : BlockPath) : ExceptT Rejection Option Unit :=
  if block.isProofOfStake then checkProofOfStake staking sources tip block pindexPrev else pure ()

def acceptBlockOn (pindexPrev : BlockPath) : ExceptT Rejection Option Acceptance := do
  settled (require (decide (block.hash = env.params.hashGenesisBlock) ||
    sources.accept.checkWork block pindexPrev)
    "incorrect proof of work")
  checkBlockStake staking sources tip block pindexPrev
  let nHeight ← acceptBlockHeader staking sources tip block pindexPrev
  storeBlock staking sources tip block nHeight pindexPrev

/-- The checks of `ProcessNewBlock`; the best chain is activated after them. -/
def processNewBlock (reconsider : ChainTip env files → BlockPath → ChainTip env files)
    (tip : ChainTip env files) (block : CBlock) : ExceptT Rejection Option Acceptance := do
  checkBlock sources tip block
  let (tip, pindexPrev) ← settled (getPrevIndex sources.accept reconsider tip block)
  acceptBlockOn staking sources tip block pindexPrev

end Deviant.Validation.Indexed
