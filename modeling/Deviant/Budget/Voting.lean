import Deviant.Budget.VoteBook

namespace Deviant.Budget.Voting

open Data Masternode Primitives

/-! Proposals, finalized budgets and the votes on them as the budget manager keeps them, and the
messages that bring them. -/

inductive VoteDirection where
  | abstain
  | yes
  | no
  /-- A number that is none of the directions. -/
  | unknown (nVote : Int)
deriving DecidableEq

structure CBudgetVote where
  fValid : Bool := true
  nProposalHash : Uint256
  nVote : VoteDirection
  nTime : Int
  vin : CTxIn
  vchSig : List UInt8
  nMessVersion : MessageVersion := .messVerHash
deriving DecidableEq

structure CFinalizedBudgetVote where
  fValid : Bool := true
  vin : CTxIn
  nBudgetHash : Uint256
  nTime : Int
  vchSig : List UInt8
  nMessVersion : MessageVersion := .messVerHash
deriving DecidableEq

structure BudgetSigner where
  proposalHash : (strProposalName strURL : String) → (nBlockStart nBlockEnd nAmount : Int) →
    (address : CScript) → Uint256
  finalizedBudgetHash : (strBudgetName : String) → (nBlockStart : Int) → List CTxBudgetPayment →
    Uint256
  budgetVoteHash : CTxIn → (nProposalHash : Uint256) → VoteDirection → (nTime : Int) → Uint256
  finalizedBudgetVoteHash : CTxIn → (nBudgetHash : Uint256) → (nTime : Int) → Uint256
  verifyHash : Uint256 → CKeyID → List UInt8 → Bool
  /-- `VerifyMessage` of the texts of the votes, for messages of the old version. -/
  verifyBudgetVoteText : COutPoint → Uint256 → VoteDirection → Int → CKeyID → List UInt8 → Bool
  verifyFinalizedBudgetVoteText : COutPoint → Uint256 → Int → CKeyID → List UInt8 → Bool

section

variable (signer : BudgetSigner)

def CBudgetVote.getHash (vote : CBudgetVote) : Uint256 :=
  signer.budgetVoteHash vote.vin vote.nProposalHash vote.nVote vote.nTime

def CBudgetVote.checkSignature (vote : CBudgetVote) (keyID : CKeyID) : Bool :=
  match vote.nMessVersion with
  | .messVerHash => signer.verifyHash (vote.getHash signer) keyID vote.vchSig
  | .messVerStrMess =>
    signer.verifyBudgetVoteText vote.vin.prevout vote.nProposalHash vote.nVote vote.nTime
      keyID vote.vchSig

def CFinalizedBudgetVote.getHash (vote : CFinalizedBudgetVote) : Uint256 :=
  signer.finalizedBudgetVoteHash vote.vin vote.nBudgetHash vote.nTime

def CFinalizedBudgetVote.checkSignature (vote : CFinalizedBudgetVote) (keyID : CKeyID) : Bool :=
  match vote.nMessVersion with
  | .messVerHash => signer.verifyHash (vote.getHash signer) keyID vote.vchSig
  | .messVerStrMess =>
    signer.verifyFinalizedBudgetVoteText vote.vin.prevout vote.nBudgetHash vote.nTime keyID vote.vchSig

/-- What is read of a collateral transaction and of where it was found: without a block while it is
unconfirmed. -/
structure CollateralTx where
  vout : List CTxOut
  nLockTime : Nat := 0
  nBlockHash : Option Uint256

/-- The parameters and the state of the node that the checks of proposals and budgets read. -/
structure BudgetChain where
  nBudgetCycleBlocks : Int := 43200
  nBudgetFeeConfirmations : Int := 6
  nMaxProposalPayments : Int := 6
  /-- `NetworkUpgradeActive(height, UPGRADE_V5_0)`. -/
  isV5Active : Int → Bool
  /-- `GetTotalBudget` of a height. -/
  getTotalBudget : Int → Int
  /-- `ExtractDestination` and `IsValidDestination` succeed. -/
  hasDestination : CScript → Bool
  getTransaction : Uint256 → Option CollateralTx
  /-- The height and the time of a block of the active chain. -/
  activeBlock : Uint256 → Option (Int × Int)
  /-- `CountEnabled(ActiveProtocol())`. -/
  countEnabled : Nat

structure CBudgetProposal where
  fValid : Bool := true
  strInvalid : String := ""
  mapVotes : Table COutPoint CBudgetVote := ∅
  strProposalName : String
  strURL : String
  nBlockStart : Int
  nBlockEnd : Int
  address : CScript
  nAmount : Int
  nFeeTXHash : Uint256
  nTime : Int := 0

namespace CBudgetProposal

variable (proposal : CBudgetProposal)

def getHash : Uint256 :=
  signer.proposalHash proposal.strProposalName proposal.strURL proposal.nBlockStart
    proposal.nBlockEnd proposal.nAmount proposal.address

def getVoteCount (vd : VoteDirection) : Int :=
  proposal.mapVotes.values.countP fun vote => vote.nVote = vd ∧ vote.fValid = true

def getYeas : Int := proposal.getVoteCount .yes

def getNays : Int := proposal.getVoteCount .no

variable (chain : BudgetChain)

variable (proposal : CBudgetProposal)

def getTotalPaymentCount : Int :=
  let blockStartCycle := proposal.nBlockStart - proposal.nBlockStart.tmod chain.nBudgetCycleBlocks
  (proposal.nBlockEnd - blockStartCycle).tdiv chain.nBudgetCycleBlocks

def checkStartEnd : Except String Unit :=
  let fNewRules := chain.isV5Active proposal.nBlockStart
  if proposal.nBlockStart < 0 ∨
    (fNewRules = true ∧ proposal.nBlockStart.tmod chain.nBudgetCycleBlocks ≠ 0) then
    .error "Invalid nBlockStart"
  else if proposal.nBlockEnd < proposal.nBlockStart then .error "Invalid nBlockEnd (end before start)"
  else if fNewRules = true ∧ proposal.getTotalPaymentCount chain > chain.nMaxProposalPayments then
    .error "Invalid payment count"
  else .ok ()

def checkAmount (nTotalBudget : Int) (proposal : CBudgetProposal) : Except String Unit :=
  if proposal.nAmount < 10 * coinUnit then .error "Invalid nAmount (too low)"
  else if proposal.nAmount > nTotalBudget then .error "Invalid nAmount (too high)"
  else .ok ()

def checkAddress : Except String Unit :=
  if CScript.isPayToScriptHash proposal.address then .error "Multisig is not currently supported."
  else if !chain.hasDestination proposal.address then .error "Invalid script"
  else .ok ()

def isWellFormed (nTotalBudget : Int) (proposal : CBudgetProposal) : Except String Unit := do
  proposal.checkStartEnd chain
  proposal.checkAmount nTotalBudget
  proposal.checkAddress chain

def isHeavilyDownvoted (fNewRules : Bool) (proposal : CBudgetProposal) : Bool :=
  decide (proposal.getNays - proposal.getYeas >
    ((if fNewRules then 3 else 1) * chain.countEnabled / 10 : Nat))

def isExpired (nCurrentHeight : Int) (proposal : CBudgetProposal) :
    Bool := decide (proposal.nBlockEnd < nCurrentHeight)

def updateValid (nCurrentHeight : Int) (proposal : CBudgetProposal) : Bool × CBudgetProposal :=
  let fNewRules := chain.isV5Active nCurrentHeight
  -- a proposal is never killed before the first superblock
  if (!fNewRules || decide (nCurrentHeight > proposal.nBlockStart)) &&
    proposal.isHeavilyDownvoted chain fNewRules then
    (false, { proposal with fValid := false, strInvalid := "Heavily Downvoted" })
  else if proposal.isExpired nCurrentHeight then
    (false, { proposal with fValid := false, strInvalid := "Proposal expired" })
  else (true, { proposal with fValid := true, strInvalid := "" })

end CBudgetProposal

def proposalKind : ObjectKind CBudgetProposal CBudgetVote where
  mnId vote := vote.vin.prevout
  objectHash vote := vote.nProposalHash
  getTime vote := vote.nTime
  getHash vote := vote.getHash signer
  checkSignature vote keyID := vote.checkSignature signer keyID
  setValid fValid vote := { vote with fValid := fValid }
  isValid vote := vote.fValid
  getObjectHash proposal := proposal.getHash signer
  getFeeTXHash proposal := proposal.nFeeTXHash
  mapVotes proposal := proposal.mapVotes
  setVotes votes proposal := { proposal with mapVotes := votes }
  mapVotes_setVotes _ _ := rfl
  getObjectHash_setVotes _ _ := rfl
  getFeeTXHash_setVotes _ _ := rfl

structure CFinalizedBudget where
  fValid : Bool := true
  strInvalid : String := ""
  mapVotes : Table COutPoint CFinalizedBudgetVote := ∅
  strBudgetName : String
  nBlockStart : Int
  vecBudgetPayments : List CTxBudgetPayment
  nFeeTXHash : Uint256
  nTime : Int := 0

namespace CFinalizedBudget

variable (budget : CFinalizedBudget)

def getHash : Uint256 :=
  signer.finalizedBudgetHash budget.strBudgetName budget.nBlockStart budget.vecBudgetPayments

def getVoteCount : Int := budget.mapVotes.entries.length

def getBlockEnd : Int := budget.nBlockStart + (budget.vecBudgetPayments.length - 1)

def getTotalPayout : Int :=
  budget.vecBudgetPayments.foldl (fun ret payment => wrap64 (ret + payment.nAmount)) 0

variable (chain : BudgetChain)

def checkStartEnd (budget : CFinalizedBudget) : Except String Unit :=
  if budget.nBlockStart = 0 then .error "Invalid BlockStart == 0"
  else if budget.nBlockStart.tmod chain.nBudgetCycleBlocks ≠ 0 then .error "Invalid BlockStart"
  else if budget.getBlockEnd - budget.nBlockStart > 100 then .error "Invalid BlockEnd"
  else if budget.vecBudgetPayments.length > 100 then .error "Invalid budget payments count (too many)"
  else .ok ()

def checkAmount (nTotalBudget : Int) (budget : CFinalizedBudget) : Except String Unit :=
  if budget.getTotalPayout > nTotalBudget then .error "Invalid Payout (more than max)" else .ok ()

def checkName : Except String Unit :=
  if budget.strBudgetName = "" then .error "Invalid Budget Name" else .ok ()

def isWellFormed (nTotalBudget : Int) (budget : CFinalizedBudget) : Except String Unit := do
  budget.checkStartEnd chain
  budget.checkAmount nTotalBudget
  budget.checkName

def isExpired (nCurrentHeight : Int) (budget : CFinalizedBudget) : Bool :=
  let nLastSuperBlock := nCurrentHeight - nCurrentHeight.tmod chain.nBudgetCycleBlocks
  decide (budget.getBlockEnd < nLastSuperBlock)

def updateValid (nCurrentHeight : Int) (budget : CFinalizedBudget) : Bool × CFinalizedBudget :=
  if budget.isExpired chain nCurrentHeight then
    let strInvalid := "(ends at block " ++ toString budget.getBlockEnd ++ ") too old and obsolete"
    (false, { budget with fValid := false, strInvalid := strInvalid })
  else (true, { budget with fValid := true, strInvalid := "" })

/-- The budget as its payments are chosen and checked: of its votes, their number. -/
def counted : Budget.CFinalizedBudget where
  nBlockStart := budget.nBlockStart
  vecBudgetPayments := budget.vecBudgetPayments
  voteCount := budget.mapVotes.entries.length

end CFinalizedBudget

def budgetKind : ObjectKind CFinalizedBudget CFinalizedBudgetVote where
  mnId vote := vote.vin.prevout
  objectHash vote := vote.nBudgetHash
  getTime vote := vote.nTime
  getHash vote := vote.getHash signer
  checkSignature vote keyID := vote.checkSignature signer keyID
  setValid fValid vote := { vote with fValid := fValid }
  isValid vote := vote.fValid
  getObjectHash budget := budget.getHash signer
  getFeeTXHash budget := budget.nFeeTXHash
  mapVotes budget := budget.mapVotes
  setVotes votes budget := { budget with mapVotes := votes }
  mapVotes_setVotes _ _ := rfl
  getObjectHash_setVotes _ _ := rfl
  getFeeTXHash_setVotes _ _ := rfl

def proposalFeeTx : Int := 50 * coinUnit

def budgetFeeTx : Int := 5 * coinUnit

def isPayToPublicKeyHash (script : CScript) : Bool :=
  script.length == 25 && script.take 3 == [opDup, opHash160, 0x14] &&
    script.drop 23 == [opEqualverify, opChecksig]

def toByteVector (hash : Uint256) :
    List UInt8 := (List.range 32).map fun i => UInt8.ofNat (hash.toNat / 256 ^ i)

def findScript (nExpectedHash : Uint256) : CScript := [opReturn, 0x20] ++ toByteVector nExpectedHash

/-- The loop over the outputs of a collateral transaction.  It stops at the commitment, so that what
follows it is not looked at. -/
def findOpReturn (nExpectedHash : Uint256) (fee : Int) : List CTxOut → Bool
  | [] => false
  | o :: vout =>
    if !isPayToPublicKeyHash o.scriptPubKey && !CScript.isUnspendable o.scriptPubKey then false
    else if o.scriptPubKey = findScript nExpectedHash ∧ o.nValue ≥ fee then true
    else findOpReturn nExpectedHash fee vout

/-- `CheckCollateral`, with the time of the block of the collateral. -/
def checkCollateral (chain : BudgetChain) (nTxCollateralHash nExpectedHash : Uint256)
    (nCurrentHeight : Int) (fBudgetFinalization : Bool) : Option Int :=
  match chain.getTransaction nTxCollateralHash with
  | none => none
  | some txCollateral =>
    if txCollateral.vout.length < 1 ∨ txCollateral.nLockTime ≠ 0 then none
    else if !findOpReturn nExpectedHash (if fBudgetFinalization then budgetFeeTx else proposalFeeTx)
        txCollateral.vout then none
    else
      match txCollateral.nBlockHash.bind chain.activeBlock with
      | none => none
      | some (nProposalHeight, nTime) =>
        if nProposalHeight = 0 then none
        else if nCurrentHeight - nProposalHeight + 1 < chain.nBudgetFeeConfirmations then none
        else some nTime

structure CBudgetManager where
  proposals : VoteBook CBudgetProposal CBudgetVote := {}
  budgets : VoteBook CFinalizedBudget CFinalizedBudgetVote := {}
  mapUnconfirmedFeeTx : Table Uint256 Uint256 := ∅
  nBestHeight : Int := 0

namespace CBudgetManager

variable (chain : BudgetChain)

variable (manager : CBudgetManager)

def addProposal (proposal : CBudgetProposal) : Bool × CBudgetManager :=
  let nHash := proposal.getHash signer
  if (manager.proposals.objects.lookup nHash).isSome then (false, manager)
  else
    match proposal.isWellFormed chain (chain.getTotalBudget proposal.nBlockStart) with
    | .error _ => (false, manager)
    | .ok () =>
      match checkCollateral chain proposal.nFeeTXHash nHash manager.nBestHeight false with
      | none => (false, manager)
      | some nTime =>
        let (valid, proposal) :=
          { proposal with nTime := nTime }.updateValid chain manager.nBestHeight
        if !valid then (false, manager)
        else
          (true, { manager with
            proposals := manager.proposals.emplaceObject (proposalKind signer) proposal })

def addFinalizedBudget (finalizedBudget : CFinalizedBudget) : Bool × CBudgetManager :=
  let nHash := finalizedBudget.getHash signer
  if (manager.budgets.objects.lookup nHash).isSome then (false, manager)
  else
    match finalizedBudget.isWellFormed chain (chain.getTotalBudget finalizedBudget.nBlockStart) with
    | .error _ => (false, manager)
    | .ok () =>
      match checkCollateral chain finalizedBudget.nFeeTXHash nHash manager.nBestHeight true with
      | none => (false, manager)
      | some nTime =>
        let (valid, budget) :=
          { finalizedBudget with nTime := nTime }.updateValid chain manager.nBestHeight
        if !valid then (false, manager)
        else
          (true, { manager with
            budgets := manager.budgets.emplaceObject (budgetKind signer) budget
            mapUnconfirmedFeeTx := manager.mapUnconfirmedFeeTx.erase nHash })

variable (view : BudgetView)

def checkOrphanVotes (manager : CBudgetManager) : CBudgetManager :=
  { manager with
    proposals := manager.proposals.checkOrphanVotes (proposalKind signer) view
    budgets := manager.budgets.checkOrphanVotes (budgetKind signer) view }

def processProposal (proposal : CBudgetProposal) (manager : CBudgetManager) :
    Processed CBudgetManager :=
  let (added, manager) := manager.addProposal signer chain proposal
  if added then { added := true, state := manager.checkOrphanVotes signer view }
    else { state := manager }

def processFinalizedBudget (finalbudget : CFinalizedBudget) (manager : CBudgetManager) :
    Processed CBudgetManager :=
  let (added, manager) := manager.addFinalizedBudget signer chain finalbudget
  if added then { added := true, state := manager.checkOrphanVotes signer view }
    else { state := manager }

def processProposalVote (vote : CBudgetVote) (manager : CBudgetManager) :
    Processed CBudgetManager :=
  let processed := manager.proposals.processVote (proposalKind signer) true view vote
  { processed with state := { manager with proposals := processed.state } }

def processFinalizedBudgetVote (vote : CFinalizedBudgetVote) (manager : CBudgetManager) :
    Processed CBudgetManager :=
  let processed := manager.budgets.processVote (budgetKind signer) false view vote
  { processed with state := { manager with budgets := processed.state } }

/-- `VoteOnFinalizedBudgets`, for the votes that the node's own masternode signed. -/
def voteOnFinalizedBudgets (ownVotes : List CFinalizedBudgetVote) (manager : CBudgetManager) :
    CBudgetManager :=
  ownVotes.foldl (fun manager vote =>
    let (taken, budgets) := manager.budgets.update (budgetKind signer) false view vote
    { manager with budgets := if taken then budgets.addSeenVote (budgetKind signer) vote
      else budgets }) manager

def checkAndRemove (ownVotes : List CFinalizedBudgetVote) (manager : CBudgetManager) :
    CBudgetManager :=
  let checked := { manager with
    proposals := manager.proposals.removeInvalid (proposalKind signer)
      (CBudgetProposal.updateValid chain manager.nBestHeight)
    budgets := manager.budgets.removeInvalid (budgetKind signer)
      (CFinalizedBudget.updateValid chain manager.nBestHeight) }
  checked.voteOnFinalizedBudgets signer view ownVotes

def removeByFeeTxId (feeTxId : Uint256) (manager : CBudgetManager) : CBudgetManager :=
  let (found, proposals) := manager.proposals.removeByFeeTxId (proposalKind signer) feeTxId
  if found then { manager with proposals := proposals }
  else { manager with budgets := (manager.budgets.removeByFeeTxId (budgetKind signer) feeTxId).2 }

/-- The loop of `NewBlock` over the finalized budgets. -/
def removeStaleVotesOnFinalBudgets (view : MasternodeView) (manager : CBudgetManager) :
    CBudgetManager :=
  let objects := manager.budgets.objects.replaceAll fun _ budget =>
    VoteBook.removeStaleVotes (budgetKind signer) view budget
  { manager with budgets := { manager.budgets with objects := objects } }

def clear : CBudgetManager := { nBestHeight := manager.nBestHeight }

end CBudgetManager

end

namespace SampleBudgets

def signer : BudgetSigner where
  proposalHash _ _ _ _ _ address := BitVec.ofNat 256 address.length
  finalizedBudgetHash _ _ payments := BitVec.ofNat 256 payments.length
  budgetVoteHash vin _ _ _ := vin.prevout.hash
  finalizedBudgetVoteHash vin _ _ := vin.prevout.hash
  verifyHash _ keyID vchSig := decide (vchSig = [UInt8.ofNat keyID.toNat])
  verifyBudgetVoteText _ _ _ _ _ _ := false
  verifyFinalizedBudgetVoteText _ _ _ _ _ := false

def collateral : CollateralTx where
  vout := [⟨50 * coinUnit, findScript 1, -10⟩, ⟨50 * coinUnit, findScript 2, -10⟩]
  nBlockHash := some 9

def chain : BudgetChain where
  isV5Active _ := true
  getTotalBudget _ := 1000 * coinUnit
  hasDestination _ := true
  getTransaction hash := if hash = 8 then some collateral else none
  activeBlock hash := if hash = 9 then some (42000, 1600000000) else none
  countEnabled := 20

def manager : CBudgetManager := { nBestHeight := 43000 }

def proposal (address : CScript) : CBudgetProposal where
  strProposalName := "proposal"
  strURL := "url"
  nBlockStart := 43200
  nBlockEnd := 86401
  address := address
  nAmount := 100 * coinUnit
  nFeeTXHash := 8

def budget (amounts : List Int) : CFinalizedBudget where
  strBudgetName := "main"
  nBlockStart := 43200
  vecBudgetPayments := amounts.map fun nAmount => ⟨5, [0x51], nAmount⟩
  nFeeTXHash := 8

/-- The masternodes with the given collateral transactions, all enabled and with one key. -/
def masternodes (known : List Uint256) : MasternodeView where
  find outpoint :=
    if outpoint.hash ∈ known then
      some { pubKeyMasternode := 3, protocolVersion := 70922, enabled := true }
    else none
  getMasternodeRank _ _ := 1
  countEnabled := known.length
  bestHeight := 43000
  activeProtocol := 70922

def vinOf (masternode : Uint256) :
    CTxIn := { prevout := ⟨masternode, 0⟩, scriptSig := [], nSequence := 0 }

def budgetVote (masternode nBudgetHash : Uint256) (vchSig : List UInt8) : CFinalizedBudgetVote :=
  { vin := vinOf masternode, nBudgetHash := nBudgetHash, nTime := 1600000000, vchSig := vchSig }

def proposalVote (masternode nProposalHash : Uint256) (vchSig : List UInt8) : CBudgetVote :=
  { vin := vinOf masternode, nProposalHash := nProposalHash, nVote := .yes, nTime := 1600000000,
    vchSig := vchSig }

end SampleBudgets

end Deviant.Budget.Voting
