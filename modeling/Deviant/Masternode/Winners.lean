import Deviant.Masternode.Payments

namespace Deviant.Masternode

open Data Primitives

/-! The votes of the masternodes on who is paid at a height: the messages that carry them, and the
tally that `CMasternodePayments` keeps of them. -/

abbrev CKeyID := BitVec 160

inductive MessageVersion where
  | messVerStrMess
  | messVerHash
deriving DecidableEq

structure CMasternode where
  /-- The id of `pubKeyMasternode`. -/
  pubKeyMasternode : CKeyID
  protocolVersion : Int
  enabled : Bool
deriving DecidableEq

/-- What a handler reads of the masternode list and of the node. -/
structure MasternodeView where
  find : COutPoint → Option CMasternode
  /-- `GetMasternodeRank` at a height, for the active protocol; −1 for an unranked one. -/
  getMasternodeRank : COutPoint → Int → Int
  countEnabled : Nat
  bestHeight : Int
  activeProtocol : Int
  blockchainSynced : Bool := true
  fLiteMode : Bool := false

/-- A vote for the payee of a height.  Of the input that names the masternode only the outpoint is
looked at; its `scriptSig` and `nSequence` are stored with it. -/
structure CMasternodePaymentWinner where
  vinMasternode : COutPoint
  scriptSig : CScript := []
  nSequence : Nat := 2 ^ 32 - 1
  nBlockHeight : Int := 0
  payee : CScript := []
  vchSig : List UInt8 := []
  nMessVersion : MessageVersion := .messVerHash
deriving DecidableEq

structure MessageSigner where
  /-- The hash of the payee, the height and the outpoint that a vote is made of. -/
  winnerHash : CScript → Int → COutPoint → Uint256
  verifyHash : Uint256 → CKeyID → List UInt8 → Bool
  /-- `VerifyMessage` of the text of a vote, for messages of the old version. -/
  verifyWinnerText : CScript → Int → COutPoint → CKeyID → List UInt8 → Bool

namespace CMasternodePaymentWinner

def getHash (signer : MessageSigner) (winner : CMasternodePaymentWinner) : Uint256 :=
  signer.winnerHash winner.payee winner.nBlockHeight winner.vinMasternode

def checkSignature (signer : MessageSigner) (winner : CMasternodePaymentWinner) (keyID : CKeyID) :
    Bool :=
  match winner.nMessVersion with
  | .messVerHash => signer.verifyHash (winner.getHash signer) keyID winner.vchSig
  | .messVerStrMess =>
    signer.verifyWinnerText winner.payee winner.nBlockHeight winner.vinMasternode keyID winner.vchSig

def mnpaymentsSignaturesTotal : Int := 10

def isValid (view : MasternodeView) (winner : CMasternodePaymentWinner) : Bool :=
  match view.find winner.vinMasternode with
  | none => false
  | some pmn =>
    if pmn.protocolVersion < view.activeProtocol then false
    -- an unranked masternode passes
    else decide (view.getMasternodeRank winner.vinMasternode (winner.nBlockHeight - 100) ≤
      mnpaymentsSignaturesTotal)

end CMasternodePaymentWinner

/-- The votes for a height are kept under that height, as the `vecPayments` of the height. -/
structure CMasternodePayments where
  nLastBlockHeight : Int := 0
  mapMasternodePayeeVotes : Table Uint256 CMasternodePaymentWinner := ∅
  mapMasternodeBlocks : Table Int (List CMasternodePayee) := ∅
  mapMasternodesLastVote : Table COutPoint Int := ∅

def addPayee (payeeIn : CScript) (nIncrement : Int) : List CMasternodePayee → List CMasternodePayee
  | [] => [⟨payeeIn, nIncrement⟩]
  | payee :: vecPayments =>
    if payee.scriptPubKey = payeeIn then { payee with nVotes := payee.nVotes + nIncrement } ::
      vecPayments
    else payee :: addPayee payeeIn nIncrement vecPayments

/-- What the node's own masternode reads when it votes for a height. -/
structure ActiveMasternode where
  fMasterNode : Bool
  vin : Option COutPoint
  /-- `IsBudgetPaymentBlock` of the height. -/
  isBudgetPaymentBlock : Bool
  /-- The payee script of `GetNextMasternodeInQueueForPayment`. -/
  nextPayee : Option CScript
  /-- The signature that `Sign` makes, where it succeeds. -/
  sign : CMasternodePaymentWinner → Option (List UInt8)

namespace CMasternodePayments

variable (signer : MessageSigner)

/-- Whether a masternode may vote for a height; if it may, the vote is recorded. -/
def canVote (payments : CMasternodePayments) (outMasternode : COutPoint) (nBlockHeight : Int) :
    Bool × CMasternodePayments :=
  if payments.mapMasternodesLastVote.lookup outMasternode = some nBlockHeight then (false, payments)
  else
    (true, { payments with
      mapMasternodesLastVote := payments.mapMasternodesLastVote.insert outMasternode nBlockHeight })

variable (view : MasternodeView)

def addWinningMasternode (payments : CMasternodePayments) (winnerIn : CMasternodePaymentWinner) :
    Bool × CMasternodePayments :=
  if winnerIn.nBlockHeight - 100 > view.bestHeight + 1 then (false, payments)
  else if (payments.mapMasternodePayeeVotes.lookup (winnerIn.getHash signer)).isSome
    then (false, payments)
  else
    let vecPayments := (payments.mapMasternodeBlocks.lookup winnerIn.nBlockHeight).getD []
    (true, { payments with
      mapMasternodePayeeVotes :=
        payments.mapMasternodePayeeVotes.insert (winnerIn.getHash signer) winnerIn
      mapMasternodeBlocks :=
        payments.mapMasternodeBlocks.insert winnerIn.nBlockHeight
          (addPayee winnerIn.payee 1 vecPayments) })

/-- The first height whose votes are still taken.  The difference is a `double`, cut off towards
zero. -/
def nFirstBlock : Int := (4 * view.bestHeight - 5 * view.countEnabled).tdiv 4

def listens (peerVersion : Int) : Bool :=
  view.blockchainSynced && !view.fLiteMode && decide (view.activeProtocol ≤ peerVersion)

def admits (winner : CMasternodePaymentWinner) : Bool :=
  decide (nFirstBlock view ≤ winner.nBlockHeight) &&
    decide (winner.nBlockHeight ≤ view.bestHeight + 20) &&
    decide (winner.nMessVersion = .messVerHash) && winner.isValid view

def signedByMasternode (winner : CMasternodePaymentWinner) : Bool :=
  match view.find winner.vinMasternode with
  | none => false
  | some pmn => winner.checkSignature signer pmn.pubKeyMasternode

/-- A `MNWINNER` message, and whether its vote was added. -/
def processWinner (peerVersion : Int) (winner : CMasternodePaymentWinner)
    (payments : CMasternodePayments) : Bool × CMasternodePayments :=
  if !listens view peerVersion then (false, payments)
  else if (payments.mapMasternodePayeeVotes.lookup (winner.getHash signer)).isSome
    then (false, payments)
  else if !admits view winner then (false, payments)
  else
    let (mayVote, recorded) := payments.canVote winner.vinMasternode winner.nBlockHeight
    if !mayVote then (false, recorded)
    -- the vote is recorded before its signature is checked
    else if !signedByMasternode signer view winner then (false, recorded)
    else recorded.addWinningMasternode signer view winner

variable (active : ActiveMasternode)

/-- The vote that the node's own masternode makes for a height.  For a budget block, and where no
masternode is due, it is the vote as constructed: for height 0, with an empty payee. -/
def newWinner (vin : COutPoint) (nBlockHeight : Int) : CMasternodePaymentWinner :=
  if active.isBudgetPaymentBlock then { vinMasternode := vin }
  else
    match active.nextPayee with
    | none => { vinMasternode := vin }
    | some payee => { vinMasternode := vin, nBlockHeight := nBlockHeight, payee := payee }

def ownVote (nBlockHeight : Int) (payments : CMasternodePayments) :
    Option CMasternodePaymentWinner :=
  match active.fMasterNode, active.vin with
  | true, some vin =>
    let n := view.getMasternodeRank vin (nBlockHeight - 100)
    if n = -1 then none
    else if n > CMasternodePaymentWinner.mnpaymentsSignaturesTotal then none
    else if nBlockHeight ≤ payments.nLastBlockHeight then none
    else
      let winner := newWinner active vin nBlockHeight
      (active.sign winner).map fun vchSig => { winner with vchSig := vchSig }
  | _, _ => none

def processBlock (nBlockHeight : Int) (payments : CMasternodePayments) :
    Bool × CMasternodePayments :=
  match ownVote view active nBlockHeight payments with
  | none => (false, payments)
  | some winner =>
    let (added, payments) := payments.addWinningMasternode signer view winner
    (added, if added then { payments with nLastBlockHeight := nBlockHeight } else payments)

def isOld (mnCount nHeight : Int) (winner : CMasternodePaymentWinner) : Bool :=
  decide (nHeight - winner.nBlockHeight > max ((5 * mnCount).tdiv 4) 1000)

def cleanPaymentList (mnCount nHeight : Int) (payments : CMasternodePayments) :
    CMasternodePayments :=
  let old := payments.mapMasternodePayeeVotes.entries.filter fun entry =>
    isOld mnCount nHeight entry.2
  { payments with
    mapMasternodePayeeVotes := payments.mapMasternodePayeeVotes.eraseWhere (isOld mnCount nHeight)
    mapMasternodeBlocks :=
      old.foldl (fun blocks entry => blocks.erase entry.2.nBlockHeight)
      payments.mapMasternodeBlocks }

def counted (winner : CMasternodePaymentWinner) (payments : CMasternodePayments) :
    CMasternodePayments :=
  { payments with
    mapMasternodePayeeVotes := payments.mapMasternodePayeeVotes.insert (winner.getHash signer) winner
    mapMasternodeBlocks := payments.mapMasternodeBlocks.insert winner.nBlockHeight
      (addPayee winner.payee 1 ((payments.mapMasternodeBlocks.lookup winner.nBlockHeight).getD [])) }

def Addable (payments : CMasternodePayments) (winner : CMasternodePaymentWinner) : Prop :=
  winner.nBlockHeight - 100 ≤ view.bestHeight + 1 ∧
    payments.mapMasternodePayeeVotes.lookup (winner.getHash signer) = none

def reachesLastVote (peerVersion : Int) (winner : CMasternodePaymentWinner)
    (payments : CMasternodePayments) : Bool :=
  listens view peerVersion &&
    (payments.mapMasternodePayeeVotes.lookup (winner.getHash signer)).isNone && admits view winner

variable {signer view} {payments : CMasternodePayments} {winner : CMasternodePaymentWinner}

theorem addWinningMasternode_of_addable (addable : Addable signer view payments winner) :
    payments.addWinningMasternode signer view winner = (true, payments.counted signer winner) := by
  obtain ⟨near, absent⟩ := addable
  unfold addWinningMasternode
  rw [if_neg (by omega), absent, if_neg (by decide)]
  rfl

theorem addWinningMasternode_of_not_addable (refused : ¬ Addable signer view payments winner) :
    payments.addWinningMasternode signer view winner = (false, payments) := by
  unfold addWinningMasternode
  by_cases far : winner.nBlockHeight - 100 > view.bestHeight + 1
  · rw [if_pos far]
  · rw [if_neg far, if_pos]
    rw [Option.isSome_iff_ne_none]
    exact fun absent => refused ⟨by omega, absent⟩

theorem admits_near (admitted : admits view winner = true) :
    winner.nBlockHeight - 100 ≤ view.bestHeight + 1 := by
  simp only [admits, Bool.and_eq_true, decide_eq_true_eq] at admitted
  omega

theorem processWinner_eq : payments.processWinner signer view peerVersion winner =
      if payments.reachesLastVote signer view peerVersion winner ∧
          payments.mapMasternodesLastVote.lookup winner.vinMasternode ≠ some winner.nBlockHeight then
        let recorded := { payments with
          mapMasternodesLastVote :=
            payments.mapMasternodesLastVote.insert winner.vinMasternode winner.nBlockHeight }
        if signedByMasternode signer view winner then (true, recorded.counted signer winner)
          else (false, recorded)
      else (false, payments) := by
  cases reaches : payments.reachesLastVote signer view peerVersion winner with
  | false =>
    simp only [reachesLastVote, Bool.and_eq_false_iff, Option.isNone_eq_false_iff] at reaches
    obtain (deaf | seen) | refused := reaches
    · simp [processWinner, deaf]
    · simp [processWinner, seen]
    · simp [processWinner, refused]
  | true =>
    simp only [reachesLastVote, Bool.and_eq_true, Option.isNone_iff_eq_none] at reaches
    obtain ⟨⟨listening, unseen⟩, admitted⟩ := reaches
    by_cases voted :
      payments.mapMasternodesLastVote.lookup winner.vinMasternode = some winner.nBlockHeight
    · simp [processWinner, canVote, voted]
    · cases signed : signedByMasternode signer view winner with
      | true =>
        have added (lastVotes : Table COutPoint Int) :
            { payments with mapMasternodesLastVote := lastVotes }.addWinningMasternode signer view
            winner = _ :=
          addWinningMasternode_of_addable ⟨admits_near admitted, unseen⟩
        simp [processWinner, listening, unseen, admitted, canVote, voted, signed, added]
      | false => simp [processWinner, listening, unseen, admitted, canVote, voted, signed]

end CMasternodePayments

inductive PaymentEvent where
  | winner (view : MasternodeView) (peerVersion : Int) (winner : CMasternodePaymentWinner)
  | newBlock (view : MasternodeView) (active : ActiveMasternode) (nBlockHeight : Int)
  | cleanPaymentList (mnCount nHeight : Int)

namespace CMasternodePayments

variable (signer : MessageSigner)

def step (payments : CMasternodePayments) : PaymentEvent → CMasternodePayments
  | .winner view peerVersion winner => (payments.processWinner signer view peerVersion winner).2
  | .newBlock view active nBlockHeight => (payments.processBlock signer view active nBlockHeight).2
  | .cleanPaymentList mnCount nHeight => payments.cleanPaymentList mnCount nHeight

def run (payments : CMasternodePayments) (events : List PaymentEvent) : CMasternodePayments :=
  events.foldl (step signer) payments

end CMasternodePayments

end Deviant.Masternode
