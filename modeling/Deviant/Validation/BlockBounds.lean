import Deviant.Validation.FakeStake
import Deviant.Validation.IndexedChecks

namespace Deviant.Validation.Indexed

open Chain Consensus Data List Primitives Script
open ReadsWithin hiding readAt

/-! When the reads of `ProcessNewBlock` stay in range.  Each check is compared with its model that
refuses what it cannot read; both agree as long as the reads are in range. -/

section

variable {env : Env} {files : BlockFiles} (staking : StakingParams) (sources : BlockSources)
  (tip : ChainTip env files)

/-- The output an outpoint names, of a transaction that `GetTransaction` finds. -/
def previousOutput (prevout : COutPoint) : Option CTxOut :=
  (getTransaction sources.accept tip prevout.hash).bind fun found => found.1.vout[prevout.n]?

def spendLibrary : ZerocoinLibrary :=
  { sources.accept.library with getOutput := previousOutput sources tip }

def acceptSources : AcceptSources :=
  { sources.accept with library := spendLibrary sources tip }

def freeOutputSources : FreeOutputSources where
  isBudgetPaymentBlock := sources.isBudgetPaymentBlock
  prevoutValue prevout := (previousOutput sources tip prevout).map CTxOut.nValue

def payeeValid (env : Env) (block : CBlock) (nHeight : Nat) : Bool :=
  !env.node.masternodeSynced ||
    (block.vtx[if env.params.networkUpgradeActive nHeight .upgradePOS then 1 else 0]?).any fun txNew =>
      sources.payeeAccepted txNew block nHeight

/-- What `CheckBlock` concludes from the last output of a cold stake. -/
def coldStakeValid (block : CBlock) : Bool :=
  !checksPayments (tipEnv tip) block || !block.isProofOfStake || (block.vtx[1]?).all fun coinstake =>
    Validation.checkColdStakeFreeOutput env (freeOutputSources sources tip) coinstake
      (paymentHeight (tipEnv tip) block)

def refusing : Env :=
  { tipEnv tip with
    zerocoin := { env.zerocoin with
      checkZerocoinSpend := Validation.checkZerocoinSpend (spendLibrary sources tip) }
    verifier := { env.verifier with
      checkBlockSignature := fun block => (checkBlockSignature sources block).getD false }
    node := { (tipEnv tip).node with
      checkColdStakeFreeOutput := fun _ tx nHeight =>
        Validation.checkColdStakeFreeOutput env (freeOutputSources sources tip) tx nHeight
      isBlockPayeeValid := fun _ block nHeight => payeeValid sources env block nHeight } }

/-- The transaction, if `GetTransaction` finds it, has the output. -/
def HasOutput (prevout : COutPoint) : Prop :=
  ∀ found, getTransaction sources.accept tip prevout.hash = some found →
    prevout.n < found.1.vout.length

def NotOnePast (prevout : COutPoint) : Prop :=
  ∀ found, getTransaction sources.accept tip prevout.hash = some found →
    prevout.n ≠ found.1.vout.length

variable {sources}

theorem reads_getOutput :
    ReadsWithin (getOutput sources tip prevout) (previousOutput sources tip prevout)
        (NotOnePast sources tip prevout) := by
  unfold getOutput previousOutput NotOnePast
  cases found : getTransaction sources.accept tip prevout.hash with
  | none => exact .safe rfl (by simp)
  | some entry =>
    obtain ⟨txPrev, hashBlock⟩ := entry
    simp only [Option.bind_some, Option.some.injEq, forall_eq']
    by_cases beyond : txPrev.vout.length < prevout.n
    · rw [if_pos beyond, getElem?_eq_none (by omega)]
      exact .safe rfl (by omega)
    · rw [if_neg beyond, readAt]
      by_cases inRange : prevout.n < txPrev.vout.length
      · rw [getElem?_eq_getElem inRange]
        exact .safe rfl (by omega)
      · rw [getElem?_eq_none (by omega)]
        exact ⟨fun differs => by omega, fun _ => rfl⟩

def stakeOf (block : CBlock) : Option (CTransaction × CTxIn) :=
  match block.vtx with
  | _ :: tx :: _ => if tx.isCoinStake then tx.vin.head?.map fun input => (tx, input) else none
  | _ => none

theorem exists_input_of_isCoinStake {tx : CTransaction} (coinStake : tx.isCoinStake = true) :
    ∃ input rest, tx.vin = input :: rest := by
  unfold CTransaction.isCoinStake at coinStake
  cases inputs : tx.vin with
  | nil => simp [inputs] at coinStake
  | cons input rest => exact ⟨input, rest, rfl⟩

theorem stakeOf_isSome : (stakeOf block).isSome = block.isProofOfStake := by
  unfold stakeOf CBlock.isProofOfStake
  rcases block.vtx with _ | ⟨_, _ | ⟨tx, _⟩⟩
  · rfl
  · rfl
  · cases coinStake : tx.isCoinStake with
    | false => simp [coinStake]
    | true =>
      obtain ⟨input, rest, inputs⟩ := exists_input_of_isCoinStake coinStake
      simp [coinStake, inputs]

/-- Where the stake and its input are, which every read of them relies on. -/
structure Stakes (block : CBlock) (stake : CTransaction) (input : CTxIn) : Prop where
  proofOfStake : block.isProofOfStake = true
  second : block.vtx[1]? = some stake
  first : stake.vin[0]? = some input
  pays : 1 < stake.vout.length

theorem stakes_of_stakeOf (found : stakeOf block = some (stake, input)) :
    Stakes block stake input := by
  have isStake : block.isProofOfStake = true := by rw [← stakeOf_isSome, found]; rfl
  unfold stakeOf at found
  split at found
  next first tx rest shape =>
    by_cases coinStake : tx.isCoinStake = true
    · rw [if_pos coinStake] at found
      obtain ⟨head, inputs, same⟩ := Option.map_eq_some_iff.mp found
      cases same
      obtain ⟨_, _, _, pays, -⟩ := CTransaction.vout_of_isCoinStake coinStake
      exact ⟨isStake, by rw [shape]; rfl, by rw [← head?_eq_getElem?, inputs], by rw [pays]; simp⟩
    · rw [if_neg coinStake] at found
      cases found
  · cases found

theorem exists_stakes (isStake : block.isProofOfStake = true) :
    ∃ stake input, stakeOf block = some (stake, input) ∧ Stakes block stake input := by
  rw [← stakeOf_isSome] at isStake
  obtain ⟨⟨stake, input⟩, found⟩ := Option.isSome_iff_exists.mp isStake
  exact ⟨stake, input, found, stakes_of_stakeOf found⟩

theorem stakeOf_eq_none (work : block.isProofOfStake = false) : stakeOf block = none := by
  rw [← stakeOf_isSome] at work
  simpa using work

def asksStakedOutput (env : Env) (tx : CTransaction) (nHeight : Nat) : Bool :=
  hasP2CSOutputs env.node.isV6Active tx && !isRegTestNet env.params && !env.node.masternodeSynced &&
    match tx.vout.reverse with
    | lastOut :: previous :: _ :: _ =>
      decide (lastOut.scriptPubKey ≠ previous.scriptPubKey) &&
        decide (lastOut.nValue ≠ getMasternodePayment env nHeight)
    | _ => false

theorem reads_freeOutputAllowed (first : tx.vin[0]? = some input) :
      ReadsWithin (freeOutputAllowed sources tip tx lastOut nHeight)
        (Validation.freeOutputAllowed env (freeOutputSources sources tip) tx lastOut nHeight)
      (lastOut.nValue ≠ getMasternodePayment env nHeight → isRegTestNet env.params = false →
        env.node.masternodeSynced = false → HasOutput sources tip input.prevout) := by
  unfold freeOutputAllowed Validation.freeOutputAllowed
  by_cases paid : lastOut.nValue = getMasternodePayment env nHeight
  · simp only [paid, if_true]
    exact .safe rfl (by simp)
  cases regTest : isRegTestNet env.params with
  | true =>
    simp only [paid, if_false, if_true]
    exact .safe rfl (by simp)
  | false =>
    cases synced : env.node.masternodeSynced with
    | true =>
      simp only [paid, Bool.false_eq_true, if_false, Bool.not_true]
      exact .safe rfl (by simp)
    | false =>
      have staked : stakedValue (freeOutputSources sources tip) tx =
          (previousOutput sources tip input.prevout).map CTxOut.nValue := by
        rw [stakedValue, head?_eq_getElem?, first]
        rfl
      simp only [paid, Bool.false_eq_true, if_false, Bool.not_false, if_true, staked,
        readAt_bind first]
      unfold previousOutput HasOutput
      cases found : getTransaction sources.accept tip input.prevout.hash with
      | none => exact .safe rfl (by simp)
      | some entry =>
        refine (answer fun out inVout => ?_).congr (by simp [paid])
        simp [inVout]

theorem reads_checkColdStakeFreeOutput (first : tx.vin[0]? = some input) :
    ReadsWithin (checkColdStakeFreeOutput sources tip tx nHeight)
      (Validation.checkColdStakeFreeOutput env (freeOutputSources sources tip) tx nHeight)
      (asksStakedOutput env tx nHeight = true → HasOutput sources tip input.prevout) := by
  unfold checkColdStakeFreeOutput Validation.checkColdStakeFreeOutput asksStakedOutput
  cases delegates : hasP2CSOutputs env.node.isV6Active tx with
  | false => exact .safe rfl (by simp)
  | true =>
    generalize tx.vout.reverse = outs
    rcases outs with _ | ⟨lastOut, _ | ⟨previous, _ | ⟨third, rest⟩⟩⟩
    · exact .safe rfl (by simp)
    · exact .safe rfl (by simp)
    · exact .safe rfl (by simp)
    · by_cases differ : lastOut.scriptPubKey ≠ previous.scriptPubKey
      · simp only [differ, ne_eq, not_false_eq_true, if_true]
        refine (reads_freeOutputAllowed tip first).congr ?_
        simp only [ne_eq, decide_true, Bool.true_and, Bool.and_eq_true, Bool.not_eq_true',
          decide_eq_true_eq]
        tauto
      · simp only [differ, if_false]
        exact .safe rfl (by simp)

theorem reads_coldStakeAccepted :
    ReadsWithin (coldStakeAccepted sources tip block) (coldStakeValid sources tip block)
        (checksPayments (tipEnv tip) block = true → ∀ stake input,
          stakeOf block = some (stake, input) →
        asksStakedOutput env stake (paymentHeight (tipEnv tip) block) = true →
        HasOutput sources tip input.prevout) := by
  unfold coldStakeAccepted coldStakeValid
  cases checks : checksPayments (tipEnv tip) block with
  | false => exact .safe rfl (by simp)
  | true =>
    cases isStake : block.isProofOfStake with
    | false => exact .safe rfl (by simp [stakeOf_eq_none isStake])
    | true =>
      obtain ⟨stake, input, found, stakes⟩ := exists_stakes isStake
      simp only [Bool.and_self, if_true, readAt_bind stakes.second, stakes.second, found]
      refine (reads_checkColdStakeFreeOutput tip stakes.first).congr ?_
      simp

theorem reads_isBlockPayeeValid (nonempty : block.vtx ≠ []) :
    ReadsWithin (isBlockPayeeValid sources env block nHeight) (payeeValid sources env block nHeight)
      (env.node.masternodeSynced = true →
        env.params.networkUpgradeActive nHeight .upgradePOS = true → 1 < block.vtx.length) := by
  unfold isBlockPayeeValid payeeValid
  cases synced : env.node.masternodeSynced with
  | false => exact .safe rfl (by simp)
  | true =>
    have present : 0 < block.vtx.length := length_pos_iff.mpr nonempty
    cases active : env.params.networkUpgradeActive nHeight .upgradePOS with
    | true =>
      exact (answer fun txNew found => by rw [found]; rfl).congr (by simp)
    | false =>
      exact (answer fun txNew found => by rw [found]; rfl).congr (by simp [present])

theorem redeemSpends_cons :
    Validation.redeemSpends library tx (txin :: rest) serials nTotalRedeemed fValidated =
        if !txin.isZerocoinSpend && !txin.isZerocoinPublicSpend then
        Validation.redeemSpends library tx rest serials nTotalRedeemed fValidated
      else (redeemSpend library tx txin (library.getOutput txin.prevout) serials).bind fun newSpend =>
        Validation.redeemSpends library tx rest (newSpend.coinSerialNumber :: serials)
          (wrap64 (nTotalRedeemed + coinUnit * newSpend.denomination)) true := by
  rw [Validation.redeemSpends]
  split
  · rfl
  · cases isPublic : txin.isZerocoinPublicSpend with
    | true => simp only [redeemSpend, isPublic, if_true, Option.bind_eq_bind, Option.bind_assoc]; rfl
    | false =>
      simp only [redeemSpend, isPublic, Bool.false_eq_true, if_false, Option.bind_eq_bind,
        Option.bind_assoc]
      rfl

variable (sources) in
def SpendBounds (tx : CTransaction) (inputs : List CTxIn)
    (serials : List Nat) (nTotalRedeemed : Int) (fValidated : Bool) : Prop :=
  ∀ before txin after, inputs = before ++ txin :: after →
    (Validation.redeemSpends (spendLibrary sources tip) tx before serials nTotalRedeemed
      fValidated).isSome = true →
    txin.isZerocoinPublicSpend = true → NotOnePast sources tip txin.prevout

theorem reads_redeemSpends (tx : CTransaction) (inputs : List CTxIn)
    (serials : List Nat) (nTotalRedeemed : Int) (fValidated : Bool) :
    ReadsWithin (redeemSpends sources tip tx inputs serials nTotalRedeemed fValidated)
      (Validation.redeemSpends (spendLibrary sources tip) tx inputs serials nTotalRedeemed fValidated)
      (SpendBounds sources tip tx inputs serials nTotalRedeemed fValidated) := by
  unfold SpendBounds
  induction inputs generalizing serials nTotalRedeemed fValidated with
  | nil => exact .safe rfl (by simp)
  | cons txin rest ih =>
    rw [forall_split_cons, redeemSpends]
    simp only [redeemSpends_cons]
    by_cases neither : (!txin.isZerocoinSpend && !txin.isZerocoinPublicSpend) = true
    · have notPublic : txin.isZerocoinPublicSpend = false := by
        rw [Bool.and_eq_true] at neither
        simpa using neither.2
      simp only [neither, if_true]
      exact (ih serials nTotalRedeemed fValidated).congr (by simp [notPublic])
    · simp only [neither, Bool.false_eq_true, if_false]
      have looked : ReadsWithin (spentOutput sources tip txin)
          (if txin.isZerocoinPublicSpend then previousOutput sources tip txin.prevout else none)
          (txin.isZerocoinPublicSpend = true → NotOnePast sources tip txin.prevout) :=
        (ite (fun _ => reads_getOutput tip) fun _ => .safe rfl trivial).congr (by simp)
      have redeemed : redeemSpend sources.accept.library tx txin
            (if txin.isZerocoinPublicSpend then previousOutput sources tip txin.prevout else none)
          serials = redeemSpend (spendLibrary sources tip) tx txin
            ((spendLibrary sources tip).getOutput txin.prevout) serials := by
        cases isPublic : txin.isZerocoinPublicSpend with
        | true => rfl
        | false =>
          simp only [redeemSpend, isPublic, Bool.false_eq_true, if_false]
          rfl
      refine bind (looked.congr ?_) ?_
      · simp [Validation.redeemSpends]
      · rw [redeemed]
        cases redeemSpend (spendLibrary sources tip) tx txin
          ((spendLibrary sources tip).getOutput txin.prevout) serials with
        | none => exact .safe rfl (by simp)
        | some newSpend => exact (ih _ _ true).congr Iff.rfl

theorem reads_checkZerocoinSpend (fVerifySignature fFakeSerialAttack : Bool) :
      ReadsWithin (checkZerocoinSpend sources tip tx)
        (Validation.checkZerocoinSpend (spendLibrary sources tip)
          tx fVerifySignature fFakeSerialAttack)
      (tooManyOutputs tx = false → SpendBounds sources tip tx tx.vin [] 0 false) := by
  have loop := @reads_redeemSpends env files sources tip tx tx.vin [] 0 false
  exact (ite (fun _ => .safe rfl trivial) fun _ => loop.map (redeemedVerdict tx)).congr (by simp)

theorem reads_requireRead (reads : ReadsWithin run condition bounds) (reason : String) :
    ReadsWithin (requireRead run reason).run (require condition reason) bounds :=
  reads.map fun condition => require condition reason

theorem exists_input_of_isCoinBase {tx : CTransaction} (isCoinBase : tx.isCoinBase = true) :
    ∃ input, tx.vin = [input] := by
  unfold CTransaction.isCoinBase at isCoinBase
  split at isCoinBase
  next input inputs => exact ⟨input, inputs⟩
  · cases isCoinBase

theorem reads_checkInputForm (tx : CTransaction) (fZerocoinActive : Bool) :
    ReadsWithin (checkInputForm params tx fZerocoinActive).run
      (Consensus.checkInputForm params tx fZerocoinActive) True := by
  unfold checkInputForm
  cases isCoinBase : tx.isCoinBase with
  | false => exact .settled
  | true =>
    obtain ⟨input, inputs⟩ := exists_input_of_isCoinBase isCoinBase
    refine .safe ?_ trivial
    simp only [if_true, Consensus.checkInputForm, isCoinBase, inputs]
    rfl

variable (sources) in
/-- The spends of a transaction, if `CheckTransaction` comes to them. -/
def TransactionBounds (tx : CTransaction)
    (fZerocoinActive fColdStakingActive fSaplingActive : Bool) : Prop :=
  checkTransactionOpening env tx fColdStakingActive fSaplingActive = .ok () →
    checkSpendCount env.params tx fZerocoinActive = .ok () →
    fZerocoinActive = true → tx.hasZerocoinSpendInputs = true → tooManyOutputs tx = false →
    SpendBounds sources tip tx tx.vin [] 0 false

theorem checkTransaction_eq (tx : CTransaction) (fZerocoinActive : Bool) :
    Consensus.checkTransaction env tx fZerocoinActive fFakeSerialAttack fColdStakingActive
      fSaplingActive = (do
      checkTransactionOpening env tx fColdStakingActive fSaplingActive
      checkSpendCount env.params tx fZerocoinActive
      require (!(fZerocoinActive && tx.hasZerocoinSpendInputs) ||
        env.zerocoin.checkZerocoinSpend tx (!env.node.isInitialBlockDownload && env.node.tipIsRecent)
          fFakeSerialAttack) ""
      Consensus.checkInputForm env.params tx fZerocoinActive) := by
  simp [Consensus.checkTransaction, checkTransactionOpening, checkSpendCount, checkZerocoinInputs]

theorem reads_checkTransaction (fZerocoinActive fFakeSerialAttack : Bool) :
    ReadsWithin (checkTransaction sources tip tx fZerocoinActive fColdStakingActive
      fSaplingActive).run
      (Consensus.checkTransaction (refusing sources tip) tx fZerocoinActive fFakeSerialAttack
        fColdStakingActive fSaplingActive)
      (TransactionBounds sources tip tx fZerocoinActive fColdStakingActive fSaplingActive) := by
  rw [checkTransaction_eq, checkTransaction]
  have spends : ReadsWithin
      (if fZerocoinActive && tx.hasZerocoinSpendInputs then checkZerocoinSpend sources tip tx
        else some true)
      (!(fZerocoinActive && tx.hasZerocoinSpendInputs) ||
        (refusing sources tip).zerocoin.checkZerocoinSpend tx (!env.node.isInitialBlockDownload &&
          env.node.tipIsRecent) fFakeSerialAttack)
      (fZerocoinActive = true → tx.hasZerocoinSpendInputs = true → tooManyOutputs tx = false →
        SpendBounds sources tip tx tx.vin [] 0 false) := by
    cases asked : fZerocoinActive && tx.hasZerocoinSpendInputs with
    | false => exact .safe rfl fun active spends => by simp [active, spends] at asked
    | true =>
      rw [Bool.and_eq_true] at asked
      refine (reads_checkZerocoinSpend tip (!env.node.isInitialBlockDownload && env.node.tipIsRecent)
        fFakeSerialAttack).congr ?_
      simp [asked]
  refine (ReadsWithin.settled.check fun _ => ReadsWithin.settled.check fun _ =>
    (reads_requireRead spends "").check fun _ => reads_checkInputForm _ _).congr ?_
  simp [TransactionBounds]

variable (sources) in
def TransactionsBounds (block : CBlock) (txs : List CTransaction) :
    Prop :=
  ∀ before tx after, txs = before ++ tx :: after →
    Validation.checkBlockTransactions (refusing sources tip) block
    (coldStakingActive (tipEnv tip) block) before = .ok () →
    TransactionBounds sources tip tx (zerocoinActive env block)
      (coldStakingActive (tipEnv tip) block) (saplingActive (tipEnv tip))

theorem reads_checkBlockTransactions :
    ReadsWithin (checkBlockTransactions sources tip block txs).run
        (Validation.checkBlockTransactions (refusing sources tip) block
          (coldStakingActive (tipEnv tip) block) txs)
      (TransactionsBounds sources tip block txs) := by
  unfold TransactionsBounds
  induction txs with
  | nil => exact .safe rfl (by simp)
  | cons tx rest ih =>
    rw [forall_split_cons, checkBlockTransactions, Validation.checkBlockTransactions]
    refine ((reads_checkTransaction tip _ _).check fun passed => ReadsWithin.settled.check
      fun active =>
      ih).congr ?_
    simp only [Validation.checkBlockTransactions, bind_eq_ok]
    constructor
    · rintro ⟨here, later⟩
      refine ⟨fun _ => here, fun before other after split passes => ?_⟩
      obtain ⟨_, passed, _, active, earlier⟩ := passes
      exact (later passed).2 active before other after split earlier
    · rintro ⟨here, later⟩
      exact ⟨here trivial, fun passed => ⟨trivial, fun active before other after split earlier =>
        later before other after split ⟨(), passed, (), active, earlier⟩⟩⟩

theorem reads_checkBlockSignature :
    ReadsWithin (checkBlockSignature sources block) ((checkBlockSignature sources block).getD false)
      True := by
  have answers : (checkBlockSignature sources block).isSome = true := by
    unfold checkBlockSignature
    cases isStake : block.isProofOfStake with
    | false => rfl
    | true =>
      obtain ⟨stake, input, -, stakes⟩ := exists_stakes isStake
      obtain ⟨out, paid⟩ : ∃ out, stake.vout[1]? = some out := ⟨_, getElem?_eq_getElem stakes.pays⟩
      simp only [readAt_bind stakes.second, readAt_bind stakes.first, readAt_bind paid]
      cases sources.vchBlockSigEmpty block <;> cases input.isZerocoinSpend <;> rfl
  obtain ⟨verdict, found⟩ := Option.isSome_iff_exists.mp answers
  exact .safe (by rw [found]; rfl) trivial

theorem checkBlock_eq : Validation.checkBlock (refusing sources tip) block true true true = (do
      checkBlockOpening env block
      require (coldStakeValid sources tip block) "bad-p2cs-outs"
      require (!checksPayments (tipEnv tip) block ||
        payeeValid sources env block (paymentHeight (tipEnv tip) block))
        "bad-cb-payee"
      Validation.checkBlockTransactions (refusing sources tip) block
        (coldStakingActive (tipEnv tip) block) block.vtx
      checkSigOps env block
      require ((checkBlockSignature sources block).getD false) "bad-PoS-sig") := by
  simp only [Validation.checkBlock, checkBlockOpening, bind_assoc, Bool.not_true, Bool.false_or,
    Bool.or_false]
  rfl

variable (sources) in
/-- `CheckBlock` has passed the payments. -/
structure PaymentsPassed (block : CBlock) : Prop where
  opening : checkBlockOpening env block = .ok ()
  coldStake : coldStakeValid sources tip block = true
  payee : checksPayments (tipEnv tip) block = true →
    payeeValid sources env block (paymentHeight (tipEnv tip) block) = true

variable (sources) in
/-- What keeps the reads of `CheckBlock` in range. -/
structure CheckBlockBounds (block : CBlock) : Prop where
  freeOutput : checkBlockOpening env block = .ok () → checksPayments (tipEnv tip) block = true →
    ∀ stake input, stakeOf block = some (stake, input) →
      asksStakedOutput env stake (paymentHeight (tipEnv tip) block) = true →
      HasOutput sources tip input.prevout
  payee : checkBlockOpening env block = .ok () → checksPayments (tipEnv tip) block = true →
    env.node.masternodeSynced = true →
    env.params.networkUpgradeActive (paymentHeight (tipEnv tip) block) .upgradePOS = true →
    1 < block.vtx.length
  spends : PaymentsPassed sources tip block → TransactionsBounds sources tip block block.vtx

theorem vtx_ne_nil_of_opening (opening : checkBlockOpening env block = .ok ()) :
    block.vtx ≠ [] := by
  intro empty
  simp [checkBlockOpening, empty] at opening

theorem one_lt_length_of_isProofOfStake {block : CBlock} (isStake : block.isProofOfStake = true) :
    1 < block.vtx.length := by
  obtain ⟨stake, input, -, stakes⟩ := exists_stakes isStake
  exact (List.getElem?_eq_some_iff.mp stakes.second).1

theorem reads_payeeAccepted (nonempty : block.vtx ≠ []) :
      ReadsWithin (payeeAccepted sources tip block) (!checksPayments (tipEnv tip) block ||
        payeeValid sources env block (paymentHeight (tipEnv tip) block))
      (checksPayments (tipEnv tip) block = true → env.node.masternodeSynced = true →
        env.params.networkUpgradeActive (paymentHeight (tipEnv tip) block) .upgradePOS = true →
        1 < block.vtx.length) := by
  unfold payeeAccepted
  cases checks : checksPayments (tipEnv tip) block with
  | false => exact .safe rfl (by simp)
  | true =>
    refine (reads_isBlockPayeeValid nonempty).congr ?_
    simp

theorem reads_checkBlock :
    ReadsWithin (checkBlock sources tip block).run
      (Validation.checkBlock (refusing sources tip) block true true true)
      (CheckBlockBounds sources tip block) := by
  rw [checkBlock_eq, checkBlock]
  refine (ReadsWithin.settled.check fun opening =>
    (reads_requireRead (reads_coldStakeAccepted tip) _).check fun _ =>
    (reads_requireRead (reads_payeeAccepted tip (vtx_ne_nil_of_opening opening)) _).check fun _ =>
    (reads_checkBlockTransactions tip).check fun _ => ReadsWithin.settled.check fun _ =>
    reads_requireRead reads_checkBlockSignature _).congr ?_
  simp only [require_eq_ok, true_and, and_true, implies_true]
  constructor
  · intro bounds
    refine ⟨fun opening => (bounds opening).1, fun opening checks synced active => ?_,
      fun passed => ?_⟩
    · cases isStake : block.isProofOfStake with
      | true => exact one_lt_length_of_isProofOfStake isStake
      | false =>
        have valid : coldStakeValid sources tip block = true := by simp [coldStakeValid, isStake]
        exact ((bounds opening).2 valid).1 checks synced active
    · refine (((bounds passed.opening).2 passed.coldStake).2 ?_)
      cases checks : checksPayments (tipEnv tip) block with
      | false => rfl
      | true => simpa using passed.payee checks
  · intro bounds opening
    refine ⟨bounds.freeOutput opening, fun coldStake => ⟨bounds.payee opening, fun payee => ?_⟩⟩
    exact bounds.spends ⟨opening, coldStake, fun checks => by simpa [checks] using payee⟩

variable (sources) in
/-- The output that is staked is read once its transaction is found in the active chain. -/
def StakeBounds (input : CTxIn) : Prop :=
  input.isZerocoinSpend = false →
    ∀ found, getTransaction sources.accept tip input.prevout.hash = some found → ∀ pindexFrom,
      tip.mapBlockIndex.find found.2 = some pindexFrom →
      contains tip.chainActive pindexFrom = true → input.prevout.n < found.1.vout.length

theorem reads_newDeviantStake :
    ReadsWithin (newDeviantStake sources tip input)
      (Validation.newDeviantStake sources.accept tip input) (StakeBounds sources tip input) := by
  unfold newDeviantStake Validation.newDeviantStake StakeBounds
  cases isSpend : input.isZerocoinSpend with
  | true => exact .safe rfl (by simp)
  | false =>
    cases looked : getTransaction sources.accept tip input.prevout.hash with
    | none => exact .safe rfl (by simp)
    | some found =>
      simp only [Option.bind_eq_bind, Option.bind_some, Option.some.injEq, forall_eq']
      cases indexed : tip.mapBlockIndex.find found.2 with
      | none => exact .safe rfl (by simp)
      | some pindexFrom =>
        simp only [Option.bind_some, Option.some.injEq, forall_eq']
        cases active : contains tip.chainActive pindexFrom with
        | false => exact .safe rfl (by simp)
        | true =>
          refine (answer fun out inVout => ?_).congr (by simp)
          simp [inVout]

theorem reads_loadStakeInput (parent : block.hashPrevBlock = pindexPrev.hash)
    (stakes : Stakes block stake input) : ReadsWithin (loadStakeInput sources tip block pindexPrev)
      (Validation.loadStakeInput sources.accept tip block pindexPrev)
      (StakeBounds sources tip input) := by
  have first : stake.vin.head? = some input := by rw [head?_eq_getElem?, stakes.first]
  have loads : Validation.loadStakeInput sources.accept tip block pindexPrev =
      if input.isZerocoinSpend then (sources.accept.initLegacyStake tip.chainActive input).map
      (.zerocoin input)
      else Validation.newDeviantStake sources.accept tip input := by
    simp only [Validation.loadStakeInput, parent, stakes.proofOfStake, stakes.second,
      Option.bind_some, first, Option.map_eq_bind]
    rfl
  rw [loads, loadStakeInput, if_neg (not_not.mpr parent), stakes.proofOfStake, if_neg (by decide),
    readAt_bind stakes.second, readAt_bind stakes.first]
  refine (ite (fun _ => .safe rfl trivial) fun _ => reads_newDeviantStake tip).congr ?_
  simp [StakeBounds]

theorem reads_checkStakeSignature (stakes : Stakes block stake input) :
    ReadsWithin (checkStakeSignature sources block stakeInput)
      (Validation.checkStakeSignature sources.accept block stakeInput) True := by
  cases stakeInput with
  | zerocoin txin pindexFrom => exact .safe rfl trivial
  | coin outputFrom outpointFrom pindexFrom =>
    refine .safe ?_ trivial
    simp only [checkStakeSignature, Validation.checkStakeSignature, readAt_bind stakes.second,
      readAt_bind stakes.first, stakes.second]
    rfl

theorem reads_checkProofOfStake {block : CBlock} {pindexPrev : BlockPath}
    {stake : CTransaction} {input : CTxIn}
    (parent : pindexPrev ≠ [] → block.hashPrevBlock = pindexPrev.hash)
    (stakes : Stakes block stake input) :
    ReadsWithin (checkProofOfStake staking sources tip block pindexPrev).run
      (Validation.checkProofOfStake staking sources.accept tip block pindexPrev)
      (pindexPrev ≠ [] → StakeBounds sources tip input) := by
  cases pindexPrev with
  | nil => exact .safe rfl (by simp)
  | cons pindex pprev =>
    simp only [checkProofOfStake, Validation.checkProofOfStake, isEmpty_cons, Bool.false_eq_true,
      if_false]
    suffices reads : ReadsWithin _ _ (StakeBounds sources tip input ∧ True) from reads.congr (by simp)
    refine (reads_loadStakeInput tip (parent (cons_ne_nil _ _)) stakes).reading ?_
    cases Validation.loadStakeInput sources.accept tip block (pindex :: pprev) with
    | none => exact .settled
    | some stakeInput =>
      refine (ReadsWithin.settled.check fun _ => ReadsWithin.settled.check fun _ =>
        reads_requireRead (reads_checkStakeSignature stakes) _).congr ?_
      simp

def IndexBounds (block : CBlock) : Prop :=
  tip.mapBlockIndex.find block.hash = none →
    ∀ pprev, tip.mapBlockIndex.find block.hashPrevBlock = some pprev →
    staking.heightV3_4 ≤ pprev.nHeight + 1 → ∃ tx, block.vtx[1]? = some tx ∧ tx.vin ≠ []

theorem reads_addToBlockIndex :
    ReadsWithin (addToBlockIndex staking tip block) () (IndexBounds staking tip block) := by
  unfold addToBlockIndex IndexBounds
  cases known : tip.mapBlockIndex.find block.hash with
  | some pindex => exact .safe rfl (by simp)
  | none =>
    cases found : tip.mapBlockIndex.find block.hashPrevBlock with
    | none => exact .safe rfl (by simp)
    | some pprev =>
      simp only [forall_const, Option.some.injEq, forall_eq']
      by_cases early : pprev.nHeight + 1 < staking.heightV3_4
      · rw [if_pos early]
        exact .safe rfl fun active => by omega
      · rw [if_neg early]
        cases second : block.vtx[1]? with
        | none => exact ⟨by simp [Nat.le_of_not_lt early], fun _ => by simp [readAt, second]⟩
        | some tx =>
          rw [readAt_bind second]
          refine (answer fun _ _ => rfl).congr ?_
          simp [Nat.le_of_not_lt early, length_pos_iff]

theorem reads_contextualCheckBlock {block : CBlock} (form : checkBlockForm block = .ok ())
    (pindexPrev : BlockPath) :
    (contextualCheckBlock sources block pindexPrev).isSome = true := by
  simp only [checkBlockForm, require_bind_eq_ok, Option.any_eq_true, head?_eq_getElem?] at form
  obtain ⟨⟨coinbase, first, isCoinBase⟩, -⟩ := form
  obtain ⟨input, inputs⟩ := exists_input_of_isCoinBase isCoinBase
  have reads : coinbase.vin[0]? = some input := by simp [inputs]
  unfold contextualCheckBlock
  rw [readAt_bind first, readAt_bind reads]
  split <;> split <;> rfl

variable (sources) in
/-- Each public spend is checked before `AcceptBlock` looks it up. -/
def InputBounds (nHeight : Nat) (input : CTxIn) : Prop :=
  env.params.networkUpgradeActive nHeight .upgradeZC = true → input.isZerocoinPublicSpend = true →
    checkPublicCoinSpendEnforced env.params nHeight true = true →
    NotOnePast sources tip input.prevout

theorem reads_spendSerial :
    ReadsWithin (spendSerial sources tip tx input).run
      (Validation.spendSerial (acceptSources sources tip) tx input)
      (input.isZerocoinPublicSpend = true → NotOnePast sources tip input.prevout) := by
  unfold spendSerial Validation.spendSerial
  cases isPublic : input.isZerocoinPublicSpend with
  | false => exact .safe rfl (by simp)
  | true =>
    suffices reads : ReadsWithin _ _ (NotOnePast sources tip input.prevout ∧ True)
      from reads.congr (by simp)
    refine (reads_getOutput tip).reading ?_
    have sameLibrary : ((acceptSources sources tip).library.getOutput input.prevout).bind
          ((acceptSources sources tip).library.parseCoinSpend input tx) =
        (previousOutput sources tip input.prevout).bind
        (sources.accept.library.parseCoinSpend input tx) := rfl
    rw [sameLibrary]
    cases (previousOutput sources tip input.prevout).bind
      (sources.accept.library.parseCoinSpend input tx) with
    | none => exact .settled
    | some spend => exact .settled

theorem reads_addBlockSerial (inBlockSerials : List Nat) :
      ReadsWithin (addBlockSerial sources tip nHeight tx input inBlockSerials).run
        (Validation.addBlockSerial (acceptSources sources tip) env.params nHeight tx input
          inBlockSerials)
      (InputBounds sources tip nHeight input) := by
  unfold addBlockSerial Validation.addBlockSerial InputBounds
  by_cases asked : (env.params.networkUpgradeActive nHeight .upgradeZC &&
      (input.isZerocoinSpend || input.isZerocoinPublicSpend)) = true
  · rw [if_pos asked, if_pos asked]
    refine (ReadsWithin.settled.check fun _ => (reads_spendSerial tip).andThen fun _ _ =>
      ReadsWithin.settled.check fun _ => ReadsWithin.settled).congr ?_
    rw [Bool.and_eq_true] at asked
    simp only [require_eq_ok, asked.1, true_and, implies_true, and_true, forall_const]
    cases isPublic : input.isZerocoinPublicSpend with
    | false => simp
    | true => simp
  · rw [if_neg asked, if_neg asked]
    refine .safe rfl fun active isPublic _ => ?_
    simp [active, isPublic] at asked

variable (sources) in
def InputsBounds (nHeight : Nat) (deviantInputs : List CTxIn)
    (inputs : List (CTransaction × CTxIn)) (inBlockSerials : List Nat) : Prop :=
  ∀ before spent after, inputs = before ++ spent :: after →
    Validation.checkBlockInputs (acceptSources sources tip) env.params nHeight deviantInputs before
    inBlockSerials =
      .ok () → InputBounds sources tip nHeight spent.2

theorem reads_checkBlockInputs (inBlockSerials : List Nat) :
    ReadsWithin (checkBlockInputs sources tip nHeight deviantInputs inputs inBlockSerials).run
      (Validation.checkBlockInputs (acceptSources sources tip) env.params nHeight deviantInputs
        inputs inBlockSerials)
      (InputsBounds sources tip nHeight deviantInputs inputs inBlockSerials) := by
  unfold InputsBounds
  induction inputs generalizing inBlockSerials with
  | nil => exact .safe rfl (by simp)
  | cons spent rest ih =>
    obtain ⟨tx, input⟩ := spent
    rw [forall_split_cons, checkBlockInputs, Validation.checkBlockInputs]
    refine ((reads_addBlockSerial tip inBlockSerials).andThen fun inBlockSerials _ =>
      ReadsWithin.settled.check fun _ => ih inBlockSerials).congr ?_
    simp only [Validation.checkBlockInputs, bind_eq_ok]
    constructor
    · rintro ⟨here, later⟩
      exact ⟨fun _ => here, fun before other after split ⟨serials, added, _, unspent, earlier⟩ =>
        (later serials added).2 unspent before other after split earlier⟩
    · rintro ⟨here, later⟩
      exact ⟨here trivial,
        fun serials added => ⟨trivial, fun unspent before other after split earlier =>
        later before other after split ⟨serials, added, (), unspent, earlier⟩⟩⟩

theorem reads_checkStake (block : CBlock) (nHeight : Nat) (pindexPrev : BlockPath) :
    ∃ passed, ReadsWithin (checkStake staking sources tip block nHeight pindexPrev).run passed
      (∀ stake input, stakeOf block = some (stake, input) →
        InputsBounds sources tip nHeight (spentOutputs stake) (blockInputs block) []) := by
  unfold checkStake
  cases isStake : block.isProofOfStake with
  | false => exact ⟨.ok (), .safe rfl (by simp [stakeOf_eq_none isStake])⟩
  | true =>
    obtain ⟨stake, input, found, stakes⟩ := exists_stakes isStake
    have staked : ReadsWithin (readAt block.vtx 1) stake True := .safe stakes.second trivial
    refine ⟨Validation.checkBlockInputs (acceptSources sources tip) env.params nHeight
      (spentOutputs stake)
      (blockInputs block) [] >>=
      fun _ => checkStakeSpent staking sources tip stake nHeight pindexPrev, ?_⟩
    refine congr (staked.reading ((reads_checkBlockInputs tip []).check fun _ => .settled)) ?_
    simp [found]

theorem isSome_storeBlock (form : checkBlockForm block = .ok ()) :
      (storeBlock staking sources tip block nHeight pindexPrev).run.isSome = true ↔
        (tip.haveData block.hash = false →
        (100000 < nHeight → contextualCheckBlock sources block pindexPrev = some true) →
        ∀ stake input, stakeOf block = some (stake, input) →
          InputsBounds sources tip nHeight (spentOutputs stake) (blockInputs block) []) := by
  unfold storeBlock
  cases tip.haveData block.hash with
  | true => simp
  | false =>
    obtain ⟨verdict, contextual⟩ := Option.isSome_iff_exists.mp
      (@reads_contextualCheckBlock sources block form pindexPrev)
    obtain ⟨passed, staked⟩ :=
      @reads_checkStake env files staking sources tip block nHeight pindexPrev
    have context :
        ReadsWithin (if 100000 < nHeight then contextualCheckBlock sources block pindexPrev
          else some true) (if 100000 < nHeight then verdict else true) True := by
      refine .safe ?_ trivial
      rw [contextual]
      split <;> rfl
    rw [if_neg Bool.false_ne_true, storeNewBlock, isSome_check (reads_requireRead context _),
      isSome_check staked, isSome_settled]
    by_cases high : 100000 < nHeight
    · simp [high, contextual]
    · simp [high]

/-- What keeps the reads of `AcceptBlock` in range, once the parent is found and the work is
right. -/
structure AcceptBounds (tip : ChainTip env files) (sources : BlockSources) (block : CBlock)
    (pindexPrev : BlockPath) :
    Prop where
  stake : ∀ stake input, stakeOf block = some (stake, input) → pindexPrev ≠ [] →
    StakeBounds sources tip input
  index : (block.isProofOfStake = true →
      Validation.checkProofOfStake staking sources.accept tip block pindexPrev = .ok ()) →
    (∃ nHeight, Validation.acceptBlockHeader staking sources.accept tip block pindexPrev = .ok nHeight) →
    IndexBounds staking tip block
  spends : (block.isProofOfStake = true →
      Validation.checkProofOfStake staking sources.accept tip block pindexPrev = .ok ()) →
    ∀ nHeight, Validation.acceptBlockHeader staking sources.accept tip block pindexPrev = .ok nHeight →
    tip.haveData block.hash = false →
    (100000 < nHeight → contextualCheckBlock sources block pindexPrev = some true) →
    ∀ stake input, stakeOf block = some (stake, input) →
      InputsBounds sources tip nHeight (spentOutputs stake) (blockInputs block) []

theorem reads_checkBlockStake {block : CBlock} {pindexPrev : BlockPath}
    (parent : pindexPrev ≠ [] → block.hashPrevBlock = pindexPrev.hash) :
    ReadsWithin (checkBlockStake staking sources tip block pindexPrev).run
      (if block.isProofOfStake then Validation.checkProofOfStake staking sources.accept tip block
        pindexPrev else .ok ())
      (∀ stake input, stakeOf block = some (stake, input) → pindexPrev ≠ [] →
        StakeBounds sources tip input) := by
  unfold checkBlockStake
  cases isStake : block.isProofOfStake with
  | false => exact .safe rfl (by simp [stakeOf_eq_none isStake])
  | true =>
    obtain ⟨stake, input, found, stakes⟩ := exists_stakes isStake
    refine (reads_checkProofOfStake staking tip parent stakes).congr ?_
    simp [found]

theorem reads_acceptBlockHeader :
    ReadsWithin (acceptBlockHeader staking sources tip block pindexPrev).run
        (Validation.acceptBlockHeader staking sources.accept tip block pindexPrev)
      ((∃ nHeight, Validation.acceptBlockHeader staking sources.accept tip block pindexPrev =
        .ok nHeight) →
        IndexBounds staking tip block) := by
  unfold acceptBlockHeader
  cases checked : Validation.acceptBlockHeader staking sources.accept tip block pindexPrev with
  | error reason => exact .safe rfl (by simp)
  | ok nHeight =>
    refine congr ((reads_addToBlockIndex staking tip).reading (.safe rfl trivial)) ?_
    simp

theorem isSome_acceptBlockOn {block : CBlock} {pindexPrev : BlockPath}
    (form : checkBlockForm block = .ok ())
    (parent : pindexPrev ≠ [] → block.hashPrevBlock = pindexPrev.hash) :
    (acceptBlockOn staking sources tip block pindexPrev).run.isSome = true ↔
      ((decide (block.hash = env.params.hashGenesisBlock) ||
        sources.accept.checkWork block pindexPrev) = true →
        AcceptBounds staking tip sources block pindexPrev) := by
  unfold acceptBlockOn
  rw [isSome_check (.settled), isSome_check (reads_checkBlockStake staking tip parent),
    isSome_andThen (reads_acceptBlockHeader staking tip)]
  have staked :
        (if block.isProofOfStake then Validation.checkProofOfStake staking sources.accept tip
          block pindexPrev
        else .ok ()) = .ok () ↔ (block.isProofOfStake = true →
      Validation.checkProofOfStake staking sources.accept tip block pindexPrev = .ok ()) := by
    cases block.isProofOfStake with
    | false => simp
    | true => simp
  simp only [isSome_storeBlock staking tip form, require_eq_ok, true_and, staked]
  refine forall_congr' fun _ => ⟨fun bounds => ?_, fun bounds => ?_⟩
  · exact ⟨bounds.1, fun stake => (bounds.2 stake).1, fun stake => (bounds.2 stake).2⟩
  · exact ⟨bounds.stake, fun stake => ⟨bounds.index stake, bounds.spends stake⟩⟩

/-- What keeps every read of `ProcessNewBlock`'s checks in range. -/
structure InBounds (sources : BlockSources)
    (reconsider : ChainTip env files → BlockPath → ChainTip env files)
    (tip : ChainTip env files) (block : CBlock) : Prop where
  checked : CheckBlockBounds sources tip block
  accepted : Validation.checkBlock (refusing sources tip) block true true true = .ok () →
    ∀ tipThen pindexPrev,
      getPrevIndex sources.accept reconsider tip block = .ok (tipThen, pindexPrev) →
      (decide (block.hash = env.params.hashGenesisBlock) ||
        sources.accept.checkWork block pindexPrev) = true →
      AcceptBounds staking tipThen sources block pindexPrev

variable {tip} in
theorem getPrevIndex_parent
    (found : getPrevIndex sources.accept reconsider tip block = .ok (tipThen, pindexPrev))
    (notNull : pindexPrev ≠ []) : block.hashPrevBlock = pindexPrev.hash := by
  unfold getPrevIndex at found
  split at found
  · cases found
    exact (notNull rfl).elim
  · split at found
    · cases found
    next path known =>
      have named := tip.mapBlockIndex.named _ _ known
      split at found
      · cases found
        exact named.symm
      · split at found
        · cases found
          exact named.symm
        · cases found

/-- The checks of a block from the network read in range exactly on the blocks and nodes within the
bounds. -/
theorem processNewBlock_in_range_iff (reconsider : ChainTip env files → BlockPath → ChainTip env files)
    (tip : ChainTip env files) (block : CBlock) :
    (processNewBlock staking sources reconsider tip block).run.isSome = true ↔
      InBounds staking sources reconsider tip block := by
  unfold processNewBlock
  rw [isSome_check (reads_checkBlock tip), isSome_settled]
  constructor
  · rintro ⟨checked, accepted⟩
    refine ⟨checked, fun passed tipThen pindexPrev found => ?_⟩
    exact (isSome_acceptBlockOn staking tipThen (checkBlock_ok passed).form
      (getPrevIndex_parent found)).mp
      (accepted passed (tipThen, pindexPrev) found)
  · intro bounds
    refine ⟨bounds.checked, fun passed ⟨tipThen, pindexPrev⟩ found => ?_⟩
    exact (isSome_acceptBlockOn staking tipThen (checkBlock_ok passed).form
      (getPrevIndex_parent found)).mpr
      (bounds.accepted passed tipThen pindexPrev found)

end

namespace SampleHostile

/-- A regression test network where proof of stake starts at height four (`-nuparams`). -/
def params : Params :=
  { mainParams with
    isMain := false
    vUpgrades
      | .upgradePOS => some 4
      | _ => none }

def tip : ChainTip (Env.trusting params) SampleFork.files where
  mapBlockIndex := SampleFork.blocks
  failed _ := false
  haveData _ := false
  chainActive := SampleFork.third
  pcoinsTip := utxoSet (Env.trusting params) SampleFork.files SampleFork.third
  current := rfl

def sources : BlockSources where
  accept := SampleFork.sources
  isBudgetPaymentBlock _ := false
  payeeAccepted _ _ _ := true
  vchBlockSigEmpty block := !block.isProofOfStake
  signedBySpend _ _ := true
  signedByOutput _ _ _ := true
  contextualTransactions _ _ := true
  heightScript _ := []

def coinbase : CTransaction :=
  { hash := 30, nVersion := 1,
    vin := [{ prevout := ⟨0, 2 ^ 32 - 1⟩, scriptSig := [1, 1], nSequence := 0 }],
    vout := [{ nValue := 0, scriptPubKey := [] }] }

/-- A block on the tip that stakes an output of the transaction in the first block, which has
one. -/
def stakes (n : Nat) : CBlock :=
  SampleFork.block 31 4 [coinbase,
    { hash := 32, nVersion := 1, vin := [{ prevout := ⟨10, n⟩, scriptSig := [], nSequence := 0 }],
      vout := [{ nValue := 0, scriptPubKey := [] }, { nValue := 6, scriptPubKey := [1] }] }]

end SampleHostile

open SampleHostile in
/-- A block with one transaction at a height of proof of stake, and a block that stakes an output
its transaction does not have: the first is read out of range for its payee, the second for its
stake. -/
theorem hostile_blocks_out_of_range :
    (processNewBlock mainStaking sources (fun tip _ => tip) tip
      (SampleFork.block 31 4 [coinbase])).run = none ∧
      (processNewBlock mainStaking sources (fun tip _ => tip) tip (stakes 1)).run = none ∧
      (processNewBlock mainStaking sources (fun tip _ => tip) tip (stakes 0)).run.isSome =
      true := by
  refine ⟨by decide, by decide, by decide⟩

end Deviant.Validation.Indexed
