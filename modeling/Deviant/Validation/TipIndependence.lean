import Deviant.Validation.CheckBlock

namespace Deviant.Validation

open Coins Consensus Primitives CTransaction

/-! `CheckBlock` runs before the position of a block is settled, and its transaction loop picks the
rules that activate by height from the active tip.  Here two nodes that share everything but the
tip are compared on one block. -/

/-- A parsed spend.  The denomination is zero for `ZQ_ERROR`. -/
structure CoinSpend where
  denomination : Nat
  txOutHash : Uint256
  coinSerialNumber : Nat

/-- What `CheckZerocoinSpend` asks of the zerocoin library and of the transaction index. -/
structure ZerocoinLibrary where
  getOutput : COutPoint → Option CTxOut
  parseCoinSpend : CTxIn → CTransaction → CTxOut → Option CoinSpend
  validateInput : CTxIn → CTxOut → CTransaction → Bool
  txInToZerocoinSpend : CTxIn → Option CoinSpend
  /-- The hash of a transaction that has only these outputs. -/
  hashTxOut : List CTxOut → Uint256

/-- The loop over the inputs: the total redeemed and whether any spend was validated, or `none` at
the first spend that is refused. -/
def redeemSpends (library : ZerocoinLibrary) (tx : CTransaction) :
    List CTxIn → (serials : List Nat) → (nTotalRedeemed : Int) → (fValidated : Bool) →
      Option (Int × Bool)
  | [], _, nTotalRedeemed, fValidated => some (nTotalRedeemed, fValidated)
  | txin :: rest, serials, nTotalRedeemed, fValidated =>
    if !txin.isZerocoinSpend && !txin.isZerocoinPublicSpend then
      redeemSpends library tx rest serials nTotalRedeemed fValidated
    else do
      let newSpend ←
        if txin.isZerocoinPublicSpend then
          (library.getOutput txin.prevout).bind (library.parseCoinSpend txin tx)
        else library.txInToZerocoinSpend txin
      guard (newSpend.denomination ≠ 0)
      guard (newSpend.denomination = txin.nSequence)
      guard (newSpend.txOutHash = library.hashTxOut tx.vout)
      guard (!txin.isZerocoinPublicSpend ||
        (library.getOutput txin.prevout).any fun prevOut => library.validateInput txin prevOut tx)
      guard (newSpend.coinSerialNumber ∉ serials)
      redeemSpends library tx rest (newSpend.coinSerialNumber :: serials)
        (wrap64 (nTotalRedeemed + coinUnit * newSpend.denomination)) true

/-- The two flags are parameters of the source function too, which reads neither of them. -/
def checkZerocoinSpend (library : ZerocoinLibrary) (tx : CTransaction)
    (_fVerifySignature _fFakeSerialAttack : Bool) : Bool :=
  if decide (2 < tx.vout.length) && decide (2 < tx.vout.countP fun out => !out.isZerocoinMint) &&
      !tx.isCoinStake then false
  else
    match redeemSpends library tx tx.vin [] 0 false with
    | none => false
    | some (nTotalRedeemed, fValidated) =>
      if tx.isCoinStake then fValidated
      else
        match getValueOut tx with
        | .error _ => false
        | .ok nValueOut => if nTotalRedeemed < nValueOut then false else fValidated

section

variable (env : Env) (hash : Uint256) (nHeight : Nat) (tipIsRecent : Bool)

/-- The node once the block with this hash and height is the tip (`UpdateTip`). -/
def atTip : Env :=
  { env with node := { env.node with
      tip := some (hash, nHeight)
      isV6Active := env.params.networkUpgradeActive nHeight .upgradeV5_0
      tipIsRecent := tipIsRecent } }

@[simp] theorem atTip_params : (atTip env hash nHeight tipIsRecent).params = env.params := rfl

@[simp] theorem atTip_verifier : (atTip env hash nHeight tipIsRecent).verifier = env.verifier := rfl

@[simp] theorem atTip_isV6Active :
    (atTip env hash nHeight tipIsRecent).node.isV6Active =
      env.params.networkUpgradeActive nHeight .upgradeV5_0 := rfl

end

def coldStakingActive (env : Env) (block : CBlock) : Bool :=
  !(paymentHeight env block != 0 && !env.node.isInitialBlockDownload) ||
    !env.node.spork19ColdstakingMaintenance

/-- The transaction loop of `CheckBlock`. -/
def transactionLoop (env : Env) (block : CBlock) : Except Rejection Unit :=
  checkBlockTransactions env block (coldStakingActive env block) block.vtx

/-- Two nodes pass the same blocks through their transaction loops, among the blocks whose parent
they know. -/
def SameVerdict (first second : Env) : Prop :=
  ∀ block : CBlock, (first.node.blockHeight block.hashPrevBlock).isSome = true →
    (transactionLoop first block = .ok () ↔ transactionLoop second block = .ok ())

/-- Neither the tips nor the blocks on top of them are on different sides of the Sapling upgrade. -/
def SameSide (params : Params) (firstHeight secondHeight : Nat) : Prop :=
  ∀ nActivationHeight, params.vUpgrades .upgradeV5_0 = some nActivationHeight →
    (nActivationHeight ≤ firstHeight ↔ nActivationHeight ≤ secondHeight) ∧
      (nActivationHeight ≤ firstHeight + 1 ↔ nActivationHeight ≤ secondHeight + 1)

theorem sameSide_iff :
          SameSide params firstHeight secondHeight ↔
            params.networkUpgradeActive firstHeight .upgradeV5_0 =
            params.networkUpgradeActive secondHeight .upgradeV5_0 ∧
        params.networkUpgradeActive (firstHeight + 1) .upgradeV5_0 =
          params.networkUpgradeActive (secondHeight + 1) .upgradeV5_0 := by
  unfold SameSide Params.networkUpgradeActive
  cases scheduled : params.vUpgrades .upgradeV5_0 with
  | none => simp
  | some nActivationHeight => simp

section Tips

variable {env : Env} {library : ZerocoinLibrary} {firstHash secondHash : Uint256}
  {firstHeight secondHeight : Nat} {firstRecent secondRecent : Bool}

theorem paymentHeight_atTip_ne_zero (known : (env.node.blockHeight block.hashPrevBlock).isSome = true) :
    paymentHeight (atTip env firstHash firstHeight firstRecent) block ≠ 0 := by
  obtain ⟨prevHeight, found⟩ := Option.isSome_iff_exists.mp known
  simp only [paymentHeight, atTip, found]
  split <;> omega

theorem coldStakingActive_atTip (known : (env.node.blockHeight block.hashPrevBlock).isSome = true) :
    coldStakingActive (atTip env firstHash firstHeight firstRecent) block =
      (env.node.isInitialBlockDownload || !env.node.spork19ColdstakingMaintenance) := by
  have assumed : (paymentHeight (atTip env firstHash firstHeight firstRecent) block != 0) = true :=
    bne_iff_ne.mpr (paymentHeight_atTip_ne_zero known)
  unfold coldStakingActive
  rw [assumed]
  simp [atTip]

/-- Of a node's tip, `CheckTransaction` reads only the cold staking switch: signature verification
of zerocoin spends and the fake serial range are asked for and then ignored. -/
theorem checkTransaction_atTip
    (reads : env.zerocoin.checkZerocoinSpend = checkZerocoinSpend library)
    (sameSwitch : env.params.networkUpgradeActive firstHeight .upgradeV5_0 =
      env.params.networkUpgradeActive secondHeight .upgradeV5_0) :
    checkTransaction (atTip env firstHash firstHeight firstRecent) tx fZerocoinActive firstFake
        fColdStakingActive fSaplingActive =
      checkTransaction (atTip env secondHash secondHeight secondRecent)
      tx fZerocoinActive secondFake
        fColdStakingActive fSaplingActive := by
  have spends :
      checkZerocoinInputs (atTip env firstHash firstHeight firstRecent)
      tx fZerocoinActive firstFake = checkZerocoinInputs
      (atTip env secondHash secondHeight secondRecent) tx fZerocoinActive secondFake := by
    simp only [checkZerocoinInputs, atTip, reads]
    rfl
  simp only [checkTransaction, spends, atTip_params, atTip_verifier, atTip_isV6Active, sameSwitch]
  rfl

theorem checkBlockTransactions_atTip
    (reads : env.zerocoin.checkZerocoinSpend = checkZerocoinSpend library)
    (same : SameSide env.params firstHeight secondHeight) :
    checkBlockTransactions (atTip env firstHash firstHeight firstRecent)
      block fColdStakingActive txs =
      checkBlockTransactions (atTip env secondHash secondHeight secondRecent)
      block fColdStakingActive txs := by
  obtain ⟨sameSwitch, sameSapling⟩ := sameSide_iff.mp same
  have rules : saplingActive (atTip env firstHash firstHeight firstRecent) =
      saplingActive (atTip env secondHash secondHeight secondRecent) := sameSapling
  have zerocoins : zerocoinActive (atTip env firstHash firstHeight firstRecent) block =
      zerocoinActive (atTip env secondHash secondHeight secondRecent) block := rfl
  induction txs with
  | nil => rfl
  | cons tx rest ih =>
    simp only [checkBlockTransactions, rules, zerocoins, ih]
    rw [checkTransaction_atTip reads sameSwitch]

end Tips

/-- A special transaction type without the payload that goes with it: before Sapling the type is
not looked at. -/
def typedTx : CTransaction where
  hash := 1
  nVersion := 1
  nType := 1
  vin := []
  vout := []

/-- A script in the loose form of cold staking only: its first opcode is not `OP_DUP`. -/
def looseColdStake : CScript :=
  [0, 0, opRot, 0, opCheckcoldstakeverify, 0x14] ++ List.replicate 21 0 ++ [0x14] ++
    List.replicate 21 0 ++ [opEqualverify, opChecksig]

theorem isPayToColdStaking_looseColdStake :
    CScript.isPayToColdStaking isV6Active looseColdStake = !isV6Active := by
  cases isV6Active <;> rfl

def looseColdStakeTx : CTransaction where
  hash := 1
  nVersion := 1
  vin := []
  vout := [{ nValue := 0, scriptPubKey := looseColdStake }]

def blockOf (hashPrevBlock : Uint256) (tx : CTransaction) : CBlock where
  hash := 2
  hashPrevBlock := hashPrevBlock
  hashMerkleRoot := 0
  hashFinalSaplingRoot := 0
  nTime := 0
  vtx := [tx]

theorem transactionLoop_blockOf : transactionLoop env (blockOf hashPrevBlock tx) = .ok () ↔
      checkTransaction env tx (zerocoinActive env (blockOf hashPrevBlock tx))
          (isBlockBetweenFakeSerialAttackRange env.params (nextHeight env))
          (coldStakingActive env (blockOf hashPrevBlock tx)) (saplingActive env) = .ok () ∧
        (saplingActive env && tx.containsZerocoins) = false := by
  constructor
  · intro passed
    obtain ⟨_, checked, passed⟩ := bind_eq_ok.mp passed
    rw [require_bind_eq_ok, Bool.not_eq_true'] at passed
    exact ⟨checked, passed.1⟩
  · intro passed
    refine bind_eq_ok.mpr ⟨(), passed.1, ?_⟩
    rw [require_bind_eq_ok, Bool.not_eq_true']
    exact ⟨passed.2, rfl⟩

/-- Of a plain transaction without inputs only the type and the outputs are left to check. -/
theorem checkTransaction_bare (noInputs : tx.vin = []) (plain : tx.sapData = none)
    (version : tx.nVersion = 1) (fits : env.verifier.totalSize tx ≤ maxZerocoinTxSize) :
    checkTransaction env tx fZerocoinActive fFakeSerialAttack fColdStakingActive fSaplingActive =
      .ok () ↔
      checkSpecialTx tx fSaplingActive = .ok () ∧
        checkOutputs env.params env.node.isV6Active fColdStakingActive tx tx.vout 0 = .ok () := by
  have sapling : SaplingValidation.checkTransaction env.params tx fSaplingActive = .ok 0 := by
    simp [SaplingValidation.checkTransaction, hasSaplingData, plain, require, bind, Except.bind,
      pure, Except.pure]
  have spends : checkZerocoinInputs env tx fZerocoinActive fFakeSerialAttack = .ok () := by
    simp [checkZerocoinInputs, noInputs, hasZerocoinSpendInputs]
  have inputs : checkInputForm env.params tx fZerocoinActive = .ok () := by
    simp [checkInputForm, noInputs, isCoinBase, hasZerocoinSpendInputs]
  simp [checkTransaction, bind_eq_ok, sapling, spends, inputs, noInputs, plain, version,
    txVersionTooHigh, checkDuplicateInputs, isShieldedTx, hasSaplingData, fits, Unique.exists_iff]

theorem checkSpecialTx_typedTx :
    checkSpecialTx typedTx fSaplingActive = .ok () ↔ fSaplingActive = false := by
  cases fSaplingActive <;> simp [checkSpecialTx, typedTx, hasExtraPayload]

theorem checkOutputs_looseColdStakeTx (money : 0 ≤ params.nMaxMoneyOut) :
    checkOutputs params isV6Active fColdStakingActive looseColdStakeTx looseColdStakeTx.vout 0 = .ok () ↔
      isV6Active = true := by
  have unwrapped : wrap64 (0 + 0) = 0 := rfl
  have tooSmall : decide (minColdstakingAmount ≤ 0) = false := rfl
  simp only [looseColdStakeTx, checkOutputs, isPayToColdStaking_looseColdStake, require_bind_eq_ok,
    tooSmall, unwrapped, Params.moneyRange]
  cases isV6Active <;> simp [money, CTxOut.isEmpty, looseColdStake]

theorem transactionLoop_typedTx (fits : env.verifier.totalSize typedTx ≤ maxZerocoinTxSize) :
    transactionLoop env (blockOf hashPrevBlock typedTx) = .ok () ↔ saplingActive env = false := by
  have noZerocoins : typedTx.containsZerocoins = false := rfl
  rw [transactionLoop_blockOf, checkTransaction_bare rfl rfl rfl fits, checkSpecialTx_typedTx,
    noZerocoins, Bool.and_false, and_iff_left rfl]
  exact and_iff_left rfl

theorem transactionLoop_looseColdStakeTx
    (fits : env.verifier.totalSize looseColdStakeTx ≤ maxZerocoinTxSize)
    (money : 0 ≤ env.params.nMaxMoneyOut) :
    transactionLoop env (blockOf hashPrevBlock looseColdStakeTx) = .ok () ↔
      env.node.isV6Active = true := by
  have noZerocoins : looseColdStakeTx.containsZerocoins = false := rfl
  have special : checkSpecialTx looseColdStakeTx (saplingActive env) = .ok () := by
    cases saplingActive env <;> rfl
  rw [transactionLoop_blockOf, checkTransaction_bare rfl rfl rfl fits,
    checkOutputs_looseColdStakeTx money, noZerocoins, Bool.and_false, and_iff_left rfl,
    and_iff_right special]

section Verdicts

variable {env : Env} {library : ZerocoinLibrary} {firstHash secondHash : Uint256}
  {firstHeight secondHeight : Nat} {firstRecent secondRecent : Bool}

theorem sameVerdict_of_sameSide
    (reads : env.zerocoin.checkZerocoinSpend = checkZerocoinSpend library)
    (same : SameSide env.params firstHeight secondHeight) :
    SameVerdict (atTip env firstHash firstHeight firstRecent)
      (atTip env secondHash secondHeight secondRecent) := by
  intro block parent
  have known : (env.node.blockHeight block.hashPrevBlock).isSome = true := parent
  unfold transactionLoop
  rw [coldStakingActive_atTip known, coldStakingActive_atTip known,
    checkBlockTransactions_atTip reads same]

section

variable (known : env.node.blockHeight firstHash = some firstHeight)
  (same : SameVerdict (atTip env firstHash firstHeight firstRecent)
    (atTip env secondHash secondHeight secondRecent))

include known same

theorem sameSapling_of_sameVerdict (fits : env.verifier.totalSize typedTx ≤ maxZerocoinTxSize) :
    env.params.networkUpgradeActive (firstHeight + 1) .upgradeV5_0 =
      env.params.networkUpgradeActive (secondHeight + 1) .upgradeV5_0 := by
  have verdicts := same (blockOf firstHash typedTx) (Option.isSome_iff_exists.mpr ⟨_, known⟩)
  rw [transactionLoop_typedTx (by exact fits), transactionLoop_typedTx (by exact fits)] at verdicts
  have rules : saplingActive (atTip env firstHash firstHeight firstRecent) =
      saplingActive (atTip env secondHash secondHeight secondRecent) := by
    rw [Bool.eq_iff_iff, ← not_iff_not, Bool.not_eq_true, Bool.not_eq_true]
    exact verdicts
  exact rules

theorem sameSwitch_of_sameVerdict
    (fits : env.verifier.totalSize looseColdStakeTx ≤ maxZerocoinTxSize)
    (money : 0 ≤ env.params.nMaxMoneyOut) :
    env.params.networkUpgradeActive firstHeight .upgradeV5_0 =
      env.params.networkUpgradeActive secondHeight .upgradeV5_0 := by
  have verdicts :=
    same (blockOf firstHash looseColdStakeTx) (Option.isSome_iff_exists.mpr ⟨_, known⟩)
  rw [transactionLoop_looseColdStakeTx (by exact fits) (by exact money),
    transactionLoop_looseColdStakeTx (by exact fits) (by exact money)] at verdicts
  exact Bool.eq_iff_iff.mpr verdicts

end

end Verdicts

/-- Two nodes that differ in the tip alone pass the same blocks through their transaction loops
exactly when the tips, and the heights after them, are on the same side of the Sapling upgrade. -/
theorem transactionLoop_sameVerdict_iff (env : Env) (library : ZerocoinLibrary)
    (firstHash secondHash : Uint256) (firstHeight secondHeight : Nat)
    (firstRecent secondRecent : Bool)
    (reads : env.zerocoin.checkZerocoinSpend = checkZerocoinSpend library)
    (firstKnown : env.node.blockHeight firstHash = some firstHeight)
    (money : 0 ≤ env.params.nMaxMoneyOut)
    (typedFits : env.verifier.totalSize typedTx ≤ maxZerocoinTxSize)
    (looseFits : env.verifier.totalSize looseColdStakeTx ≤ maxZerocoinTxSize) :
    SameVerdict (atTip env firstHash firstHeight firstRecent)
      (atTip env secondHash secondHeight secondRecent) ↔
      SameSide env.params firstHeight secondHeight := by
  constructor
  · intro same
    exact sameSide_iff.mpr
      ⟨sameSwitch_of_sameVerdict firstKnown same looseFits money,
        sameSapling_of_sameVerdict firstKnown same typedFits⟩
  · exact sameVerdict_of_sameSide reads

namespace SampleTips

/-- A library without a single coin: no spend parses. -/
def library : ZerocoinLibrary where
  getOutput := fun _ => none
  parseCoinSpend := fun _ _ _ => none
  validateInput := fun _ _ _ => false
  txInToZerocoinSpend := fun _ => none
  hashTxOut := fun _ => 0

/-- The main network close to the Sapling upgrade: the blocks below it have their height as hash. -/
def node : Env :=
  { Env.trusting mainParams with
    zerocoin := { (Env.trusting mainParams).zerocoin
      with checkZerocoinSpend := checkZerocoinSpend library }
    node := { (Env.trusting mainParams).node with
      blockHeight := fun hash => if hash.toNat < 1780000 then some hash.toNat else none } }

theorem transactionLoop_sameVerdict_iff_below :
    SameVerdict (atTip node 1779997 1779997 true) (atTip node 1779998 1779998 false) := by
  have same : SameSide node.params 1779997 1779998 := by
    intro nActivationHeight scheduled
    cases scheduled
    omega
  exact (transactionLoop_sameVerdict_iff node library 1779997 1779998 1779997 1779998 true false rfl rfl
    (by decide) (by decide) (by decide)).mpr same

def shieldedTx : CTransaction where
  hash := 1
  nVersion := 3
  vin := []
  vout := []
  sapData := some { valueBalance := 0, vShieldedSpend := [⟨5, 6⟩], vShieldedOutput := [⟨7⟩], bindingSig := [1] }

/-- The first Sapling block, on top of block 1779999, passes once its parent is the tip and fails as
long as the grandparent is. -/
theorem first_sapling_block_needs_tip :
    (node.node.blockHeight (blockOf 1779999 shieldedTx).hashPrevBlock = some 1779999) ∧
      transactionLoop (atTip node 1779999 1779999 true) (blockOf 1779999 shieldedTx) = .ok () ∧
      transactionLoop (atTip node 1779998 1779998 true) (blockOf 1779999 shieldedTx) =
        .error (.rejected "bad-txns-invalid-sapling-act") :=
  ⟨rfl, rfl, rfl⟩

end SampleTips

end Deviant.Validation
