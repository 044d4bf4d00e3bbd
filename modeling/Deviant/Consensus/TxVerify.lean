import Deviant.Consensus.Params

namespace Deviant.Consensus

open Coins List Primitives CTransaction

/-! Checks of a transaction that need no chain state, and the amounts a
transaction moves. -/

/-- Go on if the condition holds, otherwise `return state.DoS(.., reason)`. -/
def require (condition : Bool) (reason : String) : Except Rejection Unit :=
  if condition then .ok () else .error (.rejected reason)

@[simp] theorem require_bind_eq_ok :
    (require condition reason >>= rest) = .ok value ↔ condition = true ∧ rest () = .ok value := by
  cases condition with
  | false => simp [require, bind, Except.bind]
  | true => simp [require, bind, Except.bind]

@[simp] theorem require_eq_ok : require condition reason = .ok value ↔ condition = true := by
  cases condition with
  | false => simp [require]
  | true => simp [require]

def sumOutputs : List CTxOut → Int → Except Rejection Int
  | [], nValueOut => .ok nValueOut
  | out :: rest, nValueOut =>
    if out.nValue < 0 then
      .error (.runtimeError "CTransaction::GetValueOut() : value out of range : less than 0")
    else if wrap64 (nValueOut + out.nValue) < nValueOut then
      .error (.runtimeError
        "CTransaction::GetValueOut() : value out of range : wraps the int64_t boundary")
    else sumOutputs rest (wrap64 (nValueOut + out.nValue))

def getValueOut (tx : CTransaction) : Except Rejection Int := do
  let nValueOut ← sumOutputs tx.vout 0
  -- A negative balance moves value into the Sapling pool, just as an output would.
  if tx.hasSaplingData && decide (tx.valueBalance < 0) then
    if tx.isSaplingVersion then pure (wrap64 (nValueOut + wrap64 (-tx.valueBalance)))
    else throw (.runtimeError "GetValueOut(): invalid tx version")
  else pure nValueOut

def getShieldedValueIn (tx : CTransaction) : Except Rejection Int :=
  if tx.hasSaplingData && decide (0 < tx.valueBalance) then
    if tx.isSaplingVersion then .ok tx.valueBalance
    else .error (.runtimeError "GetValueOut(): invalid tx version")
  else .ok 0

def getZerocoinSpent (tx : CTransaction) : Int :=
  (tx.vin.filter CTxIn.isZerocoinSpend).foldl
    (fun nValueOut input => wrap64 (nValueOut + input.nSequence * coinUnit)) 0

def maxTxSizeAfterSapling : Nat := 2000000
def maxZerocoinTxSize : Nat := 1500000
def maxSpecialtxExtrapayload : Nat := 10000
def minColdstakingAmount : Int := coinUnit
def txVersionTooHigh : Int := 4

namespace SaplingValidation

def checkTransactionWithoutProofVerification (params : Params) (tx : CTransaction) :
    Except Rejection Int := do
  require (!(tx.shieldedSpends.isEmpty && tx.shieldedOutputs.isEmpty && tx.valueBalance != 0))
    "bad-txns-valuebalance-nonzero"
  require (!(decide (params.nMaxMoneyOut < tx.valueBalance) ||
    decide (tx.valueBalance < -params.nMaxMoneyOut))) "bad-txns-valuebalance-toolarge"
  let nValueOut : Int := if tx.valueBalance < 0 then wrap64 (-tx.valueBalance) else 0
  require (!decide (tx.valueBalance < 0) || params.moneyRange nValueOut) "bad-txns-txouttotal-toolarge"
  require (!decide (0 < tx.valueBalance) || params.moneyRange tx.valueBalance)
    "bad-txns-txintotal-toolarge"
  require (decide (tx.shieldedSpends.map SpendDescription.nullifier).Nodup)
    "bad-spend-description-nullifiers-duplicate"
  pure nValueOut

def checkTransaction (params : Params) (tx : CTransaction) (fIsSaplingActive : Bool) :
    Except Rejection Int := do
  require (tx.isSaplingVersion || !tx.hasSaplingData) "bad-txns-form-not-sapling"
  if tx.hasSaplingData then
    require (!(tx.isCoinStake || tx.isCoinBase || tx.hasZerocoinSpendInputs || tx.hasZerocoinMintOutputs))
      "bad-txns-invalid-sapling"
    require fIsSaplingActive "bad-txns-invalid-sapling-act"
    checkTransactionWithoutProofVerification params tx
  else pure 0

end SaplingValidation

def checkSpecialTx (tx : CTransaction) (fIsSaplingActive : Bool) : Except Rejection Unit :=
  if !fIsSaplingActive then require (!tx.hasExtraPayload) ""
  else do
    require (tx.isSaplingVersion || tx.nType == 0) "bad-txns-type-version"
    if tx.nType == 0 then require (!tx.hasExtraPayload) "bad-txns-type-payload"
    else
      require tx.hasExtraPayload "bad-txns-payload-empty"
      require (decide ((tx.extraPayload.getD []).length ≤ maxSpecialtxExtrapayload))
        "bad-txns-payload-oversize"
      -- No special type is defined yet.
      require false "bad-tx-type"

def checkOutputs (params : Params) (isV6Active fColdStakingActive : Bool) (tx : CTransaction) :
    List CTxOut → Int → Except Rejection Unit
  | [], _ => .ok ()
  | out :: rest, nValueOut => do
      require (!(out.isEmpty && !tx.isCoinBase && !tx.isCoinStake)) "bad-txns-vout-empty"
      require (decide (0 ≤ out.nValue)) "bad-txns-vout-negative"
      require (decide (out.nValue ≤ params.nMaxMoneyOut)) "bad-txns-vout-toolarge"
      require (params.moneyRange (wrap64 (nValueOut + out.nValue))) "bad-txns-txouttotal-toolarge"
      let isPayToColdStaking := CScript.isPayToColdStaking isV6Active out.scriptPubKey
      require (!isPayToColdStaking || fColdStakingActive) "cold-stake-inactive"
      require (!isPayToColdStaking || decide (minColdstakingAmount ≤ out.nValue))
        "cold-stake-vout-toosmall"
      checkOutputs params isV6Active fColdStakingActive tx rest (wrap64 (nValueOut + out.nValue))

/-- The prevouts of private zerocoin spends are looked up among those seen but not remembered. -/
def checkDuplicateInputs : List CTxIn → List COutPoint → Except Rejection Unit
  | [], _ => .ok ()
  | input :: rest, vInOutPoints => do
      require (!decide (input.prevout ∈ vInOutPoints)) "bad-txns-inputs-duplicate"
      checkDuplicateInputs rest (if input.isZerocoinSpend then vInOutPoints
        else input.prevout :: vInOutPoints)

def checkZerocoinInputs (env : Env) (tx : CTransaction) (fZerocoinActive fFakeSerialAttack : Bool) :
    Except Rejection Unit := do
  let nZCSpendCount := tx.vin.countP fun input => input.isZerocoinSpend &&
    !input.isZerocoinPublicSpend
  require (!fZerocoinActive || decide (nZCSpendCount ≤ env.params.zcMaxSpendsPerTx)) ""
  let fSpends := fZerocoinActive && tx.hasZerocoinSpendInputs
  require (!fSpends || tx.vin.all fun input => input.isZerocoinSpend || input.isZerocoinPublicSpend) ""
  let fVerifySignature := !env.node.isInitialBlockDownload && env.node.tipIsRecent
  require (!fSpends || env.zerocoin.checkZerocoinSpend tx fVerifySignature fFakeSerialAttack) ""

def checkInputForm (params : Params) (tx : CTransaction) (fZerocoinActive : Bool) :
    Except Rejection Unit :=
  if tx.isCoinBase then
    let nSize :=
      (tx.vin.headD { prevout := ⟨0, 0⟩, scriptSig := [], nSequence := 0 }).scriptSig.length
    require (decide (2 ≤ nSize) && decide (nSize ≤ 150)) "bad-cb-length"
  else if fZerocoinActive && tx.hasZerocoinSpendInputs then do
    require (decide (1 ≤ tx.vin.length)) "bad-zc-spend-min-inputs"
    require (decide (tx.vin.length ≤
      if tx.hasZerocoinPublicSpendInputs then params.zcMaxPublicSpendsPerTx else params.zcMaxSpendsPerTx))
      "bad-zc-spend-max-inputs"
  else
    require (tx.vin.all fun input =>
      !(input.prevout.isNull && (fZerocoinActive && !input.isZerocoinSpend))) "bad-txns-prevout-null"

def checkTransaction (env : Env) (tx : CTransaction)
    (fZerocoinActive fFakeSerialAttack fColdStakingActive fSaplingActive : Bool) :
    Except Rejection Unit := do
  require (!(tx.vin.isEmpty && tx.sapData.any fun data => data.vShieldedSpend.isEmpty))
    "bad-txns-vin-empty"
  require (!(tx.vout.isEmpty && tx.sapData.any fun data => data.vShieldedOutput.isEmpty))
    "bad-txns-vout-empty"
  require (!fSaplingActive || (decide (1 ≤ tx.nVersion) && decide (tx.nVersion < txVersionTooHigh)))
    "bad-tx-version-too-high"
  require (decide (env.verifier.totalSize tx ≤
    if tx.isShieldedTx then maxTxSizeAfterSapling else maxZerocoinTxSize)) "bad-txns-oversize"
  let nValueOut ← SaplingValidation.checkTransaction env.params tx fSaplingActive
  checkSpecialTx tx fSaplingActive
  checkOutputs env.params env.node.isV6Active fColdStakingActive tx tx.vout nValueOut
  checkDuplicateInputs tx.vin []
  checkZerocoinInputs env tx fZerocoinActive fFakeSerialAttack
  checkInputForm env.params tx fZerocoinActive

theorem checkDuplicateInputs_ok (passed : checkDuplicateInputs inputs vInOutPoints = .ok ())
    (noSpend : ∀ input ∈ inputs, input.isZerocoinSpend = false) :
    (inputs.map CTxIn.prevout).Nodup ∧ ∀ input ∈ inputs, input.prevout ∉ vInOutPoints := by
  induction inputs generalizing vInOutPoints with
  | nil => simp
  | cons input rest ih =>
    have remembered : input.isZerocoinSpend = false := noSpend input mem_cons_self
    simp only [checkDuplicateInputs, require_bind_eq_ok, remembered, Bool.false_eq_true, if_false,
      Bool.not_eq_true', decide_eq_false_iff_not] at passed
    obtain ⟨restDistinct, restFresh⟩ :=
      ih passed.2 (forall_mem_cons.mp noSpend).2
    constructor
    · rw [map_cons, nodup_cons]
      refine ⟨fun repeated => ?_, restDistinct⟩
      obtain ⟨other, member, same⟩ := mem_map.mp repeated
      exact restFresh other member (by rw [same]; exact mem_cons_self)
    · intro other member
      rcases mem_cons.mp member with rfl | later
      · exact passed.1
      · exact fun seen => restFresh other later (mem_cons_of_mem _ seen)

theorem checkOutputs_ok (fits : params.nMaxMoneyOut < 2 ^ 62)
    (started : 0 ≤ nValueOut ∧ nValueOut ≤ params.nMaxMoneyOut)
    (passed : checkOutputs params isV6Active fColdStakingActive tx outs nValueOut = .ok ()) :
    nValueOut + (outs.map CTxOut.nValue).sum ≤ params.nMaxMoneyOut := by
  induction outs generalizing nValueOut with
  | nil => simpa using started.2
  | cons out rest ih =>
    simp only [checkOutputs, require_bind_eq_ok, decide_eq_true_eq] at passed
    obtain ⟨-, notNegative, notTooLarge, inRange, -, -, passed⟩ := passed
    rw [wrap64_eq (by omega) (by omega)] at inRange passed
    have later := ih (Params.moneyRange_iff.mp inRange) passed
    simp only [map_cons, sum_cons]
    omega

theorem checkOutputs_each
    (passed : checkOutputs params isV6Active fColdStakingActive tx outs nValueOut = .ok ()) :
    ∀ out ∈ outs, 0 ≤ out.nValue ∧ out.nValue ≤ params.nMaxMoneyOut := by
  induction outs generalizing nValueOut with
  | nil => simp
  | cons out rest ih =>
    simp only [checkOutputs, require_bind_eq_ok, decide_eq_true_eq] at passed
    obtain ⟨-, notNegative, notTooLarge, -, -, -, passed⟩ := passed
    intro other member
    rcases mem_cons.mp member with rfl | later
    · exact ⟨notNegative, notTooLarge⟩
    · exact ih passed other later

def shieldedValueOut (tx : CTransaction) :
    Int := if tx.valueBalance < 0 then -tx.valueBalance else 0

def shieldedValueIn (tx : CTransaction) : Int := if 0 < tx.valueBalance then tx.valueBalance else 0

variable {tx : CTransaction}

theorem hasSaplingData_of_valueBalance (moved : tx.valueBalance ≠ 0) :
    tx.hasSaplingData = true := by
  unfold valueBalance at moved
  unfold hasSaplingData
  cases sap : tx.sapData with
  | none => simp [sap] at moved
  | some data =>
    rw [sap] at moved
    simp [moved]

theorem hasSaplingData_of_spends (spends : tx.shieldedSpends ≠ []) : tx.hasSaplingData = true := by
  unfold shieldedSpends at spends
  unfold hasSaplingData
  cases sap : tx.sapData with
  | none => simp [sap] at spends
  | some data =>
    rw [sap] at spends
    simp [spends]

/-- What the Sapling checks establish about a transaction with Sapling data. -/
structure SaplingChecked (params : Params) (fSaplingActive : Bool) (tx : CTransaction) : Prop where
  version : tx.isSaplingVersion = true
  notCoinStake : tx.isCoinStake = false
  notCoinBase : tx.isCoinBase = false
  noZerocoinSpend : tx.hasZerocoinSpendInputs = false
  active : fSaplingActive = true
  balanceLow : -params.nMaxMoneyOut ≤ tx.valueBalance
  balanceHigh : tx.valueBalance ≤ params.nMaxMoneyOut

theorem SaplingValidation.checkTransaction_ok
    (passed : checkTransaction params tx fSaplingActive = .ok nValueOut) :
    (tx.hasSaplingData = true → SaplingChecked params fSaplingActive tx) ∧
      (params.nMaxMoneyOut < 2 ^ 62 → nValueOut = shieldedValueOut tx) := by
  simp only [checkTransaction, require_bind_eq_ok] at passed
  obtain ⟨version, passed⟩ := passed
  cases sap : tx.hasSaplingData with
  | false =>
    simp only [sap, Bool.false_eq_true, if_false] at passed
    cases passed
    refine ⟨fun impossible => (by cases impossible), fun _ => ?_⟩
    have unmoved : tx.valueBalance = 0 := by
      by_contra moved
      rw [hasSaplingData_of_valueBalance moved] at sap
      cases sap
    simp [shieldedValueOut, unmoved]
  | true =>
    simp only [sap, if_true, require_bind_eq_ok, checkTransactionWithoutProofVerification,
      Bool.not_eq_true', Bool.or_eq_false_iff, decide_eq_false_iff_not] at passed
    obtain ⟨⟨⟨⟨notCoinStake, notCoinBase⟩, noSpend⟩, -⟩, active, -, ⟨high, low⟩, -, -, -, same⟩ :=
      passed
    simp only [sap, Bool.not_true, Bool.or_false] at version
    refine ⟨fun _ => ⟨version, notCoinStake, notCoinBase, noSpend, active, by omega, by omega⟩,
      fun fits => ?_⟩
    cases same
    unfold shieldedValueOut
    split
    · exact wrap64_eq (by omega) (by omega)
    · rfl

/-- What `CheckTransaction` establishes. -/
structure TransactionChecked (params : Params) (fZerocoinActive fSaplingActive : Bool)
    (tx : CTransaction) :
    Prop where
  sapling : tx.hasSaplingData = true → SaplingChecked params fSaplingActive tx
  outputs : ∀ out ∈ tx.vout, 0 ≤ out.nValue ∧ out.nValue ≤ params.nMaxMoneyOut
  total : 0 ≤ params.nMaxMoneyOut → params.nMaxMoneyOut < 2 ^ 62 →
    shieldedValueOut tx + (tx.vout.map CTxOut.nValue).sum ≤ params.nMaxMoneyOut
  distinct : tx.hasZerocoinSpendInputs = false → (tx.vin.map CTxIn.prevout).Nodup
  onlyZerocoins : fZerocoinActive = true → tx.hasZerocoinSpendInputs = true →
    ∀ input ∈ tx.vin, (input.isZerocoinSpend || input.isZerocoinPublicSpend) = true

theorem checkTransaction_ok {env : Env}
    {fZerocoinActive fFakeSerialAttack fColdStakingActive fSaplingActive : Bool}
    (passed : checkTransaction env tx fZerocoinActive fFakeSerialAttack fColdStakingActive
      fSaplingActive = .ok ()) :
    TransactionChecked env.params fZerocoinActive fSaplingActive tx := by
  simp only [checkTransaction, require_bind_eq_ok] at passed
  obtain ⟨-, -, -, -, passed⟩ := passed
  obtain ⟨nValueOut, saplingPassed, passed⟩ := bind_eq_ok.mp passed
  obtain ⟨_, _, passed⟩ := bind_eq_ok.mp passed
  obtain ⟨_, outputsPassed, passed⟩ := bind_eq_ok.mp passed
  obtain ⟨_, inputsPassed, passed⟩ := bind_eq_ok.mp passed
  obtain ⟨_, zerocoinPassed, _⟩ := bind_eq_ok.mp passed
  obtain ⟨sapling, counted⟩ := SaplingValidation.checkTransaction_ok saplingPassed
  refine ⟨sapling, checkOutputs_each outputsPassed, fun positive fits => ?_, fun noSpend => ?_,
    fun active spends => ?_⟩
  · rw [counted fits] at outputsPassed
    refine checkOutputs_ok fits ?_ outputsPassed
    unfold shieldedValueOut
    split
    next taken =>
      have bounds := sapling (hasSaplingData_of_valueBalance (by omega))
      exact ⟨by omega, by have := bounds.balanceLow; omega⟩
    · exact ⟨le_refl _, positive⟩
  · refine (checkDuplicateInputs_ok inputsPassed fun input member => ?_).1
    simp only [hasZerocoinSpendInputs, any_eq_false, Bool.or_eq_true, not_or, Bool.not_eq_true]
      at noSpend
    exact (noSpend input member).1
  · simp only [checkZerocoinInputs, require_bind_eq_ok, active, spends, Bool.and_self,
      Bool.not_true, Bool.false_or, all_eq_true] at zerocoinPassed
    exact zerocoinPassed.2.1

end Deviant.Consensus
