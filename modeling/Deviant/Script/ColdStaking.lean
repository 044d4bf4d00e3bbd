import Mathlib.Algebra.Order.BigOperators.Group.List
import Deviant.Consensus.TxVerify
import Deviant.Script.Interpreter

namespace Deviant.Script

open Consensus Primitives

/-! Stake delegation: the script that lets one key stake and another spend, the check of the
transactions in which the staking key may be used, and what any spend of such a script has shown. -/

def locktimeThreshold : Int := 500000000

/-- The checker of one input of a transaction.  Keys, signatures and the hash that is signed are
taken as they are. -/
structure TransactionSignatureChecker where
  txTo : CTransaction
  nIn : Nat
  amount : Int
  nLockTime : Int
  pubKeyIsValid : ValType → Bool
  verifySignature : (vchSig pubkey : ValType) → (sighash : Uint256) → Bool
  signatureHash : (scriptCode : CScript) → (nHashType : Nat) → SigVersion → Uint256

namespace TransactionSignatureChecker

variable (checker : TransactionSignatureChecker)

def checkSig (vchSigIn vchPubKey : ValType) (scriptCode : CScript) (sigversion : SigVersion) :
    Bool :=
  checker.pubKeyIsValid vchPubKey &&
    match vchSigIn.getLast? with
    | none => false
    | some nHashType =>
      checker.verifySignature vchSigIn.dropLast vchPubKey
        (checker.signatureHash scriptCode nHashType.toNat sigversion)

def checkLockTime (nLockTime : Int) : Bool :=
  ((decide (checker.nLockTime < locktimeThreshold) && decide (nLockTime < locktimeThreshold)) ||
      (decide (locktimeThreshold ≤ checker.nLockTime) && decide (locktimeThreshold ≤ nLockTime))) &&
    decide (nLockTime ≤ checker.nLockTime) &&
    !((checker.txTo.vin[checker.nIn]?).any fun input => input.nSequence == 2 ^ 32 - 1)

/-- The loop over the outputs from the second on: what the outputs with the script hold together,
or `none` when one that must have the script has not. -/
def coldStakeValue (prevoutScript : CScript) (outs : Nat) :
    (i : Nat) → List CTxOut → (outValue : Int) → Option Int
  | _, [], outValue => some outValue
  | i, out :: rest, outValue =>
    if out.scriptPubKey ≠ prevoutScript then
      if i ≠ outs - 1 ∨ outs < 3 then none
      else coldStakeValue prevoutScript outs (i + 1) rest outValue
    else coldStakeValue prevoutScript outs (i + 1) rest (wrap64 (outValue + out.nValue))

def checkColdStake (prevoutScript : CScript) : Bool :=
  checker.txTo.isCoinStake && checker.txTo.vin.length == 1 &&
    (coldStakeValue prevoutScript checker.txTo.vout.length 1 checker.txTo.vout.tail 0).any
      fun outValue => decide (checker.amount < outValue)

def toBase : BaseSignatureChecker where
  checkSig := checker.checkSig
  checkLockTime := checker.checkLockTime
  checkColdStake := checker.checkColdStake

end TransactionSignatureChecker

def valueTo (script : CScript) (outs : List CTxOut) : Int :=
  ((outs.filter fun out => out.scriptPubKey == script).map CTxOut.nValue).sum

def CarriesScript (script : CScript) (vout : List CTxOut) : Prop :=
  ∀ i out, 1 ≤ i → vout[i]? = some out → out.scriptPubKey = script ∨
    (i + 1 = vout.length ∧ 3 ≤ vout.length)

/-- A transaction in which the staking key may be used: a coinstake with one input whose outputs
return more than the spent amount to the script. -/
structure ColdStakes (tx : CTransaction) (script : CScript) (amount : Int) : Prop where
  coinStake : tx.isCoinStake = true
  oneInput : tx.vin.length = 1
  carries : CarriesScript script tx.vout
  gains : amount < valueTo script tx.vout

open TransactionSignatureChecker in
theorem coldStakeValue_ok (counted : coldStakeValue script outs i rest outValue = some result)
    (notNegative : 0 ≤ outValue ∧ ∀ out ∈ rest, 0 ≤ out.nValue)
    (fits : outValue + (rest.map CTxOut.nValue).sum < 2 ^ 63) :
    result = outValue + valueTo script rest ∧
      ∀ k out, rest[k]? = some out → out.scriptPubKey = script ∨ (i + k = outs - 1 ∧ 3 ≤ outs) := by
  induction rest generalizing i outValue with
  | nil =>
    cases counted
    simp [valueTo]
  | cons head rest ih =>
    simp only [List.map_cons, List.sum_cons] at fits
    have headValue : 0 ≤ head.nValue := notNegative.2 head List.mem_cons_self
    have restValues : ∀ out ∈ rest, 0 ≤ out.nValue :=
      (List.forall_mem_cons.mp notNegative.2).2
    have restSum : 0 ≤ (rest.map CTxOut.nValue).sum := by
      apply List.sum_nonneg
      intro value member
      obtain ⟨out, isOut, rfl⟩ := List.mem_map.mp member
      exact restValues out isOut
    by_cases same : head.scriptPubKey = script
    · simp only [coldStakeValue, same, ne_eq, not_true_eq_false, if_false] at counted
      rw [wrap64_eq (by omega) (by omega)] at counted
      obtain ⟨total, each⟩ := ih counted ⟨by omega, restValues⟩ (by omega)
      refine ⟨?_, fun k out found => ?_⟩
      · rw [total]
        simp only [valueTo, List.filter_cons, same, beq_self_eq_true, if_true, List.map_cons,
          List.sum_cons]
        omega
      · cases k with
        | zero =>
          cases found
          exact .inl same
        | succ k =>
          exact (each k out found).imp_right fun free => ⟨by omega, free.2⟩
    · simp only [coldStakeValue, ne_eq, same, not_false_eq_true, if_true] at counted
      split at counted
      · cases counted
      next free =>
        obtain ⟨total, each⟩ := ih counted ⟨notNegative.1, restValues⟩ (by omega)
        refine ⟨?_, fun k out found => ?_⟩
        · rw [total]
          simp [valueTo, beq_eq_false_iff_ne.mpr same]
        · cases k with
          | zero => exact .inr (by omega)
          | succ k =>
            exact (each k out found).imp_right fun last => ⟨by omega, last.2⟩

theorem CTransaction.vout_of_isCoinStake {tx : CTransaction} (stakes : tx.isCoinStake = true) :
    ∃ first second rest, tx.vout = first :: second :: rest ∧ first.isEmpty = true := by
  unfold CTransaction.isCoinStake at stakes
  split at stakes
  next input inputs first second rest spends pays =>
    rw [Bool.and_eq_true] at stakes
    exact ⟨first, second, rest, pays, stakes.2⟩
  · cases stakes

theorem checkColdStake_ok {checker : TransactionSignatureChecker} {params : Params}
    (nonempty : script ≠ []) (fits : params.nMaxMoneyOut < 2 ^ 62)
    (checked : TransactionChecked params fZerocoinActive fSaplingActive checker.txTo)
    (passed : checker.checkColdStake script = true) :
    ColdStakes checker.txTo script checker.amount := by
  simp only [TransactionSignatureChecker.checkColdStake, Bool.and_eq_true, beq_iff_eq,
    Option.any_eq_true, decide_eq_true_eq] at passed
  obtain ⟨⟨stakes, oneInput⟩, outValue, counted, gains⟩ := passed
  obtain ⟨first, second, rest, pays, firstEmpty⟩ := CTransaction.vout_of_isCoinStake stakes
  have inRange := checked.outputs first (by rw [pays]; exact List.mem_cons_self)
  have total := checked.total (by omega) fits
  have shielded : 0 ≤ shieldedValueOut checker.txTo := by
    unfold shieldedValueOut
    split <;> omega
  have firstValue : first.nValue = 0 ∧ first.scriptPubKey = [] := by
    simpa [CTxOut.isEmpty] using firstEmpty
  have values : ∀ out ∈ checker.txTo.vout, 0 ≤ out.nValue := fun out member =>
    (checked.outputs out member).1
  rw [pays] at counted total values
  simp only [List.tail_cons] at counted
  simp only [List.map_cons, List.sum_cons] at total
  obtain ⟨counts, each⟩ := coldStakeValue_ok counted ⟨le_refl 0, (List.forall_mem_cons.mp values).2⟩
    (by simp only [List.map_cons, List.sum_cons]; omega)
  refine ⟨stakes, oneInput, fun i out later found => ?_, ?_⟩
  · obtain ⟨k, rfl⟩ : ∃ k, i = k + 1 := ⟨i - 1, by omega⟩
    rw [pays] at found ⊢
    apply (each k out found).imp_right
    rintro ⟨last, several⟩
    omega
  · have skipped : valueTo script checker.txTo.vout = valueTo script (second :: rest) := by
      have differs : (first.scriptPubKey == script) = false := by
        rw [firstValue.2]
        exact beq_eq_false_iff_ne.mpr (Ne.symm nonempty)
      rw [pays]
      unfold valueTo
      rw [List.filter_cons, differs]
      simp
    omega

def evalFrom (ctx : Context) (script pc : CScript) (m : Machine) : Except ScriptError Machine :=
  evalLoop ctx script pc.length pc m

section Steps

variable {ctx : Context} {script pc next : CScript} {opcode : UInt8} {vchPushValue : ValType}
  {m after final : Machine}

theorem evalFrom_ok (read : getOp pc = some (opcode, vchPushValue, next))
    (ran : evalFrom ctx script pc m = .ok final) :
    ∃ after, dispatch ctx script next opcode vchPushValue (countOp opcode m) = .ok after ∧
      evalFrom ctx script next after = .ok final := by
  have shorter := getOp_length read
  obtain ⟨fuel, length⟩ : ∃ fuel, pc.length = fuel + 1 := ⟨pc.length - 1, by omega⟩
  rw [evalFrom, length, evalLoop_step m read] at ran
  obtain ⟨after, instruction, rest⟩ := bind_eq_ok.mp ran
  rw [evalLoop_fuel after (Nat.le_refl next.length) (by omega)] at rest
  simp only [evalInstruction, ensure_bind_eq_ok] at instruction
  obtain ⟨-, -, -, instruction⟩ := instruction
  obtain ⟨reached, dispatched, kept⟩ := bind_eq_ok.mp instruction
  rw [ensure_bind_eq_ok] at kept
  cases kept.2
  exact ⟨_, dispatched, rest⟩

@[simp] theorem countOp_stack : (countOp opcode m).stack = m.stack := by
  unfold countOp
  split <;> rfl

@[simp] theorem countOp_vfExec : (countOp opcode m).vfExec = m.vfExec := by
  unfold countOp
  split <;> rfl

@[simp] theorem countOp_codehash : (countOp opcode m).codehash = m.codehash := by
  unfold countOp
  split <;> rfl

theorem dispatch_push (executes : m.vfExec.all id = true) (isPush : opcode ≤ opPushdata4)
    (ran : dispatch ctx script next opcode vchPushValue m = .ok after) :
    after = { m with stack := vchPushValue :: m.stack } := by
  simp only [dispatch, executes, isPush, decide_true, Bool.and_self, if_true, ensure_bind_eq_ok]
    at ran
  exact (Except.ok.inj ran.2).symm

theorem dispatch_execute (executes : m.vfExec.all id = true) (notPush : ¬opcode ≤ opPushdata4) :
    dispatch ctx script next opcode vchPushValue m = execute ctx script next true
      (OpCode.decode opcode) m := by
  simp [dispatch, executes, notPush]

theorem dispatch_conditional
    (isConditional : (decide (opIf ≤ opcode) && decide (opcode ≤ opEndif)) = true)
    (notPush : ¬opcode ≤ opPushdata4) : dispatch ctx script next opcode vchPushValue m =
      execute ctx script next (m.vfExec.all id) (OpCode.decode opcode) m := by
  simp [dispatch, notPush, isConditional]

theorem dispatch_skipped (skips : m.vfExec.all id = false)
    (notConditional : (decide (opIf ≤ opcode) && decide (opcode ≤ opEndif)) = false) :
    dispatch ctx script next opcode vchPushValue m = .ok m := by
  simp [dispatch, skips, notConditional]

theorem dispatch_stackOp (executes : m.vfExec.all id = true) (notPush : ¬opcode ≤ opPushdata4)
    (runs : execute ctx script next true (OpCode.decode opcode) m =
      stackOp ctx op m.stack >>= fun stack => pure { m with stack := stack })
    (ran : dispatch ctx script next opcode vchPushValue m = .ok after) :
    stackOp ctx op m.stack = .ok after.stack ∧ after.vfExec = m.vfExec ∧
      after.codehash = m.codehash := by
  rw [dispatch_execute executes notPush, runs] at ran
  obtain ⟨stack, replaced, same⟩ := bind_eq_ok.mp ran
  cases same
  exact ⟨replaced, rfl, rfl⟩

end Steps

theorem stackOp_dup_ok (ran : stackOp ctx .dup stack = .ok result) :
    ∃ x rest, stack = x :: rest ∧ result = x :: x :: rest := by
  match stack with
  | [] => cases ran
  | x :: rest => exact ⟨x, rest, rfl, (Except.ok.inj ran).symm⟩

theorem stackOp_hash160_ok (ran : stackOp ctx (.hash .hash160) stack = .ok result) :
    ∃ x rest, stack = x :: rest ∧ result = ctx.crypto.hash160 x :: rest := by
  match stack with
  | [] => cases ran
  | x :: rest => exact ⟨x, rest, rfl, (Except.ok.inj ran).symm⟩

theorem stackOp_rot_ok (ran : stackOp ctx .rot stack = .ok result) :
    ∃ x3 x2 x1 rest, stack = x3 :: x2 :: x1 :: rest ∧ result = x1 :: x3 :: x2 :: rest := by
  match stack with
  | [] => cases ran
  | [_] => cases ran
  | [_, _] => cases ran
  | x3 :: x2 :: x1 :: rest => exact ⟨x3, x2, x1, rest, rfl, (Except.ok.inj ran).symm⟩

theorem stackOp_equalverify_ok (ran : stackOp ctx .equalverify stack = .ok result) :
    ∃ x rest, stack = x :: x :: rest ∧ result = rest := by
  match stack with
  | [] => cases ran
  | [_] => cases ran
  | x2 :: x1 :: rest =>
    simp only [stackOp] at ran
    split at ran
    next same =>
      cases ran
      exact ⟨x2, _, by rw [same], rfl⟩
    · cases ran

theorem checkSigOp_ok (ran : checkSigOp ctx false m = .ok after) :
    ∃ vchPubKey vchSig rest, m.stack = vchPubKey :: vchSig :: rest ∧ after.vfExec = m.vfExec ∧
      after.stack = vchOf (ctx.checker.checkSig vchSig vchPubKey
        (findAndDelete m.codehash (pushData vchSig)) ctx.sigversion) :: rest := by
  unfold checkSigOp at ran
  split at ran
  next vchPubKey vchSig rest shape =>
    obtain ⟨fSuccess, checked, ran⟩ := bind_eq_ok.mp ran
    obtain ⟨_, -, checked⟩ := bind_eq_ok.mp checked
    obtain ⟨_, -, checked⟩ := bind_eq_ok.mp checked
    cases checked
    cases ran
    exact ⟨vchPubKey, vchSig, rest, shape, rfl, rfl⟩
  · cases ran

theorem checkColdStakeOp_ok (ran : checkColdStakeOp ctx script stack = .ok value) :
    ctx.checker.checkColdStake script = true := by
  by_contra refused
  simp only [checkColdStakeOp, refused, ensure, if_false] at ran
  split at ran
  · obtain ⟨_, -, failed⟩ := bind_eq_ok.mp ran
    cases failed
  · cases ran

structure CKeyID where
  bytes : ValType
  size : bytes.length = 20

def getScriptForStakeDelegation (stakingKey spendingKey : CKeyID) : CScript :=
  [opDup, opHash160, opRot, opIf, opCheckcoldstakeverify] ++ pushData stakingKey.bytes ++
    [opElse] ++ pushData spendingKey.bytes ++ [opEndif, opEqualverify, opChecksig]

section Delegation

variable {ctx : Context} {stakingKey spendingKey : CKeyID} {script : CScript} {m final : Machine}

/-- The script from `OP_ENDIF` on. -/
def delegationEnd : CScript := [opEndif, opEqualverify, opChecksig]

/-- The script from `OP_ELSE` on. -/
def delegationElse (spendingKey : CKeyID) :
    CScript := opElse :: 0x14 :: (spendingKey.bytes ++ delegationEnd)

/-- The script from `OP_CHECKCOLDSTAKEVERIFY` on. -/
def delegationThen (stakingKey spendingKey : CKeyID) : CScript :=
  opCheckcoldstakeverify :: 0x14 :: (stakingKey.bytes ++ delegationElse spendingKey)

theorem getScriptForStakeDelegation_eq : getScriptForStakeDelegation stakingKey spendingKey =
      opDup :: opHash160 :: opRot :: opIf :: delegationThen stakingKey spendingKey := by
  have pushed (key : CKeyID) : pushData key.bytes = 0x14 :: key.bytes := by
    simp only [pushData, key.size]
    rfl
  simp only [getScriptForStakeDelegation, pushed, delegationThen, delegationElse, delegationEnd]
  simp

theorem getOp_pushKey (key : CKeyID) :
    getOp (0x14 :: (key.bytes ++ rest)) = some (0x14, key.bytes, rest) :=
  getOp_push (by decide) key.size

/-- Both branches end alike: the hash on the stack must be the pushed one, and the signature below
it is checked under the key. -/
def ChecksSignature (ctx : Context) (script : CScript) (stack final : List ValType) : Prop :=
  ∃ pushed vchPubKey vchSig rest, stack = pushed :: pushed :: vchPubKey :: vchSig :: rest ∧
    final = vchOf (ctx.checker.checkSig vchSig vchPubKey
      (findAndDelete script (pushData vchSig)) ctx.sigversion) :: rest

variable {condition : Bool} (conditions : m.vfExec = [condition]) (code : m.codehash = script)
include conditions code

theorem delegationEnd_ok (ran : evalFrom ctx script delegationEnd m = .ok final) :
    ChecksSignature ctx script m.stack final.stack := by
  obtain ⟨closed, endif, ran⟩ := evalFrom_ok (getOp_opcode (by decide)) ran
  obtain ⟨equal, equalverify, ran⟩ := evalFrom_ok (getOp_opcode (by decide)) ran
  obtain ⟨signed, checksig, ran⟩ := evalFrom_ok (getOp_opcode (by decide)) ran
  cases ran
  rw [dispatch_conditional (by decide) (by decide)] at endif
  simp only [show OpCode.decode opEndif = .opEndif from rfl, execute, countOp_vfExec, conditions]
    at endif
  cases endif
  obtain ⟨compared, open₁, code₁⟩ := dispatch_stackOp (by simp) (by decide) rfl equalverify
  simp only [countOp_stack, countOp_vfExec, countOp_codehash] at compared open₁ code₁
  obtain ⟨pushed, rest, shape, left⟩ := stackOp_equalverify_ok compared
  rw [dispatch_execute (by simp [open₁]) (by decide)] at checksig
  obtain ⟨vchPubKey, vchSig, below, signedShape, -, result⟩ := checkSigOp_ok checksig
  simp only [countOp_stack, countOp_codehash, code₁, code] at signedShape result
  exact ⟨pushed, vchPubKey, vchSig, below, by rw [shape, ← left, signedShape], result⟩

/-- A push that stands in a branch is made where the branch is taken. -/
theorem evalFrom_pushKey {key : CKeyID}
    (ran : evalFrom ctx script (0x14 :: (key.bytes ++ next)) m = .ok final) :
    ∃ after : Machine, after.vfExec = [condition] ∧ after.codehash = script ∧
      after.stack = (if condition then key.bytes :: m.stack else m.stack) ∧
      evalFrom ctx script next after = .ok final := by
  obtain ⟨pushed, pushes, ran⟩ := evalFrom_ok (getOp_pushKey key) ran
  cases condition with
  | true =>
    cases dispatch_push (by simp [conditions]) (by decide) pushes
    exact ⟨_, by simpa using conditions, by simpa using code, by simp, ran⟩
  | false =>
    rw [dispatch_skipped (by simp [conditions]) (by decide)] at pushes
    cases pushes
    exact ⟨_, by simpa using conditions, by simpa using code, by simp, ran⟩

theorem delegationElse_ok (ran : evalFrom ctx script (delegationElse spendingKey) m = .ok final) :
    ChecksSignature ctx script (if condition then m.stack else spendingKey.bytes :: m.stack)
      final.stack := by
  obtain ⟨turned, elses, ran⟩ := evalFrom_ok (getOp_opcode (by decide)) ran
  rw [dispatch_conditional (by decide) (by decide)] at elses
  simp only [show OpCode.decode opElse = .opElse from rfl, execute, countOp_vfExec, conditions]
    at elses
  cases elses
  obtain ⟨pushed, inside, kept, stack, ran⟩ := evalFrom_pushKey rfl (by simp [code]) ran
  have signed := delegationEnd_ok inside kept ran
  rw [stack] at signed
  cases condition <;> simpa using signed

theorem delegationThen_ok
    (ran : evalFrom ctx script (delegationThen stakingKey spendingKey) m = .ok final) :
    (condition = true → ctx.checker.checkColdStake script = true) ∧ ChecksSignature ctx script
      ((if condition then stakingKey.bytes else spendingKey.bytes) :: m.stack) final.stack := by
  obtain ⟨staked, stakes, ran⟩ := evalFrom_ok (getOp_opcode (by decide)) ran
  have checked : staked = countOp opCheckcoldstakeverify m ∧
      (condition = true → ctx.checker.checkColdStake script = true) := by
    cases condition with
    | true =>
      rw [dispatch_execute (by simp [conditions]) (by decide)] at stakes
      obtain ⟨_, allowed, same⟩ := bind_eq_ok.mp stakes
      cases same
      exact ⟨rfl, fun _ => checkColdStakeOp_ok allowed⟩
    | false =>
      rw [dispatch_skipped (by simp [conditions]) (by decide)] at stakes
      cases stakes
      exact ⟨rfl, nofun⟩
  obtain ⟨rfl, allowed⟩ := checked
  obtain ⟨pushed, inside, kept, stack, ran⟩ :=
    evalFrom_pushKey (by simpa using conditions) (by simpa using code) ran
  have signed := delegationElse_ok inside kept ran
  rw [stack] at signed
  refine ⟨allowed, ?_⟩
  cases condition <;> simpa using signed

omit conditions code

/-- What the script demands of the stack it is run on: a key, the choice of a branch and a
signature, from the top. -/
structure DelegationRun (ctx : Context) (stakingKey spendingKey : CKeyID) (stack final : List ValType)
    (vchPubKey choice vchSig : ValType) (rest : List ValType) : Prop where
  shape : stack = vchPubKey :: choice :: vchSig :: rest
  result : final = vchOf (ctx.checker.checkSig vchSig vchPubKey
    (findAndDelete (getScriptForStakeDelegation stakingKey spendingKey) (pushData vchSig))
    ctx.sigversion) :: rest
  staker : castToBool choice = true → ctx.crypto.hash160 vchPubKey = stakingKey.bytes ∧
    ctx.checker.checkColdStake (getScriptForStakeDelegation stakingKey spendingKey) = true
  owner : castToBool choice = false → ctx.crypto.hash160 vchPubKey = spendingKey.bytes

theorem evalScript_delegation
    (ran : evalScript ctx stack (getScriptForStakeDelegation stakingKey spendingKey) = .ok result) :
    ∃ vchPubKey choice vchSig rest,
      DelegationRun ctx stakingKey spendingKey stack result vchPubKey choice vchSig rest := by
  generalize whole : getScriptForStakeDelegation stakingKey spendingKey = script at ran
  simp only [evalScript, ensure_bind_eq_ok] at ran
  obtain ⟨-, ran⟩ := ran
  obtain ⟨final, looped, finished⟩ := bind_eq_ok.mp ran
  rw [ensure_bind_eq_ok] at finished
  cases finished.2
  have started :
      evalFrom ctx script
      (opDup :: opHash160 :: opRot :: opIf :: delegationThen stakingKey spendingKey)
      { stack := stack, codehash := script } = .ok final := by
    rw [← getScriptForStakeDelegation_eq, whole]
    exact looped
  obtain ⟨m₁, dups, ran⟩ := evalFrom_ok (getOp_opcode (by decide)) started
  obtain ⟨m₂, hashes, ran⟩ := evalFrom_ok (getOp_opcode (by decide)) ran
  obtain ⟨m₃, rots, ran⟩ := evalFrom_ok (getOp_opcode (by decide)) ran
  obtain ⟨m₄, ifs, ran⟩ := evalFrom_ok (getOp_opcode (by decide)) ran
  obtain ⟨dupped, open₁, code₁⟩ := dispatch_stackOp (by simp) (by decide) rfl dups
  obtain ⟨hashed, open₂, code₂⟩ := dispatch_stackOp (by simp [open₁]) (by decide) rfl hashes
  simp only [countOp_stack, countOp_vfExec, countOp_codehash, open₁, code₁] at hashed open₂ code₂
  obtain ⟨rotated, open₃, code₃⟩ := dispatch_stackOp (by simp [open₂]) (by decide) rfl rots
  simp only [countOp_stack, countOp_vfExec, countOp_codehash, open₂, code₂] at rotated open₃ code₃
  obtain ⟨x, stackRest, stackShape, dupShape⟩ := stackOp_dup_ok dupped
  obtain ⟨y, hashRest, hashShape, hashResult⟩ := stackOp_hash160_ok hashed
  obtain ⟨x3, x2, choice, rotRest, rotShape, rotResult⟩ := stackOp_rot_ok rotated
  rw [dupShape, List.cons.injEq] at hashShape
  obtain ⟨rfl, rfl⟩ := hashShape
  rw [hashResult, List.cons.injEq, List.cons.injEq] at rotShape
  obtain ⟨rfl, rfl, rfl⟩ := rotShape
  rw [dispatch_execute (by simp [open₃]) (by decide)] at ifs
  simp only [show OpCode.decode opIf = .opIf from rfl, execute, conditionOp, if_true, countOp_stack,
    countOp_vfExec, rotResult, open₃, Bool.bne_false] at ifs
  cases ifs
  obtain ⟨stakes, hash, vchPubKey, vchSig, rest, shape, signed⟩ :=
    delegationThen_ok rfl (by simp [code₃]) ran
  simp only [List.cons.injEq] at shape
  obtain ⟨rfl, hashed, rfl, rfl⟩ := shape
  refine ⟨_, choice, vchSig, rest,
    stackShape, by rw [signed, whole], fun taken => ⟨?_, ?_⟩, fun refused => ?_⟩
  · simpa [taken] using hashed
  · rw [whole]
    exact stakes taken
  · simpa [refused] using hashed

end Delegation

def TransactionSignatureChecker.context (checker : TransactionSignatureChecker) (crypto : Crypto)
    (flags : Flags) (sigversion : SigVersion) (isV6Active : Bool) : Context where
  crypto := crypto
  flags := flags
  checker := checker.toBase
  sigversion := sigversion
  isV6Active := isV6Active

def SuppliesSignature (ctx : Context) (script : CScript) (stack : List ValType) (hash : ValType) :
    Prop :=
  ∃ vchPubKey choice vchSig rest, stack = vchPubKey :: choice :: vchSig :: rest ∧
    ctx.crypto.hash160 vchPubKey = hash ∧
    ctx.checker.checkSig vchSig vchPubKey (findAndDelete script (pushData vchSig)) ctx.sigversion = true

/-- Whatever a `scriptSig` does, it spends a delegation only with a signature under the owner's key,
or under the staker's key in a coinstake that returns more than it spends to the delegation. -/
theorem delegation_spend_is_authorised (crypto : Crypto) (flags : Flags) (sigversion : SigVersion)
    (isV6Active : Bool) (checker : TransactionSignatureChecker) (stakingKey spendingKey : CKeyID)
    (scriptSig : CScript) (env : Env)
    (fZerocoinActive fFakeSerialAttack fColdStakingActive fSaplingActive : Bool)
    (fits : env.params.nMaxMoneyOut < 2 ^ 62)
    (checked : checkTransaction env checker.txTo fZerocoinActive fFakeSerialAttack
      fColdStakingActive fSaplingActive = .ok ())
    (verified : verifyScript (checker.context crypto flags sigversion isV6Active) scriptSig
      (getScriptForStakeDelegation stakingKey spendingKey) = .ok ()) :
    ∃ stack, evalScript (checker.context crypto flags sigversion isV6Active)
      [] scriptSig = .ok stack ∧
      (SuppliesSignature (checker.context crypto flags sigversion isV6Active)
          (getScriptForStakeDelegation stakingKey spendingKey) stack spendingKey.bytes ∨
        SuppliesSignature (checker.context crypto flags sigversion isV6Active)
            (getScriptForStakeDelegation stakingKey spendingKey) stack stakingKey.bytes ∧
          ColdStakes checker.txTo (getScriptForStakeDelegation stakingKey spendingKey)
          checker.amount) := by
  simp only [verifyScript, ensure_bind_eq_ok] at verified
  obtain ⟨-, verified⟩ := verified
  obtain ⟨stack, signed, verified⟩ := bind_eq_ok.mp verified
  obtain ⟨final, spent, verified⟩ := bind_eq_ok.mp verified
  rw [ensure_bind_eq_ok] at verified
  obtain ⟨vchPubKey, choice, vchSig, rest, run⟩ := evalScript_delegation spent
  have accepted :
      (checker.context crypto flags sigversion isV6Active).checker.checkSig vchSig vchPubKey
      (findAndDelete (getScriptForStakeDelegation stakingKey spendingKey) (pushData vchSig))
      sigversion = true := by
    have top := verified.1
    rw [run.result, topIsTrue, castToBool_vchOf] at top
    exact top
  refine ⟨stack, signed, ?_⟩
  cases chosen : castToBool choice with
  | false =>
    exact .inl ⟨vchPubKey, choice, vchSig, rest, run.shape, run.owner chosen, accepted⟩
  | true =>
    obtain ⟨hash, stakes⟩ := run.staker chosen
    have nonempty : getScriptForStakeDelegation stakingKey spendingKey ≠ [] := by
      simp [getScriptForStakeDelegation_eq]
    exact .inr ⟨⟨vchPubKey, choice, vchSig, rest, run.shape, hash, accepted⟩,
      checkColdStake_ok nonempty fits (checkTransaction_ok checked) stakes⟩

namespace SampleDelegation

def crypto : Crypto where
  ripemd160 := fun vch => vch.take 1 ++ List.replicate 19 0
  sha1 := fun vch => vch
  sha256 := fun vch => vch
  checkLowS := fun _ => true

def flags : Flags where
  p2sh := true
  strictenc := false
  dersig := false
  lowS := false
  nulldummy := true
  sigpushonly := true
  minimaldata := true
  discourageUpgradableNops := true
  checklocktimeverify := true

def staker : CKeyID := ⟨0x21 :: List.replicate 19 0, rfl⟩
def owner : CKeyID := ⟨0x22 :: List.replicate 19 0, rfl⟩

def coinstake : CTransaction where
  hash := 1
  nVersion := 1
  vin := [{ prevout := ⟨7, 0⟩, scriptSig := [], nSequence := 0 }]
  vout := [{ nValue := 0, scriptPubKey := [] },
    { nValue := 11 * coinUnit, scriptPubKey := getScriptForStakeDelegation staker owner }]

def checker : TransactionSignatureChecker where
  txTo := coinstake
  nIn := 0
  amount := 10 * coinUnit
  nLockTime := 0
  pubKeyIsValid := fun _ => true
  verifySignature := fun _ _ _ => true
  signatureHash := fun _ _ _ => 0

/-- The staker's spend: a signature, the choice of the staking branch and the key. -/
def scriptSig : CScript := pushData [0x30, 0x01] ++ [0x51] ++ pushData [0x21, 0x05]

theorem delegation_spend_is_authorised_staker :
    ∃ stack, evalScript (checker.context crypto flags .base true) [] scriptSig = .ok stack ∧
      (SuppliesSignature (checker.context crypto flags .base true)
        (getScriptForStakeDelegation staker owner) stack
          owner.bytes ∨
        SuppliesSignature (checker.context crypto flags .base true)
        (getScriptForStakeDelegation staker owner) stack
            staker.bytes ∧ ColdStakes coinstake (getScriptForStakeDelegation staker owner)
            (10 * coinUnit)) :=
  delegation_spend_is_authorised crypto flags .base true checker staker owner scriptSig
    (Env.trusting mainParams) true false true true (by decide) rfl rfl

end SampleDelegation

end Deviant.Script
