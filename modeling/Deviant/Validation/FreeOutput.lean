import Deviant.Script.ColdStaking
import Deviant.Validation.CheckBlock

namespace Deviant.Validation

open Consensus List Primitives Script SampleDelegation

/-! The last output of a cold stake.  `OP_CHECKCOLDSTAKEVERIFY` leaves the last of at least three
outputs free, and `CheckBlock` asks `CheckColdStakeFreeOutput` whether what goes there is a
payment that the block owes. -/

/-- A product of an integer with a `double` of 53 bits, rounded to a `double` (halves to even) and
then cut to an integer.  The factor is `mantissa / 2 ^ 53`. -/
def truncatedProduct (value mantissa : Nat) : Nat :=
  let product := value * mantissa
  let excess := product.log2 + 1 - 53
  let quotient := product / 2 ^ excess
  let remainder := product % 2 ^ excess
  let roundsUp := 2 ^ excess < 2 * remainder ∨ (2 ^ excess = 2 * remainder ∧ quotient % 2 = 1)
  (if roundsUp then quotient + 1 else quotient) * 2 ^ excess / 2 ^ 53

/-- The literals `0.7` and `0.8`. -/
def sevenTenths : Nat := 6305039478318694
def eightTenths : Nat := 7205759403792794

def getMasternodePayment (env : Env) (nHeight : Nat) : Int :=
  let nSubsidy := Env.getBlockValue env nHeight
  if env.params.nMaxMoneyOut ≤ wrap64 (env.node.moneySupply + nSubsidy) then 0
  else if nHeight < 200 then 0
  else if nHeight < 100000 ∧ 200 ≤ nHeight then nSubsidy * 4 / 5
  else if 1774000 < nHeight then truncatedProduct nSubsidy.toNat sevenTenths
  else truncatedProduct nSubsidy.toNat eightTenths

/-- The cut products of the fourth and the fifth reward period: the first falls one unit short. -/
example : truncatedProduct 1344800000 sevenTenths = 941359999 ∧
      truncatedProduct 1102800000 sevenTenths = 771960000 := by
  decide

/-- What the check reads besides the node: whether finalized budgets pay at a height, and the value
of an output of a transaction that `GetTransaction` finds. -/
structure FreeOutputSources where
  isBudgetPaymentBlock : Nat → Bool
  prevoutValue : COutPoint → Option Int

def isRegTestNet (params : Params) : Bool := !params.isMain && !params.isTestnet

def hasP2CSOutputs (isV6Active : Bool) (tx : CTransaction) : Bool :=
  tx.vout.any fun out => CScript.isPayToColdStaking isV6Active out.scriptPubKey

def stakedValue (sources : FreeOutputSources) (tx : CTransaction) : Option Int :=
  tx.vin.head?.bind fun input => sources.prevoutValue input.prevout

def sumValues (outs : List CTxOut) : Int := outs.foldl (fun sum out => wrap64 (sum + out.nValue)) 0

section

variable (env : Env) (sources : FreeOutputSources) (tx : CTransaction)

def freeOutputAllowed (lastOut : CTxOut) (nHeight : Nat) : Bool :=
  if lastOut.nValue = getMasternodePayment env nHeight then true
  else if isRegTestNet env.params then false
  else if !env.node.masternodeSynced then
    match stakedValue sources tx with
    | none => false
    | some nValue =>
      -- The loop runs to the last output, though the message speaks of the outputs that are not free.
      decide (sumValues tx.vout.tail = wrap64 (nValue + Env.getBlockValue env nHeight))
  else sources.isBudgetPaymentBlock nHeight && env.node.spork13Superblocks

def checkColdStakeFreeOutput (nHeight : Nat) : Bool :=
  if !hasP2CSOutputs env.node.isV6Active tx then true
  else
    match tx.vout.reverse with
    | lastOut :: previous :: _ :: _ =>
      if lastOut.scriptPubKey ≠ previous.scriptPubKey
        then freeOutputAllowed env sources tx lastOut nHeight
      else true
    | _ => true

theorem isPayToColdStaking_delegation :
    CScript.isPayToColdStaking isV6Active (getScriptForStakeDelegation stakingKey spendingKey) =
      true := by
  have stakingSize := stakingKey.size
  have spendingSize := spendingKey.size
  rw [getScriptForStakeDelegation_eq]
  simp [CScript.isPayToColdStaking, delegationThen, delegationElse, delegationEnd, stakingSize,
    spendingSize]

theorem sumValues_concat : sumValues (outs ++ [last]) = wrap64 (sumValues outs + last.nValue) := by
  unfold sumValues
  rw [foldl_append]
  rfl

theorem wrap64_sumValues : wrap64 (sumValues outs) = sumValues outs := by
  rcases eq_nil_or_concat outs with rfl | ⟨init, last, rfl⟩
  · rfl
  · rw [concat_eq_append, sumValues_concat, wrap64, wrap64, Int.bmod_bmod]

open TransactionSignatureChecker in
theorem checkColdStake_second {checker : TransactionSignatureChecker}
    (stakes : checker.checkColdStake script = true) :
    ∃ first second rest, checker.txTo.vout = first :: second :: rest ∧
      second.scriptPubKey = script := by
  simp only [checkColdStake, Bool.and_eq_true, Option.any_eq_true] at stakes
  obtain ⟨⟨coinStake, -⟩, outValue, counted, -⟩ := stakes
  obtain ⟨first, second, rest, pays, -⟩ := CTransaction.vout_of_isCoinStake coinStake
  refine ⟨first, second, rest, pays, ?_⟩
  by_contra differs
  rw [pays] at counted
  simp only [tail_cons, coldStakeValue, length_cons, ne_eq, differs, not_false_eq_true, if_true]
    at counted
  split at counted
  · cases counted
  · omega

/-- Why a last output may pay to another script than the one before it, if it does: it is the
masternode's payment, or the block is a superblock, or nothing can be said about budgets yet.  In
that case an output without value leaves the whole stake and reward to the outputs before it. -/
inductive LastOutputAllowed (nHeight : Nat) (middle : List CTxOut) (last : CTxOut) : Prop where
  | onlyOutput (noMiddle : middle = [])
  | sameScript (previous : CTxOut) (before : middle.getLast? = some previous)
      (same : last.scriptPubKey = previous.scriptPubKey)
  | masternodePayment (paid : last.nValue = getMasternodePayment env nHeight)
  | superblock (budget : sources.isBudgetPaymentBlock nHeight = true)
      (enabled : env.node.spork13Superblocks = true)
  | notSynced (incomplete : env.node.masternodeSynced = false)
      (returned : last.nValue = 0 → ∃ nValue, stakedValue sources tx = some nValue ∧
        sumValues middle = wrap64 (nValue + Env.getBlockValue env nHeight))

end

theorem freeOutputAllowed_ok (pays : tx.vout = first :: (middle ++ [last]))
    (allowed : freeOutputAllowed env sources tx last nHeight = true) :
    LastOutputAllowed env sources tx nHeight middle last := by
  unfold freeOutputAllowed at allowed
  split at allowed
  next paid => exact .masternodePayment paid
  · split at allowed
    · cases allowed
    · split at allowed
      next incomplete =>
        refine .notSynced (by simpa using incomplete) fun worthless => ?_
        cases staked : stakedValue sources tx with
        | none => simp [staked] at allowed
        | some nValue =>
          simp only [staked, pays, tail_cons, decide_eq_true_eq] at allowed
          rw [sumValues_concat, worthless, Int.add_zero, wrap64_sumValues] at allowed
          exact ⟨nValue, rfl, allowed⟩
      · rw [Bool.and_eq_true] at allowed
        exact .superblock allowed.1 allowed.2

/-- The last output of an accepted cold stake. -/
theorem checkColdStakeFreeOutput_ok (env : Env) (sources : FreeOutputSources)
    (checker : TransactionSignatureChecker) (stakingKey spendingKey : CKeyID) (nHeight : Nat)
    (stakes : checker.checkColdStake (getScriptForStakeDelegation stakingKey spendingKey) = true)
    (accepted : checkColdStakeFreeOutput env sources checker.txTo nHeight = true) :
    ∃ first middle last, checker.txTo.vout = first :: (middle ++ [last]) ∧
      LastOutputAllowed env sources checker.txTo nHeight middle last := by
  obtain ⟨first, second, rest, pays, carries⟩ := checkColdStake_second stakes
  have delegates : hasP2CSOutputs env.node.isV6Active checker.txTo = true := by
    simp only [hasP2CSOutputs, any_eq_true]
    exact ⟨second, by simp [pays], by rw [carries]; exact isPayToColdStaking_delegation⟩
  obtain ⟨init, last, shape⟩ : ∃ init last, second :: rest = init ++ [last] :=
    ⟨_, _, (dropLast_append_getLast (cons_ne_nil second rest)).symm⟩
  rw [shape] at pays
  refine ⟨first, init, last, pays, ?_⟩
  simp only [checkColdStakeFreeOutput, delegates, Bool.not_true, Bool.false_eq_true, if_false, pays]
    at accepted
  rcases eq_nil_or_concat init with rfl | ⟨front, previous, rfl⟩
  · exact .onlyOutput rfl
  · simp only [concat_eq_append, reverse_cons, reverse_append, reverse_nil, nil_append,
      cons_append, append_assoc] at accepted
    obtain ⟨third, others, more⟩ :=
      exists_cons_of_ne_nil (show front.reverse ++ [first] ≠ [] by simp)
    rw [more] at accepted
    by_cases same : last.scriptPubKey = previous.scriptPubKey
    · exact .sameScript previous (by simp) same
    · have decided : (if last.scriptPubKey ≠ previous.scriptPubKey then
          freeOutputAllowed env sources checker.txTo last nHeight else true) = true := accepted
      rw [if_pos same] at decided
      exact freeOutputAllowed_ok pays decided

namespace SampleFreeOutput

def node : Env := Env.trusting mainParams

def sources : FreeOutputSources where
  isBudgetPaymentBlock := fun _ => false
  prevoutValue := fun _ => some (10 * coinUnit)

def unsynced : Env := { node with node := { node.node with masternodeSynced := false } }

/-- A cold stake with a free output. -/
def threeOutputs (stake free : Int) : CTransaction :=
  { coinstake with vout := [{ nValue := 0, scriptPubKey := [] },
      { nValue := stake, scriptPubKey := getScriptForStakeDelegation staker owner },
      { nValue := free, scriptPubKey := [0x51] }] }

/-- A free output that pays the masternode, an empty one while the masternodes are not synced, and
another one. -/
theorem checkColdStakeFreeOutput_ok_three_outputs :
    let paying := threeOutputs (11 * coinUnit) (getMasternodePayment node 1900000)
    let returning := threeOutputs (10 * coinUnit + Env.getBlockValue node 1900000) 0
    (∃ first middle last, paying.vout = first :: (middle ++ [last]) ∧
        LastOutputAllowed node sources paying 1900000 middle last) ∧
      (∃ first middle last, returning.vout = first :: (middle ++ [last]) ∧
        LastOutputAllowed unsynced sources returning 1900000 middle last) ∧
      checkColdStakeFreeOutput node sources (threeOutputs (11 * coinUnit) coinUnit) 1900000 = false :=
  ⟨checkColdStakeFreeOutput_ok node sources { checker with txTo := _ } staker owner 1900000
    (by decide) (by decide),
    checkColdStakeFreeOutput_ok unsynced sources { checker with txTo := _ } staker owner 1900000
    (by decide) (by decide), by decide⟩

/-- A cold stake with two outputs has no free one: its last output differs in script from the empty
first output, and it is accepted without being any of the payments. -/
theorem two_output_cold_stake_accepted :
    checker.checkColdStake (getScriptForStakeDelegation staker owner) = true ∧
        checkColdStakeFreeOutput node sources coinstake 1900000 = true ∧
      ¬∃ previous last, coinstake.vout = [previous, last] ∧
        (last.scriptPubKey = previous.scriptPubKey ∨
          last.nValue = getMasternodePayment node 1900000 ∨
          (sources.isBudgetPaymentBlock 1900000 = true ∧ node.node.spork13Superblocks = true) ∨
          (node.node.masternodeSynced = false ∧
            sumValues [] = wrap64 (10 * coinUnit + Env.getBlockValue node 1900000))) := by
  refine ⟨rfl, rfl, ?_⟩
  rintro ⟨previous, last, shape, allowed⟩
  cases shape
  revert allowed
  decide

end SampleFreeOutput

end Deviant.Validation
