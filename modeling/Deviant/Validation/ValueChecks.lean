import Deviant.Validation.ConnectSpec
import Mathlib.Algebra.Order.BigOperators.Group.List

namespace Deviant.Validation

open Coins Consensus Data List PlainView Primitives Program

/-! The amounts of a transaction that `CheckTransaction` and `CheckTxInputs` accept: no sum leaves
the range of its type, and what is spent covers what is created.  A coinstake creates more, and the
second check leaves it to the block. -/

def valuesOut (tx : CTransaction) : List Int := tx.vout.map CTxOut.nValue

def valuesIn (plain : PlainView) (inputs : List CTxIn) : List Int :=
  inputs.map fun input => ((plain.coins input.prevout).getD Coin.empty).out.nValue

def totalOut (tx : CTransaction) : Int := (valuesOut tx).sum + shieldedValueOut tx

def totalIn (plain : PlainView) (tx : CTransaction) :
    Int := (valuesIn plain tx.vin).sum + shieldedValueIn tx

/-- The exact values of the sums: of `CheckTransaction`, which starts from the Sapling balance, of
`GetValueOut`, and of `CheckTxInputs` with `GetShieldedValueIn`, up to the fee. -/
def sums (plain : PlainView) (tx : CTransaction) : List Int :=
  (valuesOut tx).scanl (· + ·) (shieldedValueOut tx) ++ (valuesOut tx).scanl (· + ·) 0 ++
    (valuesIn plain tx.vin).scanl (· + ·) 0 ++
    [totalOut tx, shieldedValueIn tx, totalIn plain tx, totalIn plain tx - totalOut tx]

theorem scanl_bounds {values : List Int} (each : ∀ value ∈ values, 0 ≤ value) {start sum : Int}
    (member : sum ∈ values.scanl (· + ·) start) : start ≤ sum ∧ sum ≤ start + values.sum := by
  induction values generalizing start with
  | nil => simp_all
  | cons value rest ih =>
    obtain ⟨positive, later⟩ := forall_mem_cons.mp each
    have total := sum_nonneg later
    rw [sum_cons]
    simp only [scanl_cons, mem_cons] at member
    rcases member with rfl | further
    · omega
    · have bounds := ih later further
      omega

section

variable {params : Params} {fZerocoinActive fSaplingActive : Bool} {tx : CTransaction}

theorem sumOutputs_exact {outs : List CTxOut} {nValueOut : Int}
    (each : ∀ value ∈ outs.map CTxOut.nValue, 0 ≤ value) (started : 0 ≤ nValueOut)
    (fits : nValueOut + (outs.map CTxOut.nValue).sum < 2 ^ 63) :
    sumOutputs outs nValueOut = .ok (nValueOut + (outs.map CTxOut.nValue).sum) := by
  induction outs generalizing nValueOut with
  | nil => simp [sumOutputs]
  | cons out rest ih =>
    obtain ⟨positive, later⟩ := forall_mem_cons.mp each
    have total := sum_nonneg later
    rw [map_cons, sum_cons] at fits ⊢
    rw [sumOutputs, if_neg (by omega), wrap64_eq (by omega) (by omega), if_neg (by omega),
      ih later (by omega) (by omega), add_assoc]

variable (checked : TransactionChecked params fZerocoinActive fSaplingActive tx)

include checked

theorem valuesOut_nonneg : ∀ value ∈ valuesOut tx, 0 ≤ value := by
  intro value member
  obtain ⟨out, inside, rfl⟩ := mem_map.mp member
  exact (checked.outputs out inside).1

theorem out_bounds (positive : 0 ≤ params.nMaxMoneyOut) (fits : params.nMaxMoneyOut < 2 ^ 62) :
    0 ≤ (valuesOut tx).sum ∧ 0 ≤ shieldedValueOut tx ∧ totalOut tx ≤ params.nMaxMoneyOut := by
  have total := checked.total positive fits
  refine ⟨sum_nonneg (valuesOut_nonneg checked), ?_, (add_comm _ _).trans_le total⟩
  unfold shieldedValueOut
  split <;> omega

theorem getValueOut_exact (positive : 0 ≤ params.nMaxMoneyOut) (fits : params.nMaxMoneyOut < 2 ^ 62) :
    getValueOut tx = .ok (totalOut tx) := by
  obtain ⟨low, shielded, high⟩ := out_bounds checked positive fits
  unfold totalOut at high ⊢
  have outputs : sumOutputs tx.vout 0 = .ok (0 + (valuesOut tx).sum) :=
    sumOutputs_exact (valuesOut_nonneg checked) le_rfl (show 0 + (valuesOut tx).sum < 2 ^ 63 by omega)
  rw [getValueOut, outputs]
  unfold shieldedValueOut at high ⊢
  split at high
  next taken =>
    have data := hasSaplingData_of_valueBalance (by omega : tx.valueBalance ≠ 0)
    have negated : wrap64 (-tx.valueBalance) = -tx.valueBalance := wrap64_eq (by omega) (by omega)
    simp only [data, taken, (checked.sapling data).version, decide_true, Bool.and_self,
      if_true, negated]
    exact congrArg Except.ok ((wrap64_eq (by omega) (by omega)).trans (by omega))
  next kept =>
    simp only [kept, decide_false, Bool.and_false, Bool.false_eq_true, if_false]
    exact congrArg Except.ok (by omega)

theorem getShieldedValueIn_exact (positive : 0 ≤ params.nMaxMoneyOut) :
    getShieldedValueIn tx = .ok (shieldedValueIn tx) ∧ 0 ≤ shieldedValueIn tx ∧
      shieldedValueIn tx ≤ params.nMaxMoneyOut := by
  unfold getShieldedValueIn shieldedValueIn
  by_cases given : 0 < tx.valueBalance
  · have data := hasSaplingData_of_valueBalance given.ne'
    have sapling := checked.sapling data
    simp [data, given, sapling.version, sapling.balanceHigh, given.le]
  · simp [given, positive]

end

section

variable [PedersenHash] {Known : SaplingMerkleTree → Prop} [DecidablePred Known]
    {plain after : PlainView} {params : Params}

theorem checkInputValues_ok (fits : params.nMaxMoneyOut < 2 ^ 62) {nValueIn result : Int}
    (started : 0 ≤ nValueIn ∧ nValueIn ≤ params.nMaxMoneyOut)
    (ran : run (step Known) (checkInputValues params nSpendHeight inputs nValueIn) plain =
      .ok (result, after)) :
    (∀ value ∈ valuesIn plain inputs, 0 ≤ value) ∧ result = nValueIn + (valuesIn plain inputs).sum ∧
      result ≤ params.nMaxMoneyOut := by
  induction inputs generalizing nValueIn with
  | nil =>
    cases ran
    exact ⟨nofun, (add_zero _).symm, started.2⟩
  | cons input rest ih =>
    rw [checkInputValues, run_bind_ok (run_accessCoin plain)] at ran
    split at ran
    · cases ran
    · obtain ⟨_, _, ran⟩ := run_lift_bind ran
      obtain ⟨_, inRange, ran⟩ := run_lift_bind ran
      rw [require_eq_ok, Bool.and_eq_true, Params.moneyRange_iff, Params.moneyRange_iff] at inRange
      rw [wrap64_eq (by omega) (by omega)] at inRange ran
      obtain ⟨later, same, bounded⟩ := ih inRange.2 ran
      refine ⟨forall_mem_cons.mpr ⟨inRange.1.1, later⟩, ?_, bounded⟩
      rw [same, valuesIn, valuesIn, map_cons, sum_cons, add_assoc]

/-- No sum of the two checks overflows, and the value functions return the exact sums.  Unless the
transaction is a coinstake, it spends at least what it creates, and the difference is a fee in
range. -/
theorem accepted_values_exact (env : Env) (positive : 0 ≤ env.params.nMaxMoneyOut)
    (fits : env.params.nMaxMoneyOut < 2 ^ 62)
    (checked : checkTransaction env tx fZerocoinActive fFakeSerialAttack fColdStakingActive
      fSaplingActive = .ok ())
    (accepted : run (step Known) (checkTxInputs env.params tx nSpendHeight) plain =
      .ok ((), after)) :
    (∀ sum ∈ sums plain tx, -2 ^ 63 ≤ sum ∧ sum < 2 ^ 63) ∧
      getValueOut tx = .ok (totalOut tx) ∧ getShieldedValueIn tx = .ok (shieldedValueIn tx) ∧
      (tx.isCoinStake = false → totalOut tx ≤ totalIn plain tx ∧
        totalIn plain tx - totalOut tx ≤ env.params.nMaxMoneyOut) := by
  have established := checkTransaction_ok checked
  have valueOut := getValueOut_exact established positive fits
  obtain ⟨shieldedIn, shieldedLow, shieldedHigh⟩ := getShieldedValueIn_exact established positive
  obtain ⟨outLow, shieldedOut, outHigh⟩ := out_bounds established positive fits
  obtain ⟨-, ran⟩ := run_asked_bind (haveInputs_reads Known tx) accepted
  obtain ⟨-, ran⟩ := run_asked_bind (haveShieldedRequirements_reads Known tx) ran
  obtain ⟨nTransparent, values, ran⟩ := run_reads_bind (checkInputValues_reads Known tx.vin 0) ran
  obtain ⟨each, isSum, bounded⟩ := checkInputValues_ok fits ⟨le_rfl, positive⟩ values
  rw [zero_add] at isSum
  have inLow := sum_nonneg each
  obtain ⟨shielded, counted, ran⟩ := run_lift_bind ran
  cases shieldedIn.symm.trans counted
  have isIn : totalIn plain tx = (valuesIn plain tx.vin).sum + shieldedValueIn tx := rfl
  have isOut : totalOut tx = (valuesOut tx).sum + shieldedValueOut tx := rfl
  have exact : wrap64 (nTransparent + shieldedValueIn tx) = totalIn plain tx := by
    rw [isSum]
    exact wrap64_eq (by omega) (by omega)
  refine ⟨?_, valueOut, shieldedIn, fun spends => ?_⟩
  · intro sum member
    simp only [sums, mem_append, mem_cons, not_mem_nil, or_false] at member
    rcases member with ((first | second) | third) | last
    · have bounds := scanl_bounds (valuesOut_nonneg established) first
      omega
    · have bounds := scanl_bounds (valuesOut_nonneg established) second
      omega
    · have bounds := scanl_bounds each third
      omega
    · omega
  · rw [spends, if_neg Bool.false_ne_true] at ran
    obtain ⟨nValueOut, counted, ran⟩ := run_lift_bind ran
    cases valueOut.symm.trans counted
    obtain ⟨_, enough, ran⟩ := run_lift_bind ran
    obtain ⟨_, _, ran⟩ := run_lift_bind ran
    have fee := ((run_lift_eq_ok plain).mp ran).1
    rw [require_eq_ok, exact, decide_eq_true_eq] at enough
    rw [require_eq_ok, exact, Params.moneyRange_iff, wrap64_eq (by omega) (by omega)] at fee
    exact ⟨enough, fee.2⟩

end

namespace SampleValues

local instance constantHash : PedersenHash := ⟨fun _ => 0⟩

def plain : PlainView where
  coins outpoint := if outpoint = ⟨9, 0⟩ then some { out := ⟨500, [0x51], -10⟩, nHeight := 1 }
    else none
  nullifiers _ := false
  anchors _ := none
  bestAnchor := 0
  bestBlock := 0

def spending (vout : List CTxOut) : CTransaction :=
  { hash := 11, nVersion := 1, vin := [⟨⟨9, 0⟩, [], 0⟩], vout := vout }

def payment : CTransaction := spending [⟨400, [0x51], -10⟩]

def coinstake : CTransaction := spending [⟨0, [], -10⟩, ⟨600, [0x51], -10⟩]

theorem accepted_values_exact_payment :
    totalOut payment ≤ totalIn plain payment ∧
      totalIn plain payment - totalOut payment ≤ mainParams.nMaxMoneyOut := by
  have checked : checkTransaction (Env.trusting mainParams) payment true false true true = .ok () :=
    rfl
  have accepted : run (step fun _ => True) (checkTxInputs mainParams payment 100) plain =
    .ok ((), plain) := rfl
  exact (accepted_values_exact (Env.trusting mainParams) (by decide)
    (by decide) checked accepted).2.2.2 rfl

/-- A coinstake that creates more than it spends passes both checks. -/
theorem coinstake_accepted :
    checkTransaction (Env.trusting mainParams) coinstake true false true true = .ok () ∧
      run (step fun _ => True) (checkTxInputs mainParams coinstake 100) plain = .ok ((), plain) ∧
    totalIn plain coinstake < totalOut coinstake := ⟨rfl, rfl, by decide⟩

end SampleValues

end Deviant.Validation
