import Deviant.Wallet.PaymentConservation

namespace Deviant.Mining

open Masternode Primitives Script Validation Wallet

/-! The coinbase of a proof-of-work template.  `CreateCoinbaseTx` leaves its amounts to
`FillBlockPayee`, gives the value of the block to the first output where that has added nothing, and
`CreateNewBlock` gives the fees to it. -/

structure CMutableTransaction where
  vin : List CTxIn
  vout : List CTxOut

/-- `CScript() << n`. -/
def pushInt (n : Int) : CScript :=
  if n = -1 ∨ (1 ≤ n ∧ n ≤ 16) then [UInt8.ofNat (n + 0x50).toNat]
  else if n = 0 then [0]
  else pushData (getVch n)

def createCoinbaseTx (state : PaymentState) (scriptPubKeyIn : CScript) (prevHeight : Nat) :
    CMutableTransaction :=
  let nHeight := prevHeight + 1
  let vout := state.fillBlockPayee [{ nullOut with scriptPubKey := scriptPubKeyIn }] nHeight false
  { vin := [⟨⟨0, 2 ^ 32 - 1⟩, pushInt nHeight ++ [0], 2 ^ 32 - 1⟩]
    vout :=
      -- no payee was detected
      if vout.length = 1 then vout.modify 0 fun out =>
        { out with nValue := Env.getBlockValue state.env nHeight }
      else vout }

/-- `txCoinbase.vout[0].nValue += nFees`. -/
def addFees (nFees : Int) (tx : CMutableTransaction) : CMutableTransaction :=
  { tx with vout := tx.vout.modify 0 fun out => { out with nValue := wrap64 (out.nValue + nFees) } }

/-- No output is negative, and together they are the value of the block and the fees. -/
def PaysSubsidy (state : PaymentState) (prevHeight : Nat) (nFees : Int) (tx : CMutableTransaction) :
    Prop :=
  (∀ out ∈ tx.vout, 0 ≤ out.nValue) ∧
    total tx.vout = Env.getBlockValue state.env (prevHeight + 1) + nFees

instance : Decidable (PaysSubsidy state prevHeight nFees tx) := inferInstanceAs (Decidable (_ ∧ _))

section

variable {state : PaymentState} {prevHeight : Nat} (disabled : state.superblocks = false)
    (scriptPubKeyIn : CScript)

include disabled

theorem createCoinbaseTx_unpaid (found : masternodePayee state (prevHeight + 1) = none) :
    (createCoinbaseTx state scriptPubKeyIn prevHeight).vout =
      [{ nullOut with scriptPubKey := scriptPubKeyIn },
        { nValue := 0, scriptPubKey := state.devScript }] := by
  simp [createCoinbaseTx, PaymentState.fillBlockPayee, disabled, fillMasternodePayee_unpaid _ found]

theorem createCoinbaseTx_paid (found : masternodePayee state (prevHeight + 1) = some payee) :
    (createCoinbaseTx state scriptPubKeyIn prevHeight).vout =
      [{ nValue :=
            Env.getBlockValue state.env (prevHeight + 1) -
              getMasternodePayment state.env (prevHeight + 1),
          scriptPubKey := scriptPubKeyIn },
        { nValue := getMasternodePayment state.env (prevHeight + 1), scriptPubKey := payee }] := by
  have payment := getMasternodePayment_bounds state.env (prevHeight + 1)
  have value := getBlockValue_bounds state.env (prevHeight + 1)
  have subsidy := blockSubsidy_bounds (prevHeight + 1)
  rw [masternodePayee] at found
  simp [createCoinbaseTx, PaymentState.fillBlockPayee, disabled, PaymentState.fillMasternodePayee,
    found, nullOut]
  exact wrap64_eq (by omega) (by omega)

end

/-- The template pays the value of the block and the fees exactly where a payee is known and the
first output does not overflow: without a payee, the output for the developers keeps the value of
the block from the first one. -/
theorem paysSubsidy_iff (state : PaymentState) (disabled : state.superblocks = false)
    (scriptPubKeyIn : CScript) (prevHeight : Nat) (nFees : Int) (low : 0 ≤ nFees)
    (high : nFees < 2 ^ 63) :
    PaysSubsidy state prevHeight nFees
      (addFees nFees (createCoinbaseTx state scriptPubKeyIn prevHeight)) ↔
      (masternodePayee state (prevHeight + 1)).isSome = true ∧
      Env.getBlockValue state.env (prevHeight + 1) -
        getMasternodePayment state.env (prevHeight + 1) + nFees < 2 ^ 63 := by
  have payment := getMasternodePayment_bounds state.env (prevHeight + 1)
  have value := getBlockValue_bounds state.env (prevHeight + 1)
  unfold PaysSubsidy addFees
  cases found : masternodePayee state (prevHeight + 1) with
  | none =>
    have first : wrap64 (-1 + nFees) = -1 + nFees := wrap64_eq (by omega) (by omega)
    simp [createCoinbaseTx_unpaid disabled scriptPubKeyIn found, nullOut]
    omega
  | some payee =>
    have range := wrap64_bounds (Env.getBlockValue state.env (prevHeight + 1) -
      getMasternodePayment state.env (prevHeight + 1) + nFees)
    simp [createCoinbaseTx_paid disabled scriptPubKeyIn found]
    constructor
    · omega
    · intro fits
      rw [wrap64_eq (by omega) fits]
      omega

namespace SampleTemplate

def unpaid : PaymentState where
  __ := SampleStake.paying
  currentMasterNode := none

end SampleTemplate

theorem paysSubsidy_iff_paying : PaysSubsidy SampleStake.paying 1769999 5000
    (addFees 5000 (createCoinbaseTx SampleStake.paying [4] 1769999)) :=
  (paysSubsidy_iff SampleStake.paying rfl [4] 1769999 5000 (by decide) (by decide)).mpr (by decide)

/-- Where no masternode is known, the block value goes nowhere, and the first output is negative
without fees. -/
theorem unpaid_template_loses_subsidy : SampleTemplate.unpaid.superblocks = false ∧
    (addFees 0 (createCoinbaseTx SampleTemplate.unpaid [4] 1769999)).vout =
      [{ nValue := -1, scriptPubKey := [4] }, { nValue := 0, scriptPubKey := [2] }] ∧
    ¬ PaysSubsidy SampleTemplate.unpaid 1769999 0
      (addFees 0 (createCoinbaseTx SampleTemplate.unpaid [4] 1769999)) := by
  decide

end Deviant.Mining
