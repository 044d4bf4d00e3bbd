import Deviant.Validation.SupplyHistory

namespace Deviant.Validation

open Consensus Primitives

/-! The rewards of a height, with the decimal factors of the source as exact rationals. -/

/-- The schedule.  The products of doubles fall one unit short in two periods, and are exact
elsewhere. -/
def exactSubsidy (nHeight : Nat) : Int :=
  if nHeight < 751300 ∧ 225650 ≤ nHeight then 1640000000
  else if nHeight < 4956500 ∧ 4430850 ≤ nHeight then 335400000
  else blockSubsidy nHeight

section

variable (params : Params) (moneySupply : Int) (nHeight : Nat)

def exactBlockValue : Int :=
  if params.nMaxMoneyOut ≤ moneySupply + exactSubsidy nHeight then 0 else exactSubsidy nHeight

def exactMasternodePayment : Int :=
  let nSubsidy := exactBlockValue params moneySupply nHeight
  if params.nMaxMoneyOut ≤ moneySupply + nSubsidy then 0
  else if nHeight < 200 then 0
  else if nHeight < 100000 ∧ 200 ≤ nHeight then nSubsidy * 4 / 5
  else if 1774000 < nHeight then nSubsidy * 7 / 10
  else nSubsidy * 8 / 10

def exactDevReward : Int := exactBlockValue params moneySupply nHeight * coinUnit / 10

/-- The amount `ret` of `GetTotalBudget`, which is multiplied once more. -/
def exactBudget : Int := exactBlockValue params moneySupply nHeight * (30 * 1440) * coinUnit / 10

def exactTotalBudget : Int := exactBudget params moneySupply nHeight * coinUnit

structure SoundRewards : Prop where
  inRange : ∀ amount ∈ [exactBlockValue params moneySupply nHeight,
    exactMasternodePayment params moneySupply nHeight, exactDevReward params moneySupply nHeight,
    exactTotalBudget params moneySupply nHeight],
    0 ≤ amount ∧ amount ≤ params.nMaxMoneyOut
  fits : ∀ product ∈ [exactBlockValue params moneySupply nHeight * 4,
    exactBlockValue params moneySupply nHeight * (30 * 1440),
    exactDevReward params moneySupply nHeight, exactBudget params moneySupply nHeight,
    exactTotalBudget params moneySupply nHeight], product < 2 ^ 63
  shared : exactMasternodePayment params moneySupply nHeight +
    exactDevReward params moneySupply nHeight ≤ exactBlockValue params moneySupply nHeight
  capped : moneySupply + exactBlockValue params moneySupply nHeight ≤ params.nMaxMoneyOut

end

/-- The dev reward and the budget are multiplied by the number of units in a coin once too often, so
the rewards are sound only where there is no reward left. -/
theorem soundRewards_iff (params : Params) (moneySupply : Int) (nHeight : Nat)
    (recorded : 0 ≤ moneySupply) (limited : moneySupply ≤ params.nMaxMoneyOut) :
    SoundRewards params moneySupply nHeight ↔
      params.nMaxMoneyOut ≤ moneySupply + exactSubsidy nHeight := by
  have positive : 0 < exactSubsidy nHeight := by
    have := blockSubsidy_pos nHeight
    unfold exactSubsidy
    omega
  constructor
  · intro sound
    by_contra paid
    have shared := sound.shared
    simp only [exactMasternodePayment, exactDevReward, exactBlockValue, paid, if_false, coinUnit]
      at shared
    omega
  · intro reached
    have nothing : exactBlockValue params moneySupply nHeight = 0 := if_pos reached
    have unpaid : exactMasternodePayment params moneySupply nHeight = 0 := by
      simp [exactMasternodePayment, nothing]
    constructor <;> simp [exactDevReward, exactTotalBudget, exactBudget, nothing] <;> omega

theorem soundRewards_at_maximum : SoundRewards mainParams mainParams.nMaxMoneyOut 1000000 :=
  (soundRewards_iff mainParams mainParams.nMaxMoneyOut 1000000 (by decide) (by decide)).mpr (by decide)

theorem devReward_above_blockValue : ¬ SoundRewards mainParams 0 1000000 :=
  fun sound => absurd sound.shared (by decide)

end Deviant.Validation
