import Mathlib.Algebra.Order.Ring.Int
import Deviant.Budget.Voting

namespace Deviant.Budget.Voting

open List Primitives SampleBudgets

/-! What a finalized budget pays out, against the total budget it was accepted with.  Only the total
is compared, after machine additions, and neither its parts nor their signs are looked at. -/

namespace CFinalizedBudget

def payout (payments : List CTxBudgetPayment) : Int := (payments.map CTxBudgetPayment.nAmount).sum

/-- The payments lie between nothing and the total budget, so does their sum, and no addition leaves
the range of a machine integer. -/
structure WithinBudget (nTotalBudget : Int) (budget : CFinalizedBudget) : Prop where
  amounts : ∀ payment ∈ budget.vecBudgetPayments, 0 ≤ payment.nAmount ∧
    payment.nAmount ≤ nTotalBudget
  total : payout budget.vecBudgetPayments ≤ nTotalBudget
  exact : ∀ added, added <+: budget.vecBudgetPayments → -2 ^ 63 ≤ payout added ∧
    payout added < 2 ^ 63

theorem payout_append : payout (first ++ second) = payout first + payout second := by
  simp [payout]

theorem payout_nonneg (low : ∀ payment ∈ payments, 0 ≤ payment.nAmount) : 0 ≤ payout payments := by
  apply sum_nonneg
  intro amount member
  obtain ⟨payment, paid, rfl⟩ := mem_map.mp member
  exact low payment paid

theorem getTotalPayout_eq (budget : CFinalizedBudget) :
    budget.getTotalPayout = wrap64 (payout budget.vecBudgetPayments) := by
  have running : ∀ (payments : List CTxBudgetPayment) (ret : Int),
      payments.foldl (fun ret payment => wrap64 (ret + payment.nAmount)) (wrap64 ret) =
        wrap64 (ret + payout payments) := by
    intro payments
    induction payments with
    | nil =>
      intro ret
      simp [payout]
    | cons payment payments ih =>
      intro ret
      rw [foldl_cons, wrap64_wrap64_add, ih]
      simp [payout, Int.add_assoc]
  have start := running budget.vecBudgetPayments 0
  rw [Int.zero_add] at start
  exact start

theorem le_payout (low : ∀ payment ∈ payments, 0 ≤ payment.nAmount) :
    (∀ payment ∈ payments, payment.nAmount ≤ payout payments) ∧
      ∀ added, added <+: payments → 0 ≤ payout added ∧ payout added ≤ payout payments := by
  constructor
  · intro payment member
    apply single_le_sum
    · intro amount paid
      obtain ⟨other, otherPaid, rfl⟩ := mem_map.mp paid
      exact low other otherPaid
    · exact mem_map_of_mem member
  · rintro added ⟨rest, rfl⟩
    have addedLow := payout_nonneg fun payment member => low payment (mem_append_left rest member)
    have restLow := payout_nonneg fun payment member => low payment (mem_append_right added member)
    rw [payout_append]
    omega

theorem withinBudget_iff {budget : CFinalizedBudget} (fits : nTotalBudget < 2 ^ 63)
    (checked : budget.getTotalPayout ≤ nTotalBudget) : budget.WithinBudget nTotalBudget ↔
      (∀ payment ∈ budget.vecBudgetPayments, 0 ≤ payment.nAmount) ∧
      payout budget.vecBudgetPayments < 2 ^ 63 := by
  constructor
  · intro within
    exact ⟨fun payment member => (within.amounts payment member).1, by have := within.total; omega⟩
  · rintro ⟨low, small⟩
    have sumLow := payout_nonneg low
    have total : payout budget.vecBudgetPayments ≤ nTotalBudget := by
      rw [getTotalPayout_eq, wrap64_eq (by omega) small] at checked
      exact checked
    obtain ⟨each, parts⟩ := le_payout low
    refine ⟨fun payment member => ⟨low payment member, (each payment member).trans total⟩, total, ?_⟩
    intro added within
    have part := parts added within
    omega

end CFinalizedBudget

variable {signer : BudgetSigner} {chain : BudgetChain} {manager : CBudgetManager}
    {budget : CFinalizedBudget}

theorem isWellFormed_of_addFinalizedBudget
    (accepted : (manager.addFinalizedBudget signer chain budget).1 = true) :
    budget.isWellFormed chain (chain.getTotalBudget budget.nBlockStart) = .ok () := by
  unfold CBudgetManager.addFinalizedBudget at accepted
  dsimp only at accepted
  split at accepted
  · cases accepted
  · cases formed : budget.isWellFormed chain (chain.getTotalBudget budget.nBlockStart) with
    | ok _ => rfl
    | error reason =>
      rw [formed] at accepted
      cases accepted

theorem getTotalPayout_le_of_isWellFormed (formed : budget.isWellFormed chain nTotalBudget = .ok ()) :
    budget.getTotalPayout ≤ nTotalBudget := by
  unfold CFinalizedBudget.isWellFormed at formed
  cases startEnd : budget.checkStartEnd chain with
  | error reason =>
    rw [startEnd] at formed
    cases formed
  | ok _ =>
    by_cases more : budget.getTotalPayout > nTotalBudget
    · rw [startEnd, CFinalizedBudget.checkAmount, if_pos more] at formed
      cases formed
    · exact Int.not_lt.mp more

/-- An accepted budget stays within the total budget exactly if none of its payments is negative and
their sum is in the range of a machine integer. -/
theorem accepted_withinBudget_iff (signer : BudgetSigner) (chain : BudgetChain)
    (manager : CBudgetManager) (budget : CFinalizedBudget)
    (fits : chain.getTotalBudget budget.nBlockStart < 2 ^ 63)
    (accepted : (manager.addFinalizedBudget signer chain budget).1 = true) :
    budget.WithinBudget (chain.getTotalBudget budget.nBlockStart) ↔
      (∀ payment ∈ budget.vecBudgetPayments, 0 ≤ payment.nAmount) ∧
        CFinalizedBudget.payout budget.vecBudgetPayments < 2 ^ 63 :=
  CFinalizedBudget.withinBudget_iff fits
    (getTotalPayout_le_of_isWellFormed (isWellFormed_of_addFinalizedBudget accepted))

/-- Two payments that together come to the whole budget. -/
theorem accepted_withinBudget_two :
    (SampleBudgets.budget [600 * coinUnit, 400 * coinUnit]).WithinBudget (1000 * coinUnit) :=
  (accepted_withinBudget_iff signer chain manager (budget [600 * coinUnit, 400 * coinUnit])
    (by decide) (by decide)).mpr
    (by decide)

/-- A payment of five times the total budget passes next to a negative one. -/
theorem negative_payment_accepted : let budget := SampleBudgets.budget [5000 * coinUnit, -4500 * coinUnit]
    (SampleBudgets.manager.addFinalizedBudget SampleBudgets.signer SampleBudgets.chain budget).1 = true ∧
      ¬ budget.WithinBudget (SampleBudgets.chain.getTotalBudget budget.nBlockStart) := by
  refine ⟨by decide, fun within => ?_⟩
  have bounds := within.amounts ⟨5, [0x51], 5000 * coinUnit⟩ (by decide)
  exact absurd bounds.2 (by decide)

end Deviant.Budget.Voting
