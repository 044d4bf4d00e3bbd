import Deviant.Data.MapMerge
import Deviant.Primitives.Transaction

namespace Deviant.Budget

open Data Primitives

/-! Finalized budgets: which proposal is paid at which height of a window of blocks. -/

structure CTxBudgetPayment where
  nProposalHash : Uint256
  payee : CScript
  nAmount : Int
deriving DecidableEq

/-- A finalized budget.  Of its votes only the number matters. -/
structure CFinalizedBudget where
  nBlockStart : Int
  vecBudgetPayments : List CTxBudgetPayment
  voteCount : Nat := 0
deriving DecidableEq

inductive TrxValidationStatus where
  | inValid
  | valid
  | doublePayment
  | voteThreshold
deriving DecidableEq

/-- `mapPayment_History`: for a proposal, the hash and the height of the block that paid it. -/
abbrev PaymentHistory := Table Uint256 (Uint256 × Int)

namespace CFinalizedBudget

section

variable (budget : CFinalizedBudget)

def getBlockStart : Int := budget.nBlockStart

def getBlockEnd : Int := budget.nBlockStart + (budget.vecBudgetPayments.length - 1)

def getVoteCount : Int := budget.voteCount

def getBudgetPaymentByBlock (nBlockHeight : Int) : Option CTxBudgetPayment :=
  let i := nBlockHeight - budget.getBlockStart
  if i < 0 then none
  else if i > budget.vecBudgetPayments.length - 1 then none
  else budget.vecBudgetPayments[i.toNat]?

def getPayeeAndAmount (nBlockHeight : Int) : Option (CScript × Int) :=
  let i := nBlockHeight - budget.getBlockStart
  if i < 0 then none
  else if i > budget.vecBudgetPayments.length - 1 then none
  else budget.vecBudgetPayments[i.toNat]?.map fun payment => (payment.payee, payment.nAmount)

/-- Whether the payment was made by another block of the active chain.  The check itself is noted in
the history, before anything is known about the payment. -/
def isPaidAlready (chainContains : Uint256 → Bool) (history : PaymentHistory)
    (nProposalHash nBlockHash : Uint256) (nBlockHeight : Int) : Bool × PaymentHistory :=
  -- remove budget payments from former and future payment cycles
  let history := history.eraseWhere fun paid => paid.2 < budget.getBlockStart ||
    paid.2 > budget.getBlockEnd
  match history.lookup nProposalHash with
  | none => (false, history.insert nProposalHash (nBlockHash, nBlockHeight))
  | some (nPaidBlockHash, _) =>
    (nBlockHash != nPaidBlockHash && chainContains nPaidBlockHash, history)

def findPayment (payment : CTxBudgetPayment) (vout : List CTxOut) : Bool :=
  vout.reverse.any fun out => payment.payee == out.scriptPubKey && payment.nAmount == out.nValue

def isTransactionValid (chainContains : Uint256 → Bool) (history : PaymentHistory)
    (txNew : CTransaction) (nBlockHash : Uint256) (nBlockHeight : Int) :
    TrxValidationStatus × PaymentHistory :=
  let nBlockEnd := budget.getBlockEnd
  if nBlockHeight > nBlockEnd then (.inValid, history)
  else if nBlockHeight < budget.nBlockStart then (.inValid, history)
  else
    let nCurrentBudgetPayment := nBlockHeight - budget.nBlockStart
    if nCurrentBudgetPayment > budget.vecBudgetPayments.length - 1 then (.inValid, history)
    else
      match budget.vecBudgetPayments[nCurrentBudgetPayment.toNat]? with
      | none => (.inValid, history)
      | some payment =>
        let paidAlready :=
          budget.isPaidAlready chainContains history payment.nProposalHash nBlockHash nBlockHeight
        if paidAlready.1 then (.doublePayment, paidAlready.2)
        else if findPayment payment txNew.vout then (.valid, paidAlready.2)
        else (.inValid, paidAlready.2)

end

variable {budget : CFinalizedBudget} {nBlockHeight : Int}

def InWindow (budget : CFinalizedBudget) (nBlockHeight : Int) : Prop :=
  budget.getBlockStart ≤ nBlockHeight ∧ nBlockHeight ≤ budget.getBlockEnd

instance (budget : CFinalizedBudget) (nBlockHeight : Int) :
    Decidable (budget.InWindow nBlockHeight) :=
  inferInstanceAs (Decidable (_ ∧ _))

theorem inWindow_iff : budget.InWindow nBlockHeight ↔
    budget.nBlockStart ≤ nBlockHeight ∧
      nBlockHeight ≤ budget.nBlockStart + (budget.vecBudgetPayments.length - 1) :=
  Iff.rfl

theorem getBudgetPaymentByBlock_eq : budget.getBudgetPaymentByBlock nBlockHeight =
      if budget.InWindow nBlockHeight
        then budget.vecBudgetPayments[(nBlockHeight - budget.nBlockStart).toNat]?
      else none := by
  unfold getBudgetPaymentByBlock getBlockStart
  by_cases inside : budget.InWindow nBlockHeight
  · have bounds := inWindow_iff.mp inside
    rw [if_pos inside, if_neg (by omega), if_neg (by omega)]
  · have bounds := mt inWindow_iff.mpr inside
    rw [if_neg inside]
    by_cases low : nBlockHeight - budget.nBlockStart < 0
    · rw [if_pos low]
    · rw [if_neg low, if_pos (by omega)]

theorem inWindow_of_payment (found : budget.getBudgetPaymentByBlock nBlockHeight = some payment) :
    budget.InWindow nBlockHeight := by
  rw [getBudgetPaymentByBlock_eq] at found
  split at found
  · assumption
  · cases found

variable (budget : CFinalizedBudget)

variable (chainContains : Uint256 → Bool)

variable (history : PaymentHistory)

theorem isTransactionValid_eq :
    budget.isTransactionValid chainContains history txNew nBlockHash nBlockHeight =
        match budget.getBudgetPaymentByBlock nBlockHeight with
      | none => (.inValid, history)
      | some payment =>
        let paidAlready :=
          budget.isPaidAlready chainContains history payment.nProposalHash nBlockHash nBlockHeight
        (if paidAlready.1 then .doublePayment else if findPayment payment txNew.vout
          then .valid else .inValid,
          paidAlready.2) := by
  rw [getBudgetPaymentByBlock_eq]
  unfold isTransactionValid getBlockEnd
  by_cases inside : budget.InWindow nBlockHeight
  · have bounds := inWindow_iff.mp inside
    rw [if_pos inside, if_neg (by omega), if_neg (by omega), if_neg (by omega)]
    cases budget.vecBudgetPayments[(nBlockHeight - budget.nBlockStart).toNat]? with
    | none => rfl
    | some payment =>
      dsimp only
      split
      · rfl
      · split <;> rfl
  · have bounds := mt inWindow_iff.mpr inside
    rw [if_neg inside]
    by_cases high : nBlockHeight > budget.nBlockStart + (budget.vecBudgetPayments.length - 1)
    · rw [if_pos high]
    · rw [if_neg high, if_pos (by omega)]

theorem findPayment_iff :
    findPayment payment vout = true ↔ ∃ out ∈ vout, payment.payee = out.scriptPubKey ∧
      payment.nAmount = out.nValue := by
  simp [findPayment]

def recordedPayment (nProposalHash : Uint256) : Option (Uint256 × Int) :=
  (history.lookup nProposalHash).filter fun paid => decide (budget.InWindow paid.2)

theorem lookup_currentCycle (query : Uint256) :
    (history.eraseWhere fun paid => paid.2 < budget.getBlockStart ||
      paid.2 > budget.getBlockEnd).lookup query =
      budget.recordedPayment history query := by
  rw [Table.lookup_eraseWhere]
  congr 1
  funext paid
  by_cases inside : budget.InWindow paid.2
  · have bounds : budget.getBlockStart ≤ paid.2 ∧ paid.2 ≤ budget.getBlockEnd := inside
    rw [decide_eq_true inside, decide_eq_false (by omega), decide_eq_false (by omega)]
    rfl
  · have bounds : ¬ (budget.getBlockStart ≤ paid.2 ∧ paid.2 ≤ budget.getBlockEnd) := inside
    rw [decide_eq_false inside, Bool.not_eq_false', Bool.or_eq_true, decide_eq_true_eq,
      decide_eq_true_eq]
    omega

theorem isPaidAlready_eq (nProposalHash nBlockHash : Uint256) (nBlockHeight : Int) :
    (budget.isPaidAlready chainContains history nProposalHash nBlockHash nBlockHeight).1 = true ↔
      ∃ paid ∈ budget.recordedPayment history nProposalHash, nBlockHash ≠ paid.1 ∧
      chainContains paid.1 = true := by
  unfold isPaidAlready
  dsimp only
  rw [lookup_currentCycle]
  cases budget.recordedPayment history nProposalHash with
  | none => simp
  | some paid => simp

theorem lookup_isPaidAlready :
    (budget.isPaidAlready chainContains history nProposalHash nBlockHash nBlockHeight).2.lookup query =
      (budget.recordedPayment history query).or
        (if query = nProposalHash then some (nBlockHash, nBlockHeight) else none) := by
  have current := lookup_currentCycle budget history
  unfold isPaidAlready
  dsimp only
  rw [current]
  cases found : budget.recordedPayment history nProposalHash with
  | none =>
    rw [Table.lookup_insert_eq, current]
    split
    next same => rw [same, found, Option.none_or]
    · rw [Option.or_none]
  | some paid =>
    rw [current]
    split
    next same => rw [same, found, Option.some_or]
    · rw [Option.or_none]

end CFinalizedBudget

end Deviant.Budget
