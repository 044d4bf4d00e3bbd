import Deviant.Budget.FinalizedBudget

namespace Deviant.Budget

open List Primitives CFinalizedBudget

/-! The choice among the finalized budgets, and the check of a payment against those that have
enough votes. -/

/-- The budgets in the order of the map, and the number of enabled masternodes.  A map of the
program has fewer than `2 ^ 62` entries. -/
structure CBudgetManager where
  mapFinalizedBudgets : List CFinalizedBudget
  nCountEnabled : Nat
  bounded : mapFinalizedBudgets.length < 2 ^ 62

namespace CBudgetManager

def higherVoted (chainHeight : Int) (best : Option CFinalizedBudget × Int) (budget : CFinalizedBudget) :
    Option CFinalizedBudget × Int :=
  if budget.getVoteCount > best.2 ∧ chainHeight ≥ budget.getBlockStart ∧
    chainHeight ≤ budget.getBlockEnd then
    (some budget, budget.getVoteCount)
  else best

section

variable (manager : CBudgetManager)

variable (chainHeight : Int)

def getBudgetWithHighestVoteCount : Option CFinalizedBudget :=
  (manager.mapFinalizedBudgets.foldl (higherVoted chainHeight) (none, 0)).1

def getHighestVoteCount : Int :=
  match manager.getBudgetWithHighestVoteCount chainHeight with
  | some budget => budget.getVoteCount
  | none => -1

def countThreshold (nBlockHeight : Int) : Int :=
  let nHighestCount := manager.getHighestVoteCount nBlockHeight
  let nCountThreshold := nHighestCount - manager.nCountEnabled / 10
  if nCountThreshold = nHighestCount then nCountThreshold - 1 else nCountThreshold

def isBudgetPaymentBlock (nBlockHeight : Int) : Bool :=
  decide (manager.getHighestVoteCount nBlockHeight > manager.nCountEnabled / 20)

def getPayeeAndAmount : Option (CScript × Int) :=
  if !manager.isBudgetPaymentBlock chainHeight then none
  else
    match manager.getBudgetWithHighestVoteCount chainHeight with
    | none => none
    | some budget =>
      match budget.getPayeeAndAmount chainHeight with
      | none => none
      | some found => if budget.getVoteCount > manager.countThreshold chainHeight then some found
        else none

def getExpectedPayeeAmount : Option Int :=
  (manager.getPayeeAndAmount chainHeight).map fun found => found.2

/-- The loop over the budgets: whether one had enough votes, and whether the payment was found. -/
def checkBudgets (nCountThreshold : Int) (chainContains : Uint256 → Bool) (txNew : CTransaction)
    (nBlockHash : Uint256) (nBlockHeight : Int) :
    (fThreshold : Bool) → PaymentHistory → List CFinalizedBudget → TrxValidationStatus × PaymentHistory
  | fThreshold, history, [] => (if fThreshold then .inValid else .voteThreshold, history)
  | fThreshold, history, budget :: budgets =>
    if budget.getVoteCount > nCountThreshold then
      let checked := budget.isTransactionValid chainContains history txNew nBlockHash nBlockHeight
      if checked.1 = .valid then checked
      else checkBudgets nCountThreshold chainContains txNew nBlockHash nBlockHeight true checked.2 budgets
    else checkBudgets nCountThreshold chainContains txNew nBlockHash nBlockHeight fThreshold
      history budgets

def isTransactionValid (chainContains : Uint256 → Bool) (history : PaymentHistory)
    (txNew : CTransaction) (nBlockHash : Uint256) (nBlockHeight : Int) :
    TrxValidationStatus × PaymentHistory :=
  if !manager.isBudgetPaymentBlock nBlockHeight then (.inValid, history)
  else
    checkBudgets (manager.countThreshold nBlockHeight) chainContains txNew nBlockHash nBlockHeight
      false history manager.mapFinalizedBudgets

end

variable {manager : CBudgetManager} {nBlockHeight : Int} {budget : CFinalizedBudget}

theorem foldl_higherVoted_mem {budgets : List CFinalizedBudget}
    (found : (budgets.foldl (higherVoted nBlockHeight) best).1 = some budget) :
    best.1 = some budget ∨ budget ∈ budgets := by
  induction budgets generalizing best with
  | nil => exact .inl found
  | cons first budgets ih =>
    rcases ih found with kept | member
    · unfold higherVoted at kept
      split at kept
      · cases kept
        exact .inr mem_cons_self
      · exact .inl kept
    · exact .inr (mem_cons_of_mem first member)

theorem countThreshold_lt (manager : CBudgetManager) (nBlockHeight : Int) :
    manager.countThreshold nBlockHeight < manager.getHighestVoteCount nBlockHeight := by
  unfold countThreshold
  dsimp only
  split <;> omega

theorem exists_of_isBudgetPaymentBlock (paid : manager.isBudgetPaymentBlock nBlockHeight = true) :
    ∃ budget ∈ manager.mapFinalizedBudgets,
      manager.countThreshold nBlockHeight < budget.getVoteCount := by
  have enough := of_decide_eq_true paid
  have below := manager.countThreshold_lt nBlockHeight
  unfold getHighestVoteCount at enough below
  cases found : manager.getBudgetWithHighestVoteCount nBlockHeight with
  | none =>
    rw [found] at enough
    dsimp only at enough
    omega
  | some budget =>
    rw [found] at below
    exact ⟨budget, (foldl_higherVoted_mem found).resolve_left nofun, below⟩

variable {chainContains : Uint256 → Bool} {history : PaymentHistory} {txNew : CTransaction}
    {nBlockHash : Uint256}

def OnChainRecord (chainContains : Uint256 → Bool) (history : PaymentHistory)
    (nProposalHash : Uint256) (paid : Uint256 × Int) : Prop :=
  history.lookup nProposalHash = some paid ∧ chainContains paid.1 = true

/-- A budget pays at a height, unless its payment is on record for the active chain and the record
is within the windows of the budget and of all those that were looked at before it. -/
def Offers (chainContains : Uint256 → Bool) (history : PaymentHistory) (nBlockHeight : Int)
    (before : List CFinalizedBudget) (budget : CFinalizedBudget) (payment : CTxBudgetPayment) : Prop :=
  budget.getBudgetPaymentByBlock nBlockHeight = some payment ∧
    ∀ paid, OnChainRecord chainContains history payment.nProposalHash paid → budget.InWindow paid.2 →
      ∃ earlier ∈ before, earlier.InWindow nBlockHeight ∧ ¬ earlier.InWindow paid.2

theorem exists_payment_iff :
    (∃ payment, budget.getBudgetPaymentByBlock nBlockHeight = some payment) ↔
      budget.InWindow nBlockHeight := by
  constructor
  · rintro ⟨payment, due⟩
    exact inWindow_of_payment due
  · intro inside
    have bounds := inWindow_iff.mp inside
    rw [getBudgetPaymentByBlock_eq, if_pos inside]
    exact ⟨_, List.getElem?_eq_getElem (by omega)⟩

theorem onChainRecord_isTransactionValid (fresh : chainContains nBlockHash = false) :
        OnChainRecord chainContains
          (budget.isTransactionValid chainContains history txNew nBlockHash nBlockHeight).2
          nProposalHash paid ↔
      OnChainRecord chainContains history nProposalHash paid ∧
        (budget.InWindow nBlockHeight → budget.InWindow paid.2) := by
  rw [isTransactionValid_eq]
  cases due : budget.getBudgetPaymentByBlock nBlockHeight with
  | none =>
    have outside : ¬ budget.InWindow nBlockHeight := by
      rw [← exists_payment_iff, due]
      simp
    simp [outside]
  | some payment =>
    have inside := inWindow_of_payment due
    simp only [inside, true_implies]
    unfold OnChainRecord
    rw [lookup_isPaidAlready, Option.or_eq_some_iff, recordedPayment, Option.filter_eq_some_iff,
      decide_eq_true_eq]
    constructor
    · rintro ⟨⟨found, current⟩ | ⟨-, noted⟩, onChain⟩
      · exact ⟨⟨found, onChain⟩, current⟩
      · split at noted
        · cases noted
          rw [fresh] at onChain
          cases onChain
        · cases noted
    · rintro ⟨⟨found, onChain⟩, current⟩
      exact ⟨.inl ⟨found, current⟩, onChain⟩

theorem isPaidAlready_eq_false (fresh : chainContains nBlockHash = false) :
    (budget.isPaidAlready chainContains history nProposalHash nBlockHash nBlockHeight).1 = false ↔
      ∀ paid, OnChainRecord chainContains history nProposalHash paid → ¬ budget.InWindow paid.2 := by
  rw [← Bool.not_eq_true, isPaidAlready_eq]
  constructor
  · intro none paid record current
    have different : nBlockHash ≠ paid.1 := by
      rintro rfl
      have onChain := record.2
      rw [fresh] at onChain
      cases onChain
    exact none ⟨paid, Option.filter_eq_some_iff.mpr ⟨record.1, decide_eq_true current⟩,
      different, record.2⟩
  · rintro none ⟨paid, found, -, onChain⟩
    obtain ⟨recorded, current⟩ := Option.filter_eq_some_iff.mp found
    exact none paid ⟨recorded, onChain⟩ (of_decide_eq_true current)

theorem status_eq_valid :
    (if paid then .doublePayment else if found then .valid else .inValid : TrxValidationStatus) =
      .valid ↔
      paid = false ∧ found = true := by
  cases paid <;> cases found <;> decide

theorem isTransactionValid_eq_valid (fresh : chainContains nBlockHash = false) :
    (budget.isTransactionValid chainContains history txNew nBlockHash nBlockHeight).1 = .valid ↔
      ∃ payment, Offers chainContains history nBlockHeight [] budget payment ∧
        findPayment payment txNew.vout = true := by
  rw [isTransactionValid_eq]
  cases due : budget.getBudgetPaymentByBlock nBlockHeight with
  | none => simp [Offers, due]
  | some payment =>
    rw [status_eq_valid, isPaidAlready_eq_false fresh]
    simp only [Offers, due, Option.some.injEq, not_mem_nil, false_and, exists_false]
    constructor
    · rintro ⟨unpaid, found⟩
      exact ⟨payment, ⟨rfl, unpaid⟩, found⟩
    · rintro ⟨_, ⟨rfl, unpaid⟩, found⟩
      exact ⟨unpaid, found⟩

theorem offers_isTransactionValid {next : CFinalizedBudget}
    (fresh : chainContains nBlockHash = false) :
    Offers chainContains
      (budget.isTransactionValid chainContains history txNew nBlockHash nBlockHeight).2 nBlockHeight
        before next payment ↔
        Offers chainContains history nBlockHeight (budget :: before) next payment := by
  refine and_congr_right fun _ => forall_congr' fun paid => ?_
  rw [onChainRecord_isTransactionValid fresh]
  constructor
  · intro offers record current
    by_cases left : budget.InWindow nBlockHeight ∧ ¬ budget.InWindow paid.2
    · exact ⟨budget, mem_cons_self, left⟩
    · obtain ⟨earlier, member, dropped⟩ :=
        offers ⟨record, fun inside => by_contra fun out => left ⟨inside, out⟩⟩ current
      exact ⟨earlier, mem_cons_of_mem _ member, dropped⟩
  · rintro offers ⟨record, kept⟩ current
    obtain ⟨earlier, member, inside, out⟩ := offers record current
    rcases mem_cons.mp member with rfl | later
    · exact absurd (kept inside) out
    · exact ⟨earlier, later, inside, out⟩

def considered (nCountThreshold : Int) (budgets : List CFinalizedBudget) : List CFinalizedBudget :=
  budgets.filter fun budget => decide (budget.getVoteCount > nCountThreshold)

theorem checkBudgets_eq_valid (fresh : chainContains nBlockHash = false) :
    (checkBudgets nCountThreshold chainContains txNew nBlockHash nBlockHeight fThreshold history
      budgets).1 = .valid ↔
      ∃ before budget after payment, considered nCountThreshold budgets = before ++
      budget :: after ∧
        Offers chainContains history nBlockHeight before budget payment ∧
        findPayment payment txNew.vout = true := by
  induction budgets generalizing fThreshold history with
  | nil =>
    refine iff_of_false ?_ ?_
    · cases fThreshold <;> simp [checkBudgets]
    · rintro ⟨before, budget, after, payment, split, -⟩
      simp [considered] at split
  | cons first budgets ih =>
    unfold checkBudgets
    by_cases enough : first.getVoteCount > nCountThreshold
    · have listed :
          considered nCountThreshold (first :: budgets) = first ::
          considered nCountThreshold budgets := by
        rw [considered, filter_cons, if_pos (decide_eq_true enough), considered]
      rw [if_pos enough, listed]
      by_cases valid :
        (first.isTransactionValid chainContains history txNew nBlockHash nBlockHeight).1 = .valid
      · obtain ⟨payment, offers, found⟩ := (isTransactionValid_eq_valid fresh).mp valid
        rw [if_pos valid]
        exact iff_of_true valid ⟨[], first, _, payment, rfl, offers, found⟩
      · rw [if_neg valid, ih]
        constructor
        · rintro ⟨before, budget, after, payment, split, offers, found⟩
          exact ⟨first :: before, budget, after, payment, by rw [split, cons_append],
            (offers_isTransactionValid fresh).mp offers, found⟩
        · rintro ⟨before, budget, after, payment, split, offers, found⟩
          cases before with
          | nil =>
            obtain ⟨rfl, -⟩ := List.cons.inj split
            exact absurd ((isTransactionValid_eq_valid fresh).mpr ⟨payment, offers, found⟩) valid
          | cons other before =>
            obtain ⟨rfl, rest⟩ := List.cons.inj split
            exact ⟨before, budget, after, payment, rest,
              (offers_isTransactionValid fresh).mpr offers, found⟩
    · have skipped :
          considered nCountThreshold (first :: budgets) = considered nCountThreshold budgets := by
        rw [considered, filter_cons, if_neg (by simpa using enough), considered]
      rw [if_neg enough, skipped, ih]

theorem checkBudgets_ne_voteThreshold (fThreshold : Bool)
    (enough : fThreshold = true ∨ ∃ budget ∈ budgets, nCountThreshold < budget.getVoteCount) :
    (checkBudgets nCountThreshold chainContains txNew nBlockHash nBlockHeight fThreshold history
      budgets).1 = .valid ∨
      (checkBudgets nCountThreshold chainContains txNew nBlockHash nBlockHeight fThreshold
        history budgets).1 =
        .inValid := by
  induction budgets generalizing fThreshold history with
  | nil =>
    rcases enough with rfl | ⟨budget, member, -⟩
    · exact .inr rfl
    · cases member
  | cons first budgets ih =>
    unfold checkBudgets
    split
    · dsimp only
      split
      next valid => exact .inl valid
      · exact ih true (.inl rfl)
    next few =>
      apply ih fThreshold
      rcases enough with set | ⟨budget, member, votes⟩
      · exact .inl set
      · rcases mem_cons.mp member with rfl | later
        · exact absurd votes few
        · exact .inr ⟨budget, later, votes⟩

def Takes (manager : CBudgetManager) (chainContains : Uint256 → Bool) (history : PaymentHistory)
    (nBlockHeight : Int) (out : CTxOut) : Prop :=
  ∃ before budget after payment,
    considered (manager.countThreshold nBlockHeight) manager.mapFinalizedBudgets = before ++
    budget :: after ∧
      Offers chainContains history nBlockHeight before budget payment ∧
      payment.payee = out.scriptPubKey ∧ payment.nAmount = out.nValue

theorem manager_isTransactionValid_eq_valid (fresh : chainContains nBlockHash = false)
    (paid : manager.isBudgetPaymentBlock nBlockHeight = true) :
    (manager.isTransactionValid chainContains history txNew nBlockHash nBlockHeight).1 = .valid ↔
      ∃ out ∈ txNew.vout, manager.Takes chainContains history nBlockHeight out := by
  unfold CBudgetManager.isTransactionValid Takes
  rw [paid, if_neg (by decide), checkBudgets_eq_valid fresh]
  simp only [findPayment_iff]
  constructor
  · rintro ⟨before, budget, after, payment, split, offers, out, member, found⟩
    exact ⟨out, member, before, budget, after, payment, split, offers, found⟩
  · rintro ⟨out, member, before, budget, after, payment, split, offers, found⟩
    exact ⟨before, budget, after, payment, split, offers, out, member, found⟩

theorem isTransactionValid_valid_or_inValid
    (paid : manager.isBudgetPaymentBlock nBlockHeight = true) :
    (manager.isTransactionValid chainContains history txNew nBlockHash nBlockHeight).1 = .valid ∨
      (manager.isTransactionValid chainContains history txNew nBlockHash nBlockHeight).1 =
      .inValid := by
  unfold CBudgetManager.isTransactionValid
  rw [paid, if_neg (by decide)]
  exact checkBudgets_ne_voteThreshold _ (.inr (exists_of_isBudgetPaymentBlock paid))

end CBudgetManager

end Deviant.Budget
