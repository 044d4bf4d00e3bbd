import Deviant.Budget.FeeIndex
import Deviant.Data.Runs

namespace Deviant.Budget

open Data Primitives VoteBook

/-! The two collateral indexes of the budget manager over whole runs. -/

namespace Voting

variable {signer : BudgetSigner}

theorem CBudgetProposal.preserving_updateValid (signer : BudgetSigner) (chain : BudgetChain)
    (nCurrentHeight : Int) :
    Preserving (proposalKind signer) (CBudgetProposal.updateValid chain nCurrentHeight) := by
  apply Preserving.of_same
  intro proposal
  unfold CBudgetProposal.updateValid
  dsimp only
  split
  · exact ⟨rfl, rfl, rfl⟩
  · split <;> exact ⟨rfl, rfl, rfl⟩

theorem CFinalizedBudget.preserving_updateValid (signer : BudgetSigner) (chain : BudgetChain)
    (nCurrentHeight : Int) :
    Preserving (budgetKind signer) (updateValid chain nCurrentHeight) := by
  apply Preserving.of_same
  intro budget
  unfold updateValid
  split <;> exact ⟨rfl, rfl, rfl⟩

/-- The object as its checks leave it, given what they found. -/
def afterChecks {O : Type} (wellFormed : Except String Unit) (collateral : Option Int)
    (updated : Int → Bool × O) : Option O :=
  match wellFormed, collateral with
  | .ok _, some nTime => if (updated nTime).1 then some (updated nTime).2 else none
  | _, _ => none

theorem afterChecks_updated {updated : Int → Bool × O}
    (passed : afterChecks wellFormed collateral updated = some stored) :
    ∃ nTime, (updated nTime).2 = stored := by
  unfold afterChecks at passed
  split at passed
  next nTime =>
    split at passed
    · exact ⟨nTime, Option.some.inj passed⟩
    · cases passed
  · cases passed

section

variable (signer : BudgetSigner) (chain : BudgetChain) (nBestHeight : Int)

def CBudgetProposal.checked (proposal : CBudgetProposal) : Option CBudgetProposal :=
  afterChecks (proposal.isWellFormed chain (chain.getTotalBudget proposal.nBlockStart))
    (checkCollateral chain proposal.nFeeTXHash (proposal.getHash signer) nBestHeight false)
    fun nTime => { proposal with nTime := nTime }.updateValid chain nBestHeight

def CFinalizedBudget.checked (budget : CFinalizedBudget) : Option CFinalizedBudget :=
  afterChecks (budget.isWellFormed chain (chain.getTotalBudget budget.nBlockStart))
    (checkCollateral chain budget.nFeeTXHash (budget.getHash signer) nBestHeight true)
    fun nTime => { budget with nTime := nTime }.updateValid chain nBestHeight

variable {signer chain nBestHeight}

theorem CBudgetProposal.checked_same {proposal stored : CBudgetProposal}
    (passed : proposal.checked signer chain nBestHeight = some stored) :
    stored.getHash signer = proposal.getHash signer ∧ stored.mapVotes = proposal.mapVotes := by
  obtain ⟨nTime, rfl⟩ := afterChecks_updated passed
  have preserving := CBudgetProposal.preserving_updateValid signer chain nBestHeight
  exact ⟨preserving.hash { proposal with nTime := nTime },
    preserving.votes { proposal with nTime := nTime }⟩

theorem CFinalizedBudget.checked_same {budget stored : CFinalizedBudget}
    (passed : budget.checked signer chain nBestHeight = some stored) :
    stored.getHash signer = budget.getHash signer ∧ stored.mapVotes = budget.mapVotes := by
  obtain ⟨nTime, rfl⟩ := afterChecks_updated passed
  have preserving := CFinalizedBudget.preserving_updateValid signer chain nBestHeight
  exact ⟨preserving.hash { budget with nTime := nTime },
    preserving.votes { budget with nTime := nTime }⟩

end

namespace CBudgetManager

variable {manager : CBudgetManager}

section

variable (signer : BudgetSigner) (manager : CBudgetManager)

structure WellIndexed : Prop where
  proposals : manager.proposals.WellIndexed (proposalKind signer)
  budgets : manager.budgets.WellIndexed (budgetKind signer)

structure Indexes : Prop where
  proposals : manager.proposals.Indexes (proposalKind signer)
  budgets : manager.budgets.Indexes (budgetKind signer)

/-- No stored proposal or finalized budget uses a collateral. -/
structure Unused (feeTxId : Uint256) : Prop where
  proposals : ¬ manager.proposals.Uses (proposalKind signer) feeTxId
  budgets : ¬ manager.budgets.Uses (budgetKind signer) feeTxId

inductive CollateralEvent where
  | addProposal (chain : BudgetChain) (proposal : CBudgetProposal)
  | addFinalizedBudget (chain : BudgetChain) (budget : CFinalizedBudget)
  | checkAndRemove (chain : BudgetChain) (view : BudgetView) (ownVotes : List CFinalizedBudgetVote)
  | removeByFeeTxId (feeTxId : Uint256)
  | clear
  | setBestHeight (height : Int)

def step : CollateralEvent → CBudgetManager
  | .addProposal chain proposal => (manager.addProposal signer chain proposal).2
  | .addFinalizedBudget chain budget => (manager.addFinalizedBudget signer chain budget).2
  | .checkAndRemove chain view ownVotes => manager.checkAndRemove signer chain view ownVotes
  | .removeByFeeTxId feeTxId => manager.removeByFeeTxId signer feeTxId
  | .clear => manager.clear
  | .setBestHeight height => { manager with nBestHeight := height }

end

section

variable (signer : BudgetSigner)

variable (manager : CBudgetManager)

def run (events : List CollateralEvent) : CBudgetManager :=
  events.foldl (step signer) manager

def Consistent (event : CollateralEvent) (after : CBudgetManager) : Prop :=
  after.Indexes signer ∧ ∀ feeTxId, event = .removeByFeeTxId feeTxId → after.Unused signer feeTxId

/-- Objects that share a collateral leave together: those that a check removes, with all others of
their kind, and none where the collateral itself is removed. -/
def Unshared : CollateralEvent → Prop
  | .checkAndRemove chain _ _ =>
    manager.proposals.LeaveTogether (proposalKind signer)
      (CBudgetProposal.updateValid chain manager.nBestHeight) ∧
      manager.budgets.LeaveTogether (budgetKind signer)
      (CFinalizedBudget.updateValid chain manager.nBestHeight)
  | .removeByFeeTxId feeTxId =>
    manager.proposals.Sole (proposalKind signer) feeTxId ∧
      manager.budgets.Sole (budgetKind signer) feeTxId ∧
      ¬ (manager.proposals.Uses (proposalKind signer) feeTxId ∧
        manager.budgets.Uses (budgetKind signer) feeTxId)
  | _ => True

theorem WellIndexed.indexes {manager : CBudgetManager} {signer : BudgetSigner}
    (indexed : manager.WellIndexed signer) : manager.Indexes signer :=
  ⟨indexed.proposals.indexes, indexed.budgets.indexes⟩

theorem addProposal_eq : manager.addProposal signer chain proposal =
    if (manager.proposals.objects.lookup (proposal.getHash signer)).isSome then (false, manager)
    else
      match proposal.checked signer chain manager.nBestHeight with
      | none => (false, manager)
      | some stored =>
        (true, { manager with proposals := manager.proposals.emplaceObject (proposalKind signer) stored }) := by
  unfold addProposal CBudgetProposal.checked afterChecks
  dsimp only
  cases proposal.isWellFormed chain (chain.getTotalBudget proposal.nBlockStart) with
  | error _ => rfl
  | ok _ =>
    cases checkCollateral chain proposal.nFeeTXHash (proposal.getHash signer)
      manager.nBestHeight false with
    | none => rfl
    | some nTime =>
      dsimp only
      cases (CBudgetProposal.updateValid chain manager.nBestHeight { proposal
        with nTime := nTime }).1 <;> rfl

theorem addFinalizedBudget_eq : manager.addFinalizedBudget signer chain budget =
    if (manager.budgets.objects.lookup (budget.getHash signer)).isSome then (false, manager)
    else
      match budget.checked signer chain manager.nBestHeight with
      | none => (false, manager)
      | some stored =>
        (true, { manager with
          budgets := manager.budgets.emplaceObject (budgetKind signer) stored
          mapUnconfirmedFeeTx := manager.mapUnconfirmedFeeTx.erase (budget.getHash signer) }) := by
  unfold addFinalizedBudget CFinalizedBudget.checked afterChecks
  dsimp only
  cases budget.isWellFormed chain (chain.getTotalBudget budget.nBlockStart) with
  | error _ => rfl
  | ok _ =>
    cases checkCollateral chain budget.nFeeTXHash (budget.getHash signer) manager.nBestHeight true with
    | none => rfl
    | some nTime =>
      dsimp only
      cases (CFinalizedBudget.updateValid chain manager.nBestHeight
        { budget with nTime := nTime }).1 <;> rfl

theorem addFinalizedBudget_cases (budget : CFinalizedBudget) :
      (manager.addFinalizedBudget signer chain budget).2 = manager ∨ ∃ stored,
        manager.budgets.objects.lookup ((budgetKind signer).getObjectHash stored) = none ∧
        stored.mapVotes = budget.mapVotes ∧
        (manager.addFinalizedBudget signer chain budget).2 = { manager with
          budgets := manager.budgets.emplaceObject (budgetKind signer) stored
          mapUnconfirmedFeeTx := manager.mapUnconfirmedFeeTx.erase (budget.getHash signer) } := by
  rw [addFinalizedBudget_eq]
  cases known : manager.budgets.objects.lookup (budget.getHash signer) with
  | some _ => exact .inl rfl
  | none =>
    cases passed : budget.checked signer chain manager.nBestHeight with
    | none => exact .inl rfl
    | some stored =>
      obtain ⟨hash, votes⟩ := CFinalizedBudget.checked_same passed
      exact .inr ⟨stored, (congrArg manager.budgets.objects.lookup hash).trans known, votes, rfl⟩

theorem voteOnFinalizedBudgets_sameFees (manager : CBudgetManager) :
      (manager.voteOnFinalizedBudgets signer view ownVotes).proposals = manager.proposals ∧
        SameFees (budgetKind signer) manager.budgets
        (manager.voteOnFinalizedBudgets signer view ownVotes).budgets := by
  induction ownVotes generalizing manager with
  | nil => exact ⟨rfl, rfl, fun _ => rfl⟩
  | cons vote ownVotes ih =>
    obtain ⟨proposals, budgets⟩ := ih _
    refine ⟨proposals, SameFees.trans ?_ budgets⟩
    have voted : SameFees (budgetKind signer) manager.budgets
        (manager.budgets.update (budgetKind signer) false view vote).2 := sameFees_update
    dsimp only
    split
    · exact ⟨voted.index, voted.objects⟩
    · exact voted

end

section

variable (indexed : manager.WellIndexed signer)

include indexed

theorem WellIndexed.checkAndRemove (chain : BudgetChain)
    (together : manager.Unshared signer (.checkAndRemove chain view ownVotes)) :
    (manager.checkAndRemove signer chain view ownVotes).WellIndexed signer := by
  obtain ⟨proposals, budgets⟩ := together
  unfold CBudgetManager.checkAndRemove
  constructor
  · rw [(voteOnFinalizedBudgets_sameFees signer _).1]
    exact indexed.proposals.removeInvalid
      (CBudgetProposal.preserving_updateValid signer chain manager.nBestHeight) proposals
  · refine WellIndexed.of_sameFees ?_ (voteOnFinalizedBudgets_sameFees signer _).2
    exact indexed.budgets.removeInvalid
      (CFinalizedBudget.preserving_updateValid signer chain manager.nBestHeight) budgets

theorem removeByFeeTxId_of_uses (uses : manager.proposals.Uses (proposalKind signer) feeTxId) :
    manager.removeByFeeTxId signer feeTxId =
      { manager with proposals := (manager.proposals.removeByFeeTxId (proposalKind signer)
        feeTxId).2 } := by
  obtain ⟨hash, found⟩ := Option.isSome_iff_exists.mp ((indexed.proposals.indexes feeTxId).mpr uses)
  unfold removeByFeeTxId
  dsimp only
  rw [(removeByFeeTxId_present indexed.proposals found).1, if_pos rfl]

theorem removeByFeeTxId_of_not_uses
    (unused : ¬ manager.proposals.Uses (proposalKind signer) feeTxId) :
    manager.removeByFeeTxId signer feeTxId =
      { manager with budgets := (manager.budgets.removeByFeeTxId (budgetKind signer) feeTxId).2
        } := by
  have absent : manager.proposals.feeTxs.lookup feeTxId = none := by
    rw [← Option.not_isSome_iff_eq_none]
    exact mt (indexed.proposals.indexes feeTxId).mp unused
  unfold removeByFeeTxId
  rw [removeByFeeTxId_absent absent]
  rfl

theorem WellIndexed.removeByFeeTxId (unshared : manager.Unshared signer (.removeByFeeTxId feeTxId)) :
    (manager.removeByFeeTxId signer feeTxId).WellIndexed signer ∧
      (manager.removeByFeeTxId signer feeTxId).Unused signer feeTxId := by
  obtain ⟨soleProposal, soleBudget, notBoth⟩ := unshared
  by_cases uses : manager.proposals.Uses (proposalKind signer) feeTxId
  · rw [removeByFeeTxId_of_uses indexed uses]
    obtain ⟨proposals, gone⟩ := indexed.proposals.removeByFeeTxId soleProposal
    exact ⟨⟨proposals, indexed.budgets⟩, gone, fun budget => notBoth ⟨uses, budget⟩⟩
  · rw [removeByFeeTxId_of_not_uses indexed uses]
    obtain ⟨budgets, gone⟩ := indexed.budgets.removeByFeeTxId soleBudget
    exact ⟨⟨indexed.proposals, budgets⟩, uses, gone⟩

end

section

variable (indexed : manager.WellIndexed signer) (event : CollateralEvent)

include indexed event

theorem WellIndexed.step
    (unshared : manager.Unshared signer event) : (manager.step signer event).WellIndexed signer := by
  cases event with
  | addProposal chain proposal =>
    rw [CBudgetManager.step, addProposal_eq]
    cases known : manager.proposals.objects.lookup (proposal.getHash signer) with
    | some _ => exact indexed
    | none =>
      cases passed : proposal.checked signer chain manager.nBestHeight with
      | none => exact indexed
      | some stored =>
        have absent :=
          (congrArg manager.proposals.objects.lookup (CBudgetProposal.checked_same passed).1).trans
          known
        exact ⟨indexed.proposals.emplaceObject absent, indexed.budgets⟩
  | addFinalizedBudget chain budget =>
    rw [CBudgetManager.step]
    rcases addFinalizedBudget_cases signer manager budget with refused | ⟨stored, absent, _, added⟩
    · rw [refused]
      exact indexed
    · rw [added]
      exact ⟨indexed.proposals, indexed.budgets.emplaceObject absent⟩
  | checkAndRemove chain view ownVotes => exact indexed.checkAndRemove chain unshared
  | removeByFeeTxId feeTxId => exact (indexed.removeByFeeTxId unshared).1
  | clear => exact ⟨wellIndexed_empty, wellIndexed_empty⟩
  | setBestHeight height => exact ⟨indexed.proposals, indexed.budgets⟩

theorem WellIndexed.consistent
    (unshared : manager.Unshared signer event) : Consistent signer event (manager.step signer event) := by
  refine ⟨(indexed.step event unshared).indexes, fun feeTxId removes => ?_⟩
  subst removes
  exact (indexed.removeByFeeTxId unshared).2

theorem Unshared.of_consistent
    (consistent : Consistent signer event (manager.step signer event)) :
    manager.Unshared signer event := by
  obtain ⟨right, unused⟩ := consistent
  cases event with
  | addProposal chain proposal => trivial
  | addFinalizedBudget chain budget => trivial
  | checkAndRemove chain view ownVotes =>
    obtain ⟨proposals, budgets⟩ := right
    constructor
    · apply LeaveTogether.of_indexes (CBudgetProposal.preserving_updateValid signer chain _)
        indexed.proposals
      rw [step, checkAndRemove, (voteOnFinalizedBudgets_sameFees signer _).1] at proposals
      exact proposals
    · apply LeaveTogether.of_indexes (CFinalizedBudget.preserving_updateValid signer chain _)
        indexed.budgets
      exact (voteOnFinalizedBudgets_sameFees signer _).2.indexes_iff.mp budgets
  | removeByFeeTxId feeTxId =>
    have gone := unused feeTxId rfl
    rw [step] at gone
    by_cases uses : manager.proposals.Uses (proposalKind signer) feeTxId
    · rw [removeByFeeTxId_of_uses indexed uses] at gone
      refine ⟨Sole.of_removeByFeeTxId indexed.proposals gone.proposals, ?_,
        fun both => gone.budgets both.2⟩
      exact fun hash _ used _ => absurd ⟨hash, used⟩ gone.budgets
    · rw [removeByFeeTxId_of_not_uses indexed uses] at gone
      refine ⟨fun hash _ used _ => absurd ⟨hash, used⟩ uses, ?_, fun both => uses both.1⟩
      exact Sole.of_removeByFeeTxId indexed.budgets gone.budgets
  | clear => trivial
  | setBestHeight height => trivial

end

/-- The indexes are right after every step of a run, and no removed collateral is still in use,
exactly if at every step the objects that share a collateral leave together. -/
theorem consistent_iff_unshared (signer : BudgetSigner) (events : List CollateralEvent) :
    (∀ passed event, passed ++ [event] <+: events →
      Consistent signer event (run signer {} (passed ++ [event]))) ↔
      ∀ passed event, passed ++ [event] <+: events →
      (run signer {} passed).Unshared signer event := by
  refine forall_step_iff (WellIndexed signer) (Unshared signer) ?_ (Consistent signer) ?_ ?_
  · exact ⟨wellIndexed_empty, wellIndexed_empty⟩
  · exact fun manager event indexed => indexed.step event
  · intro manager event indexed
    exact ⟨Unshared.of_consistent indexed event, indexed.consistent event⟩

/-- Of two proposals with one collateral, the second stays when the collateral is disconnected. -/
theorem shared_collateral_left :
    let manager := run SampleBudgets.signer {}
      [.setBestHeight 43000, .addProposal SampleBudgets.chain (SampleBudgets.proposal [0x51]),
        .addProposal SampleBudgets.chain (SampleBudgets.proposal [0x51, 0x52]), .removeByFeeTxId 8]
    manager.proposals.feeOf (proposalKind SampleBudgets.signer) 2 = some 8 ∧
      manager.proposals.feeTxs.lookup 8 = none := by
  decide

end CBudgetManager

end Voting

end Deviant.Budget
