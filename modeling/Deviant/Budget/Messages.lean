import Deviant.Budget.Collateral

namespace Deviant.Budget.Voting

open Primitives

/-! The budget messages of the network, as they come to the manager one after the other. -/

inductive BudgetMessage where
  | proposal (proposal : CBudgetProposal)
  | finalizedBudget (budget : CFinalizedBudget)
  | proposalVote (vote : CBudgetVote)
  | finalizedBudgetVote (vote : CFinalizedBudgetVote)

structure BudgetDelivery where
  chain : BudgetChain
  view : BudgetView
  nBestHeight : Int
  message : BudgetMessage

section

variable (signer : BudgetSigner)

def CBudgetProposal.stored (chain : BudgetChain) (nBestHeight : Int) (proposal : CBudgetProposal) :
    Option CBudgetProposal :=
  (CBudgetManager.addProposal signer chain { nBestHeight := nBestHeight }
    proposal).2.proposals.objects.lookup
    (proposal.getHash signer)

def CFinalizedBudget.stored (chain : BudgetChain) (nBestHeight : Int) (budget : CFinalizedBudget) :
    Option CFinalizedBudget :=
  (CBudgetManager.addFinalizedBudget signer chain { nBestHeight := nBestHeight }
    budget).2.budgets.objects.lookup
    (budget.getHash signer)

namespace CBudgetManager

def processMessage (chain : BudgetChain) (view : BudgetView) (message : BudgetMessage)
    (manager : CBudgetManager) :
    Processed CBudgetManager :=
  match message with
  | .proposal proposal => manager.processProposal signer chain view proposal
  | .finalizedBudget budget => manager.processFinalizedBudget signer chain view budget
  | .proposalVote vote => manager.processProposalVote signer view vote
  | .finalizedBudgetVote vote => manager.processFinalizedBudgetVote signer view vote

def deliver (manager : CBudgetManager) (delivery : BudgetDelivery) : Processed CBudgetManager :=
  { manager with nBestHeight := delivery.nBestHeight }.processMessage signer delivery.chain
    delivery.view delivery.message

def deliverAll (manager : CBudgetManager) (deliveries : List BudgetDelivery) : CBudgetManager :=
  deliveries.foldl (fun manager delivery => (manager.deliver signer delivery).state) manager

end CBudgetManager

end

section

variable {signer : BudgetSigner} {chain : BudgetChain}

namespace CBudgetManager

theorem lookup_emplaceObject_empty {O V : Type} (kind : ObjectKind O V) {object : O}
    {hash : Uint256} (own : kind.getObjectHash object = hash) :
    (({} : VoteBook O V).emplaceObject kind object).objects.lookup hash = some object := by
  unfold VoteBook.emplaceObject
  rw [lookup_emplace, if_pos ⟨own.symm, rfl⟩]

end CBudgetManager

theorem CBudgetProposal.stored_eq_checked (proposal : CBudgetProposal) :
    proposal.stored signer chain nBestHeight = proposal.checked signer chain nBestHeight := by
  unfold stored
  rw [CBudgetManager.addProposal_eq]
  cases passed : proposal.checked signer chain nBestHeight with
  | none => rfl
  | some stored => exact CBudgetManager.lookup_emplaceObject_empty (proposalKind signer) (checked_same passed).1

theorem CFinalizedBudget.stored_eq_checked (budget : CFinalizedBudget) :
    budget.stored signer chain nBestHeight = budget.checked signer chain nBestHeight := by
  unfold stored
  rw [CBudgetManager.addFinalizedBudget_eq]
  cases passed : budget.checked signer chain nBestHeight with
  | none => rfl
  | some stored => exact CBudgetManager.lookup_emplaceObject_empty (budgetKind signer) (checked_same passed).1

end

namespace SampleBudgets

def syncedView : BudgetView where
  masternodes := masternodes [11, 12]
  isSynced := true
  getTime := 1600000000

def delivered (message : BudgetMessage) : BudgetDelivery :=
  { chain := chain, view := syncedView, nBestHeight := 43000, message := message }

end SampleBudgets

end Deviant.Budget.Voting
