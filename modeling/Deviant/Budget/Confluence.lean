import Deviant.Budget.ArrivalOrder
import Deviant.Budget.Messages

namespace Deviant.Budget.Voting

open List VoteBook

/-! The budget messages in any order of arrival: which objects end up with all their votes. -/

section

variable (signer : BudgetSigner)

/-- What a message is to the proposals.  A new finalized budget makes the manager try the orphan
votes of both kinds. -/
def BudgetDelivery.proposalEvent (delivery : BudgetDelivery) :
    Option (BookEvent CBudgetProposal CBudgetVote) :=
  match delivery.message with
  | .proposal proposal =>
    (proposal.stored signer delivery.chain delivery.nBestHeight).map (.object delivery.view)
  | .finalizedBudget budget => (budget.stored signer delivery.chain delivery.nBestHeight).map
    fun _ => .check delivery.view
  | .proposalVote vote => some (.vote delivery.view vote)
  | .finalizedBudgetVote _ => none

def BudgetDelivery.budgetEvent (delivery : BudgetDelivery) :
    Option (BookEvent CFinalizedBudget CFinalizedBudgetVote) :=
  match delivery.message with
  | .proposal proposal => (proposal.stored signer delivery.chain delivery.nBestHeight).map fun _ =>
    .check delivery.view
  | .finalizedBudget budget =>
    (budget.stored signer delivery.chain delivery.nBestHeight).map (.object delivery.view)
  | .proposalVote _ => none
  | .finalizedBudgetVote vote => some (.vote delivery.view vote)

def proposalEvents (deliveries : List BudgetDelivery) (last : BudgetView) :
    List (BookEvent CBudgetProposal CBudgetVote) :=
  deliveries.filterMap (BudgetDelivery.proposalEvent signer) ++ [.check last]

def budgetEvents (deliveries : List BudgetDelivery) (last : BudgetView) :
    List (BookEvent CFinalizedBudget CFinalizedBudgetVote) :=
  deliveries.filterMap (BudgetDelivery.budgetEvent signer) ++ [.check last]

end

section

variable (signer : BudgetSigner) (deliveries : List BudgetDelivery) (last : BudgetView)

/-- Genuine votes of distinct masternodes and acceptable objects, each once and in any order.  Only
votes on proposals have to be of enabled masternodes. -/
structure RegularDeliveries : Prop where
  proposals : Regular (proposalKind signer) true (proposalEvents signer deliveries last)
  budgets : Regular (budgetKind signer) false (budgetEvents signer deliveries last)

/-- Of each kind, at most one vote on an object arrives before the object, and only at a synced
node. -/
structure InOrderDeliveries : Prop where
  proposals : InOrder (proposalKind signer) (proposalEvents signer deliveries last)
  budgets : InOrder (budgetKind signer) (budgetEvents signer deliveries last)

/-- Every proposal and finalized budget that arrived is stored with exactly the votes on it that
arrived. -/
structure HoldsAllVotes
    (manager : CBudgetManager) : Prop where
  proposals : HoldsAll (proposalKind signer) (proposalEvents signer deliveries last) manager.proposals
  budgets : HoldsAll (budgetKind signer) (budgetEvents signer deliveries last) manager.budgets

end

section

variable {signer : BudgetSigner}

namespace CBudgetManager

def applied {O V : Type} (kind : ObjectKind O V) (mustBeEnabled : Bool) (book : VoteBook O V) :
    Option (BookEvent O V) → VoteBook O V
  | none => book
  | some event => book.step kind mustBeEnabled event

theorem deliver_state (manager : CBudgetManager)
    (newProposal : ∀ view stored, delivery.proposalEvent signer = some (.object view stored) →
      manager.proposals.objects.lookup (stored.getHash signer) = none)
    (newBudget : ∀ view stored, delivery.budgetEvent signer = some (.object view stored) →
      manager.budgets.objects.lookup (stored.getHash signer) = none) :
    (manager.deliver signer delivery).state.proposals =
        applied (proposalKind signer) true manager.proposals (delivery.proposalEvent signer) ∧
      (manager.deliver signer delivery).state.budgets =
        applied (budgetKind signer) false manager.budgets (delivery.budgetEvent signer) := by
  obtain ⟨chain, view, nBestHeight, message⟩ := delivery
  unfold deliver processMessage
  unfold BudgetDelivery.proposalEvent BudgetDelivery.budgetEvent at *
  cases message with
  | proposalVote vote => exact ⟨rfl, rfl⟩
  | finalizedBudgetVote vote => exact ⟨rfl, rfl⟩
  | proposal proposal =>
    dsimp only at *
    unfold processProposal
    rw [addProposal_eq, ← proposal.stored_eq_checked]
    cases found : proposal.stored signer chain nBestHeight with
    | none =>
      rw [ite_self]
      exact ⟨rfl, rfl⟩
    | some stored =>
      have fresh := newProposal view stored (by rw [found, Option.map_some])
      rw [(CBudgetProposal.checked_same (proposal.stored_eq_checked ▸ found)).1] at fresh
      rw [fresh, Option.isSome_none, if_neg Bool.false_ne_true]
      exact ⟨rfl, rfl⟩
  | finalizedBudget budget =>
    dsimp only at *
    unfold processFinalizedBudget
    rw [addFinalizedBudget_eq, ← budget.stored_eq_checked]
    cases found : budget.stored signer chain nBestHeight with
    | none =>
      rw [ite_self]
      exact ⟨rfl, rfl⟩
    | some stored =>
      have fresh := newBudget view stored (by rw [found, Option.map_some])
      rw [(CFinalizedBudget.checked_same (budget.stored_eq_checked ▸ found)).1] at fresh
      rw [fresh, Option.isSome_none, if_neg Bool.false_ne_true]
      exact ⟨rfl, rfl⟩

theorem run_filterMap_concat :
    VoteBook.run kind mustBeEnabled {} ((passed ++ [delivery]).filterMap event) =
        applied kind mustBeEnabled (VoteBook.run kind mustBeEnabled {} (passed.filterMap event))
        (event delivery) := by
  rw [filterMap_append, filterMap_cons, filterMap_nil]
  cases event delivery with
  | none => rw [append_nil, applied]
  | some arriving => rw [run_concat, applied]

theorem lookup_of_regular
    (regular : Regular kind mustBeEnabled (deliveries.filterMap event ++ [.check last]))
    (within : passed ++ [delivery] <+: deliveries)
    (arrives : event delivery = some (.object view stored)) :
    (VoteBook.run kind mustBeEnabled {} (passed.filterMap event)).objects.lookup
      (kind.getObjectHash stored) = none := by
  have events := (within.filterMap event).trans (prefix_append _ [BookEvent.check last])
  rw [filterMap_append, filterMap_cons, filterMap_nil, arrives] at events
  exact regular.absent events

theorem deliverAll_books (regular : RegularDeliveries signer deliveries last)
    (within : passed <+: deliveries) :
    (deliverAll signer {} passed).proposals =
        VoteBook.run (proposalKind signer) true {}
        (passed.filterMap (BudgetDelivery.proposalEvent signer)) ∧
      (deliverAll signer {} passed).budgets =
        VoteBook.run (budgetKind signer) false {}
        (passed.filterMap (BudgetDelivery.budgetEvent signer)) := by
  induction passed using List.reverseRecOn with
  | nil => exact ⟨rfl, rfl⟩
  | append_singleton passed delivery ih =>
    obtain ⟨proposals, budgets⟩ := ih ((prefix_append passed [delivery]).trans within)
    rw [deliverAll, foldl_concat, ← deliverAll, run_filterMap_concat, run_filterMap_concat,
      ← proposals, ← budgets]
    apply deliver_state
    · intro view stored arrives
      rw [proposals]
      exact lookup_of_regular regular.proposals within arrives
    · intro view stored arrives
      rw [budgets]
      exact lookup_of_regular regular.budgets within arrives

/-- After all messages and a last `CheckOrphanVotes` every object has all its votes exactly if at
most one of them came before it, and to a synced node: an orphan vote is kept under the hash of its
object, where the next one takes its place, and a vote that was seen is not looked at again. -/
theorem holdsAllVotes_iff_inOrder (signer : BudgetSigner) (deliveries : List BudgetDelivery)
    (last : BudgetView) (regular : RegularDeliveries signer deliveries last) :
    HoldsAllVotes signer deliveries last
      ((deliverAll signer {} deliveries).checkOrphanVotes signer last) ↔
      InOrderDeliveries signer deliveries last := by
  obtain ⟨proposals, budgets⟩ := deliverAll_books regular (prefix_refl deliveries)
  have proposalsIff := regular.proposals.holdsAll_iff_inOrder
  have budgetsIff := regular.budgets.holdsAll_iff_inOrder
  rw [proposalEvents, run_concat, ← proposals] at proposalsIff
  rw [budgetEvents, run_concat, ← budgets] at budgetsIff
  constructor
  · intro all
    exact ⟨proposalsIff.mp all.proposals, budgetsIff.mp all.budgets⟩
  · intro order
    exact ⟨proposalsIff.mpr order.proposals, budgetsIff.mpr order.budgets⟩

end CBudgetManager

end

namespace SampleBudgets

def votesFirst : List BudgetDelivery :=
  [delivered (.proposalVote (proposalVote 11 1 [3])),
    delivered (.proposalVote (proposalVote 12 1 [3])), delivered (.proposal (proposal [0x51]))]

def proposalBetween : List BudgetDelivery :=
  [delivered (.proposalVote (proposalVote 11 1 [3])), delivered (.proposal (proposal [0x51])),
    delivered (.proposalVote (proposalVote 12 1 [3]))]

def storedProposal : CBudgetProposal := { proposal [0x51] with nTime := 1600000000 }

theorem proposalEvents_votesFirst : proposalEvents signer votesFirst syncedView =
    [.vote syncedView (proposalVote 11 1 [3]), .vote syncedView (proposalVote 12 1 [3]),
      .object syncedView storedProposal, .check syncedView] := rfl

theorem regular_votesFirst : RegularDeliveries signer votesFirst syncedView := by
  constructor
  · rw [proposalEvents_votesFirst]
    constructor
    · intro view vote member
      have cast : view = syncedView ∧
          (vote = proposalVote 11 1 [3] ∨ vote = proposalVote 12 1 [3]) := by
        simpa [← and_or_left] using member
      obtain ⟨rfl, rfl | rfl⟩ := cast
      · exact ⟨_, rfl, by decide, fun _ => rfl⟩
      · exact ⟨_, rfl, by decide, fun _ => rfl⟩
    · intro event member vote cast
      have synced : event.view = syncedView := by
        rcases mem_cons.mp member with rfl | member
        · rfl
        rcases mem_cons.mp member with rfl | member
        · rfl
        rcases mem_cons.mp member with rfl | member
        · rfl
        cases mem_singleton.mp member
        rfl
      have both : vote = proposalVote 11 1 [3] ∨ vote = proposalVote 12 1 [3] := by
        simpa [votesIn, BookEvent.vote?] using cast
      rw [synced]
      obtain rfl | rfl := both <;> decide
    · decide
    · decide
    · decide
    · intro object member
      cases mem_singleton.mp member
      rfl
  · constructor
    · intro view vote member
      exact absurd member (by simp [budgetEvents, votesFirst, delivered, BudgetDelivery.budgetEvent])
    · intro event _ vote cast
      exact absurd cast not_mem_nil
    · decide
    · decide
    · decide
    · intro object member
      exact absurd member not_mem_nil

theorem regular_proposalBetween : RegularDeliveries signer proposalBetween syncedView := by
  have reordered : votesFirst.Perm proposalBetween := (List.Perm.swap _ _ _).cons _
  exact ⟨regular_votesFirst.proposals.perm ((reordered.filterMap _).append_right _),
    regular_votesFirst.budgets.perm ((reordered.filterMap _).append_right _)⟩

def votesOnProposal (deliveries : List BudgetDelivery) :
    Option (Option CBudgetVote × Option CBudgetVote) :=
  let manager := (CBudgetManager.deliverAll signer {} deliveries).checkOrphanVotes signer syncedView
  (manager.proposals.objects.lookup 1).map fun stored =>
    (stored.mapVotes.lookup ⟨11, 0⟩, stored.mapVotes.lookup ⟨12, 0⟩)

end SampleBudgets

open SampleBudgets in
theorem holdsAllVotes_iff_inOrder_between : RegularDeliveries signer proposalBetween syncedView ∧
      (HoldsAllVotes signer proposalBetween syncedView
          ((CBudgetManager.deliverAll signer {} proposalBetween).checkOrphanVotes signer syncedView) ↔
        InOrderDeliveries signer proposalBetween syncedView) :=
  ⟨regular_proposalBetween,
    CBudgetManager.holdsAllVotes_iff_inOrder signer _ _ regular_proposalBetween⟩

open SampleBudgets in
/-- Of two votes that come before their proposal only the second remains; with the proposal between
them both do. -/
theorem second_orphan_replaces_first : RegularDeliveries signer votesFirst syncedView ∧
      ¬ HoldsAllVotes signer votesFirst syncedView
          ((CBudgetManager.deliverAll signer {} votesFirst).checkOrphanVotes signer syncedView) ∧
      votesOnProposal votesFirst = some (none, some (proposalVote 12 1 [3])) ∧
      votesOnProposal proposalBetween =
        some (some (proposalVote 11 1 [3]), some (proposalVote 12 1 [3])) := by
  have kept : votesOnProposal votesFirst = some (none, some (proposalVote 12 1 [3])) := by decide
  refine ⟨regular_votesFirst, ?_, kept, by decide⟩
  intro all
  have arrived : storedProposal ∈ objectsIn (proposalEvents signer votesFirst syncedView) :=
    mem_singleton.mpr rfl
  obtain ⟨stored, found, holds⟩ := all.proposals storedProposal arrived
  have first := (holds ⟨11, 0⟩ (proposalVote 11 1 [3])).mpr ⟨by decide, rfl⟩
  have hash : (proposalKind signer).getObjectHash storedProposal = 1 := by decide
  rw [hash] at found
  unfold votesOnProposal at kept
  dsimp only at kept
  rw [found, Option.map_some, Option.some.injEq, Prod.mk.injEq] at kept
  cases first.symm.trans kept.1

end Deviant.Budget.Voting
