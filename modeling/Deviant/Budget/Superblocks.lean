import Deviant.Budget.Voting
import Deviant.Data.IndexedRead
import Deviant.Validation.Rewards
import Mathlib.Data.Int.Interval
import Mathlib.Data.List.Sort
import Mathlib.Data.Set.Card

namespace Deviant.Budget.Voting

open CBudgetProposal Consensus Data List Masternode Primitives Validation

/-! What the superblocks pay: which proposals `GetBudget` takes for the next of them, and how many
of them fall into the blocks of a proposal. -/

namespace CBudgetProposal

variable (proposal : CBudgetProposal)

def netYes : Int := proposal.getYeas - proposal.getNays

/-- `PtrHigherYes`. -/
def higherYes (a b : CBudgetProposal) : Bool :=
  if a.netYes = b.netYes then decide (b.nFeeTXHash < a.nFeeTXHash) else decide (b.netYes < a.netYes)

/-- `IsEstablished`, with the adjusted time. -/
def isEstablished (adjustedTime nProposalEstablishmentTime : Int) : Bool :=
  decide (proposal.nTime < adjustedTime - nProposalEstablishmentTime)

/-- The conditions of `IsPassing` on the blocks of a proposal. -/
def coversWindow (nBlockStartBudget nBlockEndBudget : Int) : Bool :=
  decide (proposal.nBlockStart ≤ nBlockStartBudget) && decide (nBlockEndBudget ≤ proposal.nBlockEnd)

def isPassing (established : CBudgetProposal → Bool) (nBlockStartBudget nBlockEndBudget : Int)
    (mnCount : Nat) (proposal : CBudgetProposal) : Bool :=
  proposal.fValid && proposal.coversWindow nBlockStartBudget nBlockEndBudget &&
    decide ((mnCount / 10 : Nat) < proposal.netYes) && established proposal

end CBudgetProposal

/-- What is known of `std::sort` with `PtrHigherYes`: where proposals with one fee transaction end
up is open. -/
structure YesSort where
  sort : List CBudgetProposal → List CBudgetProposal
  perm : ∀ proposals, sort proposals ~ proposals
  sorted : ∀ proposals, (sort proposals).Pairwise fun a b => higherYes b a = false

/-- The order is a strict weak one, so that it can be sorted by. -/
def insertionYesSort : YesSort where
  sort := insertionSort fun a b => higherYes b a = false
  perm := perm_insertionSort _
  sorted proposals := by
    let better (a b : CBudgetProposal) : Prop := higherYes b a = false
    have total : Std.Total better := ⟨by grind [higherYes]⟩
    have trans : IsTrans _ better := ⟨by grind [higherYes]⟩
    exact pairwise_insertionSort better proposals

/-- The node as `GetBudget` finds it. -/
structure BudgetRound where
  signer : BudgetSigner
  chain : BudgetChain
  masternodes : MasternodeView
  adjustedTime : Int
  nProposalEstablishmentTime : Int := 60 * 60 * 24
  yesSort : YesSort
  manager : CBudgetManager

namespace BudgetRound

variable (round : BudgetRound)

def nextSuperblock : Int :=
  let nBlocksPerCycle := round.chain.nBudgetCycleBlocks
  round.manager.nBestHeight - round.manager.nBestHeight.tmod nBlocksPerCycle + nBlocksPerCycle

def total : Int := round.chain.getTotalBudget round.nextSuperblock

def passes : CBudgetProposal → Bool :=
  isPassing (isEstablished · round.adjustedTime round.nProposalEstablishmentTime) round.nextSuperblock
    (round.nextSuperblock + round.chain.nBudgetCycleBlocks - 1) round.chain.countEnabled

/-- `vBudgetPorposalsSort`. -/
def candidates : List CBudgetProposal :=
  round.yesSort.sort (round.manager.proposals.objects.values.map
    (VoteBook.removeStaleVotes (proposalKind round.signer) round.masternodes))

/-- No sum of amounts within the total can leave the range of an amount. -/
structure Bounded : Prop where
  amounts : ∀ proposal ∈ round.manager.proposals.objects.values, 0 ≤ proposal.nAmount ∧
    proposal.nAmount < 2 ^ 62
  total : 0 ≤ round.total ∧ round.total < 2 ^ 62

end BudgetRound

section

variable {passes : CBudgetProposal → Bool} {total allocated : Int} {proposals : List CBudgetProposal}

end

namespace BudgetRound

end BudgetRound

namespace SampleBudgets

def votedProposal : CBudgetProposal :=
  { proposal [0x51] with mapVotes := AList.insert ⟨5, 0⟩ (proposalVote 5 1 [3]) ∅ }

def round (nBestHeight : Int) (getTotalBudget : Int → Int := fun _ => 1000 * coinUnit) :
    BudgetRound where
  signer := signer
  chain := { chain with countEnabled := 1, getTotalBudget }
  masternodes := masternodes [5]
  adjustedTime := 1600000000
  yesSort := insertionYesSort
  manager := { nBestHeight, proposals := { objects := AList.insert 1 votedProposal ∅ } }

end SampleBudgets

namespace CBudgetProposal

variable (chain : BudgetChain)

def wrap32 (value : Int) : Int := Int.bmod value (2 ^ 32)

theorem wrap32_eq (low : -2 ^ 31 ≤ value) (high : value < 2 ^ 31) : wrap32 value = value := by
  unfold wrap32
  rw [Int.bmod_eq_of_le_mul_two] <;> omega

theorem wrap32_le (beyond : 2 ^ 31 ≤ value) : wrap32 value ≤ value - 2 ^ 32 := by
  unfold wrap32 Int.bmod
  dsimp only
  split <;> omega

/-- The constructor from a number of payments, all in `int`. -/
def ofPayments (name url : String) (paycount : Int) (payee : CScript) (amount blockstart : Int)
    (nfeetxhash : Uint256) : CBudgetProposal where
  strProposalName := name
  strURL := url
  nBlockStart := blockstart
  nBlockEnd :=
    wrap32 (blockstart - blockstart.tmod chain.nBudgetCycleBlocks + (chain.nBudgetCycleBlocks + 1) *
      paycount)
  address := payee
  nAmount := amount
  nFeeTXHash := nfeetxhash

/-- The cycles whose window, as `GetBudget` passes it to `IsPassing`, lies in the blocks of a
proposal. -/
def paidCycles (proposal : CBudgetProposal) : Set Int :=
  { cycle | proposal.coversWindow (cycle * chain.nBudgetCycleBlocks)
      (cycle * chain.nBudgetCycleBlocks + chain.nBudgetCycleBlocks - 1) = true }

/-- Of the first and the last cycle of a proposal exactly one is whole, or there is only a part of
one, and the end leaves no room for more than the allowed number of them. -/
def EvenEnds (proposal : CBudgetProposal) : Prop :=
  let cycle := chain.nBudgetCycleBlocks
  ((cycle ∣ proposal.nBlockEnd + 1 ↔ ¬ cycle ∣ proposal.nBlockStart) ∨
      ¬ cycle ∣ proposal.nBlockStart ∧ proposal.nBlockEnd / cycle = proposal.nBlockStart / cycle) ∧
    proposal.nBlockEnd + 1 <
    ((proposal.nBlockStart + cycle - 1) / cycle + chain.nMaxProposalPayments + 1) * cycle

end CBudgetProposal

section

variable {first last cycle : Int} (positive : 0 < cycle)

include positive

theorem pred_ediv : (last - 1) / cycle = last / cycle - if cycle ∣ last then 1 else 0 := by
  have whole := Int.emod_add_mul_ediv last cycle
  have low := Int.emod_nonneg last positive.ne'
  have high := Int.emod_lt_of_pos last positive
  simp only [Int.dvd_iff_emod_eq_zero]
  split
  · exact ((Int.ediv_emod_unique (r := cycle - 1) positive).mpr (by grind)).1
  · exact ((Int.ediv_emod_unique (r := last % cycle - 1) positive).mpr (by grind)).1

theorem first_whole_cycle :
    (first + cycle - 1) / cycle = first / cycle + if cycle ∣ first then 0 else 1 := by
  rw [show first + cycle - 1 = first - 1 +
    1 * cycle by omega, Int.add_mul_ediv_right _ _ positive.ne', pred_ediv positive]
  split <;> omega

theorem cycles_between (start : 0 ≤ first) (ordered : first ≤ last) :
    (last - (first - first.tmod cycle)).tdiv cycle = last / cycle - first / cycle := by
  have whole := Int.emod_add_mul_ediv first cycle
  have low := Int.emod_nonneg first positive.ne'
  rw [Int.tmod_eq_emod_of_nonneg start, Int.tdiv_eq_ediv_of_nonneg (by omega),
    show first - first % cycle =
    cycle * (first / cycle) by omega, Int.sub_mul_ediv_left _ _ positive.ne']

theorem paidCycles_ncard {chain : BudgetChain} (same : chain.nBudgetCycleBlocks = cycle)
    (proposal : CBudgetProposal) :
    (proposal.paidCycles chain).ncard =
      ((proposal.nBlockEnd + 1) / cycle - (proposal.nBlockStart + cycle - 1) / cycle).toNat := by
  rw [← Int.card_Ico, ← Set.ncard_coe_finset]
  congr 1
  ext number
  have opens := @Int.ediv_le_iff_le_mul cycle (proposal.nBlockStart + cycle - 1) number positive
  have closes := @Int.le_ediv_iff_mul_le (number + 1) (proposal.nBlockEnd + 1) cycle positive
  rw [Int.add_mul, Int.one_mul] at closes
  simp only [paidCycles, coversWindow, same, Set.mem_ofPred_eq, Bool.and_eq_true, decide_eq_true_eq,
    Finset.coe_Ico, Set.mem_Ico]
  omega

end

theorem isWellFormed_ordered {chain : BudgetChain} {proposal : CBudgetProposal} {nTotalBudget : Int}
    (formed : proposal.isWellFormed chain nTotalBudget = .ok ()) :
    0 ≤ proposal.nBlockStart ∧ proposal.nBlockStart ≤ proposal.nBlockEnd := by
  cases checked : proposal.checkStartEnd chain with
  | error reason => simp [isWellFormed, checked, bind, Except.bind] at formed
  | ok _ => grind [checkStartEnd]

theorem paidCycles_ofPayments {chain : BudgetChain} (positive : 0 < chain.nBudgetCycleBlocks)
    (aligned : chain.nBudgetCycleBlocks ∣ blockstart) (count : paycount < 2 ^ 31)
    (start : -2 ^ 31 ≤ blockstart ∧ blockstart < 2 ^ 31) :
    ((ofPayments chain name url paycount payee amount blockstart nfeetxhash).paidCycles
      chain).ncard = paycount ↔
      0 ≤ paycount ∧ paycount + 1 < chain.nBudgetCycleBlocks ∧
        blockstart + (chain.nBudgetCycleBlocks + 1) * paycount < 2 ^ 31 := by
  have top : blockstart.tmod chain.nBudgetCycleBlocks = 0 := Int.tmod_eq_zero_of_dvd aligned
  have whole := Int.ediv_mul_cancel aligned
  simp only [ofPayments, paidCycles_ncard positive rfl, first_whole_cycle positive, top, aligned,
    if_true, Int.sub_zero]
  by_cases negative : paycount < 0
  · omega
  have more := Int.mul_nonneg positive.le (show 0 ≤ paycount by omega)
  rw [Int.add_mul, Int.one_mul]
  by_cases beyond : 2 ^ 31 ≤ blockstart + (chain.nBudgetCycleBlocks * paycount + paycount)
  · -- an end that wraps lies too far below for the payments
    have paid : paycount ≠ 0 := by
      rintro rfl
      rw [Int.mul_zero] at beyond
      omega
    have few := (@Int.ediv_lt_iff_lt_mul
      (wrap32 (blockstart + (chain.nBudgetCycleBlocks * paycount + paycount)) + 1)
      (blockstart / chain.nBudgetCycleBlocks + paycount) _ positive).mpr (by
        rw [Int.add_mul, whole, Int.mul_comm paycount]
        have := wrap32_le beyond
        omega)
    omega
  · rw [wrap32_eq (by omega) (by omega), Int.add_assoc, Int.add_ediv_of_dvd_left aligned,
      Int.add_assoc, Int.mul_add_ediv_left _ _ positive.ne']
    have none_over := @Int.ediv_lt_iff_lt_mul (paycount + 1) 1 _ positive
    have := Int.ediv_nonneg (show 0 ≤ paycount + 1 by omega) positive.le
    omega

theorem paidCycles_counted_iff (chain : BudgetChain) (positive : 0 < chain.nBudgetCycleBlocks)
    (limit : 0 ≤ chain.nMaxProposalPayments) :
    (∀ nTotalBudget proposal, isWellFormed chain nTotalBudget proposal = .ok () →
      (((proposal.paidCycles chain).ncard ≤ chain.nMaxProposalPayments ∧
          (proposal.paidCycles chain).ncard = proposal.getTotalPaymentCount chain) ↔
      proposal.EvenEnds chain)) ∧
      ∀ name url paycount payee amount blockstart nfeetxhash,
      chain.nBudgetCycleBlocks ∣ blockstart →
        paycount < 2 ^ 31 → -2 ^ 31 ≤ blockstart ∧ blockstart < 2 ^ 31 →
        (((ofPayments chain name url paycount payee amount blockstart nfeetxhash).paidCycles
          chain).ncard = paycount ↔
          0 ≤ paycount ∧ paycount + 1 < chain.nBudgetCycleBlocks ∧
            blockstart + (chain.nBudgetCycleBlocks + 1) * paycount < 2 ^ 31) := by
  constructor
  · intro nTotalBudget proposal formed
    obtain ⟨start, ordered⟩ := isWellFormed_ordered formed
    have ends := @pred_ediv (proposal.nBlockEnd + 1) _ positive
    have later := Int.ediv_le_ediv positive ordered
    rw [Int.add_sub_cancel] at ends
    simp only [EvenEnds, paidCycles_ncard positive rfl, getTotalPaymentCount,
      cycles_between positive start ordered, ← Int.ediv_lt_iff_lt_mul positive,
      first_whole_cycle positive]
    grind
  · intro name url paycount payee amount blockstart nfeetxhash aligned count start
    exact paidCycles_ofPayments positive aligned count start

namespace SampleBudgets

theorem proposal_paid_once :
    ((proposal []).paidCycles chain).ncard ≤ chain.nMaxProposalPayments ∧
      ((proposal []).paidCycles chain).ncard = (1 : Int) :=
  ((paidCycles_counted_iff chain (by decide) (by decide)).1 (1000 * coinUnit) (proposal []) rfl).mpr
    (by unfold EvenEnds; decide)

/-- A proposal that ends with the last block of its seventh cycle is said to be paid six times. -/
theorem seventh_payment :
    let long := { proposal [] with nBlockStart := 42 * 43200, nBlockEnd := 49 * 43200 - 1 }
    long.isWellFormed chain (1000 * coinUnit) = .ok () ∧
      long.getTotalPaymentCount chain = chain.nMaxProposalPayments ∧ (long.paidCycles chain).ncard = 7 :=
  ⟨rfl, rfl, paidCycles_ncard (by decide) rfl _⟩

end SampleBudgets

end Deviant.Budget.Voting
