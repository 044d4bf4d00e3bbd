import Deviant.Budget.BookSteps
import Deviant.Budget.Collateral

namespace Deviant.Budget

open Data Masternode Option Primitives

/-! The count of a finalized budget is that of all its votes, also of masternodes that have left.
It is that of the enabled masternodes as long as none of those that voted leaves, and none votes
that is not enabled. -/

namespace VoteBook

variable {O V : Type} {kind : ObjectKind O V} {book : VoteBook O V} {view : BudgetView} {vote : V}
  {P : COutPoint → Prop}

theorem mapVotes_voted (taken : voted kind view vote object = some after) :
    kind.mapVotes after = (kind.mapVotes object).insert (kind.mnId vote) vote := by
  unfold voted addOrUpdateVote at taken
  obtain ⟨votes, added, rfl⟩ := map_eq_some_iff.mp taken
  rw [kind.mapVotes_setVotes]
  split at added
  · cases added
  · split at added
    · cases added
    · exact (Option.some.inj added).symm

def AllVoters (kind : ObjectKind O V) (P : COutPoint → Prop) (book : VoteBook O V) : Prop :=
  ∀ hash object, book.objects.lookup hash = some object →
    ∀ mnId vote, (kind.mapVotes object).lookup mnId = some vote → P mnId

theorem voters_getD_voted
    (voters : ∀ mnId old, (kind.mapVotes object).lookup mnId = some old → P mnId) :
    (∀ mnId found, (kind.mapVotes ((voted kind view vote object).getD object)).lookup mnId =
      some found → P mnId) ↔
      ((voted kind view vote object).isSome = true → P (kind.mnId vote)) := by
  cases taken : voted kind view vote object with
  | none => exact iff_of_true voters nofun
  | some after =>
    rw [getD_some, mapVotes_voted taken]
    exact ⟨fun all _ => all _ vote (AList.lookup_insert _),
      fun voter => Table.forall_lookup_insert (voter rfl) voters⟩

section

variable (before : book.AllVoters kind P)

include before

/-- At most one vote is offered to each object. -/
theorem AllVoters.offered_iff {after : VoteBook O V} (view : BudgetView) (offered : Uint256 → Option V)
    (keyed : ∀ hash vote, offered hash = some vote → kind.objectHash vote = hash)
    (objects : ∀ hash, after.objects.lookup hash = match offered hash with
      | none => book.objects.lookup hash
      | some vote => (book.objects.lookup hash).map fun object =>
        (voted kind view vote object).getD object) :
    after.AllVoters kind P ↔
      ∀ hash vote, offered hash = some vote → book.takes kind view vote = true →
      P (kind.mnId vote) := by
  unfold AllVoters takes
  refine forall_congr' fun hash => ?_
  rw [objects]
  cases offer : offered hash with
  | none => exact iff_of_true (before hash) nofun
  | some vote =>
    obtain rfl := keyed hash vote offer
    cases stored : book.objects.lookup (kind.objectHash vote) with
    | none => simp [stored]
    | some object =>
      have same := @voters_getD_voted _ _ kind view vote P object (before _ object stored)
      simpa [stored] using same

theorem AllVoters.update_iff (fromPeer : Bool) (view : BudgetView) (vote : V) :
    (book.update kind fromPeer view vote).2.AllVoters kind P ↔
      (book.takes kind view vote = true → P (kind.mnId vote)) := by
  refine (before.offered_iff view (fun hash => if hash = kind.objectHash vote then some vote
    else none) ?_ fun hash => ?_).trans ?_
  · simp +contextual
  · rw [objects_update]
    split <;> rfl
  · simp

theorem AllVoters.checkOrphanVotes_iff (keyed : book.OrphansKeyed kind) :
    (book.checkOrphanVotes kind view).AllVoters kind P ↔
      ∀ hash vote, book.orphanVotes.lookup hash = some vote → book.takes kind view vote = true →
      P (kind.mnId vote) :=
  before.offered_iff view _ keyed fun hash => (checkOrphanVotes_spec keyed hash).1

theorem AllVoters.processVote_iff :
    (book.processVote kind mustBeEnabled view vote).state.AllVoters kind P ↔
        (book.Admitted kind mustBeEnabled view vote → book.takes kind view vote = true →
          P (kind.mnId vote)) := by
  by_cases admitted : book.Admitted kind mustBeEnabled view vote
  · have seen : (book.addSeenVote kind vote).AllVoters kind P := before
    rw [(processVote_admitted admitted).2, seen.update_iff true view vote]
    exact ⟨fun voter _ => voter, fun voter => voter admitted⟩
  · refine iff_of_true ?_ fun passes => absurd passes admitted
    rcases (processVote_refused admitted).2 with refused | refused <;> rwa [refused]

theorem AllVoters.emplaceObject (unvoted : kind.mapVotes object = ∅) :
    (book.emplaceObject kind object).AllVoters kind P := by
  intro hash found stored mnId vote present
  unfold VoteBook.emplaceObject at stored
  rw [lookup_emplace] at stored
  split at stored
  · cases stored
    rw [unvoted] at present
    cases present
  · exact before hash found stored mnId vote present

end

end VoteBook

namespace Voting

structure VotingNode where
  manager : CBudgetManager := {}
  masternodes : MasternodeView

inductive VotingEvent where
  | finalizedBudgetVote (isSynced : Bool) (getTime : Int) (vote : CFinalizedBudgetVote)
  /-- A budget that is received or submitted has no votes yet. -/
  | addFinalizedBudget (chain : BudgetChain) (budget : CFinalizedBudget)
  | checkOrphanVotes (isSynced : Bool) (getTime : Int)
  /-- One turn of `VoteOnFinalizedBudgets`. -/
  | ownVote (isSynced : Bool) (getTime : Int) (vote : CFinalizedBudgetVote)
  /-- Masternodes leave the list, enter it, or change their state. -/
  | masternodes (list : MasternodeView)
  | removeStaleVotes
  | setBestHeight (height : Int)

namespace VotingNode

def view (node : VotingNode) (isSynced : Bool) (getTime : Int) : BudgetView :=
  { masternodes := node.masternodes, isSynced := isSynced, getTime := getTime }

def step (signer : BudgetSigner) (node : VotingNode) : VotingEvent → VotingNode
  | .finalizedBudgetVote isSynced getTime vote =>
    { node with
      manager := (node.manager.processFinalizedBudgetVote signer (node.view isSynced getTime)
        vote).state }
  | .addFinalizedBudget chain budget =>
    { node with manager := (node.manager.addFinalizedBudget signer chain
      { budget with mapVotes := ∅ }).2 }
  | .checkOrphanVotes isSynced getTime =>
    { node with manager := node.manager.checkOrphanVotes signer (node.view isSynced getTime) }
  | .ownVote isSynced getTime vote =>
    { node with manager := node.manager.voteOnFinalizedBudgets signer (node.view isSynced getTime) [vote] }
  | .masternodes list => { node with masternodes := list }
  | .removeStaleVotes =>
    { node with manager := node.manager.removeStaleVotesOnFinalBudgets signer node.masternodes }
  | .setBestHeight height => { node with manager := { node.manager with nBestHeight := height } }

section

variable (signer : BudgetSigner)

variable (node : VotingNode)

def run (events : List VotingEvent) : VotingNode :=
  events.foldl (step signer) node

def live (list : MasternodeView) (mnId : COutPoint) :
    Bool := (list.find mnId).any CMasternode.enabled

/-- The count of each budget, as the choice of the budget and the check of its payments read it, is
the number of its votes of live masternodes. -/
def CountsLiveVotes : Prop :=
  ∀ hash budget, node.manager.budgets.objects.lookup hash = some budget →
    budget.counted.getVoteCount = budget.mapVotes.entries.countP fun entry =>
    live node.masternodes entry.1

def VotersLive (list : MasternodeView) (manager : CBudgetManager) : Prop :=
  manager.budgets.AllVoters (budgetKind signer) fun mnId => live list mnId = true

theorem countsLiveVotes_iff :
    node.CountsLiveVotes ↔ VotersLive signer node.masternodes node.manager := by
  have counted : ∀ budget : CFinalizedBudget,
      budget.counted.getVoteCount = (budget.mapVotes.entries.countP fun entry =>
        live node.masternodes entry.1 : Nat) ↔
        ∀ mnId vote, budget.mapVotes.lookup mnId = some vote →
        live node.masternodes mnId = true := by
    intro budget
    rw [show budget.counted.getVoteCount = (budget.mapVotes.entries.length : Int) from rfl,
      Nat.cast_inj, eq_comm, List.countP_eq_length]
    constructor
    · intro every mnId vote found
      exact every ⟨mnId, vote⟩ (AList.mem_lookup_iff.mp found)
    · rintro every ⟨mnId, vote⟩ member
      exact every mnId vote (AList.mem_lookup_iff.mpr member)
  constructor
  · intro counts hash budget stored
    exact (counted budget).mp (counts hash budget stored)
  · intro voters hash budget stored
    exact (counted budget).mpr (voters hash budget stored)

/-- The votes that a step adds are of live masternodes, and no masternode with a vote stops being
live. -/
def KeepsLive : VotingEvent → Prop
  | .finalizedBudgetVote isSynced getTime vote =>
    node.manager.budgets.Admitted (budgetKind signer) false (node.view isSynced getTime) vote →
      node.manager.budgets.takes (budgetKind signer) (node.view isSynced getTime) vote = true →
        live node.masternodes vote.vin.prevout = true
  | .checkOrphanVotes isSynced getTime =>
    ∀ hash vote, node.manager.budgets.orphanVotes.lookup hash = some vote →
      node.manager.budgets.takes (budgetKind signer) (node.view isSynced getTime) vote = true →
        live node.masternodes vote.vin.prevout = true
  | .ownVote isSynced getTime vote =>
    node.manager.budgets.takes (budgetKind signer) (node.view isSynced getTime) vote = true →
      live node.masternodes vote.vin.prevout = true
  | .masternodes list => VotersLive signer list node.manager
  | .addFinalizedBudget _ _ => True
  | .removeStaleVotes => True
  | .setBestHeight _ => True

end

variable {signer : BudgetSigner} {node : VotingNode}

theorem orphansKeyed_step (keyed : node.manager.budgets.OrphansKeyed (budgetKind signer))
    (event : VotingEvent) :
    (node.step signer event).manager.budgets.OrphansKeyed (budgetKind signer) := by
  cases event with
  | finalizedBudgetVote isSynced getTime vote =>
    exact keyed.processVote false (node.view isSynced getTime) vote
  | addFinalizedBudget chain budget =>
    rcases CBudgetManager.addFinalizedBudget_cases signer node.manager { budget with mapVotes := ∅ }
      with
      refused | ⟨stored, _, _, added⟩
    · rw [step, refused]
      exact keyed
    · rw [step, added]
      exact keyed
  | checkOrphanVotes isSynced getTime => exact keyed.checkOrphanVotes
  | ownVote isSynced getTime vote =>
    have updated := keyed.update false (node.view isSynced getTime) vote
    rw [step, CBudgetManager.voteOnFinalizedBudgets, List.foldl_cons, List.foldl_nil]
    dsimp only
    split
    · exact updated
    · exact updated
  | masternodes list => exact keyed
  | removeStaleVotes => exact keyed
  | setBestHeight height => exact keyed

theorem votersLive_step_iff (keyed : node.manager.budgets.OrphansKeyed (budgetKind signer))
    (before : VotersLive signer node.masternodes node.manager) (event : VotingEvent) :
    VotersLive signer (node.step signer event).masternodes (node.step signer event).manager ↔
      node.KeepsLive signer event := by
  cases event with
  | finalizedBudgetVote isSynced getTime vote =>
    exact VoteBook.AllVoters.processVote_iff before
  | addFinalizedBudget chain budget =>
    refine iff_of_true ?_ trivial
    rcases CBudgetManager.addFinalizedBudget_cases signer node.manager { budget with mapVotes := ∅ }
      with
      refused | ⟨stored, _, unvoted, added⟩
    · rw [step, refused]
      exact before
    · rw [step, added]
      exact VoteBook.AllVoters.emplaceObject before unvoted
  | checkOrphanVotes isSynced getTime => exact VoteBook.AllVoters.checkOrphanVotes_iff before keyed
  | ownVote isSynced getTime vote =>
    have updated := VoteBook.AllVoters.update_iff before false (node.view isSynced getTime) vote
    rw [step, CBudgetManager.voteOnFinalizedBudgets, List.foldl_cons, List.foldl_nil]
    dsimp only
    split
    · exact updated
    · exact updated
  | masternodes list => exact Iff.rfl
  | removeStaleVotes =>
    refine iff_of_true ?_ trivial
    intro hash budget stored mnId vote present
    rw [step, CBudgetManager.removeStaleVotesOnFinalBudgets, Table.lookup_replaceAll] at stored
    obtain ⟨old, found, rfl⟩ := map_eq_some_iff.mp stored
    have replaced := (Table.lookup_replaceAll ..).symm.trans present
    obtain ⟨oldVote, voted, _⟩ := map_eq_some_iff.mp replaced
    exact before hash old found mnId oldVote voted
  | setBestHeight height => exact iff_of_true before trivial

theorem orphansKeyed_run (events : List VotingEvent) :
    (run signer { masternodes := list } events).manager.budgets.OrphansKeyed (budgetKind signer) := by
  refine List.foldlRecOn (motive := fun node : VotingNode =>
    node.manager.budgets.OrphansKeyed (budgetKind signer)) events _ ?_ ?_
  · exact fun _ _ found => (nomatch found)
  · exact fun node keyed event _ => orphansKeyed_step keyed event

/-- In every state of a run the counts are those of the live votes, exactly if every step adds votes
of live masternodes only, and takes no masternode with a vote from the list. -/
theorem countsLiveVotes_iff_keepsLive (signer : BudgetSigner) (list : MasternodeView)
    (events : List VotingEvent) :
    (∀ passed, passed <+: events → (run signer { masternodes := list } passed).CountsLiveVotes) ↔
      ∀ passed event, passed ++ [event] <+: events →
        (run signer { masternodes := list } passed).KeepsLive signer event := by
  refine Iff.trans (forall₂_congr fun passed _ => ?_) (forall_inv_iff (fun node =>
    node.manager.budgets.OrphansKeyed (budgetKind signer) ∧
      VotersLive signer node.masternodes node.manager)
    (KeepsLive signer) ⟨orphansKeyed_run [], fun _ _ stored => (nomatch stored)⟩
      fun node event before => ?_)
  · rw [countsLiveVotes_iff signer]
    exact (and_iff_right (orphansKeyed_run passed)).symm
  · rw [and_iff_right (orphansKeyed_step before.1 event)]
    exact votersLive_step_iff before.1 before.2 event

end VotingNode

/-- A masternode votes and leaves, and its vote is counted after the clean-up of stale votes. -/
theorem vote_of_removed_masternode_counted :
    let node := VotingNode.run SampleBudgets.signer { masternodes := SampleBudgets.masternodes [7] }
      [.setBestHeight 43000,
        .addFinalizedBudget SampleBudgets.chain (SampleBudgets.budget [coinUnit]),
        .finalizedBudgetVote true 1600000000 (SampleBudgets.budgetVote 7 1 [3]),
        .masternodes (SampleBudgets.masternodes []), .removeStaleVotes]
    (node.manager.budgets.objects.lookup 1).map (fun budget => (budget.counted.getVoteCount,
      budget.mapVotes.entries.countP fun entry => VotingNode.live node.masternodes entry.1)) =
      some (1, 0) := by
  decide

end Voting

end Deviant.Budget
