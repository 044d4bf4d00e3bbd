import Deviant.Budget.ForgedVotes
import Deviant.Masternode.ForgedWinners
import Deviant.Masternode.VoteTally

namespace Deviant.Budget.Voting

open Data Masternode VoteBook CMasternodePayments

/-! The handlers of all vote messages of a node, and what a forged vote among them does to later
messages. -/

/-- The state behind the handlers of budget messages and payment votes. -/
structure VoteHandlers where
  budget : CBudgetManager := {}
  payments : CMasternodePayments := {}

inductive VoteMessage where
  | budget (delivery : BudgetDelivery)
  | winner (view : MasternodeView) (peerVersion : Int) (winner : CMasternodePaymentWinner)

namespace VoteHandlers

section

variable (signer : BudgetSigner) (messageSigner : MessageSigner)

def process (node : VoteHandlers) : VoteMessage → Bool × VoteHandlers
  | .budget delivery =>
    let processed := node.budget.deliver signer delivery
    (processed.added, { node with budget := processed.state })
  | .winner view peerVersion winner =>
    let (added, payments) := node.payments.processWinner messageSigner view peerVersion winner
    (added, { node with payments := payments })

/-- The same votes on all proposals and finalized budgets, the same votes waiting for one, and the
same payment votes. -/
structure SameTallies (left right : VoteHandlers) : Prop where
  proposals : SameVotes (proposalKind signer) left.budget.proposals right.budget.proposals
  budgets : SameVotes (budgetKind signer) left.budget.budgets right.budget.budgets
  payeeVotes : left.payments.mapMasternodePayeeVotes = right.payments.mapMasternodePayeeVotes
  blocks : left.payments.mapMasternodeBlocks = right.payments.mapMasternodeBlocks

structure OrphansKeyed (node : VoteHandlers) : Prop where
  proposals : node.budget.proposals.OrphansKeyed (proposalKind signer)
  budgets : node.budget.budgets.OrphansKeyed (budgetKind signer)

def Forged : VoteMessage → Prop
  | .winner view _ winner => signedByMasternode messageSigner view winner = false
  | .budget delivery =>
    match delivery.message with
    | .proposalVote vote => ∀ pmn, delivery.view.masternodes.find vote.vin.prevout = some pmn →
        vote.checkSignature signer pmn.pubKeyMasternode = false
    | .finalizedBudgetVote vote => ∀ pmn, delivery.view.masternodes.find vote.vin.prevout = some pmn →
        vote.checkSignature signer pmn.pubKeyMasternode = false
    | _ => False

/-- The forged vote is new and of a known masternode; a payment vote passes the checks before its
signature and is not for the height that is remembered already. -/
def LeavesRecord (node : VoteHandlers) : VoteMessage → Prop
  | .winner view peerVersion winner =>
    node.payments.reachesLastVote messageSigner view peerVersion winner = true ∧
      node.payments.mapMasternodesLastVote.lookup winner.vinMasternode ≠ some winner.nBlockHeight
  | .budget delivery =>
    match delivery.message with
    | .proposalVote vote => node.budget.proposals.seenVotes.lookup (vote.getHash signer) = none ∧
        delivery.view.masternodes.find vote.vin.prevout ≠ none
    | .finalizedBudgetVote vote => node.budget.budgets.seenVotes.lookup (vote.getHash signer) = none ∧
        delivery.view.masternodes.find vote.vin.prevout ≠ none
    | _ => False

/-- A later message of the same kind with the hash of the forged vote, of a known masternode; or a
payment vote of the same masternode that gets as far as its last vote. -/
def Decides (forged : VoteMessage) (node : VoteHandlers) (message : VoteMessage) : Prop :=
  match forged, message with
  | .winner _ _ winner, .winner view peerVersion later =>
    node.payments.reachesLastVote messageSigner view peerVersion later = true ∧
      later.vinMasternode = winner.vinMasternode
  | .budget delivery, .budget later =>
    match delivery.message, later.message with
    | .proposalVote vote, .proposalVote other =>
      VoteBook.Decides (proposalKind signer) (vote.getHash signer) later.view other
    | .finalizedBudgetVote vote, .finalizedBudgetVote other =>
      VoteBook.Decides (budgetKind signer) (vote.getHash signer) later.view other
    | _, _ => False
  | _, _ => False

/-- The later message is signed and would be kept; a payment vote, that it is for the forged height
or for the one that was remembered when the forged vote came. -/
def Harms (start : VoteHandlers) (forged : VoteMessage) (node : VoteHandlers)
    (message : VoteMessage) : Prop :=
  match forged, message with
  | .winner _ _ winner, .winner view _ later =>
    signedByMasternode messageSigner view later = true ∧ (later.nBlockHeight = winner.nBlockHeight ∨
        start.payments.mapMasternodesLastVote.lookup winner.vinMasternode = some later.nBlockHeight)
  | .budget _, .budget later =>
    match later.message with
    | .proposalVote vote => node.budget.proposals.Keeps (proposalKind signer) true later.view vote
    | .finalizedBudgetVote vote => node.budget.budgets.Keeps (budgetKind signer) false later.view vote
    | _ => False
  | _, _ => False

def Spared (node : VoteHandlers) (forged : VoteMessage) (after : List VoteMessage) : Prop :=
  node.LeavesRecord signer messageSigner forged →
    FirstHarmless (process signer messageSigner) (Decides signer messageSigner forged)
      (Harms signer messageSigner node forged) node after

end

section

variable {signer : BudgetSigner} {messageSigner : MessageSigner} {left right node : VoteHandlers}

/-- Nodes that are related part by part. -/
structure Related
    (proposals : VoteBook CBudgetProposal CBudgetVote → VoteBook CBudgetProposal CBudgetVote → Prop)
    (budgets : VoteBook CFinalizedBudget CFinalizedBudgetVote →
      VoteBook CFinalizedBudget CFinalizedBudgetVote → Prop)
    (payments : CMasternodePayments → CMasternodePayments → Prop) (left right : VoteHandlers) :
    Prop where
  proposals : proposals left.budget.proposals right.budget.proposals
  budgets : budgets left.budget.budgets right.budget.budgets
  payments : payments left.payments right.payments

/-- An object that is new to the manager is stored, and the votes that wait for it are looked at. -/
def received {O : Type} (signer : BudgetSigner) (view : BudgetView) (nBestHeight : Int)
    (known : Bool) (stored : Option O) (place : O → CBudgetManager → CBudgetManager)
    (node : VoteHandlers) : Bool × VoteHandlers :=
  match known, stored with
  | false, some object =>
    (true, { node with
      budget := (place object { node.budget with nBestHeight := nBestHeight }).checkOrphanVotes
        signer view })
  | _, _ => (false, { node with budget := { node.budget with nBestHeight := nBestHeight } })

theorem process_proposal :
    node.process signer messageSigner (.budget ⟨chain, view, nBestHeight, .proposal proposal⟩) =
      node.received signer view nBestHeight
      (node.budget.proposals.objects.lookup (proposal.getHash signer)).isSome
        (proposal.stored signer chain nBestHeight) fun stored manager =>
          { manager with proposals := manager.proposals.emplaceObject (proposalKind signer) stored } := by
  unfold VoteHandlers.process CBudgetManager.deliver CBudgetManager.processMessage
    CBudgetManager.processProposal
  dsimp only
  rw [CBudgetManager.addProposal_eq, ← proposal.stored_eq_checked]
  cases node.budget.proposals.objects.lookup (proposal.getHash signer) with
  | some _ => rfl
  | none => cases proposal.stored signer chain nBestHeight <;> rfl

theorem process_finalizedBudget (budget : CFinalizedBudget) :
    node.process signer messageSigner (.budget ⟨chain, view, nBestHeight,
      .finalizedBudget budget⟩) =
      node.received signer view nBestHeight
      (node.budget.budgets.objects.lookup (budget.getHash signer)).isSome
        (budget.stored signer chain nBestHeight) fun stored manager =>
          { manager with
            budgets := manager.budgets.emplaceObject (budgetKind signer) stored
            mapUnconfirmedFeeTx := manager.mapUnconfirmedFeeTx.erase (budget.getHash signer) } := by
  unfold VoteHandlers.process CBudgetManager.deliver CBudgetManager.processMessage
    CBudgetManager.processFinalizedBudget
  dsimp only
  rw [CBudgetManager.addFinalizedBudget_eq, ← budget.stored_eq_checked]
  cases node.budget.budgets.objects.lookup (budget.getHash signer) with
  | some _ => rfl
  | none => cases budget.stored signer chain nBestHeight <;> rfl

section

variable
  {proposals : VoteBook CBudgetProposal CBudgetVote → VoteBook CBudgetProposal CBudgetVote → Prop}
  {budgets : VoteBook CFinalizedBudget CFinalizedBudgetVote →
    VoteBook CFinalizedBudget CFinalizedBudgetVote → Prop}
  {payments : CMasternodePayments → CMasternodePayments → Prop} {view : BudgetView}

theorem Related.received (related : Related proposals budgets payments left right)
    (preservedProposals : Preserved (proposalKind signer) proposals)
    (preservedBudgets : Preserved (budgetKind signer) budgets)
    (placed : ∀ object before after, proposals before.proposals after.proposals →
      budgets before.budgets after.budgets →
      proposals (place object before).proposals (place object after).proposals ∧
        budgets (place object before).budgets (place object after).budgets) :
    Agree (Related proposals budgets payments)
      (left.received signer view nBestHeight known stored place)
      (right.received signer view nBestHeight known stored place) := by
  unfold VoteHandlers.received
  split
  case h_1 object =>
    obtain ⟨newProposals, newBudgets⟩ := placed object { left.budget with nBestHeight := nBestHeight }
      { right.budget with nBestHeight := nBestHeight } related.proposals related.budgets
    exact ⟨rfl, preservedProposals.checkOrphanVotes newProposals view,
      preservedBudgets.checkOrphanVotes newBudgets view, related.payments⟩
  case h_2 => exact ⟨rfl, related.proposals, related.budgets, related.payments⟩

theorem Related.process (related : Related proposals budgets payments left right)
    (preservedProposals : Preserved (proposalKind signer) proposals)
    (preservedBudgets : Preserved (budgetKind signer) budgets)
    (proposalVote : ∀ chain view nBestHeight vote,
      message = .budget ⟨chain, view, nBestHeight, .proposalVote vote⟩ →
      Processed.Agree proposals (left.budget.proposals.processVote (proposalKind signer)
        true view vote)
        (right.budget.proposals.processVote (proposalKind signer) true view vote))
    (budgetVote : ∀ chain view nBestHeight vote,
      message = .budget ⟨chain, view, nBestHeight, .finalizedBudgetVote vote⟩ →
      Processed.Agree budgets (left.budget.budgets.processVote (budgetKind signer) false view vote)
        (right.budget.budgets.processVote (budgetKind signer) false view vote))
    (paymentVote : ∀ view peerVersion winner, message = .winner view peerVersion winner →
      Agree payments (left.payments.processWinner messageSigner view peerVersion winner)
        (right.payments.processWinner messageSigner view peerVersion winner)) :
    Agree (Related proposals budgets payments) (left.process signer messageSigner message)
      (right.process signer messageSigner message) := by
  cases message with
  | winner view peerVersion winner =>
    obtain ⟨answer, next⟩ := paymentVote view peerVersion winner rfl
    exact ⟨answer, related.proposals, related.budgets, next⟩
  | budget delivery =>
    obtain ⟨chain, view, nBestHeight, message⟩ := delivery
    cases message with
    | proposal proposal =>
      rw [process_proposal, process_proposal, preservedProposals.objects related.proposals]
      exact related.received preservedProposals preservedBudgets fun object _ _ same other =>
        ⟨preservedProposals.emplaceObject same object, other⟩
    | finalizedBudget budget =>
      rw [process_finalizedBudget, process_finalizedBudget, preservedBudgets.objects related.budgets]
      exact related.received preservedProposals preservedBudgets fun object _ _ other same =>
        ⟨other, preservedBudgets.emplaceObject same object⟩
    | proposalVote vote =>
      obtain ⟨answer, next⟩ := proposalVote chain view nBestHeight vote rfl
      exact ⟨answer, next, related.budgets, related.payments⟩
    | finalizedBudgetVote vote =>
      obtain ⟨answer, next⟩ := budgetVote chain view nBestHeight vote rfl
      exact ⟨answer, related.proposals, next, related.payments⟩

end

def Same (signer : BudgetSigner) : VoteHandlers → VoteHandlers → Prop :=
  Related (Alike (proposalKind signer) fun _ => False) (Alike (budgetKind signer) fun _ => False)
    (Alike fun _ => False)

theorem Same.stays (same : Same signer left right) :
    Agree (Same signer) (left.process signer messageSigner message)
      (right.process signer messageSigner message) := by
  refine Related.process same preserved_alike preserved_alike ?_ ?_ ?_
  · exact fun _ _ _ _ _ => same.proposals.processVote nofun
  · exact fun _ _ _ _ _ => same.budgets.processVote nofun
  · exact fun _ _ _ _ => same.payments.processWinner nofun

theorem Same.unaffected (same : Same signer left right) :
    Unaffected (process signer messageSigner) (SameTallies signer) left right messages := by
  refine unaffected_of_relation (fun left right same => ?_) (fun _ _ message same => same.stays) same
  exact ⟨same.proposals.sameVotes, same.budgets.sameVotes, same.payments.votes, same.payments.blocks⟩

theorem Same.run (same : Same signer node node) (messages : List VoteMessage) :
    Same signer (reached (process signer messageSigner) node messages)
      (reached (process signer messageSigner) node messages) := by
  induction messages generalizing node with
  | nil => exact same
  | cons message messages ih => exact ih same.stays.states

variable (signer messageSigner) in
/-- The record of a forged vote does harm by the first message that it decides. -/
abbrev Suppresses (start : VoteHandlers) (forged : VoteMessage) (left right : VoteHandlers)
    (after : List VoteMessage) :=
  Unaffected (process signer messageSigner) (SameTallies signer) left right after ↔ FirstHarmless
    (process signer messageSigner) (Decides signer messageSigner forged)
    (Harms signer messageSigner start forged) right after

theorem unaffected_of_seenForged_proposal
    (hidden : Related (SeenForged (proposalKind signer) (vote.getHash signer))
      (Alike (budgetKind signer) fun _ => False)
      (Alike fun _ => False) left right) :
    Suppresses signer messageSigner start (.budget ⟨chain, view, nBestHeight, .proposalVote vote⟩)
      left right after := by
  refine unaffected_iff_firstHarmless ?_ ?_ ?_ ?_ (fun _ _ messages same => Same.unaffected same) hidden
  · intro left right hidden
    exact ⟨hidden.proposals.alike.sameVotes, hidden.budgets.sameVotes, hidden.payments.votes,
      hidden.payments.blocks⟩
  · intro left right message hidden undecided
    refine hidden.process preserved_seenForged preserved_alike ?_ ?_ ?_
    · rintro chain view nBestHeight other rfl
      exact hidden.proposals.stays undecided
    · exact fun _ _ _ _ _ => hidden.budgets.processVote nofun
    · exact fun _ _ _ _ => hidden.payments.processWinner nofun
  · intro left right message hidden decides harmless
    match message with
    | .budget ⟨chain, view, nBestHeight, .proposalVote other⟩ =>
      obtain ⟨answer, next⟩ := hidden.proposals.ends decides harmless
      exact ⟨answer, next, hidden.budgets, hidden.payments⟩
  · intro left right message hidden decides harmful answer same
    match message with
    | .budget ⟨chain, view, nBestHeight, .proposalVote other⟩ =>
      exact hidden.proposals.shows decides harmful answer same.proposals

theorem unaffected_of_seenForged_budget
    (hidden : Related (Alike (proposalKind signer) fun _ => False)
      (SeenForged (budgetKind signer) (vote.getHash signer))
      (Alike fun _ => False) left right) :
    Suppresses signer messageSigner start (.budget ⟨chain, view, nBestHeight,
      .finalizedBudgetVote vote⟩) left right after := by
  refine unaffected_iff_firstHarmless ?_ ?_ ?_ ?_ (fun _ _ messages same => Same.unaffected same) hidden
  · intro left right hidden
    exact ⟨hidden.proposals.sameVotes, hidden.budgets.alike.sameVotes, hidden.payments.votes,
      hidden.payments.blocks⟩
  · intro left right message hidden undecided
    refine hidden.process preserved_alike preserved_seenForged ?_ ?_ ?_
    · exact fun _ _ _ _ _ => hidden.proposals.processVote nofun
    · rintro chain view nBestHeight other rfl
      exact hidden.budgets.stays undecided
    · exact fun _ _ _ _ => hidden.payments.processWinner nofun
  · intro left right message hidden decides harmless
    match message with
    | .budget ⟨chain, view, nBestHeight, .finalizedBudgetVote other⟩ =>
      obtain ⟨answer, next⟩ := hidden.budgets.ends decides harmless
      exact ⟨answer, hidden.proposals, next, hidden.payments⟩
  · intro left right message hidden decides harmful answer same
    match message with
    | .budget ⟨chain, view, nBestHeight, .finalizedBudgetVote other⟩ =>
      exact hidden.budgets.shows decides harmful answer same.budgets

theorem unaffected_of_lastVoteForged
    (differ : start.payments.mapMasternodesLastVote.lookup winner.vinMasternode ≠
      some winner.nBlockHeight)
    (hidden : Related (Alike (proposalKind signer) fun _ => False)
      (Alike (budgetKind signer) fun _ => False)
      (LastVoteForged winner.vinMasternode winner.nBlockHeight
        (start.payments.mapMasternodesLastVote.lookup winner.vinMasternode)) left right) :
    Suppresses signer messageSigner start (.winner view peerVersion winner) left right after := by
  refine unaffected_iff_firstHarmless ?_ ?_ ?_ ?_ (fun _ _ messages same => Same.unaffected same) hidden
  · intro left right hidden
    exact ⟨hidden.proposals.sameVotes, hidden.budgets.sameVotes, hidden.payments.alike.votes,
      hidden.payments.alike.blocks⟩
  · intro left right message hidden undecided
    refine hidden.process preserved_alike preserved_alike ?_ ?_ ?_
    · exact fun _ _ _ _ _ => hidden.proposals.processVote nofun
    · exact fun _ _ _ _ _ => hidden.budgets.processVote nofun
    · rintro view peerVersion later rfl
      exact hidden.payments.stays undecided
  · intro left right message hidden decides harmless
    cases message with
    | budget delivery => exact decides.elim
    | winner view peerVersion later =>
      have answer := (hidden.payments.answers_iff differ decides.1 decides.2).mpr harmless
      exact ⟨answer, hidden.proposals, hidden.budgets,
        hidden.payments.ends decides.1 decides.2 answer⟩
  · intro left right message hidden decides harmful answer _
    cases message with
    | budget delivery => exact decides.elim
    | winner view peerVersion later =>
      exact (hidden.payments.answers_iff differ decides.1 decides.2).mp answer harmful

theorem unaffected_iff_of_outcome {recorded harmless : Prop}
      (outcome : Same signer left node ∧ ¬ recorded ∨
      recorded ∧ (Unaffected (process signer messageSigner) (SameTallies signer) left node after ↔
        harmless)) :
    Unaffected (process signer messageSigner) (SameTallies signer) left node after ↔
    (recorded → harmless) := by
  rcases outcome with ⟨same, dropped⟩ | ⟨records, spared⟩
  · exact iff_of_true same.unaffected fun records => absurd records dropped
  · rw [forall_prop_of_true records]
    exact spared

/-- A forged vote among the messages changes nothing for the later ones exactly if it leaves no
record, or none that a later genuine vote meets.  The record of a budget vote is its hash, entered
before the signature is looked at; that of a payment vote the last height that its masternode voted
for. -/
theorem unaffected_iff_spared (signer : BudgetSigner) (messageSigner : MessageSigner)
    (start : VoteHandlers) (keyed : start.OrphansKeyed signer) (before after : List VoteMessage)
    (forged : VoteMessage) (isForged : Forged signer messageSigner forged) :
    Unaffected (process signer messageSigner) (SameTallies signer)
        ((reached (process signer messageSigner) start before).process signer
          messageSigner forged).2
        (reached (process signer messageSigner) start before) after ↔
      Spared signer messageSigner (reached (process signer messageSigner) start before)
      forged after := by
  have same : Same signer start start :=
    ⟨⟨fun _ => rfl, fun _ => rfl, fun _ _ => rfl, keyed.proposals⟩,
    ⟨fun _ => rfl, fun _ => rfl, fun _ _ => rfl, keyed.budgets⟩, rfl, rfl, fun _ _ => rfl⟩
  have here := @Same.run signer messageSigner start same before
  generalize reached (process signer messageSigner) start before = node at here
  unfold Spared
  match forged with
  | .winner view peerVersion winner =>
    refine unaffected_iff_of_outcome ?_
    rcases CMasternodePayments.processWinner_forged isForged with ⟨same, dropped⟩ | ⟨records, hidden⟩
    · exact .inl ⟨⟨here.proposals, here.budgets, same⟩, dropped⟩
    · refine .inr ⟨records, unaffected_of_lastVoteForged records.2 ?_⟩
      exact ⟨here.proposals, here.budgets, hidden⟩
  | .budget ⟨chain, view, nBestHeight, .proposalVote vote⟩ =>
    refine unaffected_iff_of_outcome ?_
    rcases @processVote_forged _ _ (proposalKind signer) node.budget.proposals view vote true
      here.proposals.keyed isForged with ⟨same, dropped⟩ | ⟨records, hidden⟩
    · exact .inl ⟨⟨same, here.budgets, here.payments⟩, dropped⟩
    · refine .inr ⟨records, unaffected_of_seenForged_proposal ?_⟩
      exact ⟨hidden, here.budgets, here.payments⟩
  | .budget ⟨chain, view, nBestHeight, .finalizedBudgetVote vote⟩ =>
    refine unaffected_iff_of_outcome ?_
    rcases @processVote_forged _ _ (budgetKind signer) node.budget.budgets view vote false
      here.budgets.keyed isForged with ⟨same, dropped⟩ | ⟨records, hidden⟩
    · exact .inl ⟨⟨here.proposals, same, here.payments⟩, dropped⟩
    · refine .inr ⟨records, unaffected_of_seenForged_budget ?_⟩
      exact ⟨here.proposals, hidden, here.payments⟩

end

end VoteHandlers

open VoteHandlers

namespace SampleBudgets

def storedFirst : List VoteMessage := [.budget (delivered (.proposal (proposal [0x51])))]

def voteSigned (vchSig : List UInt8) :
    VoteMessage := .budget (delivered (.proposalVote (proposalVote 11 1 vchSig)))

def winnerSigned (vchSig : List UInt8) : VoteMessage :=
  .winner SampleVotes.view 70922
    { vinMasternode := SampleVotes.masternode, nBlockHeight := 5005, payee := [0x51], vchSig := vchSig }

theorem forged_voteSigned : Forged signer SampleVotes.signer (voteSigned [0]) := by
  rintro pmn known
  cases known
  decide

theorem keyed_empty : OrphansKeyed signer {} :=
  ⟨fun _ _ found => (nomatch found), fun _ _ found => (nomatch found)⟩

end SampleBudgets

open SampleBudgets in
/-- The genuine vote of the same masternode is dropped, so that the forged one does not spare it. -/
theorem unaffected_iff_spared_genuine : ¬ Spared signer SampleVotes.signer
    (reached (process signer SampleVotes.signer) {} storedFirst) (voteSigned [0]) [voteSigned [3]] := by
  intro spared
  have unaffected :=
    (unaffected_iff_spared signer SampleVotes.signer {} keyed_empty storedFirst [voteSigned [3]]
    (voteSigned [0]) forged_voteSigned).mpr spared
  exact absurd unaffected.1 (by decide)

open SampleBudgets in
/-- After a vote with a wrong signature the genuine vote is dropped, on a proposal and for a
payee. -/
theorem forged_vote_suppresses : Forged signer SampleVotes.signer (voteSigned [0]) ∧
      Forged signer SampleVotes.signer (winnerSigned [0]) ∧
      answers (process signer SampleVotes.signer) {} (storedFirst ++ [voteSigned [3], winnerSigned [3]]) =
        [true, true, true] ∧ answers (process signer SampleVotes.signer) {}
        (storedFirst ++ [voteSigned [0], voteSigned [3], winnerSigned [0], winnerSigned [3]]) =
        [true, false, false, false, false] := by
  have unsigned : signedByMasternode SampleVotes.signer SampleVotes.view
      { vinMasternode := SampleVotes.masternode, nBlockHeight := 5005, payee := [0x51],
        vchSig := [0] } = false := by decide
  exact ⟨forged_voteSigned, unsigned, by decide, by decide⟩

end Deviant.Budget.Voting
