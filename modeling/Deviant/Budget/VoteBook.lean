import Deviant.Masternode.Winners

namespace Deviant.Budget

open Data Masternode Primitives

/-! Proposals and finalized budgets are kept alike: the objects under their hashes, the votes on
each of them by masternode, an index of the transactions that paid their fees, the votes that were
seen, and one vote for an object that is not known yet.  `VoteBook` is one of these two halves of
the budget manager. -/

structure VoteKind (V : Type) where
  /-- `GetVin().prevout`: the masternode. -/
  mnId : V → COutPoint
  /-- `GetProposalHash`, `GetBudgetHash`: the object that the vote is on. -/
  objectHash : V → Uint256
  getTime : V → Int
  getHash : V → Uint256
  checkSignature : V → CKeyID → Bool
  setValid : Bool → V → V
  isValid : V → Bool

structure ObjectKind (O V : Type) extends VoteKind V where
  getObjectHash : O → Uint256
  getFeeTXHash : O → Uint256
  mapVotes : O → Table COutPoint V
  setVotes : Table COutPoint V → O → O
  mapVotes_setVotes : ∀ votes object, mapVotes (setVotes votes object) = votes
  getObjectHash_setVotes : ∀ votes object,
    getObjectHash (setVotes votes object) = getObjectHash object
  getFeeTXHash_setVotes : ∀ votes object, getFeeTXHash (setVotes votes object) = getFeeTXHash object

structure BudgetView where
  masternodes : MasternodeView
  /-- `masternodeSync.IsSynced`. -/
  isSynced : Bool
  getTime : Int

/-- The outcome of a message: the ban score, and whether the vote or object was added. -/
structure Processed (S : Type) where
  banScore : Nat := 0
  added : Bool := false
  state : S

def budgetVoteUpdateMin : Int := 60 * 60

/-- The masternode has a vote already that is newer, or that is not old enough to be replaced. -/
def votedTooRecently {V : Type} (kind : VoteKind V) (mapVotes : Table COutPoint V) (vote : V) :
    Bool :=
  match mapVotes.lookup (kind.mnId vote) with
  | none => false
  | some old =>
    decide (kind.getTime old > kind.getTime vote) ||
      decide (wrap64 (kind.getTime vote - kind.getTime old) < budgetVoteUpdateMin)

/-- `AddOrUpdateVote`, on the votes of an object. -/
def addOrUpdateVote {V : Type} (kind : VoteKind V) (now : Int) (mapVotes : Table COutPoint V)
    (vote : V) :
    Option (Table COutPoint V) :=
  if votedTooRecently kind mapVotes vote then none
  else if kind.getTime vote > now + 60 * 60 then none
  else some (mapVotes.insert (kind.mnId vote) vote)

structure VoteBook (O V : Type) where
  /-- `mapProposals`, `mapFinalizedBudgets`. -/
  objects : Table Uint256 O := ∅
  /-- `mapFeeTxToProposal`, `mapFeeTxToBudget`. -/
  feeTxs : Table Uint256 Uint256 := ∅
  /-- `mapSeenProposalVotes`, `mapSeenFinalizedBudgetVotes`. -/
  seenVotes : Table Uint256 V := ∅
  /-- `mapOrphanProposalVotes`, `mapOrphanFinalizedBudgetVotes`. -/
  orphanVotes : Table Uint256 V := ∅

/-- `std::map::emplace`: an entry that is there already stays. -/
def emplace {β : Type} (table : Table Uint256 β) (key : Uint256) (value : β) : Table Uint256 β :=
  if (table.lookup key).isSome then table else table.insert key value

namespace VoteBook

variable {O V : Type} (kind : ObjectKind O V)

/-- `UpdateProposal`, `UpdateFinalizedBudget`: whether the vote was taken.  A vote of a peer on an
unknown object is kept under the hash of the object, once the node is synced. -/
def update (fromPeer : Bool) (view : BudgetView) (book : VoteBook O V) (vote : V) :
    Bool × VoteBook O V :=
  match book.objects.lookup (kind.objectHash vote) with
  | none =>
    if fromPeer && view.isSynced then
      (false, { book with orphanVotes := book.orphanVotes.insert (kind.objectHash vote) vote })
    else (false, book)
  | some object =>
    match addOrUpdateVote kind.toVoteKind view.getTime (kind.mapVotes object) vote with
    | none => (false, book)
    | some votes =>
      (true, { book with objects := book.objects.insert (kind.objectHash vote) (kind.setVotes votes object) })

/-- One turn of the loop of `CheckOrphanVotes`. -/
def checkOrphanVote (view : BudgetView) (book : VoteBook O V)
    (orphan : Sigma fun _ : Uint256 => V) : VoteBook O V :=
  let (taken, book) := book.update kind false view orphan.2
  if taken then { book with orphanVotes := book.orphanVotes.erase orphan.1 } else book

def checkOrphanVotes (view : BudgetView) (book : VoteBook O V) : VoteBook O V :=
  book.orphanVotes.entries.foldl (checkOrphanVote kind view) book

def addSeenVote (book : VoteBook O V) (vote : V) : VoteBook O V :=
  { book with seenVotes := emplace book.seenVotes (kind.getHash vote) vote }

/-- `ProcessProposalVote`, `ProcessFinalizedBudgetVote`.  They differ in whether the masternode must
be enabled. -/
def processVote (mustBeEnabled : Bool) (view : BudgetView) (vote : V) (book : VoteBook O V) :
    Processed (VoteBook O V) :=
  if (book.seenVotes.lookup (kind.getHash vote)).isSome then { state := book }
  else
    match view.masternodes.find (kind.mnId vote) with
    | none => { state := book }
    | some pmn =>
      -- the vote counts as seen before its signature is checked
      let book := book.addSeenVote kind vote
      if !kind.checkSignature vote pmn.pubKeyMasternode then
        { banScore := if view.isSynced then 20 else 0, state := book }
      else if mustBeEnabled && !pmn.enabled then { state := book }
      else
        let (taken, book) := book.update kind true view vote
        { added := taken, state := book }

/-- The end of `AddProposal` and `AddFinalizedBudget`, for an object that passed the checks. -/
def emplaceObject (book : VoteBook O V) (object : O) : VoteBook O V :=
  { book with
    objects := emplace book.objects (kind.getObjectHash object) object
    feeTxs := emplace book.feeTxs (kind.getFeeTXHash object) (kind.getObjectHash object) }

/-- One turn of a loop of `CheckAndRemove`, over the entries kept so far and the fee index. -/
def checkObject (updateValid : O → Bool × O) (kept : Table Uint256 O × Table Uint256 Uint256)
    (entry : Sigma fun _ : Uint256 => O) : Table Uint256 O × Table Uint256 Uint256 :=
  let (valid, object) := updateValid entry.2
  if valid then (emplace kept.1 (kind.getObjectHash object) object, kept.2)
  else (kept.1, kept.2.erase (kind.getFeeTXHash object))

/-- A half of `CheckAndRemove`. -/
def removeInvalid (updateValid : O → Bool × O) (book : VoteBook O V) : VoteBook O V :=
  let kept := book.objects.entries.foldl (checkObject kind updateValid) (∅, book.feeTxs)
  { book with objects := kept.1, feeTxs := kept.2 }

/-- Forget the votes of an object.  The orphans are kept by object, so that the hash of a vote finds
none of them. -/
def eraseVotes (object : O) (book : VoteBook O V) : VoteBook O V :=
  (kind.mapVotes object).values.foldl (fun book vote => { book with
      seenVotes := book.seenVotes.erase (kind.getHash vote)
      orphanVotes := book.orphanVotes.erase (kind.getHash vote) }) book

/-- A half of `RemoveByFeeTxId`: whether the fee transaction was in the index. -/
def removeByFeeTxId (feeTxId : Uint256) (book : VoteBook O V) : Bool × VoteBook O V :=
  match book.feeTxs.lookup feeTxId with
  | none => (false, book)
  | some hash =>
    let removed := match book.objects.lookup hash with
      | none => book
      | some object =>
        let book := book.eraseVotes kind object
        { book with objects := book.objects.erase hash }
    (true, { removed with feeTxs := removed.feeTxs.erase feeTxId })

/-- `RemoveStaleVotesOnProposal`, `RemoveStaleVotesOnFinalBudget`: each vote is marked valid if its
masternode is in the list and enabled, and is kept in either case. -/
def removeStaleVotes (view : MasternodeView) (object : O) : O :=
  let marked := (kind.mapVotes object).replaceAll fun mnId vote =>
    kind.setValid ((view.find mnId).any CMasternode.enabled) vote
  kind.setVotes marked object

end VoteBook

end Deviant.Budget
