import Deviant.Data.Runs
import Deviant.Masternode.Winners

namespace Deviant.Masternode

open Data List Primitives

/-! The tally of a height counts the votes that are kept for it.  That each masternode is counted
once is not kept by the program: it remembers one height for each masternode, and forgets a height
for which the masternode has voted as soon as it votes for another one. -/

namespace CMasternodePayments

variable {signer : MessageSigner} {payments after : CMasternodePayments} {view : MasternodeView}
  {winner : CMasternodePaymentWinner}

section

variable (payments : CMasternodePayments)

def votes : List CMasternodePaymentWinner :=
  payments.mapMasternodePayeeVotes.values

def votesOf (outMasternode : COutPoint) (nBlockHeight : Int) : Nat :=
  payments.votes.countP fun vote => vote.vinMasternode = outMasternode ∧
    vote.nBlockHeight = nBlockHeight

/-- The votes for a payee in a `vecPayments`. -/
def votesFor (payee : CScript) : List CMasternodePayee → Int
  | [] => 0
  | entry :: vecPayments => (if entry.scriptPubKey = payee then entry.nVotes else 0) +
    votesFor payee vecPayments

def tally (nBlockHeight : Int) (payee : CScript) : Int :=
  votesFor payee ((payments.mapMasternodeBlocks.lookup nBlockHeight).getD [])

def Counted : Prop :=
  ∀ nBlockHeight payee, payments.tally nBlockHeight payee =
    payments.votes.countP fun vote => vote.nBlockHeight = nBlockHeight ∧ vote.payee = payee

end

/-- The tally is that of the counted votes, and no masternode has two of them at a height. -/
structure OneVoteEach (payments : CMasternodePayments) : Prop where
  counted : ∀ nBlockHeight payee, payments.tally nBlockHeight payee =
    payments.votes.countP fun vote => vote.nBlockHeight = nBlockHeight ∧ vote.payee = payee
  once : ∀ outMasternode nBlockHeight, payments.votesOf outMasternode nBlockHeight ≤ 1

theorem votesFor_addPayee : votesFor payee (addPayee payeeIn nIncrement vecPayments) =
      (if payeeIn = payee then nIncrement else 0) + votesFor payee vecPayments := by
  induction vecPayments with
  | nil => rfl
  | cons entry vecPayments ih =>
    by_cases same : entry.scriptPubKey = payeeIn
    · rw [addPayee, if_pos same]
      simp only [votesFor, same]
      split <;> omega
    · rw [addPayee, if_neg same, votesFor, ih, votesFor]
      omega

/-- What adding a vote does: it is counted, or nothing changes. -/
structure Adds (payments : CMasternodePayments) (winner : CMasternodePaymentWinner)
    (after : CMasternodePayments) : Prop where
  votes : after.votes = winner :: payments.votes
  tally : ∀ nBlockHeight payee, after.tally nBlockHeight payee =
    (if winner.nBlockHeight = nBlockHeight ∧ winner.payee = payee then 1 else 0) +
      payments.tally nBlockHeight payee

theorem counted_adds (absent : payments.mapMasternodePayeeVotes.lookup (winner.getHash signer) = none) :
    Adds payments winner (payments.counted signer winner) := by
  constructor
  · exact payments.mapMasternodePayeeVotes.values_insert absent
  · intro nBlockHeight payee
    simp only [tally, counted, Table.lookup_insert_eq]
    by_cases same : winner.nBlockHeight = nBlockHeight
    · rw [if_pos same.symm, Option.getD_some, votesFor_addPayee, same]
      simp
    · rw [if_neg (Ne.symm same), if_neg (fun both => same both.1), Int.zero_add]

theorem Adds.counted (adds : Adds payments winner after) (before : payments.Counted) :
    after.Counted := by
  intro nBlockHeight payee
  rw [adds.tally, before, adds.votes, countP_cons, Nat.cast_add, Int.add_comm]
  simp

theorem Adds.votesOf (adds : Adds payments winner after) :
    after.votesOf outMasternode nBlockHeight = payments.votesOf outMasternode nBlockHeight +
      if winner.vinMasternode = outMasternode ∧ winner.nBlockHeight = nBlockHeight then 1 else 0 := by
  unfold CMasternodePayments.votesOf
  rw [adds.votes, countP_cons]
  simp

theorem Adds.oneVoteEach_iff (adds : Adds payments winner after) (before : payments.OneVoteEach) :
    after.OneVoteEach ↔ payments.votesOf winner.vinMasternode winner.nBlockHeight = 0 := by
  constructor
  · intro kept
    have once := kept.once winner.vinMasternode winner.nBlockHeight
    rw [adds.votesOf, if_pos ⟨rfl, rfl⟩] at once
    omega
  · intro first
    constructor
    · exact adds.counted before.counted
    · intro outMasternode nBlockHeight
      rw [adds.votesOf]
      have once := before.once outMasternode nBlockHeight
      by_cases same : winner.vinMasternode = outMasternode ∧ winner.nBlockHeight = nBlockHeight
      · obtain ⟨rfl, rfl⟩ := same
        rw [first, if_pos ⟨rfl, rfl⟩]
      · rw [if_neg same]
        exact once

theorem oneVoteEach_setLastBlockHeight (added : Bool × CMasternodePayments) :
    (if added.1 then { added.2 with nLastBlockHeight := nBlockHeight } else added.2).OneVoteEach ↔
      added.2.OneVoteEach := by
  cases added.1 with
  | false => exact Iff.rfl
  | true => exact ⟨fun each => ⟨each.counted, each.once⟩, fun each => ⟨each.counted, each.once⟩⟩

theorem votes_cleanPaymentList (mnCount nHeight : Int) (payments : CMasternodePayments) :
    (payments.cleanPaymentList mnCount nHeight).votes.Perm
      (payments.votes.filter fun vote => !isOld mnCount nHeight vote) :=
  payments.mapMasternodePayeeVotes.values_eraseWhere_perm (isOld mnCount nHeight)

theorem tally_cleanPaymentList :
    (payments.cleanPaymentList mnCount nHeight).tally nBlockHeight payee =
        if ∃ vote ∈ payments.votes, isOld mnCount nHeight vote = true ∧
        vote.nBlockHeight = nBlockHeight then 0
      else payments.tally nBlockHeight payee := by
  have old : nBlockHeight ∈ (payments.mapMasternodePayeeVotes.entries.filter
        fun entry => isOld mnCount nHeight entry.2).map (fun entry => entry.2.nBlockHeight) ↔
      ∃ vote ∈ payments.votes, isOld mnCount nHeight vote = true ∧
      vote.nBlockHeight = nBlockHeight := by
    simp only [mem_map, mem_filter, votes, Table.values]
    constructor
    · rintro ⟨entry, ⟨member, isOld⟩, height⟩
      exact ⟨entry.2, ⟨entry, member, rfl⟩, isOld, height⟩
    · rintro ⟨_, ⟨entry, member, rfl⟩, isOld, height⟩
      exact ⟨entry, ⟨member, isOld⟩, height⟩
  simp only [tally, cleanPaymentList]
  rw [Table.lookup_foldl_erase fun entry : Sigma fun _ : Uint256 => CMasternodePaymentWinner =>
    entry.2.nBlockHeight]
  by_cases gone : ∃ vote ∈ payments.votes, isOld mnCount nHeight vote = true ∧
    vote.nBlockHeight = nBlockHeight
  · rw [if_pos (old.mpr gone), if_pos gone]
    rfl
  · rw [if_neg (mt old.mp gone), if_neg gone]

theorem isOld_of_height (same : vote.nBlockHeight = other.nBlockHeight) :
    isOld mnCount nHeight vote = isOld mnCount nHeight other := by
  unfold isOld
  rw [same]

theorem Counted.cleanPaymentList (before : payments.Counted) :
    (payments.cleanPaymentList mnCount nHeight).Counted := by
  intro nBlockHeight payee
  rw [tally_cleanPaymentList, (payments.votes_cleanPaymentList mnCount nHeight).countP_eq,
    countP_filter]
  by_cases gone : ∃ vote ∈ payments.votes, isOld mnCount nHeight vote = true ∧
    vote.nBlockHeight = nBlockHeight
  · rw [if_pos gone, eq_comm, Nat.cast_eq_zero, countP_eq_zero]
    obtain ⟨old, _, isOld, height⟩ := gone
    intro vote _ counted
    simp only [Bool.and_eq_true, decide_eq_true_eq, Bool.not_eq_true'] at counted
    rw [isOld_of_height (counted.1.1.trans height.symm), isOld] at counted
    exact absurd counted.2 (by decide)
  · rw [if_neg gone, before]
    congr 1
    apply countP_congr
    intro vote member
    simp only [Bool.and_eq_true, decide_eq_true_eq, Bool.not_eq_true']
    refine ⟨fun counted => ⟨counted, ?_⟩, fun counted => counted.1⟩
    exact Bool.eq_false_iff.mpr fun isOld => gone ⟨vote, member, isOld, counted.1⟩

theorem OneVoteEach.cleanPaymentList (before : payments.OneVoteEach) :
    (payments.cleanPaymentList mnCount nHeight).OneVoteEach := by
  have kept := payments.votes_cleanPaymentList mnCount nHeight
  constructor
  · exact Counted.cleanPaymentList before.counted
  · intro outMasternode nBlockHeight
    unfold votesOf
    rw [kept.countP_eq]
    exact (filter_sublist.countP_le).trans (before.once outMasternode nBlockHeight)

/-- A vote that is not kept yet, of a masternode that is counted at its height already. -/
def Repeats (signer : MessageSigner) (payments : CMasternodePayments)
    (winner : CMasternodePaymentWinner) : Prop :=
  payments.mapMasternodePayeeVotes.lookup (winner.getHash signer) = none ∧
    payments.votesOf winner.vinMasternode winner.nBlockHeight ≠ 0

/-- A vote from the network that passes every check repeats another one only while its masternode is
remembered to have voted last for that height, and the node's own masternode repeats no vote. -/
def Unrepeated (signer : MessageSigner) (payments : CMasternodePayments) : PaymentEvent → Prop
  | .winner view peerVersion winner =>
    listens view peerVersion = true → admits view winner = true →
      signedByMasternode signer view winner = true → Repeats signer payments winner →
        payments.mapMasternodesLastVote.lookup winner.vinMasternode = some winner.nBlockHeight
  | .newBlock view active nBlockHeight =>
    ∀ winner, ownVote view active nBlockHeight payments = some winner →
      winner.nBlockHeight - 100 ≤ view.bestHeight + 1 → ¬ Repeats signer payments winner
  | .cleanPaymentList _ _ => True

section

variable (before : payments.OneVoteEach)

include before

theorem OneVoteEach.addWinningMasternode_iff
    (near : winner.nBlockHeight - 100 ≤ view.bestHeight + 1) :
    (payments.addWinningMasternode signer view winner).2.OneVoteEach ↔
      ¬ Repeats signer payments winner := by
  by_cases absent : payments.mapMasternodePayeeVotes.lookup (winner.getHash signer) = none
  · rw [addWinningMasternode_of_addable ⟨near, absent⟩, (counted_adds absent).oneVoteEach_iff before]
    simp [Repeats, absent]
  · rw [addWinningMasternode_of_not_addable fun addable => absent addable.2]
    exact iff_of_true before fun repeats => absent repeats.1

theorem OneVoteEach.processWinner_iff :
    (payments.processWinner signer view peerVersion winner).2.OneVoteEach ↔
        Unrepeated signer payments (.winner view peerVersion winner) := by
  rw [processWinner_eq]
  split
  next records =>
    obtain ⟨reaches, last⟩ := records
    simp only [reachesLastVote, Bool.and_eq_true, Option.isNone_iff_eq_none] at reaches
    obtain ⟨⟨listening, absent⟩, admitted⟩ := reaches
    have recorded : OneVoteEach { payments with
        mapMasternodesLastVote :=
          payments.mapMasternodesLastVote.insert winner.vinMasternode winner.nBlockHeight } :=
      ⟨before.counted, before.once⟩
    cases signed : signedByMasternode signer view winner with
    | false => simp [recorded, Unrepeated, signed]
    | true =>
      -- the record of the vote is not read when it is added
      refine ((counted_adds (by exact absent)).oneVoteEach_iff recorded).trans ?_
      simp [Unrepeated, Repeats, listening, absent, admitted, signed, last, votesOf, votes]
  next ignored =>
    refine iff_of_true before fun listening admitted _ repeats => ?_
    by_contra last
    exact ignored ⟨by simp [reachesLastVote, listening, repeats.1, admitted], last⟩

theorem OneVoteEach.processBlock_iff :
    (payments.processBlock signer view active nBlockHeight).2.OneVoteEach ↔
        Unrepeated signer payments (.newBlock view active nBlockHeight) := by
  unfold processBlock
  cases own : ownVote view active nBlockHeight payments with
  | none => exact iff_of_true before fun vote made => absurd (own.symm.trans made) (by simp)
  | some vote =>
    have unrepeated : Unrepeated signer payments (.newBlock view active nBlockHeight) ↔
        (vote.nBlockHeight - 100 ≤ view.bestHeight + 1 → ¬ Repeats signer payments vote) := by
      refine ⟨fun holds => holds vote own, fun holds other made => ?_⟩
      cases own.symm.trans made
      exact holds
    rw [unrepeated]
    refine (oneVoteEach_setLastBlockHeight (payments.addWinningMasternode signer view vote)).trans ?_
    by_cases near : vote.nBlockHeight - 100 ≤ view.bestHeight + 1
    · rw [before.addWinningMasternode_iff near, imp_iff_right near]
    · rw [addWinningMasternode_of_not_addable fun addable => near addable.1]
      exact iff_of_true before fun holds => absurd holds near

theorem OneVoteEach.step_iff :
    (payments.step signer event).OneVoteEach ↔ Unrepeated signer payments event := by
  cases event with
  | winner view peerVersion winner => exact before.processWinner_iff
  | newBlock view active nBlockHeight => exact before.processBlock_iff
  | cleanPaymentList mnCount nHeight => exact iff_of_true before.cleanPaymentList trivial

end

theorem oneVoteEach_empty : OneVoteEach {} where
  counted _ _ := rfl
  once _ _ := Nat.zero_le 1

/-- In every state of a run each masternode has one vote at each height in the tally, exactly if no
step of the run repeats a vote that is not remembered. -/
theorem oneVoteEach_iff_unrepeated (signer : MessageSigner) (events : List PaymentEvent) :
    (∀ passed, passed <+: events → (run signer {} passed).OneVoteEach) ↔
      ∀ passed event, passed ++ [event] <+: events →
      Unrepeated signer (run signer {} passed) event :=
  forall_inv_iff OneVoteEach (Unrepeated signer) oneVoteEach_empty fun _ _ before => before.step_iff

end CMasternodePayments

namespace SampleVotes

def signer : MessageSigner where
  winnerHash payee nBlockHeight _ := BitVec.ofInt 256 (4 * nBlockHeight + payee.length)
  verifyHash _ keyID vchSig := decide (vchSig = [UInt8.ofNat keyID.toNat])
  verifyWinnerText _ _ _ _ _ := false

def masternode : COutPoint := { hash := 7, n := 0 }

def view : MasternodeView where
  find outMasternode :=
    if outMasternode = masternode then some { pubKeyMasternode := 3, protocolVersion := 70922, enabled := true }
    else none
  getMasternodeRank _ _ := 1
  countEnabled := 20
  bestHeight := 5000
  activeProtocol := 70922

def vote (nBlockHeight : Int) (payee : CScript) : PaymentEvent :=
  .winner view 70922
    { vinMasternode := masternode, nBlockHeight := nBlockHeight, payee := payee, vchSig := [3] }

end SampleVotes

/-- A masternode that votes for a height, for the next one and for the first one again is counted
twice there. -/
theorem masternode_counted_twice :
    let payments := CMasternodePayments.run SampleVotes.signer {}
      [SampleVotes.vote 5005 [0x51], SampleVotes.vote 5006 [0x51], SampleVotes.vote 5005 [0x51, 0x52]]
    payments.votesOf SampleVotes.masternode 5005 = 2 ∧
      payments.tally 5005 [0x51] = 1 ∧ payments.tally 5005 [0x51, 0x52] = 1 := by
  decide

end Deviant.Masternode
