import Deviant.Data.TwoRuns
import Deviant.Masternode.Winners

namespace Deviant.Masternode

open Data Primitives

/-! What a vote that its masternode did not sign does to the payment votes that come later. -/

namespace CMasternodePayments

variable {signer : MessageSigner} {view : MasternodeView} {peerVersion : Int}
  {winner : CMasternodePaymentWinner}
  {payments left right : CMasternodePayments} {outMasternode : COutPoint}

theorem processWinner_answer : (payments.processWinner signer view peerVersion winner).1 = true ↔
    payments.reachesLastVote signer view peerVersion winner = true ∧
      payments.mapMasternodesLastVote.lookup winner.vinMasternode ≠ some winner.nBlockHeight ∧
        signedByMasternode signer view winner = true := by
  rw [processWinner_eq, ← and_assoc]
  split
  next records => cases signed : signedByMasternode signer view winner <;> simp [records]
  next ignored => simp [ignored]

theorem lookup_lastVote_processWinner :
    (payments.processWinner signer view peerVersion winner).2.mapMasternodesLastVote.lookup
      outMasternode =
      if payments.reachesLastVote signer view peerVersion winner = true ∧
      outMasternode = winner.vinMasternode then
        some winner.nBlockHeight else payments.mapMasternodesLastVote.lookup outMasternode := by
  have inserted :=
    Table.lookup_insert_eq payments.mapMasternodesLastVote winner.vinMasternode outMasternode
    winner.nBlockHeight
  rw [processWinner_eq]
  cases payments.reachesLastVote signer view peerVersion winner with
  | false => simp
  | true =>
    by_cases voted :
      payments.mapMasternodesLastVote.lookup winner.vinMasternode = some winner.nBlockHeight
    · by_cases own : outMasternode = winner.vinMasternode
      · subst own
        simp [voted]
      · simp [own, voted]
    · cases signedByMasternode signer view winner <;> simp [voted, counted, inserted]

theorem tally_processWinner :
        (payments.processWinner signer view peerVersion winner).2.mapMasternodePayeeVotes =
          (if (payments.processWinner signer view peerVersion winner).1
            then (payments.counted signer winner).mapMasternodePayeeVotes
        else payments.mapMasternodePayeeVotes) ∧
      (payments.processWinner signer view peerVersion winner).2.mapMasternodeBlocks =
        if (payments.processWinner signer view peerVersion winner).1
          then (payments.counted signer winner).mapMasternodeBlocks
        else payments.mapMasternodeBlocks := by
  rw [processWinner_eq]
  split
  · cases signedByMasternode signer view winner <;> exact ⟨rfl, rfl⟩
  · exact ⟨rfl, rfl⟩

/-- The same votes, and the same last votes except of some masternodes. -/
structure Alike (apart : COutPoint → Prop) (left right : CMasternodePayments) : Prop where
  votes : left.mapMasternodePayeeVotes = right.mapMasternodePayeeVotes
  blocks : left.mapMasternodeBlocks = right.mapMasternodeBlocks
  lastVotes : ∀ outMasternode, ¬ apart outMasternode →
    left.mapMasternodesLastVote.lookup outMasternode = right.mapMasternodesLastVote.lookup outMasternode

theorem Alike.reachesLastVote (alike : left.Alike apart right) :
    left.reachesLastVote signer view peerVersion winner =
      right.reachesLastVote signer view peerVersion winner := by
  unfold CMasternodePayments.reachesLastVote
  rw [alike.votes]

theorem Alike.of_answer (alike : left.Alike apart right)
    (answer : (left.processWinner signer view peerVersion winner).1 =
      (right.processWinner signer view peerVersion winner).1)
    (lastVotes : ∀ outMasternode, ¬ after outMasternode →
      (left.processWinner signer view peerVersion winner).2.mapMasternodesLastVote.lookup
      outMasternode =
        (right.processWinner signer view peerVersion winner).2.mapMasternodesLastVote.lookup
        outMasternode) :
    (left.processWinner signer view peerVersion winner).2.Alike after
      (right.processWinner signer view peerVersion winner).2 := by
  have leftTally := @tally_processWinner signer view peerVersion winner left
  have rightTally := @tally_processWinner signer view peerVersion winner right
  refine ⟨?_, ?_, lastVotes⟩
  · rw [leftTally.1, rightTally.1, answer]
    unfold counted
    rw [alike.votes]
  · rw [leftTally.2, rightTally.2, answer]
    unfold counted
    rw [alike.blocks]

theorem Alike.processWinner (alike : left.Alike apart right)
    (same : apart winner.vinMasternode → right.reachesLastVote signer view peerVersion winner = false) :
    Agree (Alike apart) (left.processWinner signer view peerVersion winner)
      (right.processWinner signer view peerVersion winner) := by
  have answer : (left.processWinner signer view peerVersion winner).1 =
      (right.processWinner signer view peerVersion winner).1 := by
    rw [Bool.eq_iff_iff, processWinner_answer, processWinner_answer, alike.reachesLastVote]
    cases reaches : right.reachesLastVote signer view peerVersion winner with
    | false => simp
    | true =>
      have shared : ¬ apart winner.vinMasternode := by
        intro differs
        exact absurd (reaches.symm.trans (same differs)) (by decide)
      rw [alike.lastVotes _ shared]
  refine ⟨answer, alike.of_answer answer fun outMasternode shared => ?_⟩
  rw [lookup_lastVote_processWinner, lookup_lastVote_processWinner, alike.reachesLastVote,
    alike.lastVotes _ shared]

/-- Two tallies that remember different last votes of one masternode: the height of a forged vote,
and what was remembered before. -/
structure LastVoteForged (outMasternode : COutPoint) (forgedHeight : Int) (remembered : Option Int)
    (left right : CMasternodePayments) : Prop where
  alike : left.Alike (· = outMasternode) right
  forged : left.mapMasternodesLastVote.lookup outMasternode = some forgedHeight
  genuine : right.mapMasternodesLastVote.lookup outMasternode = remembered

variable {forgedHeight : Int} {remembered : Option Int}

section

variable (hidden : LastVoteForged outMasternode forgedHeight remembered left right)

include hidden

theorem LastVoteForged.stays
    (undecided : ¬ (right.reachesLastVote signer view peerVersion winner = true ∧
      winner.vinMasternode = outMasternode)) :
    Agree (LastVoteForged outMasternode forgedHeight remembered)
      (left.processWinner signer view peerVersion winner)
      (right.processWinner signer view peerVersion winner) := by
  obtain ⟨answer, alike⟩ := hidden.alike.processWinner (fun own => by
    by_contra reaches
    exact undecided ⟨Bool.not_eq_false _ ▸ reaches, own⟩)
  refine ⟨answer, alike, ?_, ?_⟩
  · rw [lookup_lastVote_processWinner, hidden.alike.reachesLastVote,
      if_neg fun both => undecided ⟨both.1, both.2.symm⟩]
    exact hidden.forged
  · rw [lookup_lastVote_processWinner, if_neg fun both => undecided ⟨both.1, both.2.symm⟩]
    exact hidden.genuine

/-- The next vote of the masternode that gets to its last vote is treated differently if it is
signed, and for the forged height or for the one remembered before. -/
theorem LastVoteForged.answers_iff (differ : remembered ≠ some forgedHeight)
    (reaches : right.reachesLastVote signer view peerVersion winner = true)
    (own : winner.vinMasternode = outMasternode) :
    (left.processWinner signer view peerVersion winner).1 =
      (right.processWinner signer view peerVersion winner).1 ↔
      ¬ (signedByMasternode signer view winner = true ∧
        (winner.nBlockHeight = forgedHeight ∨ remembered = some winner.nBlockHeight)) := by
  rw [Bool.eq_iff_iff, processWinner_answer, processWinner_answer, hidden.alike.reachesLastVote,
    own, hidden.forged, hidden.genuine]
  simp only [reaches, true_and, ne_eq, Option.some.injEq]
  constructor
  · rintro same ⟨signed, rfl | rfl⟩
    · exact (same.mpr ⟨differ, signed⟩).1 rfl
    · exact (same.mp ⟨fun equal => differ (equal ▸ rfl), signed⟩).1 rfl
  · intro harmless
    constructor
    · rintro ⟨_, signed⟩
      exact ⟨fun equal => harmless ⟨signed, .inr equal⟩, signed⟩
    · rintro ⟨_, signed⟩
      exact ⟨fun equal => harmless ⟨signed, .inl equal.symm⟩, signed⟩

theorem LastVoteForged.ends (reaches : right.reachesLastVote signer view peerVersion winner = true)
    (own : winner.vinMasternode = outMasternode)
    (answer : (left.processWinner signer view peerVersion winner).1 =
      (right.processWinner signer view peerVersion winner).1) :
    (left.processWinner signer view peerVersion winner).2.Alike (fun _ => False)
      (right.processWinner signer view peerVersion winner).2 := by
  refine hidden.alike.of_answer answer fun other _ => ?_
  rw [lookup_lastVote_processWinner, lookup_lastVote_processWinner, hidden.alike.reachesLastVote,
    reaches, own]
  by_cases same : other = outMasternode
  · rw [if_pos ⟨rfl, same⟩, if_pos ⟨rfl, same⟩]
  · rw [if_neg fun both => same both.2, if_neg fun both => same both.2]
    exact hidden.alike.lastVotes other same

end

theorem processWinner_forged (forged : signedByMasternode signer view winner = false) :
    (payments.processWinner signer view peerVersion winner).2.Alike (fun _ => False) payments ∧
        ¬ (payments.reachesLastVote signer view peerVersion winner = true ∧
          payments.mapMasternodesLastVote.lookup winner.vinMasternode ≠ some winner.nBlockHeight) ∨
      (payments.reachesLastVote signer view peerVersion winner = true ∧
          payments.mapMasternodesLastVote.lookup winner.vinMasternode ≠ some winner.nBlockHeight) ∧
        LastVoteForged winner.vinMasternode winner.nBlockHeight
          (payments.mapMasternodesLastVote.lookup winner.vinMasternode)
          (payments.processWinner signer view peerVersion winner).2 payments := by
  have unsigned : (payments.processWinner signer view peerVersion winner).1 = false := by
    rw [← Bool.not_eq_true, processWinner_answer, forged]
    exact fun all => Bool.false_ne_true all.2.2
  have tally := @tally_processWinner signer view peerVersion winner payments
  rw [unsigned] at tally
  by_cases records : payments.reachesLastVote signer view peerVersion winner = true ∧
      payments.mapMasternodesLastVote.lookup winner.vinMasternode ≠ some winner.nBlockHeight
  · refine .inr ⟨records, ⟨tally.1, tally.2, fun other differs => ?_⟩, ?_, rfl⟩
    · rw [lookup_lastVote_processWinner, if_neg fun both => differs both.2]
    · rw [lookup_lastVote_processWinner, if_pos ⟨records.1, rfl⟩]
  · refine .inl ⟨?_, records⟩
    rw [processWinner_eq, if_neg records]
    exact ⟨rfl, rfl, fun _ _ => rfl⟩

end CMasternodePayments

end Deviant.Masternode
