import Deviant.Masternode.Broadcast
import Deviant.Masternode.VoteTally
import Mathlib

namespace Deviant.Masternode.Broadcast

open Data List Primitives CMasternodePaymentWinner

/-! The rank of a masternode, by which its votes for payees are taken. -/

def mnWinnerMinimumAge : Int := 8000

structure RankSources where
  /-- Null outside the range. -/
  getHashAtHeight : Int → Uint256
  /-- The compact form of `CalculateScore`. -/
  calculateScore : Uint256 → COutPoint → Int
  sporkPaymentEnforcement : Bool
  keyID : CPubKey → CKeyID

section

variable (sources : RankSources) (node : MasternodeNode) (man : CMasternodeMan)

def isScored (minProtocol : Int) (fOnlyActive : Bool) (mn : CMasternode) : Bool :=
  decide (minProtocol ≤ mn.protocolVersion) &&
    (!sources.sporkPaymentEnforcement ||
      decide (mnWinnerMinimumAge ≤ node.adjustedTime - mn.sigTime)) &&
    (!fOnlyActive || mn.isEnabled node)

/-- The highest score comes first; equal ones may come in any order. -/
def masternodeScores (hash : Uint256) (minProtocol : Int) (fOnlyActive : Bool) :
    List (Int × COutPoint) :=
  ((man.mapMasternodes.values.filter (isScored sources node minProtocol fOnlyActive)).map fun mn =>
    (sources.calculateScore hash mn.prevout, mn.prevout)).insertionSort fun s t => t.1 ≤ s.1

section

variable (vin : COutPoint) (nBlockHeight : Int)

def getMasternodeRank (minProtocol : Int) (fOnlyActive : Bool := true) : Int :=
  let hash := sources.getHashAtHeight (nBlockHeight - 1)
  if hash = 0 then -1
  else
    match (masternodeScores sources node man hash minProtocol fOnlyActive).findIdx? fun s =>
      s.2 == vin with
    | none => -1
    | some i => i + 1

/-- What the handlers of votes see of the list. -/
def rankedView (view : MasternodeView) : MasternodeView :=
  { view with
    find := fun op => (man.find op).map fun mn =>
      ⟨sources.keyID mn.pubKeyMasternode, mn.protocolVersion, mn.isEnabled node⟩
    getMasternodeRank := fun op nHeight =>
      getMasternodeRank sources node man op nHeight node.activeProtocol
    activeProtocol := node.activeProtocol }

/-- The block is known, and a masternode of the outpoint is in the list that is recent, old enough
and enabled. -/
def Ranked : Prop :=
  sources.getHashAtHeight (nBlockHeight - 1) ≠ 0 ∧ ∃ op mn, man.find op = some mn ∧
    mn.prevout = vin ∧ isScored sources node node.activeProtocol true mn = true

theorem getMasternodeRank_cases :
    ∃ rank, getMasternodeRank sources node man vin nBlockHeight node.activeProtocol = rank ∧
      (rank = -1 ∧ ¬ Ranked sources node man vin nBlockHeight ∨
        1 ≤ rank ∧ Ranked sources node man vin nBlockHeight) := by
  unfold getMasternodeRank Ranked
  by_cases unknown : sources.getHashAtHeight (nBlockHeight - 1) = 0
  · simp [unknown]
  · simp only [unknown, if_false, ne_eq, not_false_eq_true, true_and, exists_eq_left']
    cases found : findIdx? _ _ with
    | none =>
      simp only [findIdx?_eq_none_iff, masternodeScores, mem_insertionSort, mem_map, mem_filter,
        Table.mem_values]
        at found
      exact .inl ⟨rfl, fun ⟨op, mn, listed, same, scored⟩ =>
        absurd (found _ ⟨mn, ⟨⟨op, listed⟩, scored⟩, rfl⟩) (by simp [same])⟩
    | some i =>
      obtain ⟨inside, same, -⟩ := findIdx?_eq_some_iff_getElem.mp found
      obtain ⟨score, member, same⟩ : ∃ score ∈ masternodeScores sources node man _ _ _,
        (score.2 == vin) = true :=
        ⟨_, getElem_mem inside, same⟩
      simp only [masternodeScores, mem_insertionSort, mem_map, mem_filter, Table.mem_values] at member
      obtain ⟨mn, ⟨⟨op, listed⟩, scored⟩, rfl⟩ := member
      exact .inr ⟨Int.le_add_of_nonneg_left (Int.natCast_nonneg i), op, mn,
        listed, by simpa using same, scored⟩

end

end

/-- A vote of a masternode in the list passes with a rank from one to ten only, just where its
protocol is too old to pass or the list ranks it. -/
theorem isValid_only_ranked_iff (sources : RankSources) (node : MasternodeNode)
    (man : CMasternodeMan) (view : MasternodeView) (winner : CMasternodePaymentWinner)
    {mn : CMasternode} (listed : man.find winner.vinMasternode = some mn) :
    (winner.isValid (rankedView sources node man view) = true →
        getMasternodeRank sources node man winner.vinMasternode (winner.nBlockHeight - 100)
        node.activeProtocol ∈
          Set.Icc 1 mnpaymentsSignaturesTotal) ↔ mn.protocolVersion < node.activeProtocol ∨
        Ranked sources node man winner.vinMasternode (winner.nBlockHeight - 100) := by
  simp only [isValid, rankedView, listed, Option.map_some]
  by_cases old : mn.protocolVersion < node.activeProtocol
  · simp [old]
  · obtain ⟨rank, ranks, cases⟩ :=
      getMasternodeRank_cases sources node man winner.vinMasternode (winner.nBlockHeight - 100)
    simp only [old, if_false, false_or, ranks]
    rcases cases with ⟨rfl, missing⟩ | ⟨positive, ranked⟩
    · simp [missing, mnpaymentsSignaturesTotal]
    · exact ⟨fun _ => ranked, fun _ valid => ⟨positive, of_decide_eq_true valid⟩⟩

def sampleSources (sporkPaymentEnforcement : Bool) : RankSources :=
  ⟨fun _ => 1, fun _ op => op.n, sporkPaymentEnforcement, fun _ => 3⟩

def sampleList : CMasternodeMan := CMasternodeMan.set {} ⟨7, 0⟩ (sampleBroadcast 0).mnb

def sampleWinner : CMasternodePaymentWinner := { vinMasternode := ⟨7, 0⟩, nBlockHeight := 1000 }

theorem old_masternode_ranked :
    getMasternodeRank (sampleSources false) sampleNode sampleList ⟨7,
      0⟩ 900 0 ∈ Set.Icc 1 mnpaymentsSignaturesTotal :=
  (isValid_only_ranked_iff (sampleSources false) sampleNode sampleList SampleVotes.view
    sampleWinner rfl).mpr
    (.inr ⟨by decide, ⟨7, 0⟩, _, rfl, rfl, rfl⟩) rfl

/-- A masternode that is too young to be ranked votes all the same. -/
theorem young_masternode_votes_unranked :
    sampleWinner.isValid (rankedView (sampleSources true) sampleNode sampleList SampleVotes.view) =
      true ∧
      getMasternodeRank (sampleSources true) sampleNode sampleList ⟨7, 0⟩ 900 0 = -1 := by
  decide

end Deviant.Masternode.Broadcast
