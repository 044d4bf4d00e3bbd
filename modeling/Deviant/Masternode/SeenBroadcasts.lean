import Deviant.Masternode.Broadcast

namespace Deviant.Masternode.Broadcast

open List Primitives BroadcastEvent

/-! Broadcasts are told apart by a hash of the time and the collateral key, which leaves the
outpoint out. -/

namespace BroadcastEvent

variable (event : BroadcastEvent)

/-- `CMasternodeBroadcast::GetHash`. -/
def getHash :
    Uint256 := event.node.broadcastHash event.mnb.sigTime event.mnb.pubKeyCollateralAddress

def signedFields : Int × CPubKey := (event.mnb.sigTime, event.mnb.pubKeyCollateralAddress)

/-- What is added to the list: a copy, which does not take the mark over. -/
def masternode : CMasternode := { event.mnb with fCollateralSpent := false }

/-- The node that receives the broadcast finds nothing wrong with it: it is signed, has a ping of
its own, and its collateral is unspent and has confirmations enough. -/
structure Valid : Prop where
  past : event.mnb.sigTime ≤ event.node.adjustedTime + 3600
  protocol : event.node.activeProtocol ≤ event.mnb.protocolVersion
  collateralKey : (event.node.getScriptForDestination event.mnb.pubKeyCollateralAddress).length = 25
  masternodeKey : (event.node.getScriptForDestination event.mnb.pubKeyMasternode).length = 25
  noScript : event.mnb.scriptSig = []
  signed : event.node.checkSignature event.mnb = true
  port : event.node.mainNet = (event.mnb.port == 22618)
  pinged : event.mnb.lastPing.isNull = false
  timely : pingTimely event.node event.mnb.lastPing = true
  ownPing : event.mnb.lastPing.prevout = event.mnb.prevout
  associated : event.mnb.isInputAssociatedWithPubkey event.node = true
  remote : event.node.started ≠ some (event.mnb.prevout, event.mnb.pubKeyMasternode)
  collateral : ∃ coin time, event.node.coin event.mnb.prevout = some coin ∧
    event.node.collateralMinConf ≤ event.node.bestHeight - coin.nHeight + 1 ∧
    event.node.blockTime (coin.nHeight + event.node.collateralMinConf - 1) = some time ∧
    time ≤ event.mnb.sigTime
  available : event.masternode.isAvailableState event.node = true

end BroadcastEvent

variable {event : BroadcastEvent}

section

variable {man : CMasternodeMan} (valid : event.Valid) (absent : man.find event.mnb.prevout = none)

include valid absent

theorem checkPing_valid : checkPing event.node man event.mnb.lastPing = true := by
  simp [checkPing, valid.timely, valid.ownPing, absent]

theorem checkAndUpdate_valid : checkAndUpdate event.node man event.mnb = (true, man) := by
  have ping := checkPing_valid valid absent
  unfold checkAndUpdate
  simp [if_neg (Int.not_lt.mpr valid.past), if_neg (Int.not_lt.mpr valid.protocol),
    valid.collateralKey, valid.masternodeKey, valid.noScript, valid.signed, valid.port,
    valid.pinged, ping, absent]

theorem checkInputsAndAdd_valid : checkInputsAndAdd event.node man event.mnb =
      some (man.set event.mnb.prevout event.masternode, some event.masternode) := by
  obtain ⟨coin, time, unspent, confirmed, known, later⟩ := valid.collateral
  have ping := checkPing_valid valid absent
  have added : add event.node man event.masternode =
      (man.set event.mnb.prevout event.masternode, some event.masternode) := by
    simp only [add, valid.available, Bool.true_and]
    exact if_pos (Option.isNone_iff_eq_none.mpr absent)
  have inputs :
      checkInputs event.node man event.mnb = some (add event.node man event.masternode) := by
    simp only [checkInputs, unspent, known, if_neg (Int.not_lt.mpr confirmed),
      if_neg (Int.not_lt.mpr later)]
    rfl
  unfold checkInputsAndAdd
  simp [valid.remote, valid.pinged, ping, absent, inputs, added]

theorem processMNBroadcast_new (new : event.getHash ∉ man.seenBroadcasts) :
      processMNBroadcast man event.node event.mnb =
        some ({ man with seenBroadcasts := event.getHash :: man.seenBroadcasts }.set
          event.mnb.prevout event.masternode,
        some event.masternode) := by
  let seen := { man with seenBroadcasts := event.getHash :: man.seenBroadcasts }
  have inputs : checkInputsAndAdd event.node seen event.mnb = _ :=
    checkInputsAndAdd_valid valid absent
  unfold processMNBroadcast
  simp only [checkAndUpdate_valid valid absent, valid.associated]
  exact (if_neg new).trans inputs

end

/-- Starting from any list, the masternodes all get in if their hashes are new and no two of them
are the same, and only then. Other outpoints are left alone. -/
theorem foldlM_listed_iff (events : List BroadcastEvent) (valid : ∀ event ∈ events, event.Valid)
    (distinct : (events.map fun event => event.mnb.prevout).Nodup) (man : CMasternodeMan)
    (log : List (MasternodeNode × CMasternode))
    (absent : ∀ event ∈ events, man.find event.mnb.prevout = none) :
    ∃ man' log', events.foldlM stepBroadcast (man, log) = some (man', log') ∧
      (∀ op ∉ events.map fun event => event.mnb.prevout, man'.find op = man.find op) ∧
      ((∀ event ∈ events, man'.find event.mnb.prevout = some event.masternode) ↔
        (events.map getHash).Nodup ∧ ∀ event ∈ events, event.getHash ∉ man.seenBroadcasts) := by
  induction events generalizing man log with
  | nil => exact ⟨man, log, rfl, fun _ _ => rfl, by simp⟩
  | cons event rest ih =>
    simp only [map_cons, nodup_cons, forall_mem_cons] at distinct valid absent
    by_cases seen : event.getHash ∈ man.seenBroadcasts
    · obtain ⟨man', log', ran, others, -⟩ := ih valid.2 distinct.2 man log absent.2
      have unlisted : man'.find event.mnb.prevout = none := (others _ distinct.1).trans absent.1
      refine ⟨man', log', ?_, ?_, ?_⟩
      · have skipped : processMNBroadcast man event.node event.mnb = some (man, none) := if_pos seen
        rw [foldlM_cons, stepBroadcast, skipped]
        simpa using ran
      · exact fun op other => others op fun member => other (mem_cons_of_mem _ member)
      · simp [unlisted, seen]
    · have step := processMNBroadcast_new valid.1 absent.1 seen
      let middle := CMasternodeMan.set { man with seenBroadcasts := event.getHash :: man.seenBroadcasts }
        event.mnb.prevout event.masternode
      have found (op : COutPoint) : middle.find op =
          if op = event.mnb.prevout then some event.masternode else man.find op :=
          CMasternodeMan.find_set ..
      have apart : ∀ later ∈ rest, later.mnb.prevout ≠ event.mnb.prevout := fun later member same =>
        distinct.1 (mem_map.mpr ⟨later, member, same⟩)
      obtain ⟨man', log', ran, others, listed⟩ := ih valid.2 distinct.2 middle
        (log ++ [(event.node, event.masternode)])
        fun later member => by rw [found, if_neg (apart later member), absent.2 later member]
      refine ⟨man', log', ?_, fun op other => ?_, ?_⟩
      · rw [foldlM_cons, stepBroadcast, step]
        simpa [middle] using ran
      · simp only [map_cons, mem_cons, not_or] at other
        rw [others op other.2, found, if_neg other.1]
      · have own : man'.find event.mnb.prevout =
          some event.masternode := by rw [others _ distinct.1, found, if_pos rfl]
        have hashes : middle.seenBroadcasts = event.getHash :: man.seenBroadcasts := rfl
        grind

/-- Masternodes with distinct outpoints, whose broadcasts are valid, all end up in the list if and
only if no two of the broadcasts have both the time and the collateral key in common. -/
theorem masternodes_listed_iff (events : List BroadcastEvent)
    (valid : ∀ event ∈ events, event.Valid)
    (distinct : (events.map fun event => event.mnb.prevout).Nodup) (hash : Int → CPubKey → Uint256)
    (oneHash : ∀ event ∈ events, event.node.broadcastHash = hash)
    (injective : ∀ event ∈ events, ∀ other ∈ events,
      hash event.mnb.sigTime event.mnb.pubKeyCollateralAddress =
      hash other.mnb.sigTime other.mnb.pubKeyCollateralAddress →
      event.signedFields = other.signedFields) :
    ∃ man log, runBroadcasts events = some (man, log) ∧
      ((∀ event ∈ events, man.find event.mnb.prevout = some event.masternode) ↔
        (events.map signedFields).Nodup) := by
  obtain ⟨man, log, ran, -, listed⟩ := foldlM_listed_iff events valid distinct {} [] fun _ _ => rfl
  refine ⟨man, log, ran, listed.trans ?_⟩
  have hashes : events.map getHash = (events.map signedFields).map fun fields =>
      hash fields.1 fields.2 := by
    rw [map_map]
    refine map_congr_left fun event member => ?_
    rw [getHash, oneHash event member]
    rfl
  constructor
  · rintro ⟨nodup, -⟩
    rw [hashes] at nodup
    exact nodup.of_map _
  · intro nodup
    refine ⟨?_, by simp⟩
    rw [hashes]
    refine nodup.map_on fun fields member other member' same => ?_
    obtain ⟨event, among, rfl⟩ := mem_map.mp member
    obtain ⟨event', among', rfl⟩ := mem_map.mp member'
    exact injective event among event' among' same

/-! Two masternodes of one owner, started in the same second or one after the other. -/

def ownedBroadcast (txHash : Uint256) (sigTime : Int) : BroadcastEvent where
  node := sampleNode
  mnb :=
    { (sampleBroadcast 0).mnb with
      prevout := ⟨txHash, 0⟩, sigTime := sigTime, lastPing := ⟨⟨txHash, 0⟩, 1, 9900, []⟩ }

theorem ownedBroadcast_valid (past : 0 ≤ sigTime ∧ sigTime ≤ 9900) :
    (ownedBroadcast txHash sigTime).Valid where
  past := by simp [ownedBroadcast, sampleNode]; omega
  protocol := (by decide : (0 : Int) ≤ 1)
  collateralKey := rfl
  masternodeKey := rfl
  noScript := rfl
  signed := rfl
  port := rfl
  pinged := by simp [ownedBroadcast, CMasternodePing.isNull, COutPoint.isNull]
  timely := rfl
  ownPing := rfl
  associated := rfl
  remote := nofun
  collateral := ⟨_, 0, rfl, (by decide : (15 : Int) ≤ 50 - 1 + 1), rfl, past.1⟩
  available := by
    simp [masternode, ownedBroadcast, CMasternode.isAvailableState, CMasternode.isEnabled,
      CMasternode.getActiveState, CMasternode.isPingedWithin, CMasternodePing.isNull,
      COutPoint.isNull, sampleNode, MasternodeNode.removalSeconds, MasternodeNode.expirationSeconds,
      MasternodeNode.seconds]
    grind

theorem masternodes_listed_two_seconds :
    ∃ man log, runBroadcasts [ownedBroadcast 7 9000, ownedBroadcast 8 9001] = some (man, log) ∧
      ((∀ event ∈ [ownedBroadcast 7 9000, ownedBroadcast 8 9001],
        man.find event.mnb.prevout = some event.masternode) ↔
          ([ownedBroadcast 7 9000, ownedBroadcast 8 9001].map signedFields).Nodup) :=
  masternodes_listed_iff _ (by simp [ownedBroadcast_valid]) (by decide) sampleNode.broadcastHash
    (by simp [ownedBroadcast])
    (by simp [ownedBroadcast, sampleNode])

theorem second_broadcast_shadowed : (ownedBroadcast 7 9000).Valid ∧ (ownedBroadcast 8 9000).Valid ∧
      ((runBroadcasts [ownedBroadcast 7 9000, ownedBroadcast 8 9000]).map fun result =>
        result.1.find ⟨8, 0⟩) =
        some none :=
  ⟨ownedBroadcast_valid (by decide), ownedBroadcast_valid (by decide), by decide⟩

end Deviant.Masternode.Broadcast
