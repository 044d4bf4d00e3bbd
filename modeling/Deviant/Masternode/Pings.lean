import Deviant.Masternode.Broadcast

namespace Deviant.Masternode.Broadcast

open Data List Primitives

/-! Pings over whole runs: the ping that is kept of a masternode only moves forward. -/

/-- Why `CMasternodePing::CheckAndUpdate` returns false. -/
inductive PingRefusal where
  | badTime
  | staleBlock
  | badSignature
  | incompatible
  | unavailable
  | tooEarly
  | notEnabled
deriving DecidableEq

structure PingState where
  man : CMasternodeMan
  mapSeenMasternodePing : Table Uint256 CMasternodePing := ∅
  mapSeenMasternodeBroadcast : Table Uint256 CMasternodeBroadcast := ∅

structure PingEvent where
  node : MasternodeNode
  ping : CMasternodePing
  hash : Uint256
  fRequireAvailable : Bool := true
  fCheckSigTimeOnly : Bool := false
  /-- `IsWithinDepth` knows no null hash. -/
  nullHash : node.isWithinDepth 0 24 = false

namespace PingEvent

variable (event : PingEvent) (state : PingState)

def store (mn : CMasternode) : PingState :=
  let broadcast := event.node.broadcastHash mn.sigTime mn.pubKeyCollateralAddress
  { man := state.man.set event.ping.prevout { mn with lastPing := event.ping }
    mapSeenMasternodePing := if (state.mapSeenMasternodePing.lookup event.hash).isSome
    then state.mapSeenMasternodePing
      else state.mapSeenMasternodePing.insert event.hash event.ping
    mapSeenMasternodeBroadcast := match state.mapSeenMasternodeBroadcast.lookup broadcast with
      | none => state.mapSeenMasternodeBroadcast
      | some mnb =>
        state.mapSeenMasternodeBroadcast.insert broadcast { mnb with lastPing := event.ping } }

/-- `CMasternodePing::CheckAndUpdate`. -/
def checkAndUpdate : Except PingRefusal Unit × PingState :=
  if event.node.adjustedTime + 3600 < event.ping.sigTime ∨
    event.ping.sigTime ≤ event.node.adjustedTime - 3600 then
    (.error .badTime, state)
  else if !event.node.isWithinDepth event.ping.blockHash 24 then (.error .staleBlock, state)
  else
    match state.man.find event.ping.prevout with
    | none => (if event.fCheckSigTimeOnly then .ok () else .error .incompatible, state)
    | some mn =>
      let isSignatureValid := event.node.checkPingSignature event.ping mn.pubKeyMasternode
      if event.fCheckSigTimeOnly then
        (if isSignatureValid then .ok () else .error .badSignature, state)
      else if mn.protocolVersion < event.node.activeProtocol then (.error .incompatible, state)
      else if event.fRequireAvailable && !mn.isAvailableState event.node
        then (.error .unavailable, state)
      else if mn.isPingedWithin event.node (event.node.minPingSeconds - 60) event.ping.sigTime then
        (.error .tooEarly, state)
      else if !isSignatureValid then (.error .badSignature, state)
      else (if { mn with lastPing := event.ping }.isEnabled event.node
        then .ok () else .error .notEnabled,
        event.store state mn)

/-- The ping follows the one that was kept, if there was one. -/
structure Follows (mn : CMasternode) : Prop where
  real : event.ping.isNull = false
  later : mn.lastPing.isNull = false → mn.lastPing.sigTime < event.ping.sigTime
  spaced : mn.lastPing.isNull = false →
    mn.lastPing.sigTime + (event.node.minPingSeconds - 60) ≤ event.ping.sigTime

theorem checkAndUpdate_cases : (event.checkAndUpdate state).2 = state ∨
    ∃ mn, state.man.find event.ping.prevout = some mn ∧
      event.node.adjustedTime - 3600 < event.ping.sigTime ∧
      event.node.isWithinDepth event.ping.blockHash 24 = true ∧
      mn.isPingedWithin event.node (event.node.minPingSeconds - 60) event.ping.sigTime = false ∧
      event.checkAndUpdate state = (if { mn with lastPing := event.ping }.isEnabled event.node
        then .ok ()
        else .error .notEnabled, event.store state mn) := by
  unfold checkAndUpdate
  by_cases untimely : event.node.adjustedTime + 3600 < event.ping.sigTime ∨
      event.ping.sigTime ≤ event.node.adjustedTime - 3600
  · simp [if_pos untimely]
  cases deep : event.node.isWithinDepth event.ping.blockHash 24 with
  | false => simp [untimely]
  | true =>
    cases found : state.man.find event.ping.prevout with
    | none => simp [untimely]
    | some mn =>
      simp only [if_neg untimely, Bool.not_true, Bool.false_eq_true, if_false]
      iterate 3
        split
        · exact .inl rfl
      cases early : mn.isPingedWithin event.node (event.node.minPingSeconds - 60) event.ping.sigTime
        with
      | true => exact .inl rfl
      | false =>
        cases event.node.checkPingSignature event.ping mn.pubKeyMasternode with
        | false => exact .inl rfl
        | true => exact .inr ⟨mn, rfl, by omega, trivial, early, rfl⟩

variable {event state}

end PingEvent

end Deviant.Masternode.Broadcast
