import Deviant.Coins.View

namespace Deviant.Masternode.Broadcast

open Coins Data List Primitives

/-! The masternode list and the broadcasts that masternodes are added and updated with. -/

abbrev CPubKey := List UInt8

structure CMasternodePing where
  prevout : COutPoint
  blockHash : Uint256
  sigTime : Int
  vchSig : List UInt8 := []
deriving DecidableEq

def CMasternodePing.isNull (ping : CMasternodePing) :
    Bool := ping.blockHash == 0 || ping.prevout.isNull

/-- A masternode. Of its address only the port is read. -/
structure CMasternode where
  prevout : COutPoint
  scriptSig : CScript := []
  port : Nat
  pubKeyCollateralAddress : CPubKey
  pubKeyMasternode : CPubKey
  sigTime : Int
  protocolVersion : Int
  lastPing : CMasternodePing
  vchSig : List UInt8 := []
  fCollateralSpent : Bool := false
deriving DecidableEq

abbrev CMasternodeBroadcast := CMasternode

/-- What is read of the node while a broadcast is processed. -/
structure MasternodeNode where
  mainNet : Bool := true
  regTest : Bool := false
  adjustedTime : Int
  activeProtocol : Int
  bestHeight : Int
  isWithinDepth : Uint256 → Nat → Bool
  /-- The times of the blocks of the active chain. -/
  blockTime : Int → Option Int
  getTransaction : Uint256 → Option CTransaction
  /-- The unspent coins of the tip. -/
  coin : COutPoint → Option Coin
  /-- The outpoint and the key of the node's own masternode once it is started. -/
  started : Option (COutPoint × CPubKey) := none
  getScriptForDestination : CPubKey → CScript
  checkSignature : CMasternodeBroadcast → Bool
  checkPingSignature : CMasternodePing → CPubKey → Bool
  /-- The hash of the time and the key of a broadcast. -/
  broadcastHash : Int → CPubKey → Uint256

structure CMasternodeMan where
  mapMasternodes : Table COutPoint CMasternode := ∅
  /-- The keys of `mapSeenMasternodeBroadcast`. -/
  seenBroadcasts : List Uint256 := []

def getMNCollateral : Int := 5000 * coinUnit

namespace MasternodeNode

variable (node : MasternodeNode)

def seconds (regTest other : Int) : Int := if node.regTest then regTest else other

def minPingSeconds : Int := node.seconds 90 600

def broadcastSeconds : Int := node.seconds 25 300

def expirationSeconds : Int := node.seconds 180 7200

def removalSeconds : Int := node.seconds 200 7800

def collateralMinConf : Int := node.seconds 1 15

end MasternodeNode

inductive ActiveState where
  | preEnabled
  | enabled
  | expired
  | remove
  | vinSpent
deriving DecidableEq

namespace CMasternode

variable (node : MasternodeNode)

variable (mn : CMasternode)

/-- `IsPingedWithin`.  The default for `now`, which a time can be as well, stands for the adjusted
time. -/
def isPingedWithin (seconds : Int) (now : Int := -1) : Bool :=
  !mn.lastPing.isNull &&
    decide ((if now = -1 then node.adjustedTime else now) - mn.lastPing.sigTime < seconds)

def getActiveState : ActiveState :=
  if mn.fCollateralSpent then .vinSpent
  else if !mn.isPingedWithin node node.removalSeconds then .remove
  else if !mn.isPingedWithin node node.expirationSeconds then .expired
  else if mn.lastPing.sigTime - mn.sigTime < node.minPingSeconds then .preEnabled
  else .enabled

def isEnabled : Bool := mn.getActiveState node == .enabled

def isAvailableState : Bool :=
  mn.isEnabled node || mn.getActiveState node == .preEnabled

/-- Any output of the transaction will do. -/
def isInputAssociatedWithPubkey : Bool :=
  match node.getTransaction mn.prevout.hash with
  | none => false
  | some tx => tx.vout.any fun out =>
    out.nValue == getMNCollateral &&
      out.scriptPubKey == node.getScriptForDestination mn.pubKeyCollateralAddress

end CMasternode

namespace CMasternodeMan

def find (man : CMasternodeMan) (op : COutPoint) :
    Option CMasternode := man.mapMasternodes.lookup op

def set (man : CMasternodeMan) (op : COutPoint) (mn : CMasternode) : CMasternodeMan :=
  { man with mapMasternodes := man.mapMasternodes.insert op mn }

theorem find_set (man : CMasternodeMan) (other : COutPoint) :
    (man.set op mn).find other = if other = op then some mn else man.find other :=
      Table.lookup_insert_eq ..

end CMasternodeMan

section

variable (node : MasternodeNode)

def pingTimely (ping : CMasternodePing) : Bool :=
  decide (ping.sigTime ≤ node.adjustedTime + 3600 ∧ node.adjustedTime - 3600 < ping.sigTime) &&
    node.isWithinDepth ping.blockHash 24

variable (man : CMasternodeMan)

/-- `CMasternodePing::CheckAndUpdate` with `fCheckSigTimeOnly`. -/
def checkPing (ping : CMasternodePing) : Bool :=
  pingTimely node ping &&
    ((man.find ping.prevout).all fun mn => node.checkPingSignature ping mn.pubKeyMasternode)

/-- `CMasternodePing::CheckAndUpdate` for a masternode in any state. -/
def updatePing (ping : CMasternodePing) : Bool × CMasternodeMan :=
  match man.find ping.prevout with
  | none => (false, man)
  | some mn =>
    if !pingTimely node ping || decide (mn.protocolVersion < node.activeProtocol) ||
        mn.isPingedWithin node (node.minPingSeconds - 60) ping.sigTime ||
        !node.checkPingSignature ping mn.pubKeyMasternode then (false, man)
    else ({ mn with lastPing := ping }.isEnabled node,
      man.set ping.prevout { mn with lastPing := ping })

def updateFromNewBroadcast (mn : CMasternode) (mnb : CMasternodeBroadcast) : CMasternodeMan :=
  if mn.sigTime < mnb.sigTime then
    let updated := { mnb with prevout := mn.prevout, scriptSig := mn.scriptSig, lastPing := mn.lastPing,
                              fCollateralSpent := mn.fCollateralSpent }
    let man := man.set mnb.prevout updated
    if mnb.lastPing.isNull then man.set mnb.prevout { updated with lastPing := mnb.lastPing }
    else
      let (pinged, man) := updatePing node man mnb.lastPing
      if pinged then man.set mnb.prevout { updated with lastPing := mnb.lastPing } else man
  else man

variable (mnb : CMasternodeBroadcast)

/-- `CMasternodeBroadcast::CheckAndUpdate`. -/
def checkAndUpdate : Bool × CMasternodeMan :=
  if node.adjustedTime + 3600 < mnb.sigTime then (false, man)
  else if mnb.protocolVersion < node.activeProtocol then (false, man)
  else if (node.getScriptForDestination mnb.pubKeyCollateralAddress).length ≠ 25 then (false, man)
  else if (node.getScriptForDestination mnb.pubKeyMasternode).length ≠ 25 then (false, man)
  else if !mnb.scriptSig.isEmpty then (false, man)
  else if !node.checkSignature mnb then (false, man)
  else if node.mainNet != (mnb.port == 22618) then (false, man)
  else if mnb.lastPing.isNull || !checkPing node man mnb.lastPing then (false, man)
  else
    match man.find mnb.prevout with
    | none => (true, man)
    | some mn =>
      if mnb.sigTime ≤ mn.sigTime then (false, man)
      else if !mn.isEnabled node then (true, man)
      else if mn.pubKeyCollateralAddress = mnb.pubKeyCollateralAddress ∧
          ¬ node.adjustedTime - mn.sigTime < node.broadcastSeconds then
        (true, updateFromNewBroadcast node man mn mnb)
      else (true, man)

/-- `CMasternodeMan::Add`, and what it added. -/
def add (mn : CMasternode) : CMasternodeMan × Option CMasternode :=
  if mn.isAvailableState node && (man.find mn.prevout).isNone then (man.set mn.prevout mn, some mn)
    else (man, none)

/-- The end of `CheckInputsAndAdd`, for a masternode that is not in the list; `none` for a null
pointer. -/
def checkInputs : Option (CMasternodeMan × Option CMasternode) :=
  match node.coin mnb.prevout with
  | none => some (man, none)
  | some coin =>
    if node.bestHeight - coin.nHeight + 1 < node.collateralMinConf then
      let hash := node.broadcastHash mnb.sigTime mnb.pubKeyCollateralAddress
      some ({ man with seenBroadcasts := man.seenBroadcasts.erase hash }, none)
    else
      match node.blockTime (coin.nHeight + node.collateralMinConf - 1) with
      | none => none
      | some time =>
        if mnb.sigTime < time then some (man, none)
        else some (add node man { mnb with fCollateralSpent := false })

/-- `CMasternodeBroadcast::CheckInputsAndAdd`. -/
def checkInputsAndAdd : Option (CMasternodeMan × Option CMasternode) :=
  if node.started = some (mnb.prevout, mnb.pubKeyMasternode) then some (man, none)
  else if mnb.lastPing.isNull || !checkPing node man mnb.lastPing then some (man, none)
  else
    match man.find mnb.prevout with
    | none => checkInputs node man mnb
    | some mn =>
      if mn.isEnabled node then some (man, none)
      else checkInputs node { man with mapMasternodes := man.mapMasternodes.erase mnb.prevout } mnb

end

/-- `ProcessMNBroadcast`: the list afterwards, and the masternode that was added. -/
def processMNBroadcast (man : CMasternodeMan) (node : MasternodeNode) (mnb : CMasternodeBroadcast) :
    Option (CMasternodeMan × Option CMasternode) :=
  let hash := node.broadcastHash mnb.sigTime mnb.pubKeyCollateralAddress
  if hash ∈ man.seenBroadcasts then some (man, none)
  else
    let (checked, man) := checkAndUpdate node man mnb
    if !checked then some (man, none)
    else if !mnb.isInputAssociatedWithPubkey node then some (man, none)
    else checkInputsAndAdd node { man with seenBroadcasts := hash :: man.seenBroadcasts } mnb

structure BroadcastEvent where
  node : MasternodeNode
  mnb : CMasternodeBroadcast

/-- The list, with the masternodes that were added and the node when they were. -/
def stepBroadcast (state : CMasternodeMan × List (MasternodeNode × CMasternode))
    (event : BroadcastEvent) :
    Option (CMasternodeMan × List (MasternodeNode × CMasternode)) :=
  (processMNBroadcast state.1 event.node event.mnb).map fun result =>
    (result.1, state.2 ++ (result.2.map fun mn => (event.node, mn)).toList)

def runBroadcasts (events : List BroadcastEvent) :
    Option (CMasternodeMan × List (MasternodeNode × CMasternode)) :=
  events.foldlM stepBroadcast ({}, [])

def IsCollateral (node : MasternodeNode) (mn : CMasternode) (out : CTxOut) : Prop :=
  out.nValue = getMNCollateral ∧
    out.scriptPubKey = node.getScriptForDestination mn.pubKeyCollateralAddress

/-- The outpoint of the masternode is unspent and holds the collateral. -/
def Backed (node : MasternodeNode) (mn : CMasternode) : Prop :=
  ∃ coin, node.coin mn.prevout = some coin ∧ IsCollateral node mn coin.out

/-- The coin that is announced is a collateral if any output of its transaction is. -/
def BroadcastEvent.Owned (event : BroadcastEvent) : Prop :=
  ∀ coin tx, event.node.coin event.mnb.prevout = some coin →
    event.node.getTransaction event.mnb.prevout.hash = some tx →
    (∃ out ∈ tx.vout, IsCollateral event.node event.mnb out) →
    IsCollateral event.node event.mnb coin.out

variable {node : MasternodeNode} {man man' : CMasternodeMan} {mnb mn : CMasternode}
    {added : Option CMasternode}

/-- Entries of the second list are entries of the first in which `part` has not changed. -/
def Descends {α : Type} (part : CMasternode → α) (before after : CMasternodeMan) : Prop :=
  ∀ op mn, after.find op = some mn → ∃ old, before.find op = some old ∧ part old = part mn

/-- What the checks of a broadcast leave alone: outpoint, collateral key and mark. -/
def identity (mn : CMasternode) : COutPoint × CPubKey × Bool :=
  (mn.prevout, mn.pubKeyCollateralAddress, mn.fCollateralSpent)

section

variable {α : Type} {part : CMasternode → α}

theorem Descends.refl : Descends part man man := fun _ mn found => ⟨mn, found, rfl⟩

theorem Descends.trans (first : Descends part man₁ man₂) (second : Descends part man₂ man₃) :
    Descends part man₁ man₃ := by
  intro op mn found
  obtain ⟨middle, found₂, same₂⟩ := second op mn found
  obtain ⟨old, found₁, same₁⟩ := first op middle found₂
  exact ⟨old, found₁, same₁.trans same₂⟩

theorem Descends.set (kept : Descends part man man') (found : man.find op = some old)
    (same : part old = part mn) : Descends part man (man'.set op mn) := by
  intro other entry there
  rw [CMasternodeMan.find_set] at there
  split at there
  case isTrue here =>
    cases there
    exact ⟨old, here ▸ found, same⟩
  case isFalse => exact kept other entry there

theorem descends_erase :
    Descends part man { man with mapMasternodes := man.mapMasternodes.erase op } := by
  intro other entry there
  rw [CMasternodeMan.find, Table.lookup_erase_eq] at there
  split at there
  case isTrue => cases there
  case isFalse => exact ⟨entry, there, rfl⟩

variable (pings : ∀ mn ping, part { mn with lastPing := ping } = part mn)

include pings

theorem descends_updatePing : Descends part man (updatePing node man ping).2 := by
  unfold updatePing
  split
  case h_1 => exact .refl
  case h_2 mn found =>
    split
    · exact .refl
    · exact Descends.refl.set found (pings mn ping).symm

theorem descends_updateFromNewBroadcast (found : man.find mnb.prevout = some mn)
    (same : part { mnb with prevout := mn.prevout, scriptSig := mn.scriptSig, lastPing := mn.lastPing,
                                fCollateralSpent := mn.fCollateralSpent } = part mn) :
    Descends part man (updateFromNewBroadcast node man mn mnb) := by
  unfold updateFromNewBroadcast
  dsimp only
  split
  case isFalse => exact .refl
  case isTrue =>
    have updated := (@Descends.refl man _ part).set found same.symm
    have pinged := same.symm.trans (pings _ mnb.lastPing).symm
    split
    · exact updated.set found pinged
    · split
      · exact (updated.trans (descends_updatePing pings)).set found pinged
      · exact updated.trans (descends_updatePing pings)

end

theorem descends_ite {c : Prop} [Decidable c] {yes no : Bool × CMasternodeMan}
    (left : c → Descends identity man yes.2) (right : ¬ c → Descends identity man no.2) :
    Descends identity man (if c then yes else no).2 := by
  split
  case isTrue holds => exact left holds
  case isFalse fails => exact right fails

theorem descends_checkAndUpdate : Descends identity man (checkAndUpdate node man mnb).2 := by
  unfold checkAndUpdate
  -- the checks before the masternode is looked up
  iterate 8 refine descends_ite (fun _ => .refl) fun _ => ?_
  split
  case h_1 => exact .refl
  case h_2 mn found =>
    refine descends_ite (fun _ => .refl) fun _ => descends_ite (fun _ => .refl) fun _ => ?_
    exact descends_ite (fun same => descends_updateFromNewBroadcast (fun _ _ => rfl) found
      (by rw [identity, identity, same.1])) fun _ => .refl

/-- What a broadcast does: it adds nothing, or its own masternode unmarked, whose outpoint is
unspent. -/
inductive Result (node : MasternodeNode) (mnb : CMasternode) (before : CMasternodeMan) :
    CMasternodeMan → Option CMasternode → Prop
  | kept {after : CMasternodeMan} (descends : Descends identity before after) :
      Result node mnb before after none
  | added {middle : CMasternodeMan} {mn : CMasternode} {coin : Coin}
      (descends : Descends identity before middle) (same : mn.prevout = mnb.prevout)
      (key : mn.pubKeyCollateralAddress = mnb.pubKeyCollateralAddress)
      (unmarked : mn.fCollateralSpent = false) (unspent : node.coin mnb.prevout = some coin) :
      Result node mnb before (middle.set mn.prevout mn) (some mn)

theorem Result.after (descends : Descends identity before man)
    (result : Result node mnb man man' added) :
    Result node mnb before man' added := by
  cases result with
  | kept later => exact .kept (descends.trans later)
  | added later same key unmarked unspent =>
    exact .added (descends.trans later) same key unmarked unspent

/-- Whether the end of `CheckInputsAndAdd` returns `true`. -/
def inputsAccepted (node : MasternodeNode) (mnb : CMasternodeBroadcast) : Bool :=
  match node.coin mnb.prevout with
  | none => false
  | some coin =>
    if node.bestHeight - coin.nHeight + 1 < node.collateralMinConf then false
    else (node.blockTime (coin.nHeight + node.collateralMinConf - 1)).all fun time =>
      !decide (mnb.sigTime < time)

/-- What the end of `CheckInputsAndAdd` does: it adds nothing to the list, or the masternode is
added and accepted. -/
theorem checkInputs_cases (ran : checkInputs node man mnb = some (man', added)) :
    added = none ∧ man'.mapMasternodes = man.mapMasternodes ∨
      inputsAccepted node mnb = true ∧ Result node mnb man man' added := by
  unfold checkInputs at ran
  split at ran
  case h_1 =>
    cases ran
    exact .inl ⟨rfl, rfl⟩
  case h_2 coin unspent =>
    split at ran
    case isTrue =>
      cases ran
      exact .inl ⟨rfl, rfl⟩
    case isFalse old =>
      split at ran
      case h_1 => cases ran
      case h_2 time confirmed =>
        split at ran
        case isTrue =>
          cases ran
          exact .inl ⟨rfl, rfl⟩
        case isFalse late =>
          rw [Option.some.injEq, add] at ran
          split at ran
          case isTrue =>
            cases ran
            exact .inr ⟨by simp [inputsAccepted, unspent, old, confirmed, late],
              .added (.refl) rfl rfl rfl unspent⟩
          case isFalse =>
            cases ran
            exact .inl ⟨rfl, rfl⟩

theorem checkInputs_result (ran : checkInputs node man mnb = some (man', added)) :
    Result node mnb man man' added := by
  obtain ⟨rfl, same⟩ | ⟨-, result⟩ := checkInputs_cases ran
  · exact .kept fun op mn found => Descends.refl op mn (by rwa [CMasternodeMan.find, ← same])
  · exact result

theorem checkInputsAndAdd_result (ran : checkInputsAndAdd node man mnb = some (man', added)) :
    Result node mnb man man' added := by
  unfold checkInputsAndAdd at ran
  repeat' split at ran
  all_goals first
    | exact checkInputs_result ran
    | exact (checkInputs_result ran).after descends_erase
    | cases ran; exact .kept (.refl)

theorem processMNBroadcast_result (ran : processMNBroadcast man node mnb = some (man', added)) :
    Result node mnb man man' added ∧
      (added.isSome → mnb.isInputAssociatedWithPubkey node = true) := by
  have kept : Descends identity man (checkAndUpdate node man mnb).2 := descends_checkAndUpdate
  unfold processMNBroadcast at ran
  dsimp only at ran
  split at ran
  case isTrue =>
    cases ran
    exact ⟨.kept (.refl), by simp⟩
  case isFalse =>
    split at ran
    case isTrue =>
      cases ran
      exact ⟨.kept kept, by simp⟩
    case isFalse =>
      split at ran
      case isTrue =>
        cases ran
        exact ⟨.kept kept, by simp⟩
      case isFalse associated =>
        refine ⟨.after ?_ (checkInputsAndAdd_result ran), fun _ => by simpa using associated⟩
        exact kept

theorem backed_of_owned {event : BroadcastEvent} (owned : event.Owned)
    (unspent : event.node.coin event.mnb.prevout = some coin)
    (associated : event.mnb.isInputAssociatedWithPubkey event.node = true) :
    Backed event.node event.mnb := by
  unfold CMasternode.isInputAssociatedWithPubkey at associated
  split at associated
  case h_1 => cases associated
  case h_2 tx found =>
    simp only [any_eq_true, Bool.and_eq_true, beq_iff_eq] at associated
    exact ⟨coin, unspent, owned coin tx unspent found associated⟩

/-- What a run keeps: every masternode in the list was added with its own collateral. -/
structure Honest (man : CMasternodeMan) (log : List (MasternodeNode × CMasternode)) : Prop where
  backed : ∀ entry ∈ log, Backed entry.1 entry.2
  logged : ∀ op mn, man.find op = some mn → mn.prevout = op ∧
    ∃ entry ∈ log, entry.2.prevout = op ∧
    entry.2.pubKeyCollateralAddress = mn.pubKeyCollateralAddress

theorem Honest.step (honest : Honest man log) {event : BroadcastEvent} (owned : event.Owned)
    (ran : processMNBroadcast man event.node event.mnb = some (man', added)) :
    Honest man' (log ++ (added.map fun mn => (event.node, mn)).toList) := by
  obtain ⟨result, associated⟩ := processMNBroadcast_result ran
  have inherited : ∀ {middle : CMasternodeMan} {op mn}, Descends identity man middle →
      middle.find op = some mn → mn.prevout = op ∧ ∃ entry ∈ log, entry.2.prevout = op ∧
        entry.2.pubKeyCollateralAddress = mn.pubKeyCollateralAddress := by
    intro middle op mn descends found
    obtain ⟨old, before, same⟩ := descends op mn found
    obtain ⟨same, key, -⟩ : old.prevout = mn.prevout ∧
      old.pubKeyCollateralAddress = mn.pubKeyCollateralAddress ∧ _ := by
      simpa [identity] using same
    obtain ⟨own, entry, member, there, owner⟩ := honest.logged op old before
    exact ⟨same ▸ own, entry, member, there, owner.trans key⟩
  cases result with
  | kept descends =>
    rw [Option.map_none, Option.toList_none, append_nil]
    exact ⟨honest.backed, fun op mn found => inherited descends found⟩
  | @added middle mn coin descends same key _ unspent =>
    refine ⟨fun entry member => ?_, fun op mn' found => ?_⟩
    · rcases mem_append.mp member with old | new
      · exact honest.backed entry old
      · obtain rfl : entry = (event.node, mn) := by simpa using new
        obtain ⟨coin, there, collateral⟩ := backed_of_owned owned unspent (associated rfl)
        exact ⟨coin, by rw [same]; exact there, by rw [IsCollateral, key]; exact collateral⟩
    · rw [CMasternodeMan.find_set] at found
      split at found
      case isTrue here =>
        cases found
        exact ⟨here.symm, (event.node, mn), by simp, here.symm, rfl⟩
      case isFalse =>
        obtain ⟨own, entry, member, rest⟩ := inherited descends found
        exact ⟨own, entry, mem_append_left _ member, rest⟩

/-- In every run whose broadcasts announce a collateral where their transaction has one, every
masternode is added with its own collateral, and the list has no others. -/
theorem masternodes_backed_of_owned (events : List BroadcastEvent)
    (owned : ∀ event ∈ events, event.Owned) (man : CMasternodeMan)
    (log : List (MasternodeNode × CMasternode)) (ran : runBroadcasts events = some (man, log)) :
    (∀ entry ∈ log, Backed entry.1 entry.2) ∧ ∀ op mn, man.find op = some mn → mn.prevout = op ∧
        ∃ entry ∈ log, entry.2.prevout = op ∧
        entry.2.pubKeyCollateralAddress = mn.pubKeyCollateralAddress := by
  suffices honest : Honest man log from ⟨honest.backed, honest.logged⟩
  induction events using List.reverseRecOn generalizing man log with
  | nil =>
    cases ran
    exact ⟨by simp, fun op mn found => by cases found⟩
  | append_singleton events event ih =>
    rw [runBroadcasts, foldlM_append] at ran
    obtain ⟨⟨man₁, log₁⟩, before, last⟩ := Option.bind_eq_some_iff.mp ran
    have honest := ih (fun event member => owned event (mem_append_left _ member)) man₁ log₁ before
    obtain ⟨⟨man₂, added⟩, processed, same⟩ :
        ∃ result, processMNBroadcast man₁ event.node event.mnb = some result ∧
        (result.1, log₁ ++ (result.2.map fun mn => (event.node, mn)).toList) = (man, log) := by
      simpa [stepBroadcast, Option.map_eq_some_iff] using last
    cases same
    exact honest.step (owned event (by simp)) processed

/-! The collateral of one masternode serves for another one: its transaction has an output of one
coin as well. -/

def sampleOutput (nValue : Int) :
    CTxOut := { nValue := nValue, scriptPubKey := List.replicate 25 0 }

def sampleNode : MasternodeNode where
  adjustedTime := 10000
  activeProtocol := 0
  bestHeight := 50
  isWithinDepth := fun _ _ => true
  blockTime := fun _ => some 0
  getTransaction := fun _ =>
    some { hash := 7, nVersion := 1, vin := [], vout := [sampleOutput getMNCollateral, sampleOutput coinUnit] }
  coin := fun op => some { out := sampleOutput (if op.n = 0 then getMNCollateral else coinUnit), nHeight := 1 }
  getScriptForDestination := fun _ => List.replicate 25 0
  checkSignature := fun _ => true
  checkPingSignature := fun _ _ => true
  broadcastHash := fun time _ => BitVec.ofInt 256 time

def sampleBroadcast (n : Nat) : BroadcastEvent where
  node := sampleNode
  mnb :=
    { prevout := ⟨7, n⟩, port := 22618, pubKeyCollateralAddress := [2], pubKeyMasternode := [3]
      sigTime := 9000 + n, protocolVersion := 1, lastPing := ⟨⟨7, n⟩, 1, 9900, []⟩ }

theorem sampleMasternode_backed : ∃ man log, runBroadcasts [sampleBroadcast 0] = some (man, log) ∧
      log.map (fun entry => entry.2.prevout) = [⟨7, 0⟩] ∧ ∀ entry ∈ log, Backed entry.1 entry.2 := by
  refine ⟨_, _, rfl, rfl,
    (masternodes_backed_of_owned [sampleBroadcast 0] (fun event member => ?_) _ _ rfl).1⟩
  obtain rfl := mem_singleton.mp member
  rintro coin tx unspent - -
  cases unspent
  exact ⟨rfl, rfl⟩

theorem two_masternodes_one_collateral :
    ∃ man log, runBroadcasts [sampleBroadcast 0, sampleBroadcast 1] = some (man, log) ∧
      log.map (fun entry => entry.2.prevout) = [⟨7, 0⟩, ⟨7, 1⟩] ∧ ¬ ∀ entry ∈ log,
      Backed entry.1 entry.2 := by
  refine ⟨_, _, rfl, rfl, fun backed => ?_⟩
  obtain ⟨coin, unspent, value, -⟩ := backed _ (mem_cons_of_mem _ mem_cons_self)
  cases unspent
  exact absurd value (by decide)

/-! A masternode that is not enabled is taken from the list before its collateral is looked at. -/

/-- Whether `CheckInputsAndAdd` returns `true`. -/
def broadcastAccepted (node : MasternodeNode) (man : CMasternodeMan) (mnb : CMasternodeBroadcast) :
    Bool :=
  if node.started = some (mnb.prevout, mnb.pubKeyMasternode) then true
  else if mnb.lastPing.isNull || !checkPing node man mnb.lastPing then false
  else
    match man.find mnb.prevout with
    | none => inputsAccepted node mnb
    | some mn => mn.isEnabled node || inputsAccepted node mnb

theorem checkInputs_refused (ran : checkInputs node man mnb = some (man', added))
    (refused : inputsAccepted node mnb = false) : man'.mapMasternodes = man.mapMasternodes := by
  obtain ⟨-, same⟩ | ⟨accepted, -⟩ := checkInputs_cases ran
  · exact same
  · simp [refused] at accepted

/-- A refused broadcast leaves the list alone exactly if its ping is refused or its masternode is
not in the list. -/
theorem refused_unchanged_iff (ran : checkInputsAndAdd node man mnb = some (man', added))
    (refused : broadcastAccepted node man mnb = false) : (∀ op, man'.find op = man.find op) ↔
      mnb.lastPing.isNull = true ∨ checkPing node man mnb.lastPing = false ∨
      man.find mnb.prevout = none := by
  unfold checkInputsAndAdd at ran
  unfold broadcastAccepted at refused
  split at ran
  case isTrue own => simp [own] at refused
  case isFalse foreign =>
    rw [if_neg foreign] at refused
    split at ran
    case isTrue unpinged =>
      cases ran
      simp only [implies_true, true_iff]
      simpa [or_assoc] using Or.inl unpinged
    case isFalse pinged =>
      rw [if_neg pinged] at refused
      simp only [Bool.or_eq_true, Bool.not_eq_true', not_or, Bool.not_eq_true, Bool.not_eq_false]
        at pinged
      cases found : man.find mnb.prevout with
      | none =>
        simp only [found] at ran refused
        simp [CMasternodeMan.find, checkInputs_refused ran refused]
      | some mn =>
        simp only [found, Bool.or_eq_false_iff] at ran refused
        rw [refused.1, if_neg (by simp)] at ran
        have gone : man'.find mnb.prevout = none := by
          rw [CMasternodeMan.find, checkInputs_refused ran refused.2, AList.lookup_erase]
        simp only [pinged, Bool.false_eq_true, Bool.true_eq_false, reduceCtorEq, or_self, iff_false]
        intro same
        rw [same, found] at gone
        cases gone

/-! A masternode whose last ping is old is announced anew, and its collateral is spent. -/

def spentNode : MasternodeNode := { sampleNode with coin := fun _ => none }

def expiredMasternode :
    CMasternode := { (sampleBroadcast 0).mnb with lastPing := ⟨⟨7, 0⟩, 1, 100, []⟩ }

def expiredList (n : Nat) : CMasternodeMan := CMasternodeMan.set {} ⟨7, n⟩ expiredMasternode

theorem refused_unchanged_other :
    ∃ man',
      checkInputsAndAdd spentNode (expiredList 1) (sampleBroadcast 0).mnb = some (man', none) ∧
      man'.find ⟨7, 1⟩ = some expiredMasternode := by
  have ran : checkInputsAndAdd spentNode (expiredList 1) (sampleBroadcast 0).mnb =
    some (expiredList 1, none) := rfl
  exact ⟨_, ran, (refused_unchanged_iff ran rfl).mpr (.inr (.inr rfl)) ⟨7, 1⟩⟩

theorem refused_removes_expired :
    ∃ man',
      checkInputsAndAdd spentNode (expiredList 0) (sampleBroadcast 0).mnb = some (man', none) ∧
      broadcastAccepted spentNode (expiredList 0) (sampleBroadcast 0).mnb = false ∧
      (expiredList 0).find ⟨7, 0⟩ = some expiredMasternode ∧ man'.find ⟨7, 0⟩ = none :=
    ⟨_, rfl, rfl, rfl, rfl⟩

end Deviant.Masternode.Broadcast
