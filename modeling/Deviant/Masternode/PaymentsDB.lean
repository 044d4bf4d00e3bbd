import Deviant.Masternode.VoteTally
import Deviant.Serialize.Serialize

namespace Deviant.Masternode

open Data List Primitives Serialize CMasternodePayments CMasternodePayee

/-! The file `mnpayments.dat`, in which the votes and their tally are kept between two runs of the
program, and the tally over all that can happen to it. -/

/-- What the file's format rests on. -/
structure PaymentsFormat where
  hash : Bytes → Uint256
  messageStart : Bytes
  messageStart_size : messageStart.length = 4

/-- The numbers of a vote are values of their types: `int` and `uint32_t`. -/
structure CMasternodePaymentWinner.Typed (winner : CMasternodePaymentWinner) : Prop where
  n : winner.vinMasternode.n < 2 ^ 32
  nSequence : winner.nSequence < 2 ^ 32
  nBlockHeight : IsInt32 winner.nBlockHeight

inductive ReadResult where
  | ok
  | fileError
  | hashReadError
  | incorrectHash
  | incorrectMagicMessage
  | incorrectMagicNumber
  | incorrectFormat
deriving DecidableEq

def mnpaymentsDBVersion : Int := 1

def strMagicMessage : Bytes := "MasternodePayments".toList.map fun c => UInt8.ofNat c.toNat

def MessageVersion.toInt : MessageVersion → Int
  | .messVerStrMess => 0
  | .messVerHash => 1

def MessageVersion.ofInt (value : Int) :
    MessageVersion := if value = 0 then .messVerStrMess else .messVerHash

theorem MessageVersion.ofInt_toInt : ofInt version.toInt = version := by
  cases version <;> rfl

theorem MessageVersion.isInt32_toInt (version : MessageVersion) : IsInt32 version.toInt := by
  cases version <;> exact ⟨by decide, by decide⟩

namespace PaymentsFormat

variable (format : PaymentsFormat)

def writeWinner (winner : CMasternodePaymentWinner) : Bytes :=
  writeUint256 winner.vinMasternode.hash ++ (littleEndian 4 winner.vinMasternode.n ++
    (writeByteVector winner.scriptSig ++
      (littleEndian 4 winner.nSequence ++ (writeInt32 winner.nBlockHeight ++
      (writeByteVector winner.payee ++
        (writeByteVector winner.vchSig ++ writeInt32 winner.nMessVersion.toInt))))))

def readMessVersion : StreamReader MessageVersion := fun stream =>
  match readInt32.run stream with
  | .ok (value, rest) => .ok (.ofInt value, rest)
  | .error _ => .ok (.messVerStrMess, stream)

def readWinner : StreamReader CMasternodePaymentWinner := do
  let hash ← readUint256
  let n ← serReaddata 4
  let scriptSig ← readByteVector
  let nSequence ← serReaddata 4
  let nBlockHeight ← readInt32
  let payee ← readByteVector
  let vchSig ← readByteVector
  let nMessVersion ← readMessVersion
  pure ⟨⟨hash, n⟩, scriptSig, nSequence, nBlockHeight, payee, vchSig, nMessVersion⟩

def writePayee (payee : CMasternodePayee) :
    Bytes := writeByteVector payee.scriptPubKey ++ writeInt32 payee.nVotes

def readPayee : StreamReader CMasternodePayee := do
  let scriptPubKey ← readByteVector
  let nVotes ← readInt32
  pure ⟨scriptPubKey, nVotes⟩

/-- The height of a `CMasternodeBlockPayees` is stored with its payments. -/
def writeBlockPayees (nBlockHeight : Int) (vecPayments : List CMasternodePayee) : Bytes :=
  writeInt32 nBlockHeight ++ writeVector writePayee vecPayments

def readBlockPayees : StreamReader (List CMasternodePayee) := do
  let _ ← readInt32
  readVector readPayee

def writeVotes (votes : Table Uint256 CMasternodePaymentWinner) : Bytes :=
  writeMap (fun first second => decide (first.toNat ≤ second.toNat)) writeUint256 (fun _ =>
    writeWinner) votes

def writeBlocks (blocks : Table Int (List CMasternodePayee)) : Bytes :=
  writeMap (fun first second => decide (first ≤ second)) writeInt32 writeBlockPayees blocks

def payload (payments : CMasternodePayments) : Bytes :=
  writeInt32 mnpaymentsDBVersion ++ (writeByteVector strMagicMessage ++ (format.messageStart ++
    (writeVotes payments.mapMasternodePayeeVotes ++ writeBlocks payments.mapMasternodeBlocks)))

/-- The bytes that `CMasternodePaymentDB::Write` puts in the file. -/
def write (payments : CMasternodePayments) : Bytes :=
  format.payload payments ++ writeUint256 (format.hash (format.payload payments))

abbrev StoredMaps := Table Uint256 CMasternodePaymentWinner × Table Int (List CMasternodePayee)

def readPayload : StreamReader (ReadResult × Option StoredMaps) := do
  let _ ← readInt32
  let strMagicMessageTmp ← readByteVector
  if strMagicMessage ≠ strMagicMessageTmp then pure (.incorrectMagicMessage, none)
  else do
    let pchMsgTmp ← takeBytes .endOfData 4
    if pchMsgTmp ≠ format.messageStart then pure (.incorrectMagicNumber, none)
    else do
      let votes ← readMap readUint256 readWinner
      let blocks ← readMap readInt32 readBlockPayees
      pure (.ok, some (votes, blocks))

end PaymentsFormat

namespace CMasternodePayments

def clear (payments : CMasternodePayments) : CMasternodePayments :=
  { payments with mapMasternodePayeeVotes := ∅, mapMasternodeBlocks := ∅ }

def withMaps (payments : CMasternodePayments) (maps : PaymentsFormat.StoredMaps) :
    CMasternodePayments :=
  { payments with mapMasternodePayeeVotes := maps.1, mapMasternodeBlocks := maps.2 }

/-- `CMasternodePaymentDB::Read`.  An object that was read in part is cleared. -/
def readDB (format : PaymentsFormat) (file : Option Bytes) (objToLoad : CMasternodePayments) :
    ReadResult × CMasternodePayments :=
  match file with
  | none => (.fileError, objToLoad)
  | some bytes =>
    let dataSize := bytes.length - 32
    match readUint256.run (bytes.drop dataSize) with
    | .error _ => (.hashReadError, objToLoad)
    | .ok (hashIn, _) =>
      if hashIn ≠ format.hash (bytes.take dataSize) then (.incorrectHash, objToLoad)
      else
        match format.readPayload.run (bytes.take dataSize) with
        | .error _ => (.incorrectFormat, objToLoad.clear)
        | .ok ((result, none), _) => (result, objToLoad)
        | .ok ((result, some maps), _) => (result, objToLoad.withMaps maps)

end CMasternodePayments

namespace CMasternodePayments

/-- The tally counts the votes, and no height has a payee twice. -/
structure Tallied (payments : CMasternodePayments) : Prop where
  counted : payments.Counted
  distinct : ∀ nBlockHeight vecPayments,
    payments.mapMasternodeBlocks.lookup nBlockHeight = some vecPayments →
    (vecPayments.map scriptPubKey).Nodup

variable {signer : MessageSigner} {payments : CMasternodePayments}

theorem scripts_addPayee : (addPayee payeeIn nIncrement vecPayments).map scriptPubKey =
      if payeeIn ∈ vecPayments.map scriptPubKey then vecPayments.map scriptPubKey
      else vecPayments.map scriptPubKey ++ [payeeIn] := by
  induction vecPayments with
  | nil => rfl
  | cons payee vecPayments ih =>
    rw [addPayee]
    by_cases same : payee.scriptPubKey = payeeIn
    · simp [same]
    · have other : ¬ payeeIn = payee.scriptPubKey := fun equal => same equal.symm
      rw [if_neg same, map_cons, ih]
      simp only [map_cons, mem_cons, other, false_or]
      split <;> rfl

theorem nodup_addPayee (distinct : (vecPayments.map scriptPubKey).Nodup) :
    ((addPayee payeeIn nIncrement vecPayments).map scriptPubKey).Nodup := by
  rw [scripts_addPayee]
  split
  case isTrue known => exact distinct
  case isFalse new => exact nodup_append.mpr ⟨distinct, nodup_singleton _, by simpa using new⟩

theorem tallied_empty (noVotes : payments.mapMasternodePayeeVotes = ∅)
    (noBlocks : payments.mapMasternodeBlocks = ∅) : payments.Tallied := by
  constructor
  · intro nBlockHeight payee
    simp [tally, votes, Table.values, noVotes, noBlocks, votesFor]
  · intro nBlockHeight vecPayments found
    simp [noBlocks] at found

theorem Tallied.addWinningMasternode (before : payments.Tallied) (view : MasternodeView) :
    (payments.addWinningMasternode signer view winner).2.Tallied := by
  by_cases addable : Addable signer view payments winner
  · rw [addWinningMasternode_of_addable addable]
    refine ⟨(counted_adds addable.2).counted before.counted, fun nBlockHeight vecPayments found => ?_⟩
    simp only [CMasternodePayments.counted] at found
    rw [Table.lookup_insert_eq] at found
    split at found
    case isTrue here =>
      obtain rfl := Option.some.inj found
      cases known : payments.mapMasternodeBlocks.lookup winner.nBlockHeight with
      | none => exact nodup_addPayee nodup_nil
      | some vecPayments => exact nodup_addPayee (before.distinct _ _ known)
    case isFalse elsewhere => exact before.distinct _ _ found
  · rw [addWinningMasternode_of_not_addable addable]
    exact before

theorem lookup_of_cleanPaymentList
    (found : (payments.cleanPaymentList mnCount nHeight).mapMasternodeBlocks.lookup nBlockHeight =
      some vecPayments) :
    payments.mapMasternodeBlocks.lookup nBlockHeight = some vecPayments := by
  simp only [CMasternodePayments.cleanPaymentList] at found
  rw [Table.lookup_foldl_erase fun entry : Sigma fun _ : Uint256 => CMasternodePaymentWinner =>
    entry.2.nBlockHeight]
    at found
  split at found
  case isTrue => cases found
  case isFalse => exact found

theorem Tallied.cleanPaymentList (before : payments.Tallied) (mnCount : Int) :
    (payments.cleanPaymentList mnCount nHeight).Tallied :=
  ⟨before.counted.cleanPaymentList,
    fun _ _ found => before.distinct _ _ (lookup_of_cleanPaymentList found)⟩

/-- What a file that can be read needs: a bound of the votes bounds every tally. -/
structure Storable (payments : CMasternodePayments) : Prop extends payments.Tallied where
  votes : ∀ vote ∈ payments.votes, vote.Typed
  heights : ∀ nBlockHeight vecPayments,
    payments.mapMasternodeBlocks.lookup nBlockHeight = some vecPayments → IsInt32 nBlockHeight

theorem votesFor_of_mem (distinct : (vecPayments.map scriptPubKey).Nodup)
    (member : payee ∈ vecPayments) :
    votesFor payee.scriptPubKey vecPayments = payee.nVotes := by
  have absent : ∀ {vecPayments}, payee.scriptPubKey ∉ vecPayments.map scriptPubKey →
      votesFor payee.scriptPubKey vecPayments = 0 := by
    intro vecPayments unlisted
    induction vecPayments with
    | nil => rfl
    | cons entry vecPayments ih =>
      rw [map_cons, mem_cons, not_or] at unlisted
      rw [votesFor, if_neg (Ne.symm unlisted.1), ih unlisted.2, Int.zero_add]
  induction vecPayments with
  | nil => cases member
  | cons entry vecPayments ih =>
    obtain ⟨unlisted, distinct⟩ := nodup_cons.mp distinct
    rw [votesFor]
    cases member with
    | head => rw [if_pos rfl, absent unlisted, Int.add_zero]
    | tail _ member =>
      have other : entry.scriptPubKey ≠ payee.scriptPubKey :=
        fun same => unlisted (same ▸ mem_map_of_mem member)
      rw [if_neg other, ih distinct member, Int.zero_add]

theorem Storable.isInt32_nVotes (storable : payments.Storable)
    (few : payments.mapMasternodePayeeVotes.entries.length ≤ maxSize)
    (found : payments.mapMasternodeBlocks.lookup nBlockHeight = some vecPayments)
    (listed : payee ∈ vecPayments) :
    IsInt32 payee.nVotes := by
  have counted := storable.counted nBlockHeight payee.scriptPubKey
  rw [tally, found, Option.getD_some, votesFor_of_mem (storable.distinct _ _ found) listed] at counted
  have bound : payments.votes.countP (fun vote => vote.nBlockHeight = nBlockHeight ∧
      vote.payee = payee.scriptPubKey) ≤
      maxSize := countP_le_length.trans ((length_map _).trans_le few)
  rw [counted]
  exact ⟨by omega, lt_of_le_of_lt (Int.ofNat_le.mpr bound) (by decide)⟩

theorem storable_empty (noVotes : payments.mapMasternodePayeeVotes = ∅)
    (noBlocks : payments.mapMasternodeBlocks = ∅) :
    payments.Storable := by
  refine ⟨tallied_empty noVotes noBlocks, ?_, ?_⟩
  · intro vote member
    rw [CMasternodePayments.votes, noVotes] at member
    cases member
  · intro nBlockHeight vecPayments found
    simp [noBlocks] at found

theorem Storable.addWinningMasternode (before : payments.Storable) (view : MasternodeView)
    (typed : winner.Typed) :
    (payments.addWinningMasternode signer view winner).2.Storable := by
  refine ⟨before.toTallied.addWinningMasternode view, ?_, ?_⟩ <;>
    by_cases addable : Addable signer view payments winner
  · rw [addWinningMasternode_of_addable addable, (counted_adds addable.2).votes]
    exact forall_mem_cons.mpr ⟨typed, before.votes⟩
  · rw [addWinningMasternode_of_not_addable addable]
    exact before.votes
  · rw [addWinningMasternode_of_addable addable]
    intro nBlockHeight vecPayments found
    simp only [CMasternodePayments.counted] at found
    rw [Table.lookup_insert_eq] at found
    split at found
    case isTrue here => exact here ▸ typed.nBlockHeight
    case isFalse elsewhere => exact before.heights _ _ found
  · rw [addWinningMasternode_of_not_addable addable]
    exact before.heights

theorem Storable.cleanPaymentList (before : payments.Storable) (mnCount : Int) :
    (payments.cleanPaymentList mnCount nHeight).Storable := by
  refine ⟨before.toTallied.cleanPaymentList mnCount, fun vote member => ?_,
    fun nBlockHeight vecPayments found => ?_⟩
  · rw [(votes_cleanPaymentList mnCount nHeight payments).mem_iff] at member
    exact before.votes vote (mem_of_mem_filter member)
  · exact before.heights _ _ (lookup_of_cleanPaymentList found)

def SameMaps (maps : PaymentsFormat.StoredMaps) (payments : CMasternodePayments) : Prop :=
  maps.1.entries.Perm payments.mapMasternodePayeeVotes.entries ∧
    maps.2.entries.Perm payments.mapMasternodeBlocks.entries

theorem Storable.withMaps {objToLoad : CMasternodePayments} (before : payments.Storable)
    (same : SameMaps maps payments) : (objToLoad.withMaps maps).Storable := by
  have blocks : ∀ nBlockHeight,
      maps.2.lookup nBlockHeight = payments.mapMasternodeBlocks.lookup nBlockHeight :=
    fun _ => AList.perm_lookup same.2
  have votes : (objToLoad.withMaps maps).votes.Perm payments.votes := same.1.map _
  refine ⟨⟨?_, ?_⟩, fun vote member => before.votes vote (votes.mem_iff.mp member), ?_⟩
  · intro nBlockHeight payee
    rw [votes.countP_eq, ← before.counted]
    simp [tally, CMasternodePayments.withMaps, blocks]
  · intro nBlockHeight vecPayments found
    exact before.distinct nBlockHeight vecPayments ((blocks nBlockHeight).symm.trans found)
  · intro nBlockHeight vecPayments found
    exact before.heights nBlockHeight vecPayments ((blocks nBlockHeight).symm.trans found)

end CMasternodePayments

namespace PaymentsFormat

variable {format : PaymentsFormat}

theorem yields_readWinner (typed : winner.Typed) :
    Yields readWinner (writeWinner winner) winner := by
  have version :
      Yields readMessVersion (writeInt32 winner.nMessVersion.toInt) winner.nMessVersion := by
    intro rest
    left
    simp only [readMessVersion, StateT.run]
    rw [show readInt32 (writeInt32 winner.nMessVersion.toInt ++ rest) = _ from
      reads_readInt32 winner.nMessVersion.isInt32_toInt rest]
    simp [MessageVersion.ofInt_toInt]
  refine (reads_readUint256 _).yields.bind
    ((reads_serReaddata typed.n).yields.bind (yields_readByteVector.bind ?_))
  refine (reads_serReaddata typed.nSequence).yields.bind
    ((reads_readInt32 typed.nBlockHeight).yields.bind ?_)
  exact yields_readByteVector.bind (yields_readByteVector.bind (version.last Reads.pure.yields))

theorem yields_readPayee (typed : IsInt32 payee.nVotes) :
    Yields readPayee (writePayee payee) payee :=
  yields_readByteVector.bind ((reads_readInt32 typed).yields.last Reads.pure.yields)

theorem yields_readBlockPayees (height : IsInt32 nBlockHeight)
    (typed : ∀ payee ∈ vecPayments, IsInt32 payee.nVotes) :
    Yields readBlockPayees (writeBlockPayees nBlockHeight vecPayments) vecPayments :=
  (reads_readInt32 height).yields.bind (yields_readVector fun payee member =>
    yields_readPayee (typed payee member))

/-- If there are too many votes for the file to be read, nothing is known of their counts. -/
theorem yields_readPayload (storable : payments.Storable) :
    ∃ maps, SameMaps maps payments ∧ Yields format.readPayload (format.payload payments)
      (.ok, some maps) := by
  have header : ∀ {maps}, Yields (do
        let votes ← readMap readUint256 readWinner
        let blocks ← readMap readInt32 readBlockPayees
        pure (.ok, some (votes, blocks)) : StreamReader (ReadResult × Option StoredMaps))
      (writeVotes payments.mapMasternodePayeeVotes ++ writeBlocks payments.mapMasternodeBlocks)
        (.ok, some maps) →
      Yields format.readPayload (format.payload payments) (.ok, some maps) := by
    intro maps yields
    refine (reads_readInt32 ⟨by decide, by decide⟩).yields.bind (yields_readByteVector.bind ?_)
    refine (reads_takeBytes format.messageStart_size).yields.bind ?_
    rw [if_neg (by simp)]
    exact yields
  by_cases few : payments.mapMasternodePayeeVotes.entries.length ≤ maxSize
  · obtain ⟨votes, sameVotes, yieldsVotes⟩ : ∃ copy : Table Uint256 CMasternodePaymentWinner,
        copy.entries.Perm payments.mapMasternodePayeeVotes.entries ∧
        Yields (readMap readUint256 readWinner) (writeVotes payments.mapMasternodePayeeVotes) copy :=
      yields_readMap (fun entry _ => (reads_readUint256 entry.1).yields) fun entry member =>
        yields_readWinner (storable.votes entry.2 (mem_map_of_mem member))
    obtain ⟨blocks, sameBlocks, yieldsBlocks⟩ : ∃ copy : Table Int (List CMasternodePayee),
        copy.entries.Perm payments.mapMasternodeBlocks.entries ∧
        Yields (readMap readInt32 readBlockPayees) (writeBlocks payments.mapMasternodeBlocks) copy := by
      have heights : ∀ entry ∈ payments.mapMasternodeBlocks.entries, IsInt32 entry.1 :=
          fun entry member =>
        storable.heights entry.1 entry.2 (AList.mem_lookup_iff.mpr member)
      refine yields_readMap (fun entry member => (reads_readInt32 (heights entry member)).yields)
        fun entry member => ?_
      exact yields_readBlockPayees (heights entry member) fun payee listed =>
        storable.isInt32_nVotes few (AList.mem_lookup_iff.mpr member) listed
    exact ⟨(votes, blocks), ⟨sameVotes, sameBlocks⟩,
      header (yieldsVotes.bind (yieldsBlocks.last Reads.pure.yields))⟩
  · refine ⟨(payments.mapMasternodePayeeVotes, payments.mapMasternodeBlocks), ⟨.rfl, .rfl⟩,
      header (Fails.yields ?_)⟩
    exact (fails_readMap (Nat.lt_of_not_le few)).bind.append _

end PaymentsFormat

namespace CMasternodePayments

variable {format : PaymentsFormat}

theorem readDB_write (storable : payments.Storable) (objToLoad : CMasternodePayments) :
    (objToLoad.readDB format (some (format.write payments))).2 = objToLoad.clear ∨
      ∃ maps, SameMaps maps payments ∧
        (objToLoad.readDB format (some (format.write payments))).2 = objToLoad.withMaps maps := by
  obtain ⟨maps, same, yields⟩ := @PaymentsFormat.yields_readPayload format payments storable
  have size : (format.write payments).length - 32 = (format.payload payments).length := by
    simp [PaymentsFormat.write, writeUint256]
  have data : (format.write payments).take (format.payload payments).length = format.payload payments :=
    take_left' rfl
  have tail : (format.write payments).drop (format.payload payments).length =
      writeUint256 (format.hash (format.payload payments)) := drop_left' rfl
  have checksum := reads_readUint256 (format.hash (format.payload payments)) []
  have contents := yields []
  rw [append_nil] at checksum contents
  unfold readDB
  dsimp only
  rw [size, data, tail, checksum]
  dsimp only
  rw [if_neg (by simp)]
  cases contents with
  | inl returned =>
    rw [returned]
    exact .inr ⟨maps, same, rfl⟩
  | inr failed =>
    obtain ⟨reason, failed⟩ := failed
    rw [failed]
    exact .inl rfl

end CMasternodePayments

inductive TallyEvent where
  | addWinningMasternode (view : MasternodeView) (winner : CMasternodePaymentWinner)
      (typed : winner.Typed)
  | cleanPaymentList (mnCount nHeight : Int)
  | clear
  /-- `DumpMasternodePayments`; the file may fail to open. -/
  | save (opened : Bool)
  | load (opened : Bool)

structure TallyNode where
  payments : CMasternodePayments := {}
  file : Option Bytes := none

namespace TallyNode

def step (signer : MessageSigner) (format : PaymentsFormat) (node : TallyNode) :
    TallyEvent → TallyNode
  | .addWinningMasternode view winner _ =>
    { node with payments := (node.payments.addWinningMasternode signer view winner).2 }
  | .cleanPaymentList mnCount nHeight =>
    { node with payments := node.payments.cleanPaymentList mnCount nHeight }
  | .clear => { node with payments := node.payments.clear }
  | .save opened => if opened then { node with file := some (format.write node.payments) } else node
  | .load opened =>
    { node with payments := (node.payments.readDB format (if opened then node.file else none)).2 }

def run (signer : MessageSigner) (format : PaymentsFormat) (events : List TallyEvent) : TallyNode :=
  events.foldl (step signer format) {}

end TallyNode

namespace TallyNode

variable {signer : MessageSigner} {format : PaymentsFormat} {node : TallyNode}

/-- What a file needs holds in memory, and for what the file was written from. -/
structure Kept (format : PaymentsFormat) (node : TallyNode) : Prop where
  memory : node.payments.Storable
  disk : ∀ bytes ∈ node.file, ∃ payments : CMasternodePayments, payments.Storable ∧
    bytes = format.write payments

theorem Kept.step (kept : Kept format node) (event : TallyEvent) :
    Kept format (node.step signer format event) := by
  cases event with
  | addWinningMasternode view winner typed =>
    exact ⟨kept.memory.addWinningMasternode view typed, kept.disk⟩
  | cleanPaymentList mnCount nHeight => exact ⟨kept.memory.cleanPaymentList mnCount, kept.disk⟩
  | clear => exact ⟨storable_empty rfl rfl, kept.disk⟩
  | save opened =>
    cases opened with
    | false => exact kept
    | true =>
      refine ⟨kept.memory, fun bytes written => ⟨node.payments, kept.memory, ?_⟩⟩
      exact (Option.some.inj written).symm
  | load opened =>
    refine ⟨?_, kept.disk⟩
    cases opened with
    | false => exact kept.memory
    | true =>
      cases stored : node.file with
      | none =>
        simp only [TallyNode.step, stored]
        exact kept.memory
      | some bytes =>
        obtain ⟨payments, storable, rfl⟩ := kept.disk bytes stored
        simp only [TallyNode.step, stored, if_true]
        cases readDB_write storable node.payments with
        | inl cleared =>
          rw [cleared]
          exact storable_empty rfl rfl
        | inr loaded =>
          obtain ⟨maps, same, loaded⟩ := loaded
          rw [loaded]
          exact storable.withMaps same

/-- After any sequence of votes, cleanings, clearings, saves and loads the tally of a height and a
payee is the number of votes kept for them, and no height has a payee twice. -/
theorem run_tallied (signer : MessageSigner) (format : PaymentsFormat) (events : List TallyEvent) :
    (run signer format events).payments.Tallied := by
  have kept : Kept format (run signer format events) := by
    refine foldlRecOn events _ ?_ fun _ kept event _ => Kept.step kept event
    exact ⟨storable_empty rfl rfl, fun _ missing => nomatch missing⟩
  exact kept.memory.toTallied

end TallyNode

end Deviant.Masternode
