import Deviant.Sapling.WitnessPath

namespace Deviant.Sapling

open Data List Primitives IncrementalMerkleTree CTransaction

/-! The witnesses that a wallet keeps of its notes: for each note one witness per block of the top
of the chain, the newest first, and a counter for how many blocks can be taken back. -/

structure SaplingOutPoint where
  hash : Uint256
  n : Nat
deriving DecidableEq

/-- The record of a note of the wallet, with its key in `mapSaplingNoteData`. -/
structure SaplingNoteData where
  op : SaplingOutPoint
  isMyNote : Bool
  witnesses : List (IncrementalWitness Uint256) := []
  witnessHeight : Int := -1
deriving DecidableEq

/-- The notes of all wallet transactions, and `nWitnessCacheSize`. -/
structure SaplingScriptPubKeyMan where
  notes : List SaplingNoteData
  nWitnessCacheSize : Int := 0
deriving DecidableEq

inductive WitnessCacheError where
  | assertion
  | tree (error : TreeError)
deriving DecidableEq

def saplingTreeDepth : Nat := 32

/-- `WITNESS_CACHE_SIZE`, one more than `DEFAULT_MAX_REORG_DEPTH`. -/
def witnessCacheSize : Nat := 101

def assert (condition : Prop) [Decidable condition] : Except WitnessCacheError Unit :=
  if condition then .ok () else .error .assertion

/-- A loop over the notes, which skips those that were sent to others. -/
def forEachNote (update : SaplingNoteData → Except WitnessCacheError SaplingNoteData) :
    List SaplingNoteData → Except WitnessCacheError (List SaplingNoteData) :=
  List.mapM fun nd => if nd.isMyNote then update nd else .ok nd

/-- The newest witness is pushed once more, and the oldest popped if there are too many. -/
def copyFront (witnesses : List (IncrementalWitness Uint256)) : List (IncrementalWitness Uint256) :=
  let longer := witnesses.head?.toList ++ witnesses
  if witnessCacheSize < longer.length then longer.dropLast else longer

section

variable (indexHeight nWitnessCacheSize : Int)

def copyPreviousWitnesses (nd : SaplingNoteData) : Except WitnessCacheError SaplingNoteData :=
  if nd.witnessHeight < indexHeight then do
    assert (nd.witnesses.length ≤ nWitnessCacheSize)
    assert (nd.witnessHeight = -1 ∨ nd.witnessHeight = indexHeight - 1)
    .ok { nd with witnesses := copyFront nd.witnesses }
  else .ok nd

def appendNoteCommitment (hash : MerkleHash Uint256) (indexHeight nWitnessCacheSize : Int)
    (commitment : Uint256) (nd : SaplingNoteData) : Except WitnessCacheError SaplingNoteData :=
  match nd.witnesses with
  | [] => .ok nd
  | front :: older =>
    if nd.witnessHeight < indexHeight then do
      assert (nd.witnesses.length ≤ nWitnessCacheSize)
      let front ← (front.append hash saplingTreeDepth commitment).mapError .tree
      .ok { nd with witnesses := front :: older }
    else .ok nd

/-- Witnesses that are there already are cleared. -/
def witnessNoteIfMine (key : SaplingOutPoint) (witness : IncrementalWitness Uint256)
    (nd : SaplingNoteData) : Except WitnessCacheError SaplingNoteData :=
  if nd.op = key ∧ nd.witnessHeight < indexHeight then do
    assert (1 ≤ nWitnessCacheSize)
    .ok { nd with witnesses := [witness], witnessHeight := indexHeight - 1 }
  else .ok nd

def updateWitnessHeights (nd : SaplingNoteData) : Except WitnessCacheError SaplingNoteData :=
  if nd.witnessHeight < indexHeight then do
    assert (nd.witnesses.length ≤ nWitnessCacheSize)
    .ok { nd with witnessHeight := indexHeight }
  else .ok nd

def decrementNoteWitness (nd : SaplingNoteData) : Except WitnessCacheError SaplingNoteData := do
  let nd ←
    if nd.witnessHeight ≤ indexHeight then do
      assert (nd.witnesses.length ≤ nWitnessCacheSize)
      assert (nd.witnessHeight = -1 ∨ nd.witnessHeight = indexHeight)
      .ok { nd with witnesses := nd.witnesses.tail, witnessHeight := indexHeight - 1 }
    else .ok nd
  if nd.witnessHeight < indexHeight then assert (nd.witnesses.length ≤ nWitnessCacheSize - 1)
  .ok nd

end

/-- The outputs of the shielded transactions of a block, in order. -/
def shieldedOutputs (vtx : List CTransaction) : List (SaplingOutPoint × Uint256) :=
  (vtx.filter isShieldedTx).flatMap fun tx =>
    tx.shieldedOutputs.zipIdx.map fun (output, i) => (⟨tx.hash, i⟩, output.cmu)

/-- One turn of the loop over the outputs of a block. Only a transaction of the wallet has notes
under its hash. -/
def incrementOutput (hash : MerkleHash Uint256) (chainHeight nWitnessCacheSize : Int)
    (state : IncrementalMerkleTree Uint256 × List SaplingNoteData)
    (output : SaplingOutPoint × Uint256) :
    Except WitnessCacheError (IncrementalMerkleTree Uint256 × List SaplingNoteData) := do
  let saplingTree ← (state.1.append hash saplingTreeDepth output.2).mapError .tree
  let notes ← forEachNote (appendNoteCommitment hash chainHeight nWitnessCacheSize output.2) state.2
  let notes ← forEachNote
    (witnessNoteIfMine chainHeight nWitnessCacheSize output.1 saplingTree.witness) notes
  .ok (saplingTree, notes)

def incrementedSize (nWitnessCacheSize : Int) : Int :=
  if nWitnessCacheSize < witnessCacheSize then nWitnessCacheSize + 1 else nWitnessCacheSize

def incrementNoteWitnesses (hash : MerkleHash Uint256) (chainHeight : Int) (vtx : List CTransaction)
    (saplingTree : IncrementalMerkleTree Uint256) (man : SaplingScriptPubKeyMan) :
    Except WitnessCacheError SaplingScriptPubKeyMan := do
  let notes ← forEachNote (copyPreviousWitnesses chainHeight man.nWitnessCacheSize) man.notes
  let size := incrementedSize man.nWitnessCacheSize
  let (_, notes) ← (shieldedOutputs vtx).foldlM (incrementOutput hash chainHeight size)
    (saplingTree, notes)
  let notes ← forEachNote (updateWitnessHeights chainHeight size) notes
  .ok { notes := notes, nWitnessCacheSize := size }

/-- In regression tests the last check throws instead. -/
def decrementNoteWitnesses (nChainHeight : Int) (man : SaplingScriptPubKeyMan) :
    Except WitnessCacheError SaplingScriptPubKeyMan := do
  let notes ← forEachNote (decrementNoteWitness nChainHeight man.nWitnessCacheSize) man.notes
  assert (0 < man.nWitnessCacheSize - 1)
  .ok { notes := notes, nWitnessCacheSize := man.nWitnessCacheSize - 1 }

/-- The wallet and the blocks that were connected, the newest first. -/
structure WalletChain where
  man : SaplingScriptPubKeyMan
  blocks : List (List CTransaction) := []
deriving DecidableEq

inductive WalletEvent where
  | add (op : SaplingOutPoint) (isMyNote : Bool)
  | connect (vtx : List CTransaction)
  | disconnect
deriving DecidableEq

/-- The commitments of a chain whose older blocks have the commitments `base`. -/
def chainCommitments (base : List Uint256) : List (List CTransaction) → List Uint256
  | [] => base
  | vtx :: older => chainCommitments base older ++ (shieldedOutputs vtx).map Prod.snd

namespace WalletChain

/-- One event, for a chain whose first block is connected at a height. -/
def step (hash : MerkleHash Uint256) (base : List Uint256) (first : Nat) (state : WalletChain) :
    WalletEvent → Except WitnessCacheError WalletChain
  | .add op isMyNote =>
    if state.man.notes.any (·.op == op) then .ok state
    else .ok { state with man.notes := state.man.notes ++ [{ op := op, isMyNote := isMyNote }] }
  | .connect vtx => do
      let previous ← (appendAll hash saplingTreeDepth (chainCommitments base state.blocks)).mapError .tree
      let man ← incrementNoteWitnesses hash (first + state.blocks.length) vtx previous state.man
      .ok { man := man, blocks := vtx :: state.blocks }
  | .disconnect =>
    match state.blocks with
    | [] => .ok state
    | _ :: older => do
        let man ← decrementNoteWitnesses (first + older.length) state.man
        .ok { man := man, blocks := older }

/-- A transaction is added before its block is connected, the blocks are those of a chain, and no
more of them are taken back than the cache allows for. -/
def Allowed (base : List Uint256) (state : WalletChain) : WalletEvent → Prop
  | .add op _ => op.hash ∉ state.blocks.flatten.map hash
  | .connect vtx =>
    ((vtx :: state.blocks).flatten.map hash).Nodup ∧
      (chainCommitments base (vtx :: state.blocks)).length ≤ 2 ^ saplingTreeDepth
  | .disconnect => 1 ≤ state.man.nWitnessCacheSize - 1

/-- The states that events lead to from a wallet without witnesses. -/
inductive Reached (hash : MerkleHash Uint256) (base : List Uint256) (first : Nat) :
    WalletChain → Prop
  | start (notes : List SaplingNoteData) (fits : base.length ≤ 2 ^ saplingTreeDepth)
      (fresh : ∀ nd ∈ notes, nd.witnesses = [] ∧ nd.witnessHeight = -1) :
      Reached hash base first { man := { notes := notes } }
  | step {state next : WalletChain} {event : WalletEvent} (reached : Reached hash base first state)
      (allowed : state.Allowed base event) (stepped : state.step hash base first event = .ok next) :
      Reached hash base first next

end WalletChain

/-- The witness is that of a leaf in a tree with the given leaves. -/
def Tracks (hash : MerkleHash Uint256) (cmu : Uint256) (witness : IncrementalWitness Uint256)
    (leaves : List Uint256) : Prop :=
  ∃ front pair done rest, Witnesses hash saplingTreeDepth witness front pair done rest ∧
    (front ++ pair).getLast? = some cmu ∧ front ++ pair ++ (done ++ rest) = leaves

section Trees

variable {hash : MerkleHash Uint256} {cmu obj : Uint256} {witness : IncrementalWitness Uint256}
  {tree : IncrementalMerkleTree Uint256} {leaves : List Uint256}

theorem Tracks.append (tracks : Tracks hash cmu witness leaves)
    (room : leaves.length < 2 ^ saplingTreeDepth) (obj : Uint256) :
    ∃ witness', witness.append hash saplingTreeDepth obj = .ok witness' ∧
      Tracks hash cmu witness' (leaves ++ [obj]) := by
  obtain ⟨front, pair, done, rest, holds, last, rfl⟩ := tracks
  obtain ⟨witness', done', rest', appended, holds', more⟩ := holds.append room obj
  exact ⟨witness', appended, front, pair, done', rest', holds', last, by simp [more]⟩

theorem Tracks.element (tracks : Tracks hash cmu witness leaves) : witness.element = .ok cmu := by
  obtain ⟨front, pair, done, rest, holds, last, -⟩ := tracks
  obtain ⟨element, _, found, result, -⟩ := holds.holds.pathSteps holds.nonempty holds.high []
  rw [last] at found
  cases found
  exact result

theorem appendAll_ok (hash : MerkleHash Uint256) (fits : leaves.length ≤ 2 ^ saplingTreeDepth) :
    ∃ tree, appendAll hash saplingTreeDepth leaves = .ok tree := by
  obtain ⟨tree, _, _, built, -⟩ := appendAll_represents hash (by decide : 1 ≤ saplingTreeDepth) fits
  exact ⟨tree, built⟩

theorem Tracks.root (tracks : Tracks hash cmu witness leaves)
    (fits : leaves.length ≤ 2 ^ saplingTreeDepth)
    (built : appendAll hash saplingTreeDepth leaves = .ok tree) :
    witness.root hash saplingTreeDepth = tree.root hash saplingTreeDepth [] := by
  obtain ⟨front, pair, done, rest, holds, -, rfl⟩ := tracks
  obtain ⟨_, front', pair', built', holds', whole, -⟩ :=
    appendAll_represents hash (by decide : 1 ≤ saplingTreeDepth) fits
  cases built.symm.trans built'
  rw [holds.root_eq fits, holds'.root (by decide) (by rw [whole]; exact fits), whole]

theorem tracks_witness (fits : (leaves ++ [cmu]).length ≤ 2 ^ saplingTreeDepth)
    (built : appendAll hash saplingTreeDepth (leaves ++ [cmu]) = .ok tree) :
    Tracks hash cmu tree.witness (leaves ++ [cmu]) := by
  obtain ⟨_, front, pair, built', holds, whole, started⟩ :=
    appendAll_represents hash (by decide : 1 ≤ saplingTreeDepth) fits
  cases built.symm.trans built'
  have nonempty : pair ≠ [] := fun missing => by simpa using started missing
  have few := holds.parents_lt (by decide : 1 ≤ saplingTreeDepth) (by rw [whole]; exact fits)
  exact ⟨front, pair, [], [],
    ⟨holds, nonempty, few, .nil _, .idle⟩, by simp [whole], by simpa using whole⟩

end Trees

theorem hash_mem_of_output (named : op ∈ (shieldedOutputs vtx).map Prod.fst) :
    op.hash ∈ vtx.map hash := by
  simp only [shieldedOutputs, mem_map, mem_flatMap, mem_filter] at named
  obtain ⟨_, ⟨tx, ⟨inBlock, -⟩, output, -, rfl⟩, rfl⟩ := named
  exact mem_map_of_mem inBlock

theorem hash_mem_flatten {blocks : List (List CTransaction)} (member : vtx ∈ blocks)
    (named : op ∈ (shieldedOutputs vtx).map Prod.fst) : op.hash ∈ blocks.flatten.map hash := by
  rw [map_flatten]
  exact mem_flatten_of_mem (mem_map_of_mem member) (hash_mem_of_output named)

theorem nodup_shieldedOutputs (distinct : (vtx.map hash).Nodup) :
    ((shieldedOutputs vtx).map Prod.fst).Nodup := by
  induction vtx with
  | nil => exact nodup_nil
  | cons tx rest ih =>
    obtain ⟨fresh, others⟩ := nodup_cons.mp distinct
    cases shielded : tx.isShieldedTx with
    | false => simpa [shieldedOutputs, shielded] using ih others
    | true =>
      have split : shieldedOutputs (tx :: rest) =
          (tx.shieldedOutputs.zipIdx.map fun (output, i) => ((⟨tx.hash, i⟩ : SaplingOutPoint),
            output.cmu)) ++
            shieldedOutputs rest := by
        simp [shieldedOutputs, shielded]
      rw [split, map_append, map_map]
      refine List.Nodup.append ?_ (ih others) ?_
      · have indices : (tx.shieldedOutputs.zipIdx.map Prod.snd).Nodup := by simp [nodup_range']
        exact .of_map SaplingOutPoint.n (by simpa [Function.comp_def] using indices)
      · intro op own other
        obtain ⟨output, -, rfl⟩ := mem_map.mp own
        exact fresh (hash_mem_of_output other)

/-- What is newest of a note: its commitment among the outputs seen so far, or what is known from
before. -/
def newest (seen : List (SaplingOutPoint × Uint256)) (op : SaplingOutPoint)
    (before : Option (Nat × Uint256)) :
    Option (Nat × Uint256) :=
  (((seen.lookup op).map fun cmu => (0, cmu)).or before).map fun (depth, cmu) => (depth + 1, cmu)

/-- The depth of a note in the chain, which is 1 in the newest block, and its commitment. -/
def located (op : SaplingOutPoint) : List (List CTransaction) → Option (Nat × Uint256)
  | [] => none
  | vtx :: older => newest (shieldedOutputs vtx) op (located op older)

theorem lookup_eq_none {outputs : List (SaplingOutPoint × Uint256)}
    (absent : op ∉ outputs.map Prod.fst) : outputs.lookup op = none := by
  rw [lookup_eq_none_iff]
  intro output member
  have differs : op ≠ output.1 := fun same => absent (same ▸ mem_map_of_mem member)
  simpa using differs

theorem located_eq_none (absent : ∀ vtx ∈ blocks, op ∉ (shieldedOutputs vtx).map Prod.fst) :
    located op blocks = none := by
  induction blocks with
  | nil => rfl
  | cons vtx older ih =>
    rw [forall_mem_cons] at absent
    simp [located, newest, lookup_eq_none absent.1, ih absent.2]

theorem located_of_new (absent : op.hash ∉ blocks.flatten.map hash) : located op blocks = none :=
  located_eq_none fun _ member named => absent (hash_mem_flatten member named)

theorem lookup_of_mem {outputs : List (SaplingOutPoint × Uint256)}
    (distinct : (outputs.map Prod.fst).Nodup) (member : (op, cmu) ∈ outputs) :
    outputs.lookup op = some cmu := by
  cases found : outputs.lookup op with
  | none => simpa using lookup_eq_none_iff.mp found _ member
  | some other =>
    obtain ⟨before, after, rfl, -⟩ := lookup_eq_some_iff.mp found
    have same := inj_on_of_nodup_map distinct member (by simp : (op, other) ∈ _) rfl
    rw [Prod.mk.inj same |>.2]

theorem located_of_mem {blocks : List (List CTransaction)}
    (distinct : (blocks.flatten.map hash).Nodup) (connected : vtx ∈ blocks)
    (output : (op, cmu) ∈ shieldedOutputs vtx) :
    ∃ depth, located op blocks = some (depth + 1, cmu) := by
  induction blocks with
  | nil => cases connected
  | cons newer older ih =>
    rw [flatten_cons, map_append, nodup_append] at distinct
    obtain ⟨inNewer, inOlder, apart⟩ := distinct
    rcases mem_cons.mp connected with rfl | below
    · exact ⟨0, by simp [located, newest, lookup_of_mem (nodup_shieldedOutputs inNewer) output]⟩
    · obtain ⟨depth, found⟩ := ih inOlder below
      have absent : op ∉ (shieldedOutputs newer).map Prod.fst := fun again =>
        apart _ (hash_mem_of_output again) _ (hash_mem_flatten below (mem_map_of_mem output)) rfl
      exact ⟨depth + 1, by simp [located, newest, lookup_eq_none absent, found]⟩

def chainTrees (base : List Uint256) : List (List CTransaction) → List (List Uint256)
  | [] => []
  | vtx :: older => chainCommitments base (vtx :: older) :: chainTrees base older

/-- The cached witnesses of a note: one for each of the newest trees since it was mined, up to the
size of the cache. -/
def Cached (hash : MerkleHash Uint256) (trees : List (List Uint256)) (size : Nat)
    (witnesses : List (IncrementalWitness Uint256)) : Option (Nat × Uint256) → Prop
  | none => witnesses = []
  | some (depth, cmu) => List.Forall₂ (Tracks hash cmu) witnesses (trees.take (min depth size))

section Notes

variable {hash : MerkleHash Uint256} {base leaves : List Uint256} {trees : List (List Uint256)}
  {blocks : List (List CTransaction)} {size : Nat} {height : Int} {nd : SaplingNoteData}
  {note : Option (Nat × Uint256)} {witnesses : List (IncrementalWitness Uint256)}

theorem Cached.length_le (cached : Cached hash trees size witnesses note) :
    witnesses.length ≤ size := by
  match note, cached with
  | none, empty => simp [show witnesses = [] from empty]
  | some (depth, cmu), tracked =>
    have := List.Forall₂.length_eq tracked
    rw [length_take] at this
    omega

theorem cached_some_iff :
    Cached hash (leaves :: trees) (size + 1) witnesses (some (depth + 1, cmu)) ↔ ∃ front rest,
      Tracks hash cmu front leaves ∧
      List.Forall₂ (Tracks hash cmu) rest (trees.take (min depth size)) ∧
      witnesses = front :: rest := by
  show List.Forall₂ _ _ (List.take (min (depth + 1) (size + 1)) _) ↔ _
  rw [Nat.add_min_add_right, take_succ_cons, forall₂_cons_right_iff]

@[simp] theorem assert_eq_ok [Decidable condition] (holds : condition) :
    assert condition = .ok () := if_pos holds

/-- A loop does to every own note what it does to one. -/
theorem forEachNote_ok {Before After : SaplingNoteData → Prop}
    (each : ∀ nd, Before nd → ∃ nd', update nd = .ok nd' ∧ After nd') {notes : List SaplingNoteData}
    (all : ∀ nd ∈ notes, nd.isMyNote → Before nd) :
    ∃ notes', forEachNote update notes = .ok notes' ∧ ∀ nd ∈ notes', nd.isMyNote → After nd := by
  induction notes with
  | nil => exact ⟨[], rfl, by simp⟩
  | cons nd rest ih =>
    rw [forall_mem_cons] at all
    obtain ⟨rest', ran, done⟩ := ih all.2
    have head : ∃ nd', (if nd.isMyNote then update nd else .ok nd) = .ok nd' ∧
        (nd'.isMyNote → After nd') := by
      split
      case isTrue own =>
        obtain ⟨nd', updated, after⟩ := each nd (all.1 own)
        exact ⟨nd', updated, fun _ => after⟩
      case isFalse other => exact ⟨nd, rfl, fun own => absurd own other⟩
    obtain ⟨nd', updated, after⟩ := head
    refine ⟨nd' :: rest', ?_, forall_mem_cons.mpr ⟨after, done⟩⟩
    unfold forEachNote at ran ⊢
    rw [mapM_cons, updated, ran]
    rfl

section

variable (hash : MerkleHash Uint256) (base : List Uint256) (blocks : List (List CTransaction))
    (size : Nat)

/-- A note between two blocks. -/
structure Resting
    (top : Int) (nd : SaplingNoteData) : Prop where
  height : nd.witnessHeight = -1 ∨ nd.witnessHeight = top
  cached : Cached hash (chainTrees base blocks) size nd.witnesses (located nd.op blocks)

/-- A note while a block is connected, of which some outputs have been seen. -/
structure Opened
    (height : Int) (seen : List (SaplingOutPoint × Uint256)) (nd : SaplingNoteData) : Prop where
  behind : nd.witnessHeight < height
  cached : Cached hash
    ((chainCommitments base blocks ++ seen.map Prod.snd) :: chainTrees base blocks)
    size nd.witnesses (newest seen nd.op (located nd.op blocks))

end

theorem copyFront_cons (short : (front :: witnesses).length ≤ witnessCacheSize) :
    copyFront (front :: witnesses) = front :: (front :: witnesses).take (witnessCacheSize - 1) := by
  show (if witnessCacheSize < (front :: witnesses).length + 1
    then (front :: front :: witnesses).dropLast
    else front :: front :: witnesses) = _
  split
  case isTrue long =>
    have full : (front :: witnesses).length = witnessCacheSize := by omega
    rw [dropLast_eq_take, length_cons, full]
    rfl
  case isFalse fits => rw [take_of_length_le (by omega)]

theorem Cached.copied
    (cached : Cached hash (chainTrees base blocks) size witnesses (located op blocks))
    (started : blocks ≠ [] → 1 ≤ size) (bounded : size ≤ witnessCacheSize) :
    Cached hash (chainCommitments base blocks :: chainTrees base blocks)
      (min (size + 1) witnessCacheSize) (copyFront witnesses)
      (newest [] op (located op blocks)) := by
  have short := cached.length_le
  cases found : located op blocks with
  | none =>
    rw [found] at cached
    obtain rfl : witnesses = [] := cached
    rfl
  | some place =>
    cases blocks with
    | nil => cases found
    | cons vtx older =>
      simp only [located, newest, Option.map_eq_some_iff] at found
      obtain ⟨⟨depth, cmu⟩, inOlder, rfl⟩ := found
      have tracked : List.Forall₂ (Tracks hash cmu) witnesses
          ((chainTrees base (vtx :: older)).take (min (depth + 1) size)) := by
        rw [located, newest, inOlder] at cached
        exact cached
      obtain ⟨room, rfl⟩ := Nat.exists_eq_add_of_le' (started (by simp))
      have kept := forall₂_take (witnessCacheSize - 1) tracked
      rw [take_take] at kept
      rw [chainTrees, Nat.add_min_add_right, take_succ_cons] at tracked
      cases tracked with
      | @cons front _ rest _ first others =>
        have smaller : min (depth + 1 + 1) (min (room + 1 + 1) witnessCacheSize) =
            min (witnessCacheSize - 1) (min (depth + 1) (room + 1)) + 1 := by
          omega
        rw [copyFront_cons (short.trans bounded)]
        show List.Forall₂ _ _ (List.take (min (depth + 1 + 1) (min (room + 1 + 1) witnessCacheSize)) _)
        rw [smaller, take_succ_cons]
        exact .cons first kept

theorem copyPreviousWitnesses_ok (resting : Resting hash base blocks size (height - 1) nd)
    (above : -1 < height) (started : blocks ≠ [] → 1 ≤ size) (bounded : size ≤ witnessCacheSize) :
    ∃ nd', copyPreviousWitnesses height size nd = .ok nd' ∧
      Opened hash base blocks (min (size + 1) witnessCacheSize) height [] nd' := by
  have behind : nd.witnessHeight < height := by
    have := resting.height
    omega
  have few : (nd.witnesses.length : Int) ≤ size := by exact_mod_cast resting.cached.length_le
  refine ⟨{ nd with witnesses := copyFront nd.witnesses }, ?_, ⟨behind, ?_⟩⟩
  · rw [copyPreviousWitnesses, if_pos behind, assert_eq_ok few, assert_eq_ok resting.height]
    rfl
  · rw [map_nil, append_nil]
    exact resting.cached.copied started bounded

theorem newest_other (differs : op ≠ key) :
    newest (seen ++ [(key, cmu)]) op note = newest seen op note := by
  have apart : (op == key) = false := by simpa using differs
  simp [newest, lookup_append, lookup_cons, apart]

theorem appendNoteCommitment_ok (cmu : Uint256) (opened : Opened hash base blocks size height seen nd)
    (positive : 1 ≤ size) (differs : nd.op ≠ key)
    (room : (chainCommitments base blocks ++ seen.map Prod.snd).length < 2 ^ saplingTreeDepth) :
    ∃ nd', appendNoteCommitment hash height size cmu nd = .ok nd' ∧ nd'.op = nd.op ∧
      Opened hash base blocks size height (seen ++ [(key, cmu)]) nd' := by
  have cached := opened.cached
  have few : (nd.witnesses.length : Int) ≤ size := by exact_mod_cast cached.length_le
  unfold appendNoteCommitment
  cases found : newest seen nd.op (located nd.op blocks) with
  | none =>
    rw [found] at cached
    have empty : nd.witnesses = [] := cached
    refine ⟨nd, by rw [empty], rfl, opened.behind, ?_⟩
    rw [newest_other differs, found]
    exact cached
  | some place =>
    obtain ⟨depth, own⟩ := place
    obtain ⟨depth, rfl⟩ : ∃ above, depth = above + 1 := by
      simp only [newest, Option.map_eq_some_iff] at found
      obtain ⟨⟨above, _⟩, -, same⟩ := found
      exact ⟨above, (congrArg Prod.fst same).symm⟩
    obtain ⟨older, rfl⟩ := Nat.exists_eq_add_of_le' positive
    rw [found] at cached
    obtain ⟨front, rest, first, others, same⟩ := cached_some_iff.mp cached
    obtain ⟨front', appended, first'⟩ := first.append room cmu
    rw [same]
    refine ⟨{ nd with witnesses := front' :: rest }, ?_, rfl, opened.behind, ?_⟩
    · simp only [if_pos opened.behind, ← same, assert_eq_ok few, appended]
      rfl
    · rw [newest_other differs, found, map_append, ← append_assoc]
      exact cached_some_iff.mpr ⟨front', rest, first', others, rfl⟩

/-- One more output: that of another note is appended, and the note's own starts its witnesses. -/
theorem incrementOutput_note (opened : Opened hash base blocks size height seen nd)
    (positive : 1 ≤ size)
    (fits : (chainCommitments base blocks ++ seen.map Prod.snd ++ [cmu]).length ≤
      2 ^ saplingTreeDepth) (fresh : key ∉ seen.map Prod.fst) (unmined : located key blocks = none)
    (built : appendAll hash saplingTreeDepth
      (chainCommitments base blocks ++ seen.map Prod.snd ++ [cmu]) = .ok tree) :
    ∃ nd', appendNoteCommitment hash height size cmu nd = .ok nd' ∧
      ∃ nd'', witnessNoteIfMine height size key tree.witness nd' = .ok nd'' ∧
        Opened hash base blocks size height (seen ++ [(key, cmu)]) nd'' := by
  by_cases own : nd.op = key
  · have cached := opened.cached
    subst own
    rw [newest, lookup_eq_none fresh, unmined] at cached
    have empty : nd.witnesses = [] := cached
    have cache : (1 : Int) ≤ size := by exact_mod_cast positive
    refine ⟨nd, ?_, { nd with witnesses := [tree.witness], witnessHeight := height - 1 },
      ?_, ⟨?_, ?_⟩⟩
    · rw [appendNoteCommitment, empty]
    · rw [witnessNoteIfMine, if_pos ⟨rfl, opened.behind⟩, assert_eq_ok cache]
      rfl
    · dsimp only
      omega
    · obtain ⟨older, rfl⟩ := Nat.exists_eq_add_of_le' positive
      rw [newest, lookup_append, lookup_eq_none fresh, lookup_cons_self, map_append, ← append_assoc]
      exact cached_some_iff.mpr ⟨tree.witness, [], tracks_witness fits built, by simp, rfl⟩
  · obtain ⟨nd', appended, same, opened'⟩ :=
      appendNoteCommitment_ok cmu opened positive own (by simp at fits ⊢; omega)
    refine ⟨nd', appended, nd', ?_, opened'⟩
    rw [witnessNoteIfMine, if_neg fun mine => own (same ▸ mine.1)]

theorem updateWitnessHeights_ok
    (opened : Opened hash base blocks size height (shieldedOutputs vtx) nd) :
    ∃ nd', updateWitnessHeights height size nd = .ok nd' ∧
      Resting hash base (vtx :: blocks) size height nd' := by
  have few : (nd.witnesses.length : Int) ≤ size := by exact_mod_cast opened.cached.length_le
  refine ⟨{ nd with witnessHeight := height }, ?_, ⟨.inr rfl, opened.cached⟩⟩
  rw [updateWitnessHeights, if_pos opened.behind, assert_eq_ok few]
  rfl

theorem decrementNoteWitness_ok (resting : Resting hash base (vtx :: blocks) (size + 1) height nd)
    (above : -1 < height) (distinct : ((vtx :: blocks).flatten.map CTransaction.hash).Nodup) :
    ∃ nd', decrementNoteWitness height (size + 1) nd = .ok nd' ∧
      Resting hash base blocks size (height - 1) nd' := by
  have cached := resting.cached
  have few := cached.length_le
  have here : nd.witnessHeight ≤ height := by
    have := resting.height
    omega
  have older :
      Cached hash (chainTrees base blocks) size nd.witnesses.tail (located nd.op blocks) := by
    rw [located] at cached
    cases mined : (shieldedOutputs vtx).lookup nd.op with
    | some cmu =>
      obtain ⟨before, after, same, -⟩ := lookup_eq_some_iff.mp mined
      have named : nd.op.hash ∈ vtx.map CTransaction.hash := hash_mem_of_output (by simp [same])
      rw [flatten_cons, map_append, nodup_append] at distinct
      rw [located_of_new fun again => distinct.2.2 _ named _ again rfl]
      rw [newest, mined] at cached
      obtain ⟨_, rest, _, empty, same⟩ := cached_some_iff.mp cached
      rw [same]
      exact (by simpa using empty : rest = [])
    | none =>
      rw [newest, mined] at cached
      cases found : located nd.op blocks with
      | none =>
        rw [found] at cached
        rw [show nd.witnesses = [] from cached]
        rfl
      | some place =>
        obtain ⟨depth, cmu⟩ := place
        rw [found] at cached
        obtain ⟨_, rest, _, others, same⟩ := cached_some_iff.mp cached
        rw [same]
        exact others
  have less : (nd.witnesses.tail.length : Int) ≤ (size + 1 : Int) - 1 := by
    have := older.length_le
    omega
  refine ⟨{ nd with witnesses := nd.witnesses.tail, witnessHeight := height - 1 }, ?_,
    ⟨.inr rfl, older⟩⟩
  rw [decrementNoteWitness, if_pos here, assert_eq_ok (by exact_mod_cast few),
    assert_eq_ok resting.height]
  simp only [bind, Except.bind, if_pos (show height - 1 < height by omega), assert_eq_ok less]

variable {tree : IncrementalMerkleTree Uint256} {notes : List SaplingNoteData}
  {seen : List (SaplingOutPoint × Uint256)}
  (opened : ∀ nd ∈ notes, nd.isMyNote → Opened hash base blocks size height seen nd)
  (positive : 1 ≤ size)
  (built : appendAll hash saplingTreeDepth (chainCommitments base blocks ++ seen.map Prod.snd) =
    .ok tree)

include opened positive built

theorem incrementOutput_ok
    (fits : (chainCommitments base blocks ++ seen.map Prod.snd ++ [cmu]).length ≤
      2 ^ saplingTreeDepth)
    (fresh : key ∉ seen.map Prod.fst) (unmined : located key blocks = none) :
    ∃ tree' notes', incrementOutput hash height size (tree, notes)
      (key, cmu) = .ok (tree', notes') ∧
      appendAll hash saplingTreeDepth (chainCommitments base blocks ++ seen.map Prod.snd ++ [cmu]) =
      .ok tree' ∧
      ∀ nd ∈ notes', nd.isMyNote →
      Opened hash base blocks size height (seen ++ [(key, cmu)]) nd := by
  obtain ⟨tree', built'⟩ := appendAll_ok hash fits
  have appended : tree.append hash saplingTreeDepth cmu = .ok tree' := by
    rw [appendAll_concat, built] at built'
    exact built'
  obtain ⟨notes₁, ran₁, middle⟩ := forEachNote_ok
    (fun nd here => incrementOutput_note here positive fits fresh unmined built') opened
  obtain ⟨notes₂, ran₂, after⟩ := forEachNote_ok (fun nd here => here) middle
  refine ⟨tree', notes₂, ?_, built', after⟩
  simp [incrementOutput, appended, ran₁, ran₂, Except.mapError, bind, Except.bind]

theorem incrementOutputs_ok (outputs : List (SaplingOutPoint × Uint256))
    (fits : (chainCommitments base blocks ++ (seen ++ outputs).map Prod.snd).length ≤
      2 ^ saplingTreeDepth)
    (distinct : ((seen ++ outputs).map Prod.fst).Nodup)
    (unmined : ∀ output ∈ outputs, located output.1 blocks = none) :
    ∃ tree' notes', outputs.foldlM (incrementOutput hash height size) (tree, notes) =
      .ok (tree', notes') ∧
      ∀ nd ∈ notes', nd.isMyNote → Opened hash base blocks size height (seen ++ outputs) nd := by
  induction outputs generalizing seen tree notes with
  | nil => exact ⟨tree, notes, rfl, by simpa using opened⟩
  | cons output rest ih =>
    obtain ⟨key, cmu⟩ := output
    rw [forall_mem_cons] at unmined
    have fresh : key ∉ seen.map Prod.fst := by
      rw [map_append, nodup_append] at distinct
      exact fun again => distinct.2.2 _ again _ (by simp) rfl
    obtain ⟨tree', notes', ran, built', opened'⟩ :=
      incrementOutput_ok opened positive built (by simp at fits ⊢; omega) fresh unmined.1
    rw [append_cons] at fits distinct ⊢
    obtain ⟨last, final, rest', done⟩ := ih opened' (by simpa using built') fits distinct unmined.2
    exact ⟨last, final, by rw [foldlM_cons, ran]; exact rest', done⟩

end Notes

/-- What every step keeps. -/
structure Standing (hash : MerkleHash Uint256) (base : List Uint256) (first : Nat)
    (state : WalletChain) (size : Nat) :
    Prop where
  counter : state.man.nWitnessCacheSize = size
  bounded : size ≤ witnessCacheSize
  started : state.blocks ≠ [] → 1 ≤ size
  covered : size ≤ state.blocks.length
  distinct : (state.blocks.flatten.map CTransaction.hash).Nodup
  fits : (chainCommitments base state.blocks).length ≤ 2 ^ saplingTreeDepth
  notes : ∀ nd ∈ state.man.notes, nd.isMyNote →
    Resting hash base state.blocks size (first + state.blocks.length - 1) nd

section Runs

variable {hash : MerkleHash Uint256} {base : List Uint256} {first size : Nat} {state : WalletChain}

theorem Standing.add (standing : Standing hash base first state size)
    (new : op.hash ∉ state.blocks.flatten.map CTransaction.hash) (isMyNote : Bool) :
    ∃ next, state.step hash base first (.add op isMyNote) = .ok next ∧
      Standing hash base first next size := by
  unfold WalletChain.step
  dsimp only
  split
  case isTrue => exact ⟨state, rfl, standing⟩
  case isFalse =>
    refine ⟨_, rfl, { standing with notes := fun nd member own => ?_ }⟩
    rcases mem_append.mp member with old | added
    · exact standing.notes nd old own
    · rw [mem_singleton] at added
      subst added
      exact ⟨.inl rfl, by rw [located_of_new new]; rfl⟩

theorem Standing.connect (standing : Standing hash base first state size) {vtx : List CTransaction}
    (distinct : ((vtx :: state.blocks).flatten.map CTransaction.hash).Nodup)
    (fits : (chainCommitments base (vtx :: state.blocks)).length ≤ 2 ^ saplingTreeDepth) :
    ∃ next, state.step hash base first (.connect vtx) = .ok next ∧
      Standing hash base first next (min (size + 1) witnessCacheSize) := by
  obtain ⟨previous, built⟩ := appendAll_ok hash standing.fits
  have apart := distinct
  rw [flatten_cons, map_append, nodup_append] at apart
  have counted : incrementedSize size = (min (size + 1) witnessCacheSize : Nat) := by
    have := standing.bounded
    unfold incrementedSize witnessCacheSize at *
    split <;> omega
  obtain ⟨notes₁, ran₁, copied⟩ := forEachNote_ok
    (fun nd here => copyPreviousWitnesses_ok here (by omega) standing.started standing.bounded)
    standing.notes
  obtain ⟨_, notes₂, ran₂, opened⟩ := incrementOutputs_ok copied (by unfold witnessCacheSize; omega)
    (by simpa using built) (shieldedOutputs vtx) fits (nodup_shieldedOutputs apart.1)
    fun output member =>
      located_of_new fun again => apart.2.2 _ (hash_mem_of_output (mem_map_of_mem member)) _ again rfl
  obtain ⟨notes₃, ran₃, resting⟩ :=
    forEachNote_ok (fun nd here => updateWitnessHeights_ok here) opened
  refine ⟨⟨⟨notes₃, _⟩, vtx :: state.blocks⟩, ?_,
    rfl, by omega, fun _ => by unfold witnessCacheSize; omega, ?_, distinct, fits, ?_⟩
  · simp only [WalletChain.step, incrementNoteWitnesses, built, standing.counter, counted,
      ran₁, ran₂, ran₃, Except.mapError, bind, Except.bind]
  · have := standing.covered
    rw [length_cons]
    omega
  · have top : (first + (vtx :: state.blocks).length - 1 : Int) = first + state.blocks.length := by
      simp
      omega
    rw [top]
    exact resting

theorem Standing.disconnect (standing : Standing hash base first state (size + 2)) :
    ∃ next, state.step hash base first .disconnect = .ok next ∧
      Standing hash base first next (size + 1) := by
  obtain ⟨⟨notes, counter⟩, blocks⟩ := state
  obtain ⟨counted, bounded, started, covered, distinct, fits, resting⟩ := standing
  obtain rfl : counter = (size + 1 : Nat) + 1 := counted
  cases blocks with
  | nil => simp at covered
  | cons vtx older =>
    have top : (first + (vtx :: older).length - 1 : Int) = first + older.length := by
      simp
      omega
    rw [top] at resting
    obtain ⟨notes', ran, rested⟩ := forEachNote_ok
      (fun nd here => decrementNoteWitness_ok here (by omega) distinct) resting
    rw [flatten_cons, map_append, nodup_append] at distinct
    have shorter : size + 1 ≤ older.length := by simpa using covered
    have fewer : (chainCommitments base older).length ≤ 2 ^ saplingTreeDepth := by
      rw [chainCommitments, length_append] at fits
      omega
    refine ⟨⟨⟨notes', _⟩, older⟩, ?_,
      rfl, by omega, fun _ => by omega, shorter, distinct.2.1, fewer, rested⟩
    have left : (0 : Int) < ((size + 1 : Nat) : Int) + 1 - 1 := by omega
    simp only [WalletChain.step, decrementNoteWitnesses, ran, assert_eq_ok left, bind, Except.bind]
    simp

theorem Standing.step (standing : Standing hash base first state size)
    (allowed : state.Allowed base event) :
    ∃ next size', state.step hash base first event = .ok next ∧
      Standing hash base first next size' := by
  cases event with
  | add op isMyNote =>
    obtain ⟨next, stepped, kept⟩ := standing.add allowed isMyNote
    exact ⟨next, _, stepped, kept⟩
  | connect vtx =>
    obtain ⟨next, stepped, kept⟩ := standing.connect allowed.1 allowed.2
    exact ⟨next, _, stepped, kept⟩
  | disconnect =>
    have more : 2 ≤ size := by
      have := standing.counter
      have : 1 ≤ state.man.nWitnessCacheSize - 1 := allowed
      omega
    obtain ⟨rest, rfl⟩ := Nat.exists_eq_add_of_le' more
    obtain ⟨next, stepped, kept⟩ := standing.disconnect
    exact ⟨next, _, stepped, kept⟩

theorem WalletChain.Reached.standing (reached : Reached hash base first state) :
    ∃ size, Standing hash base first state size := by
  induction reached with
  | start notes fits fresh =>
    refine ⟨0, rfl, by decide, by simp, by simp, by simp, fits, fun nd member _ => ?_⟩
    exact ⟨.inl (fresh nd member).2, (fresh nd member).1⟩
  | step _ allowed stepped ih =>
    obtain ⟨size, standing⟩ := ih
    obtain ⟨next, size', stepped', kept⟩ := standing.step allowed
    cases stepped.symm.trans stepped'
    exact ⟨size', kept⟩

end Runs

/-- No assertion fails, and every own note that was mined in a connected block has a witness of its
commitment in the tree of the tip; the other notes have none. -/
theorem witnessCache_follows_chain (hash : MerkleHash Uint256) (base : List Uint256) (first : Nat)
    (state : WalletChain) (reached : state.Reached hash base first) :
    (∀ event, state.Allowed base event → ∃ next, state.step hash base first event = .ok next) ∧
      ∀ nd ∈ state.man.notes, nd.isMyNote →
      (∀ vtx ∈ state.blocks, ∀ cmu, (nd.op, cmu) ∈ shieldedOutputs vtx →
          ∃ front older tree, nd.witnesses = front :: older ∧ front.element = .ok cmu ∧
            appendAll hash saplingTreeDepth (chainCommitments base state.blocks) = .ok tree ∧
            front.root hash saplingTreeDepth = tree.root hash saplingTreeDepth []) ∧
        ((∀ vtx ∈ state.blocks, nd.op ∉ (shieldedOutputs vtx).map Prod.fst) →
          nd.witnesses = []) := by
  obtain ⟨size, standing⟩ := reached.standing
  refine ⟨fun event allowed => ?_, fun nd member own => ⟨fun vtx connected cmu output => ?_,
    fun absent => ?_⟩⟩
  · obtain ⟨next, _, stepped, -⟩ := standing.step allowed
    exact ⟨next, stepped⟩
  · have cached := (standing.notes nd member own).cached
    obtain ⟨depth, found⟩ := located_of_mem standing.distinct connected output
    obtain ⟨room, rfl⟩ := Nat.exists_eq_add_of_le' (standing.started (ne_nil_of_mem connected))
    rw [found] at cached
    obtain ⟨tree, built⟩ := appendAll_ok hash standing.fits
    cases blocks : state.blocks with
    | nil => simp [blocks] at connected
    | cons newer older =>
      rw [blocks] at cached
      obtain ⟨front, rest, newest, _, same⟩ := cached_some_iff.mp cached
      rw [← blocks] at newest
      exact ⟨front, rest, tree, same, newest.element, blocks ▸ built, newest.root standing.fits built⟩
  · have cached := (standing.notes nd member own).cached
    rw [located_eq_none absent] at cached
    exact cached

/-- A wallet whose note was mined in the only block. -/
def minedChain : WalletChain where
  man :=
    { notes :=
        [{ op := ⟨7, 0⟩, isMyNote := true, witnesses := [{ tree := { left := some 5 } }]
           witnessHeight := 1 }]
      nWitnessCacheSize := 1 }
  blocks := [[{ hash := 7, nVersion := 3, vin := [], vout := [], sapData := some ⟨0, [], [⟨5⟩], []⟩ }]]

theorem witnessCache_minedChain : minedChain.Reached sampleHash [] 1 ∧ ∃ front older tree,
      appendAll sampleHash saplingTreeDepth (chainCommitments [] minedChain.blocks) = .ok tree ∧
      minedChain.man.notes.map SaplingNoteData.witnesses = [front :: older] ∧ front.element = .ok 5 ∧
      front.root sampleHash saplingTreeDepth = tree.root sampleHash saplingTreeDepth [] := by
  have start : WalletChain.Reached sampleHash [] 1 ⟨⟨[{ op := ⟨7, 0⟩, isMyNote := true }], 0⟩, []⟩ :=
    .start _ (by decide) (by simp)
  have allowed : WalletChain.Allowed [] ⟨⟨[{ op := ⟨7, 0⟩, isMyNote := true }], 0⟩, []⟩
      (.connect (minedChain.blocks.head (by decide))) := ⟨by decide, by decide⟩
  have reached : minedChain.Reached sampleHash [] 1 := .step start allowed rfl
  obtain ⟨front, older, tree, same, element, built, root⟩ :=
    ((witnessCache_follows_chain _ _ _ _ reached).2 _ (mem_singleton.mpr rfl) rfl).1 _
      (mem_singleton.mpr rfl) 5 (by decide)
  exact ⟨reached, front, older, tree, built, by rw [← same]; rfl, element, root⟩

end Deviant.Sapling
