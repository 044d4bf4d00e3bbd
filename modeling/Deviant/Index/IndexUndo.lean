import Deviant.Index.IndexEffects

namespace Deviant.Index

open Coins Consensus Data List Primitives Validation IndexBatch CCoinsViewCache Program
    CAddressUnspentValue
open Option hiding map_map mem_map

/-! What is left in the indexes once a block has been connected and disconnected.

The keys of the address index that connecting writes are those that disconnecting erases; the
entries of the unspent index that are touched come to be those of the coins before the block; and
the spent index keeps what connecting wrote. -/

/-- The keys of the address index that a transaction's activity is recorded under. -/
inductive Activity (coins : COutPoint → Option Coin) (nHeight i : Nat) (tx : CTransaction) :
    CAddressIndexKey → Prop
  | receive {out : CTxOut} {k : Nat} {address : Address} (output : (out, k) ∈ tx.vout.zipIdx)
      (pays : addressOf out.scriptPubKey = some address) :
      Activity coins nHeight i tx ⟨address, nHeight, i, tx.hash, k, false⟩
  | spend {input : CTxIn} {j : Nat} {address : Address} (kind : hasNoCoinInputs tx = false)
      (spends : (input, j) ∈ tx.vin.zipIdx)
      (paid : addressOf (coinOr coins input.prevout).out.scriptPubKey = some address) :
      Activity coins nHeight i tx ⟨address, nHeight, i, tx.hash, j, true⟩

/-- The keys of the unspent index that a transaction changes. -/
inductive Moves (coins : COutPoint → Option Coin) (tx : CTransaction) : CAddressUnspentKey → Prop
  | receive {out : CTxOut} {k : Nat} {address : Address} (output : (out, k) ∈ tx.vout.zipIdx)
      (pays : addressOf out.scriptPubKey = some address) : Moves coins tx ⟨address, ⟨tx.hash, k⟩⟩
  | spend {input : CTxIn} {address : Address} (kind : hasNoCoinInputs tx = false)
      (spends : input ∈ tx.vin) (paid : addressOf (coinOr coins input.prevout).out.scriptPubKey =
        some address) :
      Moves coins tx ⟨address, input.prevout⟩

theorem writes_keys {κ α β : Type} {vect : List (κ × α)} {written : κ × α → β} :
    (vect.map fun entry => (entry.1, written entry)).map Prod.fst = vect.map Prod.fst := by
  rw [map_map]
  rfl

theorem mem_addressed {ε ω : Type} {entries : List ε} {script : ε → CScript}
    {record : ε → Address → ω} {write : ω} :
    write ∈ entries.flatMap (fun entry => ((addressOf (script entry)).map (record entry)).toList) ↔
      ∃ entry ∈ entries, ∃ address, addressOf (script entry) = some address ∧
      record entry address = write := by
  simp

variable {write : CAddressUnspentKey × CAddressUnspentValue}

section

variable {coins : COutPoint → Option Coin} {nHeight i : Nat} {tx : CTransaction} {plain : PlainView}

theorem mem_spends_addressIndex {write : CAddressIndexKey × Int}
    (kind : hasNoCoinInputs tx = false) :
    write ∈ (spendsBatch coins nHeight i tx).addressIndex ↔ ∃ entry ∈ tx.vin.zipIdx, ∃ address,
      addressOf (coinOr coins entry.1.prevout).out.scriptPubKey = some address ∧
        (⟨address, nHeight, i, tx.hash, entry.2, true⟩,
          (coinOr coins entry.1.prevout).out.nValue * -1) = write := by
  rw [spendsBatch, kind, if_neg Bool.false_ne_true, inputsBatch, concat_addressIndex, flatMap_map]
  exact mem_addressed

theorem mem_spends_addressUnspentIndex (kind : hasNoCoinInputs tx = false) :
    write ∈ (spendsBatch coins nHeight i tx).addressUnspentIndex ↔
      ∃ entry ∈ tx.vin.zipIdx, ∃ address,
      addressOf (coinOr coins entry.1.prevout).out.scriptPubKey = some address ∧
        (⟨address, entry.1.prevout⟩, null) = write := by
  rw [spendsBatch, kind, if_neg Bool.false_ne_true, inputsBatch, concat_addressUnspentIndex,
    flatMap_map]
  exact mem_addressed

theorem unspendsBatch_undoRecord (kind : hasNoCoinInputs tx = false) :
    unspendsBatch nHeight i tx.hash (tx.vin.zip (undoRecord tx plain).vprevout).zipIdx.reverse =
      .concat (tx.vin.zipIdx.reverse.map fun entry =>
        unspendBatch nHeight i tx.hash entry.2 entry.1.prevout (coinOr plain.coins entry.1.prevout)) := by
  rw [zip_undoRecord kind, zipIdx_map, ← map_reverse, unspendsBatch, map_map]
  rfl

theorem txBatch_activity {key : CAddressIndexKey} :
    key ∈ (txBatch coins nHeight i tx).addressIndex.map Prod.fst ↔
      Activity coins nHeight i tx key := by
  rw [mem_map, txBatch]
  simp only [append_addressIndex, mem_append, receivesBatch, concat_addressIndex, flatMap_map,
    receiveBatch, mem_addressed]
  constructor
  · rintro ⟨write, spent | ⟨⟨out, k⟩, output, address, pays, rfl⟩, rfl⟩
    · cases kind : hasNoCoinInputs tx with
      | true => simp [spendsBatch, kind] at spent
      | false =>
        obtain ⟨⟨input, j⟩, spends, address, paid, rfl⟩ := (mem_spends_addressIndex kind).mp spent
        exact .spend kind spends paid
    · exact .receive output pays
  · intro activity
    cases activity with
    | receive output pays => exact ⟨_, .inr ⟨_, output, _, pays, rfl⟩, rfl⟩
    | spend kind spends paid =>
      exact ⟨_, .inl ((mem_spends_addressIndex kind).mpr ⟨_, spends, _, paid, rfl⟩), rfl⟩

theorem txBatch_moves {key : CAddressUnspentKey} :
    key ∈ (txBatch coins nHeight i tx).addressUnspentIndex.map Prod.fst ↔ Moves coins tx key := by
  rw [mem_map, txBatch]
  simp only [append_addressUnspentIndex, mem_append, receivesBatch, concat_addressUnspentIndex,
    flatMap_map, receiveBatch, mem_addressed]
  constructor
  · rintro ⟨write, spent | ⟨⟨out, k⟩, output, address, pays, rfl⟩, rfl⟩
    · cases kind : hasNoCoinInputs tx with
      | true => simp [spendsBatch, kind] at spent
      | false =>
        obtain ⟨⟨input, j⟩, spends, address, paid, rfl⟩ :=
          (mem_spends_addressUnspentIndex kind).mp spent
        exact .spend kind (fst_mem_of_mem_zipIdx spends) paid
    · exact .receive output pays
  · intro moves
    cases moves with
    | receive output pays => exact ⟨_, .inr ⟨_, output, _, pays, rfl⟩, rfl⟩
    | @spend input address kind spends paid =>
      obtain ⟨j, found⟩ := mem_iff_getElem?.mp spends
      have indexed : (input, j) ∈ tx.vin.zipIdx := mem_zipIdx_iff_getElem?.mpr found
      exact ⟨_, .inl ((mem_spends_addressUnspentIndex kind).mpr ⟨_, indexed, _, paid, rfl⟩), rfl⟩

/-- A part of a batch that taking back a transaction fills as the transaction does. -/
structure SharedPart {δ : Type} (part : IndexBatch → List δ) : Prop where
  concat : ∀ batches, part (.concat batches) = batches.flatMap part
  append : ∀ first second, part (first ++ second) = part first ++ part second
  unreceive : ∀ nHeight i txhash out k,
    part (unreceiveBatch nHeight i txhash out k) = part (receiveBatch nHeight i txhash out k)
  unspend : ∀ nHeight i txhash j prevout coin,
    part (unspendBatch nHeight i txhash j prevout coin) =
    part (spendBatch nHeight i txhash j prevout coin.out)

theorem sharedPart_addressIndex : SharedPart addressIndex :=
  ⟨concat_addressIndex, fun _ _ => rfl, fun _ _ _ _ _ => rfl, fun _ _ _ _ _ _ => rfl⟩

theorem sharedPart_unspent_keys :
    SharedPart fun batch => batch.addressUnspentIndex.map Prod.fst where
  concat batches := by rw [concat_addressUnspentIndex, map_flatMap]
  append first second := by rw [append_addressUnspentIndex, map_append]
  unreceive _ _ _ out _ := by
    simp only [unreceiveBatch, receiveBatch]
    cases addressOf out.scriptPubKey <;> rfl
  unspend _ _ _ _ _ coin := by
    simp only [unspendBatch, spendBatch]
    cases addressOf coin.out.scriptPubKey <;> rfl

theorem SharedPart.mem_undoTxBatch {δ : Type} {part : IndexBatch → List δ}
    (shared : SharedPart part) {item : δ} :
    item ∈ part (undoTxBatch nHeight i tx (undoRecord tx plain)) ↔
      item ∈ part (txBatch plain.coins nHeight i tx) := by
  have received : item ∈ part (unreceivesBatch nHeight i tx) ↔
      item ∈ part (receivesBatch nHeight i tx) := by
    simp [unreceivesBatch, receivesBatch, shared.concat, shared.unreceive]
  rw [undoTxBatch, txBatch, shared.append, shared.append, mem_append, mem_append, received,
    or_comm, spendsBatch]
  cases kind : hasNoCoinInputs tx with
  | true => rfl
  | false =>
    simp only [Bool.false_eq_true, if_false]
    rw [unspendsBatch_undoRecord kind, inputsBatch]
    simp [shared.concat, shared.unspend]

theorem undoTxBatch_moves {key : CAddressUnspentKey} :
    key ∈ (undoTxBatch nHeight i tx (undoRecord tx plain)).addressUnspentIndex.map Prod.fst ↔
      Moves plain.coins tx key :=
  sharedPart_unspent_keys.mem_undoTxBatch.trans txBatch_moves

def entryAt (coins : COutPoint → Option Coin) (key : CAddressUnspentKey) :
    Option CAddressUnspentValue :=
  (coins key.outpoint).bind fun coin =>
    if addressOf coin.out.scriptPubKey = some key.address then
      some ⟨coin.out.nValue, coin.out.scriptPubKey, coin.nHeight⟩ else none

theorem entryAt_eq_some {key : CAddressUnspentKey} {value : CAddressUnspentValue} :
    entryAt coins key = some value ↔ ∃ coin, coins key.outpoint = some coin ∧
      addressOf coin.out.scriptPubKey = some key.address ∧
      ⟨coin.out.nValue, coin.out.scriptPubKey, coin.nHeight⟩ = value := by
  simp [entryAt, bind_eq_some_iff]

theorem undoTxBatch_written (applies : Applies plain tx) (restorable : Restorable plain)
    (member : write ∈ (undoTxBatch nHeight i tx (undoRecord tx plain)).addressUnspentIndex) :
    write.2.written = entryAt plain.coins write.1 := by
  rcases mem_append.mp member with received | spent
  · rw [unreceivesBatch, concat_addressUnspentIndex, flatMap_map] at received
    obtain ⟨⟨out, k⟩, -, address, -, rfl⟩ := mem_addressed.mp received
    rw [entryAt, applies.absent k]
    rfl
  · cases kind : hasNoCoinInputs tx with
    | true => simp [kind] at spent
    | false =>
      rw [kind, if_neg Bool.false_ne_true, unspendsBatch_undoRecord kind,
        concat_addressUnspentIndex, flatMap_map] at spent
      obtain ⟨⟨input, j⟩, spends, address, paid, rfl⟩ := mem_addressed.mp spent
      have inVin : input ∈ tx.vin := fst_mem_of_mem_zipIdx (mem_reverse.mp spends)
      obtain ⟨coin, found⟩ := isSome_iff_exists.mp (applies.present kind input inVin)
      have isCoin : coinOr plain.coins input.prevout = coin := by
        rw [coinOr, found]
        rfl
      have unspent : coin.isSpent = false := restorable.unspent _ coin found
      simp only [isCoin] at paid ⊢
      rw [entryAt_eq_some.mpr ⟨coin, found, paid, rfl⟩, written]
      exact if_neg (Bool.eq_false_iff.mp unspent)

theorem undoTxBatch_settled (applies : Applies plain tx) (restorable : Restorable plain)
    {map : CAddressUnspentKey → Option CAddressUnspentValue} {key : CAddressUnspentKey}
    (moves : Moves plain.coins tx key) :
    applyWrites map ((undoTxBatch nHeight i tx (undoRecord tx plain)).addressUnspentIndex.map
      fun entry => (entry.1, entry.2.written)) key = entryAt plain.coins key := by
  refine applyWrites_named (entryAt plain.coins) (fun write member => ?_) ?_
  · obtain ⟨entry, found, rfl⟩ := mem_map.mp member
    exact undoTxBatch_written applies restorable found
  · rw [map_map]
    exact undoTxBatch_moves.mpr moves

theorem entryAt_connected {env : Env} (applies : Applies plain tx) {key : CAddressUnspentKey}
    (still : ¬ Moves plain.coins tx key) :
    entryAt (connected env nHeight tx plain).coins key = entryAt plain.coins key := by
  refine Option.ext fun value => ?_
  rw [entryAt_eq_some, entryAt_eq_some]
  constructor
  · rintro ⟨coin, found, pays, fits⟩
    rcases connected_coin found with before | ⟨out, output, own, -, rfl⟩
    · exact ⟨coin, before, pays, fits⟩
    · obtain ⟨address, ⟨hash, n⟩⟩ := key
      obtain rfl : hash = tx.hash := own
      exact absurd (.receive output pays) still
  · rintro ⟨coin, found, paid, fits⟩
    refine ⟨coin, ?_, paid, fits⟩
    rw [← found]
    refine applyWrites_untouched fun touched => ?_
    obtain ⟨write, member, same⟩ := mem_map.mp touched
    rcases mem_append.mp member with spent | created
    · cases kind : hasNoCoinInputs tx with
      | true => simp [txInputWrites, kind] at spent
      | false =>
        simp only [txInputWrites, kind, Bool.false_eq_true, if_false, inputWrites, mem_map] at spent
        obtain ⟨input, inVin, rfl⟩ := spent
        obtain ⟨address, outpoint⟩ := key
        obtain rfl : input.prevout = outpoint := same
        refine still (.spend kind inVin ?_)
        rw [coinOr, found]
        exact paid
    · have own : key.outpoint.hash = tx.hash := by
        rw [← same]
        exact outputWrites_hash (mem_map_of_mem created)
      have absent := applies.absent key.outpoint.n
      rw [← own, found] at absent
      cases absent

end

def undoneFrom (env : Env) (nHeight i : Nat) (txs : List CTransaction) (plain : PlainView) :
    List ((CTransaction × CTxUndo) × Nat) :=
  ((txs.zip (undoRecords env nHeight txs plain)).zipIdx i).reverse

section

variable {env : Env} {nHeight i : Nat} {tx : CTransaction} {rest txs : List CTransaction}
    {plain : PlainView}

theorem undoTxsBatch_cons {δ : Type} {part : IndexBatch → List δ}
    (concat : ∀ batches, part (.concat batches) = batches.flatMap part) :
    part (undoTxsBatch nHeight (undoneFrom env nHeight i (tx :: rest) plain)) =
      part (undoTxsBatch nHeight
        (undoneFrom env nHeight (i + 1) rest (connected env nHeight tx plain))) ++
        part (undoTxBatch nHeight i tx (undoRecord tx plain)) := by
  simp [undoTxsBatch, concat, undoneFrom, undoRecords]

theorem SharedPart.mem_undoTxsBatch {δ : Type} {part : IndexBatch → List δ}
    (shared : SharedPart part) {item : δ} :
    item ∈ part (undoTxsBatch nHeight (undoneFrom env nHeight i txs plain)) ↔
      item ∈ part (txsBatch env nHeight i txs plain) := by
  induction txs generalizing i plain with
  | nil => rfl
  | cons tx rest ih =>
    rw [undoTxsBatch_cons shared.concat, txsBatch, shared.append, mem_append, mem_append, ih,
      shared.mem_undoTxBatch, or_comm]

end

section

variable [PedersenHash] {Known : SaplingMerkleTree → Prop} [DecidablePred Known]
  {env : Env} {block : CBlock} {pindex pprev : CBlockIndex} {isFirst : Bool}
  {totals totals' : BlockTotals} {plain after : PlainView} {txs : List CTransaction}

theorem undoTxsBatch_settled
    (loop : TxsConnected Known env block pindex pprev isFirst txs totals plain totals' after)
    (restorable : Restorable plain) (valid : ∀ tx ∈ txs, ∀ out ∈ tx.vout, out.isNull = false)
    (i : Nat) (map : CAddressUnspentKey → Option CAddressUnspentValue) {key : CAddressUnspentKey}
    (named : key ∈
      (undoTxsBatch pindex.nHeight
        (undoneFrom env pindex.nHeight i txs plain)).addressUnspentIndex.map Prod.fst) :
    updateAddressUnspentIndex map
        (undoTxsBatch pindex.nHeight
          (undoneFrom env pindex.nHeight i txs plain)).addressUnspentIndex key =
      entryAt plain.coins key := by
  induction loop generalizing i with
  | nil => cases named
  | @cons isFirst tx later totals totals' totals'' plain middle after first _ ih =>
    have laterRestorable : Restorable middle :=
      first.effect ▸ restorable.connected (valid tx mem_cons_self)
    rw [undoTxsBatch_cons concat_addressUnspentIndex, map_append, mem_append] at named
    rw [undoTxsBatch_cons concat_addressUnspentIndex, updateAddressUnspentIndex, map_append,
      applyWrites_append]
    by_cases here : Moves plain.coins tx key
    · exact undoTxBatch_settled first.applies restorable here
    · have unmoved :
          key ∉ ((undoTxBatch pindex.nHeight i tx (undoRecord tx plain)).addressUnspentIndex.map
          fun entry => (entry.1, entry.2.written)).map Prod.fst := by
        rw [map_map]
        exact fun touched => here (undoTxBatch_moves.mp touched)
      rw [applyWrites_untouched unmoved]
      have before := named.resolve_right fun touched => here (undoTxBatch_moves.mp touched)
      rw [← first.effect] at before ⊢
      refine (ih laterRestorable (forall_mem_cons.mp valid).2 (i + 1) before).trans ?_
      rw [first.effect]
      exact entryAt_connected first.applies here

end

/-- The coin a transaction of a block finds at an output: one from before the block, or one of the
block's own. -/
def spentCoin (coins : COutPoint → Option Coin) (nHeight : Nat) (txs : List CTransaction)
    (outpoint : COutPoint) :
    Option Coin :=
  (coins outpoint).or ((txs.find? fun tx => decide (tx.hash = outpoint.hash)).bind fun tx =>
    tx.vout[outpoint.n]?.map (outputCoin tx nHeight))

variable {coins : COutPoint → Option Coin}

section

variable {env : Env} {nHeight i : Nat} {tx : CTransaction} {rest txs : List CTransaction}
  {plain : PlainView}
  {outpoint : COutPoint} {coin : Coin}

theorem spentCoin_of_some (found : coins outpoint = some coin) :
    spentCoin coins nHeight txs outpoint = some coin := by
  rw [spentCoin, found, some_or]

theorem maker_found {other : CTransaction}
    (picked : (txs.find? fun tx => decide (tx.hash = outpoint.hash)) = some other) :
    other ∈ txs ∧ other.hash = outpoint.hash := by
  have same := List.find?_some picked
  exact ⟨mem_of_find?_eq_some picked, by simpa using same⟩

theorem spentCoin_cons (unique : ((tx :: rest).map CTransaction.hash).Nodup)
    (absent : ∀ other ∈ tx :: rest, ∀ n, plain.coins ⟨other.hash, n⟩ = none)
    (found : spentCoin (connected env nHeight tx plain).coins nHeight rest outpoint = some coin) :
    spentCoin plain.coins nHeight (tx :: rest) outpoint = some coin := by
  have elsewhere : ∀ other ∈ tx :: rest, other.hash = outpoint.hash →
      plain.coins outpoint = none := by
    intro other member same
    have none := absent other member outpoint.n
    rwa [same] at none
  cases now : (connected env nHeight tx plain).coins outpoint with
  | some seen =>
    rw [spentCoin_of_some now] at found
    obtain rfl : seen = coin := Option.some.inj found
    rcases connected_coin now with before | ⟨out, output, own, -, rfl⟩
    · exact spentCoin_of_some before
    · have isOutput : tx.vout[outpoint.n]? = some out := mem_zipIdx_iff_getElem?.mp output
      rw [spentCoin, elsewhere tx mem_cons_self own.symm, none_or, List.find?_cons]
      simp [own, isOutput]
  | none =>
    rw [spentCoin, now, none_or, bind_eq_some_iff] at found
    obtain ⟨other, picked, made⟩ := found
    obtain ⟨member, same⟩ := maker_found picked
    have differs : ¬ tx.hash = outpoint.hash := by
      intro own
      refine (nodup_cons.mp unique).1 ?_
      rw [own, ← same]
      exact mem_map_of_mem member
    rw [spentCoin, elsewhere other (mem_cons_of_mem _ member) same, none_or,
      List.find?_cons_of_neg (by simpa using differs), picked, bind_some, made]

theorem txBatch_congr {coins' : COutPoint → Option Coin}
    (agree : hasNoCoinInputs tx = false → ∀ input ∈ tx.vin,
      coins input.prevout = coins' input.prevout) :
    txBatch coins nHeight i tx = txBatch coins' nHeight i tx := by
  refine congrArg (· ++ receivesBatch nHeight i tx) ?_
  unfold spendsBatch
  split
  · rfl
  next kind =>
    refine congrArg IndexBatch.concat (map_congr_left fun entry member => ?_)
    have same := agree (Bool.eq_false_iff.mpr kind) entry.1 (fst_mem_of_mem_zipIdx member)
    simp [coinOr, same]

def spentOutpoints (txs : List CTransaction) : List COutPoint :=
  txs.flatMap fun tx => if hasNoCoinInputs tx then [] else tx.vin.map CTxIn.prevout

theorem receives_spentIndex : (receivesBatch nHeight i tx).spentIndex = [] := by
  rw [receivesBatch, concat_spentIndex, flatMap_map, flatMap_eq_nil_iff]
  exact fun _ _ => rfl

theorem txBatch_spentIndex_keys : (txBatch coins nHeight i tx).spentIndex.map Prod.fst =
      if hasNoCoinInputs tx then [] else tx.vin.map CTxIn.prevout := by
  rw [txBatch, append_spentIndex, receives_spentIndex, append_nil, spendsBatch]
  split
  · rfl
  · rw [inputsBatch, concat_spentIndex, flatMap_map, map_flatMap]
    change (tx.vin.zipIdx.flatMap fun entry => [entry.1.prevout]) = _
    rw [← map_eq_flatMap]
    conv_rhs => rw [← zipIdx_map_fst 0 tx.vin, map_map]
    rfl

theorem mem_txBatch_spentIndex {write : COutPoint × CSpentIndexValue} :
    write ∈ (txBatch coins nHeight i tx).spentIndex ↔ hasNoCoinInputs tx = false ∧
      ∃ input ∈ tx.vin.zipIdx,
      (input.1.prevout, spentValue nHeight tx.hash input.2 (coinOr coins input.1.prevout).out) =
      write := by
  rw [txBatch, append_spentIndex, receives_spentIndex, append_nil, spendsBatch]
  cases hasNoCoinInputs tx with
  | true => simp
  | false =>
    simp only [Bool.false_eq_true, if_false, true_and, inputsBatch, concat_spentIndex, flatMap_map,
      mem_flatMap, spendBatch, mem_singleton]
    exact ⟨fun ⟨input, spends, same⟩ => ⟨input, spends, same.symm⟩,
      fun ⟨input, spends, same⟩ => ⟨input, spends, same.symm⟩⟩

theorem txsBatch_spentIndex_keys :
    (txsBatch env nHeight i txs plain).spentIndex.map Prod.fst = spentOutpoints txs := by
  induction txs generalizing i plain with
  | nil => rfl
  | cons tx rest ih =>
    rw [txsBatch, append_spentIndex, map_append, txBatch_spentIndex_keys, ih]
    rfl

end

section

variable [PedersenHash] {Known : SaplingMerkleTree → Prop} [DecidablePred Known]
  {env : Env} {block : CBlock} {pindex pprev : CBlockIndex} {isFirst : Bool}
  {totals totals' : BlockTotals} {plain after : PlainView} {txs : List CTransaction}

section

variable (loop : TxsConnected Known env block pindex pprev isFirst txs totals plain totals' after)

include loop

variable (unique : (txs.map CTransaction.hash).Nodup)

include unique

variable (absent : ∀ tx ∈ txs, ∀ n, plain.coins ⟨tx.hash, n⟩ = none)

include absent

theorem spentCoin_isSome :
    ∀ outpoint ∈ spentOutpoints txs, ∃ coin,
      spentCoin plain.coins pindex.nHeight txs outpoint = some coin := by
  induction loop with
  | nil => exact fun outpoint member => absurd member not_mem_nil
  | @cons isFirst tx later totals totals' totals'' plain middle after first _ ih =>
    intro outpoint member
    rw [spentOutpoints, flatMap_cons, mem_append] at member
    rcases member with here | rest
    · cases kind : hasNoCoinInputs tx with
      | true => simp [kind] at here
      | false =>
        rw [kind, if_neg Bool.false_ne_true] at here
        obtain ⟨input, inVin, rfl⟩ := mem_map.mp here
        obtain ⟨coin, found⟩ := isSome_iff_exists.mp (first.applies.present kind input inVin)
        exact ⟨coin, spentCoin_of_some found⟩
    · obtain ⟨coin, found⟩ := ih (nodup_cons.mp unique).2
        (first.effect ▸ absent_after env pindex.nHeight unique absent) outpoint rest
      rw [first.effect] at found
      exact ⟨coin, spentCoin_cons unique absent found⟩

theorem txsBatch_eq :
    txsBatch env pindex.nHeight i txs plain = .concat ((txs.zipIdx i).map fun entry =>
      txBatch (spentCoin plain.coins pindex.nHeight txs) pindex.nHeight entry.2 entry.1) := by
  induction loop generalizing i with
  | nil => rfl
  | @cons isFirst tx later totals totals' totals'' plain middle after first loop ih =>
    have laterAbsent := absent_after env pindex.nHeight unique absent
    rw [← first.effect] at laterAbsent
    rw [txsBatch, ← first.effect, ih (nodup_cons.mp unique).2 laterAbsent, zipIdx_cons, map_cons,
      IndexBatch.concat_cons]
    refine congrArg₂ (· ++ ·) (txBatch_congr fun kind input inVin => ?_)
      (congrArg IndexBatch.concat (map_congr_left fun entry member => txBatch_congr
        fun kind input inVin => ?_))
    · obtain ⟨coin, found⟩ := isSome_iff_exists.mp (first.applies.present kind input inVin)
      rw [found, spentCoin_of_some found]
    · have spent : input.prevout ∈ spentOutpoints later := by
        refine mem_flatMap.mpr ⟨entry.1, fst_mem_of_mem_zipIdx member, ?_⟩
        rw [kind, if_neg Bool.false_ne_true]
        exact mem_map_of_mem inVin
      obtain ⟨coin, found⟩ := spentCoin_isSome loop (nodup_cons.mp unique).2 laterAbsent _ spent
      rw [found]
      rw [first.effect] at found
      exact (spentCoin_cons unique absent found).symm

theorem spentOutpoints_nodup : (spentOutpoints txs).Nodup := by
  induction loop with
  | nil => exact nodup_nil
  | @cons isFirst tx later totals totals' totals'' plain middle after first loop ih =>
    have laterAbsent := absent_after env pindex.nHeight unique absent
    rw [← first.effect] at laterAbsent
    have rest := ih (nodup_cons.mp unique).2 laterAbsent
    rw [spentOutpoints, flatMap_cons]
    cases kind : hasNoCoinInputs tx with
    | true => exact rest
    | false =>
      refine List.Nodup.append (first.applies.distinct kind) rest fun outpoint here again => ?_
      obtain ⟨input, inVin, rfl⟩ := mem_map.mp here
      obtain ⟨coin, before⟩ := isSome_iff_exists.mp (first.applies.present kind input inVin)
      obtain ⟨seen, found⟩ := spentCoin_isSome loop (nodup_cons.mp unique).2 laterAbsent _ again
      have gone : middle.coins input.prevout = none :=
        first.effect ▸ connected_spent first.applies kind inVin
      rw [spentCoin, gone, none_or, bind_eq_some_iff] at found
      obtain ⟨other, picked, -⟩ := found
      obtain ⟨member, same⟩ := maker_found picked
      have none := absent other (mem_cons_of_mem _ member) input.prevout.n
      rw [same] at none
      exact absurd (before.symm.trans none) (by simp)

end

/-- The indexes before a block are such that disconnecting it restores them: nothing is recorded
under the keys of its activity, the entries of the outputs it makes and spends are those of the
coins, and the spent index already says what connecting the block writes. -/
structure IndexesFit (indexes : Indexes) (coins : COutPoint → Option Coin) (nHeight : Nat)
    (vtx : List CTransaction) :
    Prop where
  activity : ∀ entry ∈ vtx.zipIdx, ∀ key,
    Activity (spentCoin coins nHeight vtx) nHeight entry.2 entry.1 key →
    indexes.addressIndex key = none
  unspent : ∀ tx ∈ vtx, ∀ key, Moves (spentCoin coins nHeight vtx) tx key →
    indexes.addressUnspentIndex key = entryAt coins key
  spent : ∀ entry ∈ vtx.zipIdx, hasNoCoinInputs entry.1 = false → ∀ input ∈ entry.1.vin.zipIdx,
    indexes.spentIndex input.1.prevout =
      (spentValue nHeight entry.1.hash input.2
        (coinOr (spentCoin coins nHeight vtx) input.1.prevout).out).written

variable {indexes : Indexes}
  (loop : TxsConnected Known env block pindex pprev isFirst txs totals plain totals' after)
  (unique : (txs.map CTransaction.hash).Nodup) (absent : ∀ tx ∈ txs, ∀ n,
    plain.coins ⟨tx.hash, n⟩ = none)

include loop unique absent

theorem mem_txsBatch_activity {key : CAddressIndexKey} :
    key ∈ (txsBatch env pindex.nHeight 0 txs plain).addressIndex.map Prod.fst ↔ ∃ entry ∈ txs.zipIdx,
      Activity (spentCoin plain.coins pindex.nHeight txs) pindex.nHeight entry.2 entry.1 key := by
  rw [txsBatch_eq loop unique absent, concat_addressIndex, flatMap_map, map_flatMap]
  simp [txBatch_activity]

theorem mem_txsBatch_moves {key : CAddressUnspentKey} :
    key ∈ (txsBatch env pindex.nHeight 0 txs plain).addressUnspentIndex.map Prod.fst ↔ ∃ tx ∈ txs,
      Moves (spentCoin plain.coins pindex.nHeight txs) tx key := by
  rw [txsBatch_eq loop unique absent, concat_addressUnspentIndex, flatMap_map, map_flatMap]
  simp only [mem_flatMap, txBatch_moves]
  constructor
  · rintro ⟨entry, member, moves⟩
    exact ⟨entry.1, fst_mem_of_mem_zipIdx member, moves⟩
  · rintro ⟨tx, member, moves⟩
    obtain ⟨i, found⟩ := mem_iff_getElem?.mp member
    exact ⟨(tx, i), mem_zipIdx_iff_getElem?.mpr found, moves⟩

theorem mem_txsBatch_spentIndex {write : COutPoint × CSpentIndexValue} :
    write ∈ (txsBatch env pindex.nHeight 0 txs plain).spentIndex ↔
      ∃ entry ∈ txs.zipIdx, hasNoCoinInputs entry.1 = false ∧ ∃ input ∈ entry.1.vin.zipIdx,
        (input.1.prevout, spentValue pindex.nHeight entry.1.hash input.2
          (coinOr (spentCoin plain.coins pindex.nHeight txs) input.1.prevout).out) = write := by
  rw [txsBatch_eq loop unique absent, concat_spentIndex, flatMap_map]
  simp [mem_txBatch_spentIndex]

theorem addressIndex_restored_iff : eraseAddressIndex
        (writeAddressIndex indexes.addressIndex
          (txsBatch env pindex.nHeight 0 txs plain).addressIndex)
        (undoTxsBatch pindex.nHeight (undoneFrom env pindex.nHeight 0 txs plain)).addressIndex =
          indexes.addressIndex ↔
    ∀ entry ∈ txs.zipIdx, ∀ key,
      Activity (spentCoin plain.coins pindex.nHeight txs) pindex.nHeight entry.2 entry.1 key →
        indexes.addressIndex key = none := by
  have sameKeys : ∀ key, key ∈ (undoTxsBatch pindex.nHeight
      (undoneFrom env pindex.nHeight 0 txs plain)).addressIndex.map Prod.fst ↔
      key ∈ (txsBatch env pindex.nHeight 0 txs plain).addressIndex.map Prod.fst := by
    intro key
    simp [sharedPart_addressIndex.mem_undoTxsBatch]
  unfold eraseAddressIndex writeAddressIndex
  rw [applyWrites_undone_iff fun _ => none]
  · simp only [writes_keys, sameKeys, mem_txsBatch_activity loop unique absent]
    exact ⟨fun fits entry member key activity => fits key ⟨entry, member, activity⟩,
      fun fits key ⟨entry, member, activity⟩ => fits entry member key activity⟩
  · intro key named
    rw [writes_keys] at named ⊢
    exact (sameKeys key).mpr named
  · refine fun map key named => applyWrites_named (fun _ => none) (fun write member => ?_) named
    obtain ⟨entry, -, rfl⟩ := mem_map.mp member
    rfl

theorem addressUnspentIndex_restored_iff (restorable : Restorable plain)
    (valid : ∀ tx ∈ txs, ∀ out ∈ tx.vout, out.isNull = false) :
    updateAddressUnspentIndex (updateAddressUnspentIndex indexes.addressUnspentIndex
          (txsBatch env pindex.nHeight 0 txs plain).addressUnspentIndex)
        (undoTxsBatch pindex.nHeight
          (undoneFrom env pindex.nHeight 0 txs plain)).addressUnspentIndex =
      indexes.addressUnspentIndex ↔ ∀ tx ∈ txs, ∀ key,
      Moves (spentCoin plain.coins pindex.nHeight txs) tx key →
      indexes.addressUnspentIndex key = entryAt plain.coins key := by
  have settled := undoTxsBatch_settled loop restorable valid 0
  unfold updateAddressUnspentIndex at settled ⊢
  rw [applyWrites_undone_iff (entryAt plain.coins)]
  · simp only [writes_keys, sharedPart_unspent_keys.mem_undoTxsBatch,
      mem_txsBatch_moves loop unique absent]
    exact ⟨fun fits tx member key moves => fits key ⟨tx, member, moves⟩,
      fun fits key ⟨tx, member, moves⟩ => fits tx member key moves⟩
  · intro key named
    rw [writes_keys] at named ⊢
    exact sharedPart_unspent_keys.mem_undoTxsBatch.mpr named
  · intro map key named
    rw [writes_keys] at named
    exact settled map named

theorem spentIndex_restored_iff :
    updateSpentIndex indexes.spentIndex (txsBatch env pindex.nHeight 0 txs plain).spentIndex =
      indexes.spentIndex ↔
    ∀ entry ∈ txs.zipIdx, hasNoCoinInputs entry.1 = false → ∀ input ∈ entry.1.vin.zipIdx,
      indexes.spentIndex input.1.prevout = (spentValue pindex.nHeight entry.1.hash input.2
        (coinOr (spentCoin plain.coins pindex.nHeight txs) input.1.prevout).out).written := by
  unfold updateSpentIndex
  rw [applyWrites_eq_self_iff]
  · constructor
    · intro fits entry member kind input spends
      exact fits _ (mem_map_of_mem
        ((mem_txsBatch_spentIndex loop unique absent).mpr ⟨entry, member, kind, input, spends, rfl⟩))
    · intro fits write written
      obtain ⟨value, member, rfl⟩ := mem_map.mp written
      obtain ⟨entry, inBlock, kind, input, spends, rfl⟩ :=
        (mem_txsBatch_spentIndex loop unique absent).mp member
      exact fits entry inBlock kind input spends
  · rw [writes_keys, txsBatch_spentIndex_keys]
    exact spentOutpoints_nodup loop unique absent

theorem restored_iff_fit (restorable : Restorable plain)
    (valid : ∀ tx ∈ txs, ∀ out ∈ tx.vout, out.isNull = false) :
    (indexes.connect (txsBatch env pindex.nHeight 0 txs plain)).disconnect
        (undoBlockBatch env pindex.nHeight txs plain) = indexes ↔
      IndexesFit indexes plain.coins pindex.nHeight txs := by
  rw [Indexes.ext_iff]
  refine (and_congr (addressIndex_restored_iff loop unique absent)
    (and_congr (addressUnspentIndex_restored_iff loop unique absent restorable valid)
      (spentIndex_restored_iff loop unique absent))).trans ?_
  exact ⟨fun ⟨activity, unspent, spent⟩ => ⟨activity, unspent, spent⟩,
    fun fit => ⟨fit.activity, fit.unspent, fit.spent⟩⟩

end

section

variable {σ : Type} [BaseView σ] [PedersenHash] {env : Env} {block : CBlock}
  {pindex pprev : CBlockIndex}
  {cache after : CCoinsViewCache σ} {blockundo : CBlockUndo} {indexes connectedIndexes : Indexes}

/-- Disconnecting a block right after connecting it gives the indexes back just where they fit the
block. -/
theorem disconnectBlock_restores_indexes_iff (rooted : ∀ tree, SaplingMerkleTree.root tree ≠ 0)
    (viewAt : ViewAt env.params pprev cache.view) (new : NewBlock block cache.view.coinAt)
    (erasable : ∀ tx ∈ block.vtx, Erasable env.zerocoin tx)
    (dated : ∀ tx ∈ block.vtx, ∀ input ∈ tx.vin, ∀ coin,
      cache.view.coinAt input.prevout = some coin → coin.nHeight > 0)
    (notGenesis : block.hash ≠ env.params.hashGenesisBlock)
    (child : pindex.nHeight = pprev.nHeight + 1)
    (connected : run step (connectBlockIndexed env block pindex pprev indexes) cache =
      .ok ((blockundo, connectedIndexes), after)) : ∃ result restored final, run step
        (disconnectBlockIndexed env block pindex pprev (some blockundo) connectedIndexes) after =
        .ok ((result, restored), final) ∧ result ≠ .failed ∧
      (restored = indexes ↔ IndexesFit indexes cache.view.coinAt pindex.nHeight block.vtx) := by
  have stands : StandsFor (fun _ => True) cache.view.plain cache := ⟨viewAt.ok, rfl⟩
  have spec : Wp (PlainView.step fun _ => True) (connectBlockIndexed env block pindex pprev indexes)
      cache.view.plain (fun result after =>
        BlockConnected (fun _ => True) env block pindex pprev cache.view.plain result.1 after ∧
        result.2 = indexes.connect (txsBatch env pindex.nHeight 0 block.vtx cache.view.plain))
      (· ≠ Failure.unspecified) :=
    connectBlockIndexed_wp (fun _ => trivial) rooted notGenesis new.unique new.absent
  rcases cache_refines_plain.of_run_ok stands connected with ⟨plainAfter, ran, related⟩ | ⟨reason,
    ran, unspecified⟩
  · obtain ⟨blockConnected, isConnected⟩ := spec.post ran
    dsimp only at blockConnected isConnected
    obtain ⟨saplingTree, totals, middle, body⟩ := blockConnected.body
    have restorable := restorable_of_viewAt viewAt
    have bestNotNull : cache.view.plain.bestAnchor ≠ 0 :=
      bestAnchor_ne_zero viewAt.ok.sapling rooted body.stored
    obtain ⟨result, plainFinal, undone, notFailed⟩ :=
      disconnectBlockIndexed_run blockConnected restorable (fun tx member input inVin coin found =>
        Nat.ne_of_gt (dated tx member input inVin coin found)) (by omega)
      erasable viewAt.anchored bestNotNull
    obtain ⟨final, cacheRan, -⟩ := cache_refines_plain.run_ok related undone
    refine ⟨result, _, final, cacheRan, notFailed, ?_⟩
    rw [isConnected]
    exact restored_iff_fit body.loop new.unique new.absent restorable blockConnected.valid
  · exact absurd unspecified (spec.failed ran)

end

section

open TxDB

local instance : PedersenHash := ⟨fun tree => BitVec.ofNat 256 (tree.length % 2 + 1)⟩

private def indexedParent :
    CBlockIndex := { hash := 1, nHeight := 1, hashFinalSaplingRoot := 0, notNull := one_ne_null }

private def indexedIndex :
    CBlockIndex := { hash := 2, nHeight := 2, hashFinalSaplingRoot := 0, notNull := two_ne_null }

private def paysKey (nValue : Int) : CTxOut where
  nValue := nValue
  scriptPubKey := [0x76, 0xa9, 0x14] ++ List.replicate 20 7 ++ [0x88, 0xac]

private def indexedSpend : CTransaction where
  hash := 11
  nVersion := 1
  vin := [{ prevout := ⟨9, 0⟩, scriptSig := [], nSequence := 0 }]
  vout := [paysKey 400]

/-- A block whose second transaction spends a coin of an address, to the same address. -/
private def indexedBlock : CBlock where
  hash := 2
  hashPrevBlock := 1
  hashMerkleRoot := 0
  hashFinalSaplingRoot := 0
  nTime := 1600000000
  vtx := [{ hash := 10, nVersion := 1
            vin := [{ prevout := ⟨0, 2 ^ 32 - 1⟩, scriptSig := [0x52, 0x00], nSequence := 0 }]
            vout := [paysKey (21400 * coinUnit)] }, indexedSpend]

private def indexedEnv : Env :=
  let env := Env.trusting mainParams
  { env with node := { env.node with
    tip := some (1, 1)
    blockHeight := fun hash => if hash = 1 then some 1 else none } }

private def indexedCoin : Coin := { out := paysKey 500, nHeight := 1 }

private def indexedDB : CCoinsViewDB where
  coins := (∅ : Table COutPoint Coin).insert ⟨9, 0⟩ indexedCoin
  bestBlock := some 1

private def indexedCache : CCoinsViewCache CCoinsViewDB where
  own := {}
  below := .base indexedDB

private def indexedCoins (outpoint : COutPoint) :
    Option Coin := if outpoint = ⟨9, 0⟩ then some indexedCoin else none

private theorem indexedCache_coinAt :
    indexedCache.view.coinAt = indexedCoins := funext (oneCoinCache_coinAt rfl)

private theorem indexedCoins_eq_some {outpoint : COutPoint} {coin : Coin}
    (found : indexedCoins outpoint = some coin) :
    coin = indexedCoin := by
  unfold indexedCoins at found
  split at found
  · exact (Option.some.inj found).symm
  · cases found

private theorem indexedCache_viewAt :
    ViewAt mainParams indexedParent indexedCache.view := oneCoinCache_viewAt rfl rfl rfl

private theorem indexedBlock_new : NewBlock indexedBlock indexedCache.view.coinAt where
  unique := by decide
  absent tx member n := by
    refine oneCoinCache_absent rfl ?_
    revert tx
    decide

/-- The indexes that fit the coins before the block, with what is said of the spent output. -/
private def indexesWith (spent : Option CSpentIndexValue) : Indexes where
  addressIndex _ := none
  addressUnspentIndex := entryAt indexedCoins
  spentIndex outpoint := if outpoint = ⟨9, 0⟩ then spent else none

private def indexedValue : CSpentIndexValue := ⟨11, 0, 2, 500, ⟨1, List.replicate 20 7⟩⟩

private theorem indexedBlock_fit :
    IndexesFit (indexesWith (some indexedValue)) indexedCache.view.coinAt 2 indexedBlock.vtx where
  activity _ _ _ _ := rfl
  unspent _ _ _ _ := by
    rw [indexedCache_coinAt]
    rfl
  spent := by
    decide

theorem disconnectBlock_restores_indexes_iff_indexedBlock :
    ∃ blockundo connectedIndexes after result final,
      run step (connectBlockIndexed indexedEnv indexedBlock indexedIndex indexedParent
        (indexesWith (some indexedValue))) indexedCache =
        .ok ((blockundo, connectedIndexes), after) ∧
      run step (disconnectBlockIndexed indexedEnv indexedBlock indexedIndex indexedParent
        (some blockundo) connectedIndexes) after =
        .ok ((result, indexesWith (some indexedValue)), final) := by
  have connects : (run step (connectBlockIndexed indexedEnv indexedBlock indexedIndex
      indexedParent (indexesWith (some indexedValue))) indexedCache).toOption.isSome = true := by
    decide
  cases connected : run step (connectBlockIndexed indexedEnv indexedBlock indexedIndex
      indexedParent (indexesWith (some indexedValue))) indexedCache with
  | error reason =>
    rw [connected] at connects
    cases connects
  | ok outcome =>
    obtain ⟨⟨blockundo, connectedIndexes⟩, after⟩ := outcome
    obtain ⟨result, restored, final, disconnected, -, iff⟩ := disconnectBlock_restores_indexes_iff
      (fun _ => ofNat_parity_ne_zero) indexedCache_viewAt indexedBlock_new (by decide)
      (fun tx _ input _ coin found => by
        rw [indexedCache_coinAt] at found
        rw [indexedCoins_eq_some found]
        decide)
      (by decide) rfl connected
    exact ⟨blockundo, connectedIndexes, after, result, final, rfl,
      iff.mpr indexedBlock_fit ▸ disconnected⟩

/-- What the spent index says of the output once the block is connected and disconnected. -/
private def spentLeft (indexes : Indexes) : Option (DisconnectResult × Option CSpentIndexValue) :=
  match run step (connectBlockIndexed indexedEnv indexedBlock indexedIndex indexedParent indexes)
    indexedCache with
  | .error _ => none
  | .ok ((blockundo, connectedIndexes), after) =>
    match run step (disconnectBlockIndexed indexedEnv indexedBlock indexedIndex indexedParent
        (some blockundo) connectedIndexes) after with
    | .error _ => none
    | .ok ((result, restored), _) => some (result, restored.spentIndex ⟨9, 0⟩)

/-- A spent index that did not know the output still says, after the block is taken back, who spent
it. -/
theorem spentIndex_stale_after_disconnectBlock :
    ViewAt mainParams indexedParent indexedCache.view ∧
      NewBlock indexedBlock indexedCache.view.coinAt ∧ (indexesWith none).spentIndex ⟨9, 0⟩ = none ∧
      spentLeft (indexesWith none) = some (.ok, some indexedValue) :=
  ⟨indexedCache_viewAt, indexedBlock_new, rfl, by decide⟩

end

end Deviant.Index
