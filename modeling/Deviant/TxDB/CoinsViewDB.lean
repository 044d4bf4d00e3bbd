import Deviant.Coins.SaplingFlush
import Deviant.Data.KeyedWrites

namespace Deviant.TxDB

open Coins Data Option Primitives SaplingMerkleTree
open List hiding after

/-! The chain state database.  `BatchWrite` turns a cache's entries into atomic
batches of key writes; the tip markers tell a later start how far it came. -/

structure CCoinsViewDB where
  coins : Table COutPoint Coin := ∅
  bestBlock : Option Uint256 := none
  headBlocks : Option (List Uint256) := none
  saplingAnchors : Table Uint256 SaplingMerkleTree := ∅
  saplingNullifiers : Table Uint256 Bool := ∅
  bestSaplingAnchor : Option Uint256 := none

/-- One key erased or written by a `CDBBatch`. -/
inductive DBWrite where
  | coin (outpoint : COutPoint) (value : Option Coin)
  | bestBlock (value : Option Uint256)
  | headBlocks (value : Option (List Uint256))
  | saplingAnchor (rt : Uint256) (value : Option SaplingMerkleTree)
  | saplingNullifier (nullifier : Uint256) (value : Option Bool)
  | bestSaplingAnchor (value : Uint256)
deriving DecidableEq

namespace CCoinsViewDB

variable (db : CCoinsViewDB)

def applyWrite : DBWrite → CCoinsViewDB
  | .coin outpoint value => { db with coins := db.coins.put outpoint value }
  | .bestBlock value => { db with bestBlock := value }
  | .headBlocks value => { db with headBlocks := value }
  | .saplingAnchor rt value => { db with saplingAnchors := db.saplingAnchors.put rt value }
  | .saplingNullifier nullifier value =>
    { db with saplingNullifiers := db.saplingNullifiers.put nullifier value }
  | .bestSaplingAnchor value => { db with bestSaplingAnchor := some value }

def writeBatch (batch : List DBWrite) : CCoinsViewDB := batch.foldl applyWrite db

def getCoin (outpoint : COutPoint) : Option Coin := db.coins.lookup outpoint

def getBestBlock : Uint256 := db.bestBlock.getD 0

def getHeadBlocks : List Uint256 := db.headBlocks.getD []

def getSaplingAnchorAt [PedersenHash] (db : CCoinsViewDB) (rt : Uint256) :
    Option SaplingMerkleTree :=
  if rt = emptyRoot then some [] else db.saplingAnchors.lookup rt

def getNullifier (nullifier : Uint256) : Bool :=
  (db.saplingNullifiers.lookup nullifier).isSome

def getBestAnchor [PedersenHash] (db : CCoinsViewDB) : Uint256 :=
  db.bestSaplingAnchor.getD emptyRoot

end CCoinsViewDB

def coinWrite (_ : COutPoint) (entry : CCoinsCacheEntry) : Option (Option Coin) :=
  if entry.dirty then some (if entry.coin.isSpent then none else some entry.coin) else none

def anchorWrite [PedersenHash] (rt : Uint256) (entry : CAnchorsSaplingCacheEntry) :
    Option (Option SaplingMerkleTree) :=
  if !entry.dirty then none
  else if !entry.entered then some none
  else if rt = emptyRoot then none
  else some (some entry.tree)

def nullifierWrite (_ : Uint256) (entry : CNullifiersCacheEntry) : Option (Option Bool) :=
  if entry.dirty then some (if entry.entered then some true else none) else none

/-- The coins loop.  After each entry the batch so far is written out if it has grown too large;
the result is the batches written and the batch left over. -/
def coinBatches (sizeExceeded : List DBWrite → Bool) :
    List (Sigma fun _ : COutPoint => CCoinsCacheEntry) → List DBWrite →
      List (List DBWrite) × List DBWrite
  | [], batch => ([], batch)
  | ⟨outpoint, entry⟩ :: rest, batch =>
    let batch := batch ++ (coinWrite outpoint entry).toList.map (.coin outpoint)
    if sizeExceeded batch then
      let (written, last) := coinBatches sizeExceeded rest []
      (batch :: written, last)
    else coinBatches sizeExceeded rest batch

def saplingWrites [PedersenHash] (hashSaplingAnchor : Uint256) (mapSaplingAnchors : CAnchorsSaplingMap)
    (mapSaplingNullifiers : CNullifiersMap) : List DBWrite :=
  (tableWrites anchorWrite mapSaplingAnchors.entries).map (fun write =>
    .saplingAnchor write.1 write.2) ++
    (tableWrites nullifierWrite mapSaplingNullifiers.entries).map (fun write =>
      .saplingNullifier write.1 write.2) ++
    if hashSaplingAnchor = 0 then [] else [.bestSaplingAnchor hashSaplingAnchor]

namespace CCoinsViewDB

def oldTip (db : CCoinsViewDB) (hashBlock : Uint256) : Except Failure Uint256 :=
  if db.getBestBlock = 0 then
    match db.getHeadBlocks with
    | [newHead, oldHead] =>
      if newHead = hashBlock then .ok oldHead else .error (.assertion "old_heads[0] == hashBlock")
    | _ => .ok 0
  else .ok db.getBestBlock

/-- The batches `BatchWrite` writes, in order.  `sizeExceeded` stands for the size estimate
against `-dbbatchsize`. -/
def batches [PedersenHash] (sizeExceeded : List DBWrite → Bool) (db : CCoinsViewDB)
    (mapCoins : CCoinsMap) (hashBlock hashSaplingAnchor : Uint256)
    (mapSaplingAnchors : CAnchorsSaplingMap) (mapSaplingNullifiers : CNullifiersMap) :
    Except Failure (List (List DBWrite)) :=
  if hashBlock = 0 then .error (.assertion "!hashBlock.IsNull()")
  else
    match db.oldTip hashBlock with
    | .error reason => .error reason
    | .ok oldTip =>
      let (written, last) := coinBatches sizeExceeded mapCoins.entries
        [.bestBlock none, .headBlocks (some [hashBlock, oldTip])]
      .ok (written ++ [last ++ saplingWrites hashSaplingAnchor mapSaplingAnchors mapSaplingNullifiers ++
          [.headBlocks none, .bestBlock (some hashBlock)]])

/-- A `BatchWrite` that is not interrupted.  How the writes are cut into batches does not
matter then (`batches_flatten`), so they are taken uncut. -/
def batchWrite [PedersenHash] (db : CCoinsViewDB) (mapCoins : CCoinsMap)
    (hashBlock hashSaplingAnchor : Uint256) (mapSaplingAnchors : CAnchorsSaplingMap)
    (mapSaplingNullifiers : CNullifiersMap) : Except Failure CCoinsViewDB :=
  (batches (fun _ => false) db mapCoins hashBlock hashSaplingAnchor mapSaplingAnchors
    mapSaplingNullifiers).map fun batches => batches.foldl writeBatch db

end CCoinsViewDB

instance [PedersenHash] : BaseView CCoinsViewDB where
  getCoin := CCoinsViewDB.getCoin
  getBestBlock := CCoinsViewDB.getBestBlock
  getSaplingAnchorAt := CCoinsViewDB.getSaplingAnchorAt
  getNullifier := CCoinsViewDB.getNullifier
  getBestAnchor := CCoinsViewDB.getBestAnchor
  batchWrite := CCoinsViewDB.batchWrite

namespace DBWrite

def coin? : DBWrite → Option (COutPoint × Option Coin)
  | .coin outpoint value => some (outpoint, value)
  | _ => none

def saplingAnchor? : DBWrite → Option (Uint256 × Option SaplingMerkleTree)
  | .saplingAnchor rt value => some (rt, value)
  | _ => none

def saplingNullifier? : DBWrite → Option (Uint256 × Option Bool)
  | .saplingNullifier nullifier value => some (nullifier, value)
  | _ => none

def isTableWrite : DBWrite → Bool
  | .coin .. | .saplingAnchor .. | .saplingNullifier .. => true
  | _ => false

end DBWrite

open DBWrite

namespace CCoinsViewDB

variable {db : CCoinsViewDB}

section

variable (db : CCoinsViewDB)

theorem writeBatch_append (first : List DBWrite) :
    db.writeBatch (first ++ second) = (db.writeBatch first).writeBatch second :=
  foldl_append

theorem foldl_writeBatch (batches : List (List DBWrite)) :
    batches.foldl writeBatch db = db.writeBatch batches.flatten := by
  induction batches generalizing db with
  | nil => rfl
  | cons batch rest ih =>
    rw [foldl_cons, ih, flatten_cons, writeBatch_append]

private theorem lookup_put [DecidableEq κ] (table : Table κ γ) (key : κ) (value : Option γ) :
    (fun other => (table.put key value).lookup other) =
      Function.update (fun other => table.lookup other) key value := by
  funext other
  rw [Function.update_apply]
  split
  next same => rw [same, Table.lookup_put_same]
  next different => exact table.lookup_put_ne different

theorem writeBatch_coins (batch : List DBWrite) :
    (db.writeBatch batch).getCoin = applyWrites db.getCoin (batch.filterMap coin?) := by
  induction batch generalizing db with
  | nil => rfl
  | cons write rest ih =>
    refine (ih (db.applyWrite write)).trans ?_
    cases write with
    | coin outpoint value =>
      simp only [coin?, filterMap_cons, applyWrites]
      congr 1
      exact lookup_put db.coins outpoint value
    | _ => rfl

theorem writeBatch_saplingAnchors (batch : List DBWrite) :
    (fun rt => (db.writeBatch batch).saplingAnchors.lookup rt) =
      applyWrites (fun rt => db.saplingAnchors.lookup rt) (batch.filterMap saplingAnchor?) := by
  induction batch generalizing db with
  | nil => rfl
  | cons write rest ih =>
    refine (ih (db.applyWrite write)).trans ?_
    cases write with
    | saplingAnchor rt value =>
      simp only [saplingAnchor?, filterMap_cons, applyWrites]
      congr 1
      exact lookup_put db.saplingAnchors rt value
    | _ => rfl

theorem writeBatch_saplingNullifiers (batch : List DBWrite) :
    (fun nullifier => (db.writeBatch batch).saplingNullifiers.lookup nullifier) =
      applyWrites (fun nullifier => db.saplingNullifiers.lookup nullifier)
      (batch.filterMap saplingNullifier?) := by
  induction batch generalizing db with
  | nil => rfl
  | cons write rest ih =>
    refine (ih (db.applyWrite write)).trans ?_
    cases write with
    | saplingNullifier nullifier value =>
      simp only [saplingNullifier?, filterMap_cons, applyWrites]
      congr 1
      exact lookup_put db.saplingNullifiers nullifier value
    | _ => rfl

end

theorem writeBatch_tables (tables : ∀ write ∈ batch, write.isTableWrite = true) :
    (db.writeBatch batch).bestSaplingAnchor = db.bestSaplingAnchor := by
  induction batch generalizing db with
  | nil => rfl
  | cons write rest ih =>
    have rest' := @ih (db.applyWrite write) (forall_mem_cons.mp tables).2
    have head := tables write mem_cons_self
    cases write with
    | coin outpoint value => exact rest'
    | saplingAnchor rt value => exact rest'
    | saplingNullifier nullifier value => exact rest'
    | _ => cases head

end CCoinsViewDB

open CCoinsViewDB hiding oldTip

variable (entries : List (Sigma fun _ : COutPoint => CCoinsCacheEntry))

def coinWrites : List DBWrite :=
  (tableWrites coinWrite entries).map fun write => .coin write.1 write.2

theorem coinBatches_flatten (batch : List DBWrite) :
    (coinBatches sizeExceeded entries batch).1.flatten ++
      (coinBatches sizeExceeded entries batch).2 = batch ++ coinWrites entries := by
  induction entries generalizing batch with
  | nil => simp [coinBatches, coinWrites, tableWrites]
  | cons head rest ih =>
    obtain ⟨outpoint, entry⟩ := head
    have unfolded : coinWrites (⟨outpoint, entry⟩ :: rest) =
        (coinWrite outpoint entry).toList.map (.coin outpoint) ++ coinWrites rest := by
      cases written : coinWrite outpoint entry with
      | none => simp [coinWrites, tableWrites, written]
      | some value => simp [coinWrites, tableWrites, written]
    rw [unfolded, ← append_assoc]
    simp only [coinBatches]
    split
    · rw [flatten_cons, append_assoc, ih, nil_append]
    · exact ih _

@[simp] theorem coinWrites_coin? :
    (coinWrites entries).filterMap coin? = tableWrites coinWrite entries := by
  simp [coinWrites, Function.comp_def, coin?]

variable [PedersenHash]

/-- All the writes of a `BatchWrite` from `oldTip` to `hashBlock`, in order. -/
def allWrites (oldTip : Uint256) (mapCoins : CCoinsMap) (hashBlock hashSaplingAnchor : Uint256)
    (mapSaplingAnchors : CAnchorsSaplingMap) (mapSaplingNullifiers : CNullifiersMap) : List DBWrite :=
  [.bestBlock none, .headBlocks (some [hashBlock, oldTip])] ++ coinWrites mapCoins.entries ++
    (saplingWrites hashSaplingAnchor mapSaplingAnchors mapSaplingNullifiers ++
      [.headBlocks none, .bestBlock (some hashBlock)])

section

variable {db : CCoinsViewDB} {sizeExceeded : List DBWrite → Bool} {mapCoins : CCoinsMap}
  {hashBlock hashSaplingAnchor : Uint256} {mapSaplingAnchors : CAnchorsSaplingMap}
  {mapSaplingNullifiers : CNullifiersMap}

theorem batches_flatten
      (computed : db.batches sizeExceeded mapCoins hashBlock hashSaplingAnchor mapSaplingAnchors
      mapSaplingNullifiers = .ok written) :
      hashBlock ≠ 0 ∧ ∃ oldTip, db.oldTip hashBlock = .ok oldTip ∧
        written.flatten = allWrites oldTip mapCoins hashBlock hashSaplingAnchor mapSaplingAnchors
        mapSaplingNullifiers := by
  unfold batches at computed
  split at computed
  · cases computed
  next notNull =>
    cases tip : db.oldTip hashBlock with
    | error reason => simp only [tip, reduceCtorEq] at computed
    | ok oldTip =>
      simp only [tip, Except.ok.injEq] at computed
      refine ⟨notNull, oldTip, rfl, ?_⟩
      rw [← computed, flatten_append, flatten_singleton, append_assoc _ _ [_, _], ← append_assoc,
        coinBatches_flatten]
      rfl

theorem batchWrite_writes
    (written : db.batchWrite mapCoins hashBlock hashSaplingAnchor mapSaplingAnchors
      mapSaplingNullifiers = .ok after) :
    ∃ oldTip, db.oldTip hashBlock = .ok oldTip ∧
      after = db.writeBatch (allWrites oldTip mapCoins hashBlock hashSaplingAnchor mapSaplingAnchors
        mapSaplingNullifiers) := by
  unfold batchWrite at written
  cases computed : db.batches (fun _ => false) mapCoins hashBlock hashSaplingAnchor mapSaplingAnchors
      mapSaplingNullifiers with
  | error reason =>
    rw [computed] at written
    cases written
  | ok batches =>
    rw [computed] at written
    cases written
    obtain ⟨_, oldTip, tip, flat⟩ := batches_flatten computed
    exact ⟨oldTip, tip, (db.foldl_writeBatch batches).trans (by rw [flat])⟩

theorem batchWrite_eq {oldTip : Uint256} (notNull : hashBlock ≠ 0)
    (tip : db.oldTip hashBlock = .ok oldTip) :
    db.batchWrite mapCoins hashBlock hashSaplingAnchor mapSaplingAnchors mapSaplingNullifiers =
      .ok (db.writeBatch (allWrites oldTip mapCoins hashBlock hashSaplingAnchor mapSaplingAnchors
        mapSaplingNullifiers)) := by
  have computed : ∃ after, db.batchWrite mapCoins hashBlock hashSaplingAnchor mapSaplingAnchors
      mapSaplingNullifiers = .ok after := by
    simp only [batchWrite, batches, if_neg notNull, tip]
    exact ⟨_, rfl⟩
  obtain ⟨after, written⟩ := computed
  obtain ⟨oldTip', tip', same⟩ := batchWrite_writes written
  rw [tip, Except.ok.injEq] at tip'
  rw [written, same, tip']

end

theorem saplingWrites_coin? :
    (saplingWrites hashSaplingAnchor mapSaplingAnchors mapSaplingNullifiers).filterMap coin? = [] := by
  unfold saplingWrites
  split <;> simp [coin?]

theorem allWrites_coin? (oldTip : Uint256) :
    (allWrites oldTip mapCoins hashBlock hashSaplingAnchor mapSaplingAnchors
      mapSaplingNullifiers).filterMap
      coin? = tableWrites coinWrite mapCoins.entries := by
  simp only [allWrites, filterMap_append, coinWrites_coin?, saplingWrites_coin?]
  change [] ++ tableWrites coinWrite mapCoins.entries ++ ([] ++ []) = _
  simp

theorem batchWrite_tip {db after : CCoinsViewDB}
    (written : db.batchWrite mapCoins hashBlock hashSaplingAnchor mapSaplingAnchors mapSaplingNullifiers =
      .ok after) : after.bestBlock = some hashBlock ∧ after.headBlocks = none := by
  obtain ⟨oldTip, _, rfl⟩ := batchWrite_writes written
  rw [allWrites, writeBatch_append, writeBatch_append]
  exact ⟨rfl, rfl⟩

omit [PedersenHash] in
theorem writeBatch_coinsOnly (db : CCoinsViewDB) (writes : List (COutPoint × Option Coin)) :
    ∃ coins, db.writeBatch (writes.map fun write => .coin write.1 write.2) = { db with coins } ∧
      coins.lookup = applyWrites db.getCoin writes := by
  have table : ∃ coins, db.writeBatch (writes.map fun write => .coin write.1 write.2) =
      { db with coins } := by
    induction writes generalizing db with
    | nil => exact ⟨db.coins, rfl⟩
    | cons write rest ih =>
      obtain ⟨coins, written⟩ := ih (db.applyWrite (.coin write.1 write.2))
      exact ⟨coins, written⟩
  obtain ⟨coins, written⟩ := table
  have looked := db.writeBatch_coins (writes.map fun write => .coin write.1 write.2)
  rw [written, filterMap_map] at looked
  have same : writes.filterMap (coin? ∘ fun write => .coin write.1 write.2) = writes :=
    filterMap_some
  rw [same] at looked
  exact ⟨coins, written, looked⟩

omit [PedersenHash] in
theorem coinBatches_stopped (entries : List (Sigma fun _ : COutPoint => CCoinsCacheEntry))
    (batch : List DBWrite) (started : 0 < k)
    (notAll : k ≤ (coinBatches sizeExceeded entries batch).1.length) :
    ∃ first second, tableWrites coinWrite entries = first ++ second ∧
      ((coinBatches sizeExceeded entries batch).1.take k).flatten =
        batch ++ first.map fun write => .coin write.1 write.2 := by
  induction entries generalizing batch k with
  | nil =>
    simp only [coinBatches, length_nil] at notAll
    omega
  | cons head rest ih =>
    obtain ⟨outpoint, entry⟩ := head
    have unfolded : tableWrites coinWrite (⟨outpoint, entry⟩ :: rest) =
        (coinWrite outpoint entry).toList.map (fun value => (outpoint, value)) ++
        tableWrites coinWrite rest := by
      cases written : coinWrite outpoint entry with
      | none => simp [tableWrites, written]
      | some value => simp [tableWrites, written]
    rw [unfolded]
    have extended : batch ++ (coinWrite outpoint entry).toList.map (coin outpoint) =
        batch ++ ((coinWrite outpoint entry).toList.map fun value => (outpoint, value)).map
          (fun write => coin write.1 write.2) := by
      rw [List.map_map]
      rfl
    simp only [coinBatches] at notAll ⊢
    split
    next exceeded =>
      rw [if_pos exceeded, length_cons] at notAll
      obtain ⟨k, rfl⟩ : ∃ earlier, k = earlier + 1 := ⟨k - 1, by omega⟩
      rw [take_succ_cons, flatten_cons, extended]
      rcases Nat.eq_zero_or_pos k with rfl | more
      · exact ⟨_, _, rfl, by simp⟩
      · obtain ⟨first, second, divided, flat⟩ := ih [] more (by omega)
        refine ⟨_ ++ first, second, by rw [divided, append_assoc], ?_⟩
        rw [flat, nil_append, map_append, append_assoc]
    next within =>
      rw [if_neg within] at notAll
      obtain ⟨first, second, divided, flat⟩ := ih _ started notAll
      refine ⟨_ ++ first, second, by rw [divided, append_assoc], ?_⟩
      rw [flat, extended, map_append, append_assoc]

/-- A database that stopped between two batches of a `BatchWrite`: it is marked, some of the coins
are written, and nothing else has changed. -/
structure Interrupted (db : CCoinsViewDB) (mapCoins : CCoinsMap) (hashBlock oldTip : Uint256)
    (crashed : CCoinsViewDB) : Prop where
  coins : ∃ first second, tableWrites coinWrite mapCoins.entries = first ++ second ∧
    crashed.getCoin = applyWrites db.getCoin first
  rest : crashed = { db with coins := crashed.coins, bestBlock := none, headBlocks := some [hashBlock, oldTip] }

section

variable {db : CCoinsViewDB} {sizeExceeded : List DBWrite → Bool} {mapCoins : CCoinsMap}
  {hashBlock hashSaplingAnchor : Uint256} {mapSaplingAnchors : CAnchorsSaplingMap}
  {mapSaplingNullifiers : CNullifiersMap} {written : List (List DBWrite)}

theorem interrupted_of_take
      (computed : db.batches sizeExceeded mapCoins hashBlock hashSaplingAnchor mapSaplingAnchors
      mapSaplingNullifiers = .ok written) (started : 0 < k) (notAll : k < written.length) :
    ∃ oldTip, db.oldTip hashBlock = .ok oldTip ∧
      Interrupted db mapCoins hashBlock oldTip ((written.take k).foldl writeBatch db) := by
  unfold batches at computed
  split at computed
  · cases computed
  · cases tip : db.oldTip hashBlock with
    | error reason => simp only [tip, reduceCtorEq] at computed
    | ok oldTip =>
      simp only [tip, Except.ok.injEq] at computed
      refine ⟨oldTip, rfl, ?_⟩
      rw [← computed, length_append, length_singleton] at notAll
      obtain ⟨first, second, divided, flat⟩ := coinBatches_stopped mapCoins.entries
        [.bestBlock none, .headBlocks (some [hashBlock, oldTip])] started (Nat.le_of_lt_succ notAll)
      rw [foldl_writeBatch, ← computed, take_append_of_le_length (Nat.le_of_lt_succ notAll), flat,
        writeBatch_append]
      obtain ⟨coins, stopped, looked⟩ := writeBatch_coinsOnly
        (db.writeBatch [.bestBlock none, .headBlocks (some [hashBlock, oldTip])]) first
      rw [stopped]
      exact ⟨⟨first, second, divided, looked⟩, rfl⟩

theorem foldl_writeBatch_all
      (computed : db.batches sizeExceeded mapCoins hashBlock hashSaplingAnchor mapSaplingAnchors
      mapSaplingNullifiers = .ok written)
    (whole : db.batchWrite mapCoins hashBlock hashSaplingAnchor mapSaplingAnchors
      mapSaplingNullifiers = .ok after) :
    written.foldl writeBatch db = after := by
  obtain ⟨_, oldTip, tip, flat⟩ := batches_flatten computed
  obtain ⟨oldTip', tip', same⟩ := batchWrite_writes whole
  rw [tip, Except.ok.injEq] at tip'
  rw [foldl_writeBatch, flat, same, tip']

theorem Interrupted.mixture (interrupted : Interrupted db mapCoins hashBlock oldTip crashed)
    (whole : db.batchWrite mapCoins hashBlock hashSaplingAnchor mapSaplingAnchors
      mapSaplingNullifiers =
      .ok after) :
    crashed.getCoin outpoint = db.getCoin outpoint ∨
      crashed.getCoin outpoint = after.getCoin outpoint := by
  obtain ⟨first, second, divided, coins⟩ := interrupted.coins
  obtain ⟨_, _, rfl⟩ := batchWrite_writes whole
  rw [coins, writeBatch_coins, allWrites_coin?, divided]
  exact applyWrites_stopped (divided ▸ tableWrites_nodup coinWrite mapCoins.nodupKeys) db.getCoin

end

instance : LawfulCoins CCoinsViewDB where
  batchWrite_getCoin := by
    intro mapCoins hashBlock hashSaplingAnchor mapSaplingAnchors mapSaplingNullifiers view after
      written outpoint
    obtain ⟨oldTip, _, rfl⟩ := batchWrite_writes written
    change (getCoin _ outpoint) = _
    rw [writeBatch_coins, allWrites_coin?, applyWrites_tableWrites _ _ mapCoins.nodupKeys]
    change ((mapCoins.lookup outpoint).bind (coinWrite outpoint)).getD (view.getCoin outpoint) = _
    cases mapCoins.lookup outpoint with
    | none => rfl
    | some entry =>
      simp only [bind_some, coinWrite]
      split <;> rfl
  batchWrite_throws := by
    intro mapCoins hashBlock hashSaplingAnchor mapSaplingAnchors mapSaplingNullifiers what view raised
    change view.batchWrite mapCoins hashBlock hashSaplingAnchor mapSaplingAnchors
      mapSaplingNullifiers = _ at raised
    by_cases null : hashBlock = 0
    · simp [batchWrite, batches, null, Except.map] at raised
    · cases tip : view.oldTip hashBlock with
      | ok oldTip =>
        rw [batchWrite_eq null tip] at raised
        cases raised
      | error reason =>
        simp only [batchWrite, batches, if_neg null, tip, Except.map, Except.error.injEq] at raised
        subst raised
        unfold CCoinsViewDB.oldTip at tip
        split at tip
        · split at tip
          · split at tip <;> cases tip
          · cases tip
        · cases tip

section

variable (oldTip : Uint256) (mapCoins : CCoinsMap) (hashBlock hashSaplingAnchor : Uint256)
  (mapSaplingAnchors : CAnchorsSaplingMap) (mapSaplingNullifiers : CNullifiersMap)

theorem allWrites_saplingAnchor? :
    (allWrites oldTip mapCoins hashBlock hashSaplingAnchor mapSaplingAnchors
      mapSaplingNullifiers).filterMap
      saplingAnchor? = tableWrites anchorWrite mapSaplingAnchors.entries := by
  simp only [allWrites, coinWrites, saplingWrites]
  split <;> simp [filterMap_cons, Function.comp_def, saplingAnchor?]

theorem allWrites_saplingNullifier? :
    (allWrites oldTip mapCoins hashBlock hashSaplingAnchor mapSaplingAnchors
      mapSaplingNullifiers).filterMap
      saplingNullifier? = tableWrites nullifierWrite mapSaplingNullifiers.entries := by
  simp only [allWrites, coinWrites, saplingWrites]
  split <;> simp [filterMap_cons, Function.comp_def, saplingNullifier?]

theorem writeBatch_bestSaplingAnchor (db : CCoinsViewDB) :
    (db.writeBatch (allWrites oldTip mapCoins hashBlock hashSaplingAnchor mapSaplingAnchors
      mapSaplingNullifiers)).bestSaplingAnchor =
        if hashSaplingAnchor = 0 then db.bestSaplingAnchor else some hashSaplingAnchor := by
  have coinTables : ∀ write ∈ coinWrites mapCoins.entries, write.isTableWrite = true :=
    forall_mem_map.mpr fun _ _ => rfl
  have anchorTables : ∀ write ∈ (tableWrites anchorWrite mapSaplingAnchors.entries).map
      (fun write => saplingAnchor write.1 write.2), write.isTableWrite = true :=
    forall_mem_map.mpr fun _ _ => rfl
  have nullifierTables : ∀ write ∈ (tableWrites nullifierWrite mapSaplingNullifiers.entries).map
      (fun write => saplingNullifier write.1 write.2), write.isTableWrite = true :=
    forall_mem_map.mpr fun _ _ => rfl
  simp only [allWrites, saplingWrites, writeBatch_append]
  split
  · exact (writeBatch_tables nullifierTables).trans
      ((writeBatch_tables anchorTables).trans (writeBatch_tables coinTables))
  · rfl

end

instance : LawfulSapling CCoinsViewDB where
  batchWrite_getNullifier := by
    intro mapCoins hashBlock hashSaplingAnchor mapSaplingAnchors mapSaplingNullifiers view after
      written nullifier
    obtain ⟨oldTip, _, rfl⟩ := batchWrite_writes written
    have looked :=
      congrFun (view.writeBatch_saplingNullifiers
        (allWrites oldTip mapCoins hashBlock hashSaplingAnchor
      mapSaplingAnchors mapSaplingNullifiers)) nullifier
    rw [allWrites_saplingNullifier?, applyWrites_tableWrites _ _ mapSaplingNullifiers.nodupKeys]
      at looked
    change Option.isSome _ = _
    rw [looked]
    change (((mapSaplingNullifiers.lookup nullifier).bind (nullifierWrite nullifier)).getD _).isSome = _
    cases mapSaplingNullifiers.lookup nullifier with
    | none => rfl
    | some entry =>
      simp only [bind_some, nullifierWrite, elim_some]
      cases entry.dirty with
      | false => rfl
      | true => cases entry.entered <;> rfl
  batchWrite_getSaplingAnchorAt := by
    intro mapCoins hashBlock hashSaplingAnchor mapSaplingAnchors mapSaplingNullifiers view after
      written rt emptyKept
    obtain ⟨oldTip, _, rfl⟩ := batchWrite_writes written
    change getSaplingAnchorAt _ rt = _
    by_cases empty : rt = emptyRoot
    · cases found : mapSaplingAnchors.lookup rt with
      | none =>
        change _ = view.getSaplingAnchorAt rt
        rw [getSaplingAnchorAt, getSaplingAnchorAt, if_pos empty, if_pos empty]
      | some entry =>
        have before : BaseView.getSaplingAnchorAt view rt = some [] := if_pos empty
        rw [elim_some, getSaplingAnchorAt, if_pos empty]
        cases dirty : entry.dirty with
        | false => exact before.symm
        | true => exact ((emptyKept empty entry found dirty).trans before).symm
    · have looked :=
        congrFun (view.writeBatch_saplingAnchors
          (allWrites oldTip mapCoins hashBlock hashSaplingAnchor
        mapSaplingAnchors mapSaplingNullifiers)) rt
      rw [allWrites_saplingAnchor?, applyWrites_tableWrites _ _ mapSaplingAnchors.nodupKeys] at looked
      have before : BaseView.getSaplingAnchorAt view rt = view.saplingAnchors.lookup rt :=
        if_neg empty
      rw [getSaplingAnchorAt, if_neg empty, looked, before]
      change ((mapSaplingAnchors.lookup rt).bind (anchorWrite rt)).getD _ = _
      cases mapSaplingAnchors.lookup rt with
      | none => rfl
      | some entry =>
        simp only [bind_some, anchorWrite, elim_some, CAnchorsSaplingCacheEntry.shown, if_neg empty]
        cases entry.dirty with
        | false => rfl
        | true => cases entry.entered <;> rfl
  batchWrite_getBestAnchor := by
    intro mapCoins hashBlock hashSaplingAnchor mapSaplingAnchors mapSaplingNullifiers view after written
    obtain ⟨oldTip, _, rfl⟩ := batchWrite_writes written
    change getBestAnchor _ = if _ then view.getBestAnchor else _
    rw [getBestAnchor, getBestAnchor, writeBatch_bestSaplingAnchor]
    split <;> rfl
  batchWrite_getBestBlock := by
    intro mapCoins hashBlock hashSaplingAnchor mapSaplingAnchors mapSaplingNullifiers view after written
    change getBestBlock _ = _
    rw [getBestBlock, (batchWrite_tip written).1]
    rfl

end Deviant.TxDB
