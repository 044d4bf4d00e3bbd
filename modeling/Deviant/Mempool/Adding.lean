import Deviant.Mempool.Operations

namespace Deviant.Mempool

open Data Primitives CTxMemPoolEntry

/-! What `addUnchecked` leaves in the pool. -/

def CTxMemPoolEntry.prioritised (entry : CTxMemPoolEntry) (delta : Int) : CTxMemPoolEntry :=
  if delta = 0 then entry else entry.updateFeeDelta delta

@[simp] theorem CTxMemPoolEntry.prioritised_tx (entry : CTxMemPoolEntry) (delta : Int) :
    (entry.prioritised delta).tx = entry.tx := by
  unfold prioritised
  split <;> rfl

namespace CTxMemPool

variable {pool : CTxMemPool} {entry : CTxMemPoolEntry}

def delta (pool : CTxMemPool) (hash : Uint256) : Int := (pool.mapDeltas.lookup hash).getD 0

theorem existsTx_of_lookup {hash : Uint256} (found : pool.mapTx.lookup hash = some entry) :
    pool.existsTx hash = true := Option.isSome_of_mem found

theorem lookup_eq_none {hash : Uint256} (absent : pool.existsTx hash = false) :
    pool.mapTx.lookup hash = none :=
  Option.isNone_iff_eq_none.mp (Option.isSome_eq_false_iff.mp absent)

theorem lookup_insertEntry (fresh : pool.existsTx entry.tx.hash = false) (query : Uint256) :
    (pool.insertEntry entry).mapTx.lookup query =
      if query = entry.tx.hash then some (entry.prioritised (pool.delta entry.tx.hash))
      else pool.mapTx.lookup query := by
  have absent := lookup_eq_none fresh
  unfold insertEntry prioritised delta
  cases waiting : pool.mapDeltas.lookup entry.tx.hash with
  | none => simp [waiting, lookup_insertNew, absent]
  | some delta =>
    by_cases zero : delta = 0
    · simp [waiting, zero, lookup_insertNew, absent]
    · simp only [waiting, zero, if_false, Option.getD_some, lookup_modify, lookup_insertNew, absent,
        Option.getD_none]
      split <;> rfl

theorem insertEntry_eq (pool : CTxMemPool) (entry : CTxMemPoolEntry) : ∃ mapTx,
    pool.insertEntry entry = { pool with mapTx, mapLinks := insertNew pool.mapLinks entry.tx.hash {} } := by
  simp only [insertEntry]
  split
  · exact ⟨_, rfl⟩
  · split
    · exact ⟨_, rfl⟩
    · unfold modify
      split
      · exact ⟨_, rfl⟩
      · exact ⟨_, rfl⟩

theorem links_insertEntry : (pool.insertEntry entry).links query = pool.links query := by
  obtain ⟨mapTx, inserted⟩ := insertEntry_eq pool entry
  simp only [links, inserted, lookup_insertNew]
  split
  next same => rw [same, Option.getD_some]
  · rfl

@[simp] theorem insertEntry_mapNextTx : (pool.insertEntry entry).mapNextTx = pool.mapNextTx := by
  obtain ⟨mapTx, inserted⟩ := insertEntry_eq pool entry
  rw [inserted]

@[simp] theorem insertEntry_mapSaplingNullifiers :
    (pool.insertEntry entry).mapSaplingNullifiers = pool.mapSaplingNullifiers := by
  obtain ⟨mapTx, inserted⟩ := insertEntry_eq pool entry
  rw [inserted]

@[simp] theorem insertEntry_mapDeltas : (pool.insertEntry entry).mapDeltas = pool.mapDeltas := by
  obtain ⟨mapTx, inserted⟩ := insertEntry_eq pool entry
  rw [inserted]

theorem sameContents_linkParents (pool : CTxMemPool) (tx : CTransaction) :
    SameContents pool (pool.linkParents tx) := by
  unfold linkParents
  split
  · exact .refl _
  · apply SameContents.foldl
    intro pool phash
    split
    · exact sameContents_updateParent tx.hash phash
    · exact .refl _

section

variable (pool : CTxMemPool) (entry : CTxMemPoolEntry)

def enter : CTxMemPool := (pool.insertEntry entry).insertSpends entry.tx

theorem sameContents_counted (setAncestors : List Uint256) :
    SameContents (pool.enter entry)
      ((((pool.enter entry).linkParents entry.tx).updateAncestorsOf true entry.tx.hash
      setAncestors).updateEntryForAncestors entry.tx.hash setAncestors) := by
  apply (sameContents_linkParents _ entry.tx).trans
  apply (sameContents_updateAncestorsOf true entry.tx.hash setAncestors).trans
  exact sameContents_modify (core_updateAncestorState _ _) entry.tx.hash

theorem enter_mapTx : (pool.enter entry).mapTx = (pool.insertEntry entry).mapTx := by
  unfold enter insertSpends
  split <;> rfl

end

theorem links_enter : (pool.enter entry).links query = pool.links query := by
  have same : (pool.enter entry).mapLinks = (pool.insertEntry entry).mapLinks := by
    unfold enter insertSpends
    split <;> rfl
  rw [links_congr same, links_insertEntry]

theorem existsTx_enter (fresh : pool.existsTx entry.tx.hash = false) (query : Uint256) :
    (pool.enter entry).existsTx query = true ↔ query = entry.tx.hash ∨
      pool.existsTx query = true := by
  unfold existsTx
  rw [enter_mapTx, lookup_insertEntry fresh]
  by_cases same : query = entry.tx.hash
  · simp [same]
  · simp [same]

variable (setAncestors : List Uint256)

theorem insertNullifiers_mapTx (pool : CTxMemPool) (tx : CTransaction) :
    (pool.insertNullifiers tx).mapTx = pool.mapTx := by
  unfold insertNullifiers
  split <;> rfl

theorem lookup_insertNullifiers (tx : CTransaction) :
      (pool.insertNullifiers tx).mapSaplingNullifiers.lookup query =
        if query ∈ nullifiers tx then some tx else pool.mapSaplingNullifiers.lookup query := by
  unfold insertNullifiers nullifiers
  split
  · exact Table.lookup_foldl_insert tx.shieldedSpends _ query
  · rw [if_neg List.not_mem_nil]

theorem core_addUnchecked (fresh : pool.existsTx entry.tx.hash = false) (query : Uint256) :
    ((pool.addUnchecked entry setAncestors).mapTx.lookup query).map core =
      if query = entry.tx.hash then some (entry.prioritised (pool.delta entry.tx.hash)).core
      else (pool.mapTx.lookup query).map core := by
  have same := (sameContents_counted pool entry setAncestors).core query
  unfold addUnchecked
  rw [insertNullifiers_mapTx]
  refine same.trans ?_
  rw [enter_mapTx, lookup_insertEntry fresh]
  split <;> rfl

theorem existsTx_addUnchecked (fresh : pool.existsTx entry.tx.hash = false) (query : Uint256) :
    (pool.addUnchecked entry setAncestors).existsTx query = true ↔
      query = entry.tx.hash ∨ pool.existsTx query = true := by
  have same := (sameContents_counted pool entry setAncestors).exists_iff query
  have counted :
      (pool.addUnchecked entry setAncestors).existsTx query =
      (pool.enter entry).existsTx query := by
    unfold addUnchecked existsTx
    rw [insertNullifiers_mapTx]
    exact same
  rw [counted, existsTx_enter fresh]

theorem lookup_mapNextTx_addUnchecked (noZerocoins : entry.tx.hasZerocoinSpendInputs = false)
    (unspent : ∀ outpoint ∈ outpoints entry.tx, pool.mapNextTx.lookup outpoint = none)
    (query : COutPoint) :
    (pool.addUnchecked entry setAncestors).mapNextTx.lookup query =
      if query ∈ outpoints entry.tx then some entry.tx else pool.mapNextTx.lookup query := by
  have last (pool : CTxMemPool) : (pool.insertNullifiers entry.tx).mapNextTx = pool.mapNextTx := by
    unfold insertNullifiers
    split <;> rfl
  have same := (sameContents_counted pool entry setAncestors).nextTx
  have entered : (pool.enter entry).mapNextTx =
      entry.tx.vin.foldl (fun spent input => insertNew spent input.prevout entry.tx) pool.mapNextTx := by
    simp [enter, insertSpends, noZerocoins]
  unfold addUnchecked
  rw [last]
  refine (congrArg (AList.lookup query) (same.trans entered)).trans ?_
  apply lookup_foldl_insertNew
  intro input member
  exact .inl (unspent _ (List.mem_map_of_mem member))

theorem lookup_mapSaplingNullifiers_addUnchecked (query : Uint256) :
    (pool.addUnchecked entry setAncestors).mapSaplingNullifiers.lookup query =
      if query ∈ nullifiers entry.tx then some entry.tx
      else pool.mapSaplingNullifiers.lookup query := by
  have entered : (pool.enter entry).mapSaplingNullifiers = pool.mapSaplingNullifiers := by
    unfold enter insertSpends
    split <;> exact insertEntry_mapSaplingNullifiers
  have same := (sameContents_counted pool entry setAncestors).nullifiers.trans entered
  unfold addUnchecked
  rw [lookup_insertNullifiers]
  exact congrArg (fun table => if query ∈ nullifiers entry.tx then some entry.tx
    else AList.lookup query table) same

theorem mapDeltas_addUnchecked :
    (pool.addUnchecked entry setAncestors).mapDeltas = pool.mapDeltas := by
  have last (pool : CTxMemPool) : (pool.insertNullifiers entry.tx).mapDeltas = pool.mapDeltas := by
    unfold insertNullifiers
    split <;> rfl
  have entered : (pool.enter entry).mapDeltas = pool.mapDeltas := by
    unfold enter insertSpends
    split <;> exact insertEntry_mapDeltas
  unfold addUnchecked
  rw [last]
  exact (sameContents_counted pool entry setAncestors).deltas.trans entered

end CTxMemPool

end Deviant.Mempool
