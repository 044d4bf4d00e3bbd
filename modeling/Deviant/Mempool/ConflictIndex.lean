import Deviant.Mempool.Adding
import Deviant.Mempool.Removal

namespace Deviant.Mempool

open Data Option Primitives

/-! The indexes of spent outpoints and of revealed nullifiers, from which conflicts with the pool
are found. -/

section IndexExact

variable {κ : Type} [DecidableEq κ] {keys : CTransaction → List κ} {index after : Table κ CTransaction}
  {pool next : CTxMemPool}

/-- An index has each key of the transactions of the pool with its transaction, and no other key. -/
def IndexExact (keys : CTransaction → List κ) (index : Table κ CTransaction) (pool : CTxMemPool) :
    Prop :=
  ∀ key tx, index.lookup key = some tx ↔ pool.Holds tx ∧ key ∈ keys tx

theorem IndexExact.add (exact : IndexExact keys index pool)
    (unused : ∀ other, pool.Holds other → ∀ key ∈ keys tx, key ∉ keys other)
    (held : ∀ other, next.Holds other ↔ other = tx ∨ pool.Holds other)
    (entered : ∀ key, after.lookup key = if key ∈ keys tx then some tx else index.lookup key) :
    IndexExact keys after next := by
  intro key other
  rw [entered, held]
  by_cases own : key ∈ keys tx
  · rw [if_pos own]
    constructor
    · rintro ⟨⟩
      exact ⟨.inl rfl, own⟩
    · rintro ⟨rfl | old, member⟩
      · rfl
      · exact absurd member (unused other old key own)
  · rw [if_neg own, exact key other]
    constructor
    · rintro ⟨old, member⟩
      exact ⟨.inr old, member⟩
    · rintro ⟨rfl | old, member⟩
      · exact absurd member own
      · exact ⟨old, member⟩

theorem IndexExact.remove (exact : IndexExact keys index pool) (present : pool.Holds tx)
    (held : ∀ other, next.Holds other ↔ pool.Holds other ∧ other.hash ≠ tx.hash)
    (erased : ∀ key, after.lookup key = if key ∈ keys tx then none else index.lookup key) :
    IndexExact keys after next := by
  intro key other
  rw [erased, held]
  by_cases own : key ∈ keys tx
  · rw [if_pos own]
    constructor
    · rintro ⟨⟩
    · rintro ⟨⟨old, different⟩, member⟩
      -- one key has one transaction
      have first := (exact key tx).mpr ⟨present, own⟩
      have second := (exact key other).mpr ⟨old, member⟩
      cases first.symm.trans second
      exact absurd rfl different
  · rw [if_neg own, exact key other]
    constructor
    · rintro ⟨old, member⟩
      refine ⟨⟨old, fun same => own ?_⟩, member⟩
      have both : some tx = some other := by
        rw [← present, ← old, same]
      cases both
      exact member
    · rintro ⟨⟨old, -⟩, member⟩
      exact ⟨old, member⟩

theorem IndexExact.congr (exact : IndexExact keys index pool)
    (held : ∀ tx, next.Holds tx ↔ pool.Holds tx) :
    IndexExact keys index next := by
  intro key tx
  rw [held, exact key tx]

end IndexExact

namespace CTxMemPool

variable {pool next : CTxMemPool}

def Keyed (pool : CTxMemPool) :
    Prop := ∀ hash entry, pool.mapTx.lookup hash = some entry → entry.tx.hash = hash

/-- What the indexes are about: the transactions, without their statistics, fees and links. -/
structure SameTransactions (before after : CTxMemPool) : Prop where
  txs : ∀ hash, (after.mapTx.lookup hash).map (fun entry => entry.tx) =
    (before.mapTx.lookup hash).map fun entry => entry.tx
  nextTx : after.mapNextTx = before.mapNextTx
  nullifiers : after.mapSaplingNullifiers = before.mapSaplingNullifiers

theorem SameContents.transactions (same : SameContents pool next) : SameTransactions pool next :=
  ⟨same.map fun _ => rfl, same.nextTx, same.nullifiers⟩

theorem SameTransactions.holds (same : SameTransactions pool next) (tx : CTransaction) :
    next.Holds tx ↔ pool.Holds tx := by
  unfold Holds
  rw [same.txs]

theorem SameTransactions.existsTx_eq (same : SameTransactions pool next) (hash : Uint256) :
    next.existsTx hash = pool.existsTx hash := by
  have txs := congrArg Option.isSome (same.txs hash)
  rwa [isSome_map, isSome_map] at txs

theorem sameTransactions_prioritiseTransaction (pool : CTxMemPool) (hash : Uint256) (nFeeDelta : Int) :
    SameTransactions pool (pool.prioritiseTransaction hash nFeeDelta) := by
  unfold prioritiseTransaction
  dsimp only
  split
  · exact ⟨fun _ => rfl, rfl, rfl⟩
  · -- the delta of the entry, then the statistics of its ancestors
    have counted (pool : CTxMemPool) (set : List Uint256) :
        SameContents pool (pool.modifyEach (CTxMemPoolEntry.updateDescendantState 0 nFeeDelta 0) set) :=
      sameContents_modifyEach (CTxMemPoolEntry.core_updateDescendantState 0 nFeeDelta 0) set
    refine ⟨fun query => ?_, by simp, by simp⟩
    rw [(counted _ _).transactions.txs, lookup_modify]
    split
    · rw [map_map]
      rfl
    · rfl

theorem existsTx_of_holds (held : pool.Holds tx) : pool.existsTx tx.hash = true := by
  rw [existsTx, ← isSome_map, held, isSome_some]

theorem eq_of_holds (held : pool.Holds tx) (otherHeld : pool.Holds other)
    (same : other.hash = tx.hash) : other = tx := by
  unfold Holds at held otherHeld
  rw [same, held] at otherHeld
  exact (Option.some.inj otherHeld).symm

theorem holds_removeUnchecked :
    (pool.removeUnchecked it).Holds tx ↔ pool.Holds tx ∧ tx.hash ≠ it := by
  unfold Holds
  rw [lookup_removeUnchecked]
  by_cases same : tx.hash = it
  · simp [same]
  · simp [same]

theorem holds_addUnchecked (fresh : pool.existsTx entry.tx.hash = false) (tx : CTransaction) :
    (pool.addUnchecked entry setAncestors).Holds tx ↔ tx = entry.tx ∨ pool.Holds tx := by
  have absent := lookup_eq_none fresh
  have composed (pool : CTxMemPool) : (pool.mapTx.lookup tx.hash).map (fun entry => entry.tx) =
      ((pool.mapTx.lookup tx.hash).map CTxMemPoolEntry.core).map fun entry => entry.tx := by
    rw [map_map]
    rfl
  unfold Holds
  rw [composed, core_addUnchecked setAncestors fresh, composed pool]
  by_cases same : tx.hash = entry.tx.hash
  · rw [if_pos same, same, absent]
    have core : ((entry.prioritised (pool.delta entry.tx.hash)).core).tx = entry.tx :=
      CTxMemPoolEntry.prioritised_tx _ _
    simp only [map_some, core, Option.some.injEq, map_none, reduceCtorEq, or_false]
    exact eq_comm
  · rw [if_neg same]
    constructor
    · exact .inr
    · rintro (rfl | old)
      · exact absurd rfl same
      · exact old

/-- The index of spent outpoints is that of the transactions of the pool. -/
structure SpendsIndexed (pool : CTxMemPool) : Prop where
  keyed : pool.Keyed
  spends : IndexExact outpoints pool.mapNextTx pool

def NullifiersIndexed (pool : CTxMemPool) :
    Prop := IndexExact nullifiers pool.mapSaplingNullifiers pool

theorem Keyed.holds (keyed : pool.Keyed) {hash : Uint256} {entry : CTxMemPoolEntry}
    (found : pool.mapTx.lookup hash = some entry) : pool.Holds entry.tx := by
  unfold Holds
  rw [keyed hash entry found, found, map_some]

theorem Keyed.congr (keyed : pool.Keyed) (same : SameTransactions pool next) : next.Keyed := by
  intro hash entry found
  have core := same.txs hash
  rw [found, map_some] at core
  obtain ⟨old, oldFound, tx⟩ := map_eq_some_iff.mp core.symm
  rw [← tx]
  exact keyed hash old oldFound

theorem SpendsIndexed.congr (indexed : pool.SpendsIndexed) (same : SameTransactions pool next) :
    next.SpendsIndexed where
  keyed := indexed.keyed.congr same
  spends := by
    rw [same.nextTx]
    exact indexed.spends.congr same.holds

theorem NullifiersIndexed.congr (indexed : pool.NullifiersIndexed) (same : SameTransactions pool next) :
    next.NullifiersIndexed := by
  unfold NullifiersIndexed
  rw [same.nullifiers]
  exact IndexExact.congr indexed same.holds

theorem SpendsIndexed.removeUnchecked (indexed : pool.SpendsIndexed) :
    (pool.removeUnchecked it).SpendsIndexed where
  keyed := by
    intro hash entry found
    rw [lookup_removeUnchecked] at found
    split at found
    · cases found
    · exact indexed.keyed hash entry found
  spends := by
    cases found : pool.mapTx.lookup it with
    | none => simpa only [CTxMemPool.removeUnchecked, found] using indexed.spends
    | some entry =>
      have key := indexed.keyed it entry found
      apply indexed.spends.remove (indexed.keyed.holds found)
      · intro other
        rw [holds_removeUnchecked, key]
      · intro outpoint
        simp only [CTxMemPool.removeUnchecked, found]
        exact Table.lookup_foldl_erase (fun txin : CTxIn => txin.prevout)
          entry.tx.vin pool.mapNextTx outpoint

theorem NullifiersIndexed.removeUnchecked (indexed : pool.NullifiersIndexed) (keyed : pool.Keyed) :
    (pool.removeUnchecked it).NullifiersIndexed := by
  cases found : pool.mapTx.lookup it with
  | none => simpa only [CTxMemPool.removeUnchecked, found] using indexed
  | some entry =>
    have key := keyed it entry found
    apply IndexExact.remove indexed (keyed.holds found)
    · intro other
      rw [holds_removeUnchecked, key]
    · intro nullifier
      simp only [CTxMemPool.removeUnchecked, found, nullifiers]
      split
      · exact Table.lookup_foldl_erase (fun sd : SpendDescription => sd.nullifier)
          entry.tx.shieldedSpends pool.mapSaplingNullifiers nullifier
      · rw [if_neg List.not_mem_nil]

theorem SpendsIndexed.removeStaged (indexed : pool.SpendsIndexed) :
    (pool.removeStaged stage updateDescendants).SpendsIndexed := by
  apply RemovalInvariant.foldl
  · intro pool it indexed
    exact indexed.removeUnchecked
  · exact indexed.congr
      (sameContents_updateForRemoveFromMempool pool stage updateDescendants).transactions

structure Indexed (pool : CTxMemPool) : Prop extends pool.SpendsIndexed where
  nullifiersIndexed : pool.NullifiersIndexed

theorem Indexed.congr (indexed : pool.Indexed) (same : SameTransactions pool next) : next.Indexed :=
  ⟨indexed.toSpendsIndexed.congr same, indexed.nullifiersIndexed.congr same⟩

theorem Indexed.removeStaged (indexed : pool.Indexed) :
    (pool.removeStaged stage updateDescendants).Indexed := by
  apply RemovalInvariant.foldl
  · intro pool it indexed
    exact ⟨indexed.toSpendsIndexed.removeUnchecked,
      indexed.nullifiersIndexed.removeUnchecked indexed.keyed⟩
  · exact indexed.congr
      (sameContents_updateForRemoveFromMempool pool stage updateDescendants).transactions

theorem SpendsIndexed.addUnchecked (indexed : pool.SpendsIndexed) (admitted : NonConflicting pool entry)
    (setAncestors : List Uint256) : (pool.addUnchecked entry setAncestors).SpendsIndexed where
  keyed := by
    intro hash found present
    have core := core_addUnchecked setAncestors admitted.fresh hash
    rw [present, map_some] at core
    split at core
    next same =>
      have tx := congrArg CTxMemPoolEntry.tx (Option.some.inj core)
      have prioritised : found.tx = entry.tx := tx.trans (CTxMemPoolEntry.prioritised_tx _ _)
      rw [prioritised, same]
    · obtain ⟨old, oldFound, same⟩ := map_eq_some_iff.mp core.symm
      have tx := congrArg CTxMemPoolEntry.tx same
      have unchanged : old.tx = found.tx := tx
      rw [← unchanged]
      exact indexed.keyed hash old oldFound
  spends := by
    apply indexed.spends.add admitted.unspent (holds_addUnchecked admitted.fresh)
    apply lookup_mapNextTx_addUnchecked setAncestors admitted.noZerocoins
    intro outpoint own
    cases found : pool.mapNextTx.lookup outpoint with
    | none => rfl
    | some tx =>
      obtain ⟨held, member⟩ := (indexed.spends outpoint tx).mp found
      exact absurd member (admitted.unspent tx held outpoint own)

theorem Indexed.addUnchecked (indexed : pool.Indexed) (admitted : NonConflicting pool entry) :
    (pool.addUnchecked entry setAncestors).Indexed where
  toSpendsIndexed := indexed.toSpendsIndexed.addUnchecked admitted setAncestors
  nullifiersIndexed := IndexExact.add indexed.nullifiersIndexed admitted.unrevealed
    (holds_addUnchecked admitted.fresh) (lookup_mapSaplingNullifiers_addUnchecked setAncestors)

theorem sameContents_updateForDescendants :
    SameContents pool (pool.updateForDescendants updateIt cachedDescendants setExclude).1 := by
  unfold updateForDescendants
  split
  · exact .refl _
  · dsimp only
    exact (sameContents_modifyEach (CTxMemPoolEntry.core_updateAncestorState _ _) _).trans
      (sameContents_modify (CTxMemPoolEntry.core_updateDescendantState _ _ _) updateIt)

theorem sameContents_linkChildren (setAlreadyIncluded : List Uint256) (hash : Uint256) :
    SameContents pool (pool.linkChildren setAlreadyIncluded hash) := by
  apply SameContents.foldl
  intro pool childHash
  split
  · exact .refl _
  · exact (sameContents_updateChild _ _ _).trans (sameContents_updateParent _ _)

theorem sameContents_updateTransactionsFromBlock (pool : CTxMemPool) (vHashesToUpdate : List Uint256) :
    SameContents pool (pool.updateTransactionsFromBlock vHashesToUpdate) := by
  have walk (hashes : List Uint256) (state : CTxMemPool × CacheMap) :
      SameContents state.1 (hashes.foldl (updateTransactionFromBlock vHashesToUpdate) state).1 := by
    induction hashes generalizing state with
    | nil => exact .refl _
    | cons hash hashes ih =>
      refine .trans ?_ (ih _)
      unfold updateTransactionFromBlock
      split
      · exact (sameContents_linkChildren _ _).trans sameContents_updateForDescendants
      · exact .refl _
  exact walk vHashesToUpdate.reverse (pool, ∅)

theorem foldl_addUncheckedAlone {invariant : CTxMemPool → Prop}
    {admitted : CTxMemPool → List Uint256 → CTxMemPoolEntry → Prop}
    (each : ∀ pool earlier entry, invariant pool → admitted pool earlier entry →
      invariant (pool.addUncheckedAlone entry))
    {entries : List CTxMemPoolEntry} {earlier : List Uint256} (holds : invariant pool)
    (batch : Batch admitted pool earlier entries) :
    invariant (entries.foldl addUncheckedAlone pool) := by
  induction entries generalizing pool earlier with
  | nil => exact holds
  | cons entry entries ih => exact ih (each pool earlier entry holds batch.1) batch.2

theorem removalInvariant_indexed : RemovalInvariant Indexed where
  staged indexed _ := indexed.removeStaged
  delta indexed _ _ := ⟨⟨indexed.keyed, indexed.spends⟩, indexed.nullifiersIndexed⟩

end CTxMemPool

def AddsNonConflicting (pool : CTxMemPool) : Operation → Prop
  | .addUnchecked entry _ => NonConflicting pool entry
  | .addFromBlock entries => Batch (fun pool _ entry => NonConflicting pool entry) pool [] entries
  | _ => True

def ClearsUnshielded (pool : CTxMemPool) : Operation → Prop
  | .clear => ∀ tx, pool.Holds tx → nullifiers tx = []
  | _ => True

open CTxMemPool

variable {pool : CTxMemPool}

theorem CTxMemPool.Indexed.clear (indexed : pool.Indexed)
    (unshielded : ∀ tx, pool.Holds tx → nullifiers tx = []) :
    pool.clear.Indexed where
  keyed _ _ found := by cases found
  spends _ _ := by
    constructor
    · intro found
      cases found
    · rintro ⟨held, -⟩
      cases held
  nullifiersIndexed nullifier tx := by
    constructor
    · intro found
      obtain ⟨held, member⟩ := (indexed.nullifiersIndexed nullifier tx).mp found
      rw [unshielded tx held] at member
      cases member
    · rintro ⟨held, -⟩
      cases held

theorem CTxMemPool.Indexed.run (indexed : pool.Indexed) (adds : AddsNonConflicting pool operation)
    (clears : ClearsUnshielded pool operation) : (operation.run pool).Indexed := by
  cases operation with
  | addUnchecked entry limits =>
    simp only [Operation.run, addWithin]
    split
    · exact indexed.addUnchecked adds
    · exact indexed
  | addFromBlock entries =>
    have added : (entries.foldl addUncheckedAlone pool).Indexed :=
      foldl_addUncheckedAlone (fun _ _ _ indexed admitted => indexed.addUnchecked admitted) indexed adds
    exact added.congr (sameContents_updateTransactionsFromBlock _ _).transactions
  | removeRecursive tx => exact removalInvariant_indexed.removeRecursive indexed
  | removeForBlock vtx =>
    apply RemovalInvariant.foldl _ indexed
    intro pool tx indexed
    exact removalInvariant_indexed.removeForBlockTx indexed tx fun _ => indexed.removeStaged
  | removeWithAnchor invalidRoot => exact removalInvariant_indexed.removeWithAnchor indexed
  | expire time => exact removalInvariant_indexed.expire indexed
  | trimToSize policy sizelimit => exact removalInvariant_indexed.trimLoop indexed
  | prioritiseTransaction hash nFeeDelta =>
    exact indexed.congr (sameTransactions_prioritiseTransaction pool hash nFeeDelta)
  | clear => exact indexed.clear clears

theorem not_holds_empty : ¬ ({} : CTxMemPool).Holds tx := by
  simp [Holds]

theorem indexed_empty : ({} : CTxMemPool).Indexed where
  keyed hash entry := by simp
  spends outpoint tx := by simp [not_holds_empty]
  nullifiersIndexed nullifier tx := by simp [not_holds_empty]

theorem indexed_of_reached
    (reached : Reached (fun pool operation => AddsNonConflicting pool operation ∧
      ClearsUnshielded pool operation) pool) :
    pool.Indexed := by
  induction reached with
  | empty => exact indexed_empty
  | step before legal indexed => exact indexed.run legal.1 legal.2

theorem IndexExact.isSome_iff [DecidableEq κ] (exact : IndexExact keys index pool) (key : κ) :
    (index.lookup key).isSome = true ↔ ∃ tx, pool.Holds tx ∧ key ∈ keys tx := by
  rw [isSome_iff_exists]
  exact exists_congr fun tx => exact key tx

/-- When the pool is only cleared without shielded spends in it, the indexes are those of its
transactions, and the questions about conflicts are answered for them. -/
theorem conflict_indexes_exact
    (reached : Reached (fun pool operation => AddsNonConflicting pool operation ∧
      ClearsUnshielded pool operation) pool) :
    (∀ outpoint tx, pool.mapNextTx.lookup outpoint = some tx ↔ pool.Holds tx ∧
      outpoint ∈ outpoints tx) ∧
    (∀ nullifier tx, pool.mapSaplingNullifiers.lookup nullifier = some tx ↔ pool.Holds tx ∧
      nullifier ∈ nullifiers tx) ∧
    (∀ outpoint, pool.isSpent outpoint = true ↔ ∃ tx, pool.Holds tx ∧ outpoint ∈ outpoints tx) ∧
    (∀ nullifier, pool.nullifierExists nullifier = true ↔ ∃ tx, pool.Holds tx ∧
      nullifier ∈ nullifiers tx) := by
  have indexed := indexed_of_reached reached
  exact ⟨indexed.spends, indexed.nullifiersIndexed, indexed.spends.isSome_iff,
    IndexExact.isSome_iff indexed.nullifiersIndexed⟩

/-! A shielded transaction, after whose clearing its nullifier still counts as spent. -/

namespace SampleShielded

def spend : CTransaction where
  hash := 7
  nVersion := 3
  vin := [⟨⟨1, 0⟩, [], 0⟩]
  vout := []
  sapData := some ⟨0, [⟨5, 9⟩], [], []⟩

def entry : CTxMemPoolEntry := .new spend 10 0 200 1 false

def added : CTxMemPool := Operation.run {} (.addUnchecked entry {})

theorem nonConflicting : NonConflicting {} entry where
  noZerocoins := by decide
  fresh := by decide
  unspent tx held := absurd held not_holds_empty
  unrevealed tx held := absurd held not_holds_empty

end SampleShielded

open SampleShielded in
theorem conflict_indexes_exact_shielded :
    Reached (fun pool operation => AddsNonConflicting pool operation ∧
      ClearsUnshielded pool operation) added ∧
      added.isSpent ⟨1, 0⟩ = true ∧ added.nullifierExists 9 = true ∧
      ∀ nullifier, added.nullifierExists nullifier = true ↔ ∃ tx, added.Holds tx ∧
      nullifier ∈ nullifiers tx := by
  have reached : Reached
      (fun pool operation => AddsNonConflicting pool operation ∧ ClearsUnshielded pool operation) added :=
    .step .empty ⟨nonConflicting, trivial⟩
  exact ⟨reached, by decide, by decide, (conflict_indexes_exact reached).2.2.2⟩

open SampleShielded in
/-- Without the condition: the nullifier of a transaction that was cleared from the pool. -/
theorem cleared_nullifier_still_exists : Reached AddsNonConflicting (Operation.run added .clear) ∧
      (Operation.run added .clear).nullifierExists 9 = true ∧
        (∀ tx, ¬ (Operation.run added .clear).Holds tx) := by
  have reached : Reached AddsNonConflicting added := .step .empty nonConflicting
  refine ⟨.step reached trivial, by decide, ?_⟩
  intro tx held
  cases held

end Deviant.Mempool
