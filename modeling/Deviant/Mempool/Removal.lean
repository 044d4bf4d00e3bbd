import Deviant.Mempool.Operations

namespace Deviant.Mempool.CTxMemPool

open Data Primitives

/-! Removals.  Everything that leaves the pool leaves it with all its descendants, except for the
transactions of a block; so what a removal keeps is shown for those two ways only. -/

variable {pool : CTxMemPool}

theorem lookup_removeUnchecked (it : Uint256) :
    (pool.removeUnchecked it).mapTx.lookup query = if query = it then none
      else pool.mapTx.lookup query := by
  unfold removeUnchecked
  cases found : pool.mapTx.lookup it with
  | none =>
    by_cases same : query = it
    · rw [if_pos same, same, found]
    · rw [if_neg same]
  | some entry => exact Table.lookup_erase_eq pool.mapTx it

theorem links_removeUnchecked (found : pool.existsTx it = true) :
    (pool.removeUnchecked it).links query = if query = it then {} else pool.links query := by
  obtain ⟨entry, found⟩ := Option.isSome_iff_exists.mp found
  simp only [removeUnchecked, found, links, Table.lookup_erase_eq]
  split
  · rfl
  · rfl

@[simp] theorem removeUnchecked_mapDeltas (it : Uint256) :
    (pool.removeUnchecked it).mapDeltas = pool.mapDeltas := by
  unfold removeUnchecked
  split <;> rfl

theorem lookup_foldl_removeUnchecked (stage : List Uint256) :
      (stage.foldl removeUnchecked pool).mapTx.lookup query = if query ∈ stage then none
        else pool.mapTx.lookup query := by
  induction stage generalizing pool with
  | nil => rfl
  | cons it stage ih =>
    rw [List.foldl_cons, ih, lookup_removeUnchecked]
    by_cases same : query = it
    · simp [same]
    · rw [if_neg same]
      simp [same]

section

variable (pool : CTxMemPool) (stage : List Uint256) (updateDescendants : Bool) (query : Uint256)

theorem core_removeStaged :
    ((pool.removeStaged stage updateDescendants).mapTx.lookup query).map CTxMemPoolEntry.core =
      if query ∈ stage then none else (pool.mapTx.lookup query).map CTxMemPoolEntry.core := by
  have same := (sameContents_updateForRemoveFromMempool pool stage updateDescendants).core query
  rw [removeStaged, lookup_foldl_removeUnchecked]
  split
  · rfl
  · exact same

theorem existsTx_removeStaged :
    (pool.removeStaged stage updateDescendants).existsTx query = (pool.existsTx query &&
      decide (query ∉ stage)) := by
  have core := congrArg Option.isSome (core_removeStaged pool stage updateDescendants query)
  rw [Option.isSome_map] at core
  rw [existsTx, core, existsTx]
  by_cases removed : query ∈ stage
  · simp [removed]
  · simp [removed]

end

@[simp] theorem removeStaged_mapDeltas :
    (pool.removeStaged stage updateDescendants).mapDeltas = pool.mapDeltas :=
  (foldl_project CTxMemPool.mapDeltas (fun _ => removeUnchecked_mapDeltas) stage).trans
    (sameContents_updateForRemoveFromMempool pool stage _).deltas

theorem size_pos {hash : Uint256} (present : pool.existsTx hash = true) : 0 < pool.size := by
  have member : hash ∈ pool.mapTx.keys := AList.lookup_isSome.mp present
  exact List.length_pos_of_mem member

theorem subset_calculateDescendants {set : List Uint256} (member : x ∈ set) :
    x ∈ pool.calculateDescendants set root := mem_exploreCached_of_done member

theorem mem_calculateDescendants_self {set : List Uint256} (present : pool.existsTx root = true) :
    root ∈ pool.calculateDescendants set root := by
  unfold calculateDescendants
  split
  next member => exact mem_exploreCached_of_done member
  · exact mem_exploreCached_head (size_pos present)

def descendantsOfAll (pool : CTxMemPool) (roots : List Uint256) : List Uint256 :=
  roots.foldl pool.calculateDescendants []

theorem mem_descendantsOfAll_self (member : root ∈ roots) (present : pool.existsTx root = true) :
    root ∈ pool.descendantsOfAll roots := by
  have grows (roots set : List Uint256) (inside : root ∈ set) :
      root ∈ roots.foldl pool.calculateDescendants set := by
    induction roots generalizing set with
    | nil => exact inside
    | cons first rest ih => exact ih _ (subset_calculateDescendants inside)
  have found (roots set : List Uint256) (member : root ∈ roots) :
      root ∈ roots.foldl pool.calculateDescendants set := by
    induction roots generalizing set with
    | nil => cases member
    | cons first rest ih =>
      rcases List.mem_cons.mp member with rfl | later
      · exact grows rest _ (mem_calculateDescendants_self present)
      · exact ih _ later
  exact found roots [] member

def removeDescendantsOf (pool : CTxMemPool) (roots : List Uint256) : CTxMemPool :=
  pool.removeStaged (pool.descendantsOfAll roots) false

theorem existsTx_removeRecursive_self : (pool.removeRecursive tx).existsTx tx.hash = false := by
  unfold removeRecursive
  rw [existsTx_removeStaged]
  cases present : pool.existsTx tx.hash with
  | false => rfl
  | true =>
    have staged := mem_descendantsOfAll_self (List.mem_singleton_self tx.hash) present
    exact decide_eq_false (not_not_intro staged)

/-- What a removal with all descendants keeps, and forgetting the fee delta of a transaction that is
not there. -/
structure RemovalInvariant (invariant : CTxMemPool → Prop) : Prop where
  staged : ∀ {pool}, invariant pool → ∀ roots, invariant (pool.removeDescendantsOf roots)
  delta : ∀ {pool}, invariant pool → ∀ hash, pool.existsTx hash = false →
    invariant (pool.clearPrioritisation hash)

namespace RemovalInvariant

variable {invariant : CTxMemPool → Prop} (kept : RemovalInvariant invariant)

include kept

theorem removeRecursive (holds : invariant pool) : invariant (pool.removeRecursive tx) :=
  kept.staged holds _

theorem removeConflict (holds : invariant pool) :
    invariant (pool.removeConflict tx found) := by
  unfold CTxMemPool.removeConflict
  split
  · exact holds
  next txConflict =>
    split
    · exact holds
    · exact kept.delta (kept.removeRecursive holds) _ existsTx_removeRecursive_self

omit kept in
theorem foldl {ι : Type} {step : CTxMemPool → ι → CTxMemPool}
    (each : ∀ pool item, invariant pool → invariant (step pool item)) (holds : invariant pool)
    (items : List ι) :
    invariant (items.foldl step pool) := by
  induction items generalizing pool with
  | nil => exact holds
  | cons item items ih => exact ih (each pool item holds)

theorem removeConflicts (holds : invariant pool) (tx : CTransaction) :
    invariant (pool.removeConflicts tx) := by
  unfold CTxMemPool.removeConflicts
  have inputs : invariant (tx.vin.foldl
      (fun pool txin => pool.removeConflict tx (pool.mapNextTx.lookup txin.prevout)) pool) := by
    apply foldl _ holds
    intro pool txin holds
    exact kept.removeConflict holds
  split
  · apply foldl _ inputs
    intro pool sd holds
    exact kept.removeConflict holds
  · exact inputs

theorem removeWithAnchor (holds : invariant pool) :
    invariant (pool.removeWithAnchor invalidRoot) := by
  apply foldl _ holds
  intro pool tx holds
  exact kept.removeRecursive holds

theorem expire (holds : invariant pool) : invariant (pool.expire time) := kept.staged holds _

theorem trimLoop (holds : invariant pool) :
    invariant (CTxMemPool.trimLoop policy sizelimit fuel pool) := by
  induction fuel generalizing pool with
  | zero => exact holds
  | succ fuel ih =>
    unfold CTxMemPool.trimLoop
    split
    · exact holds
    · split
      · exact holds
      next it _ => exact ih (kept.staged holds [it])

end RemovalInvariant

theorem removalInvariant_absent (hash : Uint256) :
    RemovalInvariant fun pool => pool.existsTx hash = false where
  staged := by
    intro pool absent roots
    rw [removeDescendantsOf, existsTx_removeStaged, absent, Bool.false_and]
  delta absent _ _ := absent

theorem existsTx_removed (pool : CTxMemPool) (hash : Uint256) :
    (if pool.existsTx hash then pool.removeStaged [hash] true else pool).existsTx hash = false := by
  cases present : pool.existsTx hash with
  | false => exact present
  | true => rw [if_pos rfl, existsTx_removeStaged, present, decide_eq_false (by simp), Bool.true_and]

theorem RemovalInvariant.removeForBlockTx (kept : RemovalInvariant invariant)
    (holds : invariant pool) (tx : CTransaction)
    (single : pool.existsTx tx.hash = true → invariant (pool.removeStaged [tx.hash] true)) :
    invariant (pool.removeForBlockTx tx) := by
  have removed :
      invariant (if pool.existsTx tx.hash then pool.removeStaged [tx.hash] true else pool) := by
    split
    next present => exact single present
    · exact holds
  have absent :=
    (removalInvariant_absent tx.hash).removeConflicts (existsTx_removed pool tx.hash) tx
  exact kept.delta (kept.removeConflicts removed tx) tx.hash absent

end Deviant.Mempool.CTxMemPool
