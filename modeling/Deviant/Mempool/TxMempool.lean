import Deviant.Data.MapMerge
import Deviant.Data.Reach
import Deviant.Primitives.Transaction

namespace Deviant.Mempool

open Data Primitives

/-! The memory pool: transactions that wait for a block, the links between those that spend from one
another, and for each of them the statistics of the package of its ancestors and of its
descendants.  Entries are referred to by the hash of their transaction, and sets of them are in the
order of their hashes. -/

/-- The unsigned numbers count transactions of the pool, their bytes and their signature operations.
All of these are in memory and the limits on a package keep them small, so that none of them
wraps. -/
structure CTxMemPoolEntry where
  tx : CTransaction
  nFee : Int
  nTime : Int
  nTxSize : Nat
  sigOpCount : Nat
  spendsCoinbaseOrCoinstake : Bool
  feeDelta : Int
  nCountWithDescendants : Int
  nSizeWithDescendants : Int
  nModFeesWithDescendants : Int
  nCountWithAncestors : Int
  nSizeWithAncestors : Int
  nModFeesWithAncestors : Int
  nSigOpCountWithAncestors : Int
deriving DecidableEq

namespace CTxMemPoolEntry

/-- The entry a transaction enters with: it is alone in its packages. -/
def new (tx : CTransaction) (nFee nTime : Int) (nTxSize sigOpCount : Nat)
    (spendsCoinbaseOrCoinstake : Bool) :
    CTxMemPoolEntry where
  tx := tx
  nFee := nFee
  nTime := nTime
  nTxSize := nTxSize
  sigOpCount := sigOpCount
  spendsCoinbaseOrCoinstake := spendsCoinbaseOrCoinstake
  feeDelta := 0
  nCountWithDescendants := 1
  nSizeWithDescendants := nTxSize
  nModFeesWithDescendants := nFee
  nCountWithAncestors := 1
  nSizeWithAncestors := nTxSize
  nModFeesWithAncestors := nFee
  nSigOpCountWithAncestors := sigOpCount

def getModifiedFee (entry : CTxMemPoolEntry) : Int := wrap64 (entry.nFee + entry.feeDelta)

def updateFeeDelta (newFeeDelta : Int) (entry : CTxMemPoolEntry) : CTxMemPoolEntry :=
  { entry with
    nModFeesWithDescendants :=
      wrap64 (entry.nModFeesWithDescendants + wrap64 (newFeeDelta - entry.feeDelta))
    nModFeesWithAncestors :=
      wrap64 (entry.nModFeesWithAncestors + wrap64 (newFeeDelta - entry.feeDelta))
    feeDelta := newFeeDelta }

def updateDescendantState (modifySize modifyFee modifyCount : Int) (entry : CTxMemPoolEntry) :
    CTxMemPoolEntry :=
  { entry with
    nSizeWithDescendants := entry.nSizeWithDescendants + modifySize
    nModFeesWithDescendants := wrap64 (entry.nModFeesWithDescendants + modifyFee)
    nCountWithDescendants := entry.nCountWithDescendants + modifyCount }

def updateAncestorState (modifySize modifyFee modifyCount modifySigOps : Int)
    (entry : CTxMemPoolEntry) :
    CTxMemPoolEntry :=
  { entry with
    nSizeWithAncestors := entry.nSizeWithAncestors + modifySize
    nModFeesWithAncestors := wrap64 (entry.nModFeesWithAncestors + modifyFee)
    nCountWithAncestors := entry.nCountWithAncestors + modifyCount
    nSigOpCountWithAncestors := entry.nSigOpCountWithAncestors + modifySigOps }

end CTxMemPoolEntry

open CTxMemPoolEntry

structure TxLinks where
  parents : List Uint256 := []
  children : List Uint256 := []
deriving DecidableEq

/-- The pool.  Of `mapDeltas` the fee deltas are kept. -/
structure CTxMemPool where
  mapTx : Table Uint256 CTxMemPoolEntry := ∅
  mapLinks : Table Uint256 TxLinks := ∅
  mapNextTx : Table COutPoint CTransaction := ∅
  mapSaplingNullifiers : Table Uint256 CTransaction := ∅
  mapDeltas : Table Uint256 Int := ∅

/-- The order of `CompareIteratorByHash`. -/
def hashRank (hash : Uint256) : Nat := hash.toNat

namespace CTxMemPool

section

variable (pool : CTxMemPool)

def existsTx (hash : Uint256) : Bool := (pool.mapTx.lookup hash).isSome

def isSpent (outpoint : COutPoint) : Bool := (pool.mapNextTx.lookup outpoint).isSome

def nullifierExists (nullifier : Uint256) : Bool :=
  (pool.mapSaplingNullifiers.lookup nullifier).isSome

def links (entry : Uint256) : TxLinks := (pool.mapLinks.lookup entry).getD {}

def getMemPoolParents (entry : Uint256) : List Uint256 := (pool.links entry).parents

def getMemPoolChildren (entry : Uint256) : List Uint256 := (pool.links entry).children

/-- `mapTx.modify`. -/
def modify (f : CTxMemPoolEntry → CTxMemPoolEntry) (hash : Uint256) : CTxMemPool :=
  match pool.mapTx.lookup hash with
  | none => pool
  | some entry => { pool with mapTx := pool.mapTx.insert hash (f entry) }

def modifyEach (f : CTxMemPoolEntry → CTxMemPoolEntry) (set : List Uint256) : CTxMemPool :=
  set.foldl (fun pool hash => pool.modify f hash) pool

def setOf (add : Bool) (x : Uint256) (set : List Uint256) : List Uint256 :=
  if add then insertSet hashRank x set else set.erase x

def updateChild (entry child : Uint256) (add : Bool) : CTxMemPool :=
  let links := pool.links entry
  { pool with mapLinks := pool.mapLinks.insert entry { links with children := setOf add child links.children } }

def updateParent (entry parent : Uint256) (add : Bool) : CTxMemPool :=
  let links := pool.links entry
  { pool with mapLinks := pool.mapLinks.insert entry { links with parents := setOf add parent links.parents } }

def size : Nat := pool.mapTx.keys.length

def sumOver (value : CTxMemPoolEntry → Int) (set : List Uint256) : Int :=
  (set.map fun hash => (pool.mapTx.lookup hash).elim 0 value).sum

/-- Limits on a package; `none` is the largest `uint64_t`, which nothing exceeds. -/
structure PackageLimits where
  limitAncestorCount : Option Nat := none
  limitAncestorSize : Option Nat := none
  limitDescendantCount : Option Nat := none
  limitDescendantSize : Option Nat := none

def exceeds (limit : Option Nat) (value : Int) :
    Bool := limit.any fun bound => decide ((bound : Int) < value)

def limitText (limit : Option Nat) : String := toString (limit.getD (2 ^ 64 - 1))

def searchForParents (pool : CTxMemPool) (limits : PackageLimits) :
    List CTxIn → (parentHashes : List Uint256) → Except String (List Uint256)
  | [], parentHashes => .ok parentHashes
  | txin :: rest, parentHashes =>
    if pool.existsTx txin.prevout.hash then
      let parentHashes := insertSet hashRank txin.prevout.hash parentHashes
      if exceeds limits.limitAncestorCount (parentHashes.length + 1) then
        .error ("too many unconfirmed parents [limit: " ++ limitText limits.limitAncestorCount ++ "]")
      else searchForParents pool limits rest parentHashes
    else searchForParents pool limits rest parentHashes

def stageParents (limits : PackageLimits) (setAncestors : List Uint256) :
    (parents : List Uint256) → (parentHashes : List Uint256) → Except String (List Uint256)
  | [], parentHashes => .ok parentHashes
  | phash :: rest, parentHashes =>
    let staged := if phash ∈ setAncestors then parentHashes else insertSet hashRank phash parentHashes
    if exceeds limits.limitAncestorCount (staged.length + setAncestors.length + 1) then
      .error ("too many unconfirmed ancestors [limit: " ++ limitText limits.limitAncestorCount ++ "]")
    else stageParents limits setAncestors rest staged

/-- The check of one ancestor against the limits of its own package and of the new one. -/
def checkLimits (limits : PackageLimits) (nTxSize : Nat) (stageit : Uint256)
    (ancestor : CTxMemPoolEntry) (totalSizeWithAncestors : Int) : Except String Unit :=
  if exceeds limits.limitDescendantSize (ancestor.nSizeWithDescendants + nTxSize) then
    .error ("exceeds descendant size limit for tx " ++ toString stageit.toNat ++ " [limit: " ++
      limitText limits.limitDescendantSize ++ "]")
  else if exceeds limits.limitDescendantCount (ancestor.nCountWithDescendants + 1) then
    .error ("too many descendants for tx " ++ toString stageit.toNat ++ " [limit: " ++
      limitText limits.limitDescendantCount ++ "]")
  else if exceeds limits.limitAncestorSize totalSizeWithAncestors then
    .error ("exceeds ancestor size limit [limit: " ++ limitText limits.limitAncestorSize ++ "]")
  else .ok ()

def ancestorsLoop (pool : CTxMemPool) (limits : PackageLimits) (nTxSize : Nat) :
    (fuel : Nat) → (parentHashes setAncestors : List Uint256) → (totalSizeWithAncestors : Int) →
      Except String (List Uint256)
  | 0, _, setAncestors, _ => .ok setAncestors
  | fuel + 1, parentHashes, setAncestors, totalSizeWithAncestors =>
    match parentHashes with
    | [] => .ok setAncestors
    | stageit :: parentHashes =>
      match pool.mapTx.lookup stageit with
      | none => ancestorsLoop pool limits nTxSize fuel parentHashes setAncestors totalSizeWithAncestors
      | some ancestor => do
          let setAncestors := insertSet hashRank stageit setAncestors
          let total := totalSizeWithAncestors + ancestor.nTxSize
          checkLimits limits nTxSize stageit ancestor total
          let parentHashes ← stageParents limits setAncestors (pool.getMemPoolParents stageit)
            parentHashes
          ancestorsLoop pool limits nTxSize fuel parentHashes setAncestors total

variable (entry : CTxMemPoolEntry)

def calculateMemPoolAncestors (limits : PackageLimits) (fSearchForParents : Bool) :
    Except String (List Uint256) := do
  let parentHashes ←
    if fSearchForParents then searchForParents pool limits entry.tx.vin []
    else .ok (pool.getMemPoolParents entry.tx.hash)
  ancestorsLoop pool limits entry.nTxSize pool.size parentHashes [] entry.nTxSize

def allAncestors (fSearchForParents : Bool) : List Uint256 :=
  match pool.calculateMemPoolAncestors entry {} fSearchForParents with
  | .ok setAncestors => setAncestors
  | .error _ => []

/-- Adds an entry and its descendants to a set that has the descendants of all its members. -/
def calculateDescendants (setDescendants : List Uint256) (entryit : Uint256) : List Uint256 :=
  explore hashRank pool.getMemPoolChildren pool.size (if entryit ∈ setDescendants then [] else [entryit])
    setDescendants

def updateAncestorsOf (add : Bool) (it : Uint256) (setAncestors : List Uint256) : CTxMemPool :=
  match pool.mapTx.lookup it with
  | none => pool
  | some entry =>
    let linked :=
      (pool.getMemPoolParents it).foldl (fun pool piter => pool.updateChild piter it add) pool
    let updateCount : Int := if add then 1 else -1
    linked.modifyEach (updateDescendantState (updateCount * entry.nTxSize)
      (wrap64 (updateCount * entry.getModifiedFee)) updateCount) setAncestors

def updateEntryForAncestors (it : Uint256) (setAncestors : List Uint256) : CTxMemPool :=
  pool.modify (updateAncestorState (pool.sumOver (fun entry => entry.nTxSize) setAncestors)
    (wrap64 (pool.sumOver getModifiedFee setAncestors)) setAncestors.length
    (pool.sumOver (fun entry => entry.sigOpCount) setAncestors)) it

def insertNew {κ β : Type} [DecidableEq κ] (table : Table κ β) (key : κ) (value : β) : Table κ β :=
  if (table.lookup key).isSome then table else table.insert key value

/-- Insertion into the map, with the fee delta that may be waiting for the transaction. -/
def insertEntry : CTxMemPool :=
  let hash := entry.tx.hash
  let inserted : CTxMemPool := { pool with
    mapTx := insertNew pool.mapTx hash entry
    mapLinks := insertNew pool.mapLinks hash {} }
  match pool.mapDeltas.lookup hash with
  | none => inserted
  | some delta => if delta = 0 then inserted else inserted.modify (updateFeeDelta delta) hash

def insertSpends (tx : CTransaction) : CTxMemPool :=
  if tx.hasZerocoinSpendInputs then pool
  else
    { pool with
      mapNextTx :=
        tx.vin.foldl (fun spent input => insertNew spent input.prevout tx) pool.mapNextTx }

def linkParents (tx : CTransaction) : CTxMemPool :=
  if tx.hasZerocoinSpendInputs then pool
  else (insertAll hashRank (tx.vin.map fun input => input.prevout.hash) []).foldl
    (fun pool phash => if pool.existsTx phash then pool.updateParent tx.hash phash true else pool) pool

def insertNullifiers (tx : CTransaction) : CTxMemPool :=
  if tx.isShieldedTx then
    let spent :=
      tx.shieldedSpends.foldl (fun spent sd => spent.insert sd.nullifier tx)
      pool.mapSaplingNullifiers
    { pool with mapSaplingNullifiers := spent }
  else pool

def addUnchecked (setAncestors : List Uint256) : CTxMemPool :=
  let tx := entry.tx
  let linked := ((pool.insertEntry entry).insertSpends tx).linkParents tx
  let counted :=
    (linked.updateAncestorsOf true tx.hash setAncestors).updateEntryForAncestors
    tx.hash setAncestors
  counted.insertNullifiers tx

def addUncheckedAlone : CTxMemPool :=
  pool.addUnchecked entry (pool.allAncestors entry true)

def removeUnchecked (it : Uint256) : CTxMemPool :=
  match pool.mapTx.lookup it with
  | none => pool
  | some entry =>
    { pool with
      mapNextTx := entry.tx.vin.foldl (fun spent input => spent.erase input.prevout) pool.mapNextTx
      mapSaplingNullifiers :=
        if entry.tx.isShieldedTx then
          entry.tx.shieldedSpends.foldl (fun spent sd => spent.erase sd.nullifier)
            pool.mapSaplingNullifiers
        else pool.mapSaplingNullifiers
      mapLinks := pool.mapLinks.erase it
      mapTx := pool.mapTx.erase it }

def updateChildrenForRemoval (it : Uint256) : CTxMemPool :=
  (pool.getMemPoolChildren it).foldl (fun pool updateIt => pool.updateParent updateIt it false) pool

def updateDescendantsForRemoval (removeIt : Uint256) : CTxMemPool :=
  match pool.mapTx.lookup removeIt with
  | none => pool
  | some entry =>
    pool.modifyEach (updateAncestorState (-entry.nTxSize) (wrap64 (-entry.getModifiedFee)) (-1)
      (-entry.sigOpCount)) ((pool.calculateDescendants [] removeIt).erase removeIt)

def updateAncestorsForRemoval (removeIt : Uint256) : CTxMemPool :=
  match pool.mapTx.lookup removeIt with
  | none => pool
  | some entry => pool.updateAncestorsOf false removeIt (pool.allAncestors entry false)

def updateForRemoveFromMempool (entriesToRemove : List Uint256) (updateDescendants : Bool) :
    CTxMemPool :=
  let pool := if updateDescendants then entriesToRemove.foldl updateDescendantsForRemoval pool
    else pool
  let pool := entriesToRemove.foldl updateAncestorsForRemoval pool
  entriesToRemove.foldl updateChildrenForRemoval pool

def removeStaged (stage : List Uint256) (updateDescendants : Bool) : CTxMemPool :=
  stage.foldl removeUnchecked (pool.updateForRemoveFromMempool stage updateDescendants)

variable (tx : CTransaction)

def spendersOf : List Uint256 :=
  (List.range tx.vout.length).foldl (fun set i =>
    match pool.mapNextTx.lookup ⟨tx.hash, i⟩ with
    | none => set
    | some spender => insertSet hashRank spender.hash set) []

def removeRecursive (origTx : CTransaction) : CTxMemPool :=
  let txToRemove := if pool.existsTx origTx.hash then [origTx.hash] else pool.spendersOf origTx
  pool.removeStaged (txToRemove.foldl pool.calculateDescendants []) false

def clearPrioritisation (hash : Uint256) : CTxMemPool :=
  { pool with mapDeltas := pool.mapDeltas.erase hash }

def removeConflict : Option CTransaction → CTxMemPool
  | none => pool
  | some txConflict =>
    if txConflict.hash = tx.hash then pool
    else (pool.removeRecursive txConflict).clearPrioritisation txConflict.hash

def removeConflicts : CTxMemPool :=
  let pool := tx.vin.foldl (fun pool txin =>
    pool.removeConflict tx (pool.mapNextTx.lookup txin.prevout)) pool
  if tx.isShieldedTx then
    tx.shieldedSpends.foldl (fun pool sd =>
      pool.removeConflict tx (pool.mapSaplingNullifiers.lookup sd.nullifier)) pool
  else pool

def removeForBlockTx : CTxMemPool :=
  let removed := if pool.existsTx tx.hash then pool.removeStaged [tx.hash] true else pool
  (removed.removeConflicts tx).clearPrioritisation tx.hash

def removeForBlock (vtx : List CTransaction) : CTxMemPool := vtx.foldl removeForBlockTx pool

def spendsAnchor (invalidRoot : Uint256) (tx : CTransaction) : Bool :=
  tx.isShieldedTx && tx.shieldedSpends.any fun sd => sd.anchor == invalidRoot

def transactions : List CTransaction := pool.mapTx.entries.map fun entry => entry.2.tx

def removeWithAnchor (invalidRoot : Uint256) : CTxMemPool :=
  (pool.transactions.filter (spendsAnchor invalidRoot)).foldl removeRecursive pool

def removeEntries (property : CTxMemPoolEntry → Bool) : CTxMemPool :=
  let txToRemove := (pool.mapTx.entries.filter fun entry => property entry.2).map fun entry =>
    entry.1
  pool.removeStaged ((insertAll hashRank txToRemove []).foldl pool.calculateDescendants []) false

def expire (time : Int) : CTxMemPool := pool.removeEntries fun entry => decide (entry.nTime < time)

end

/-- What trimming asks of the pool: its memory usage, and the entry with the lowest score. -/
structure TrimPolicy where
  dynamicMemoryUsage : CTxMemPool → Nat
  lowestScore : CTxMemPool → Option Uint256

def trimLoop (policy : TrimPolicy) (sizelimit : Nat) : (fuel : Nat) → CTxMemPool → CTxMemPool
  | 0, pool => pool
  | fuel + 1, pool =>
    if policy.dynamicMemoryUsage pool ≤ sizelimit then pool
    else
      match policy.lowestScore pool with
      | none => pool
      | some it =>
        trimLoop policy sizelimit fuel (pool.removeStaged (pool.calculateDescendants [] it) false)

def trimToSize (policy : TrimPolicy) (pool : CTxMemPool) (sizelimit : Nat) : CTxMemPool :=
  trimLoop policy sizelimit pool.size pool

variable (pool : CTxMemPool)

def clear : CTxMemPool := { pool with mapLinks := ∅, mapTx := ∅, mapNextTx := ∅ }

def prioritiseTransaction (hash : Uint256) (nFeeDelta : Int) : CTxMemPool :=
  let delta := wrap64 ((pool.mapDeltas.lookup hash).getD 0 + nFeeDelta)
  let noted : CTxMemPool := { pool with mapDeltas := pool.mapDeltas.insert hash delta }
  match noted.mapTx.lookup hash with
  | none => noted
  | some entry =>
    let updated := noted.modify (updateFeeDelta delta) hash
    updated.modifyEach (updateDescendantState 0 nFeeDelta 0) (updated.allAncestors entry false)

/-- The cache of `UpdateTransactionsFromBlock`: descendants outside the block. -/
abbrev CacheMap := Table Uint256 (List Uint256)

def updateForDescendants (updateIt : Uint256) (cachedDescendants : CacheMap)
    (setExclude : List Uint256) : CTxMemPool × CacheMap :=
  match pool.mapTx.lookup updateIt with
  | none => (pool, cachedDescendants)
  | some entry =>
    let setAllDescendants :=
      exploreCached hashRank pool.getMemPoolChildren cachedDescendants.lookup pool.size
      (pool.getMemPoolChildren updateIt) []
    let counted := setAllDescendants.filter fun cit => decide (cit ∉ setExclude)
    let updated :=
      pool.modifyEach (updateAncestorState entry.nTxSize entry.getModifiedFee 1 entry.sigOpCount)
      counted
    (updated.modify (updateDescendantState (pool.sumOver (fun entry => entry.nTxSize) counted)
        (wrap64 (pool.sumOver getModifiedFee counted)) counted.length) updateIt,
      if counted.isEmpty then cachedDescendants
      else cachedDescendants.insert updateIt
        (insertAll hashRank counted ((cachedDescendants.lookup updateIt).getD [])))

def childrenFromIndex (hash : Uint256) : List Uint256 :=
  insertAll hashRank ((pool.mapNextTx.entries.filter fun spent => spent.1.hash == hash).map
    fun spent => spent.2.hash) []

def linkChildren (setAlreadyIncluded : List Uint256) (hash : Uint256) : CTxMemPool :=
  (pool.childrenFromIndex hash).foldl (fun pool childHash =>
    if childHash ∈ setAlreadyIncluded then pool
    else (pool.updateChild hash childHash true).updateParent childHash hash true) pool

def updateTransactionFromBlock (setAlreadyIncluded : List Uint256) (state : CTxMemPool × CacheMap)
    (hash : Uint256) :
    CTxMemPool × CacheMap :=
  if state.1.existsTx hash then
    (state.1.linkChildren setAlreadyIncluded hash).updateForDescendants hash state.2 setAlreadyIncluded
  else state

def updateTransactionsFromBlock (vHashesToUpdate : List Uint256) : CTxMemPool :=
  (vHashesToUpdate.reverse.foldl (updateTransactionFromBlock vHashesToUpdate) (pool, ∅)).1

end CTxMemPool

end Deviant.Mempool
