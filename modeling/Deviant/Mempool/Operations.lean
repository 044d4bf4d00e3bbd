import Deviant.Mempool.Access

namespace Deviant.Mempool

open Primitives

/-! The operations on the pool, what their callers see to before they call them, and the pools that
sequences of them lead to. -/

def CTxMemPool.Holds (pool : CTxMemPool) (tx : CTransaction) : Prop :=
  (pool.mapTx.lookup tx.hash).map (fun entry => entry.tx) = some tx

instance (pool : CTxMemPool) (tx : CTransaction) : Decidable (pool.Holds tx) :=
  inferInstanceAs (Decidable (_ = _))

def outpoints (tx : CTransaction) : List COutPoint := tx.vin.map fun txin => txin.prevout

def nullifiers (tx : CTransaction) : List Uint256 :=
  if tx.isShieldedTx then tx.shieldedSpends.map fun sd => sd.nullifier else []

def SpendsFrom (tx : CTransaction) (parent : Uint256) :
    Prop := ∃ outpoint ∈ outpoints tx, outpoint.hash = parent

instance (tx : CTransaction) (parent : Uint256) : Decidable (SpendsFrom tx parent) :=
  inferInstanceAs (Decidable (∃ outpoint ∈ outpoints tx, outpoint.hash = parent))

def CTxMemPool.Spends (pool : CTxMemPool) (child parent : Uint256) : Prop :=
  (∃ tx, pool.Holds tx ∧ tx.hash = child ∧ SpendsFrom tx parent) ∧ pool.existsTx parent = true

inductive Operation where
  /-- `addUnchecked` with the ancestors that were calculated under these limits. -/
  | addUnchecked (entry : CTxMemPoolEntry) (limits : CTxMemPool.PackageLimits)
  /-- Transactions of a disconnected block, followed by `UpdateTransactionsFromBlock`. -/
  | addFromBlock (entries : List CTxMemPoolEntry)
  | removeRecursive (tx : CTransaction)
  | removeForBlock (vtx : List CTransaction)
  | removeWithAnchor (invalidRoot : Uint256)
  | expire (time : Int)
  | trimToSize (policy : CTxMemPool.TrimPolicy) (sizelimit : Nat)
  | prioritiseTransaction (hash : Uint256) (nFeeDelta : Int)
  | clear

namespace CTxMemPool

def addWithin (pool : CTxMemPool) (limits : PackageLimits) (entry : CTxMemPoolEntry) : CTxMemPool :=
  match pool.calculateMemPoolAncestors entry limits true with
  | .ok setAncestors => pool.addUnchecked entry setAncestors
  | .error _ => pool

def addFromBlock (pool : CTxMemPool) (entries : List CTxMemPoolEntry) : CTxMemPool :=
  (entries.foldl addUncheckedAlone pool).updateTransactionsFromBlock (entries.map fun entry =>
    entry.tx.hash)

end CTxMemPool

variable (pool : CTxMemPool)

def Operation.run : Operation → CTxMemPool
  | addUnchecked entry limits => pool.addWithin limits entry
  | addFromBlock entries => pool.addFromBlock entries
  | removeRecursive tx => pool.removeRecursive tx
  | removeForBlock vtx => pool.removeForBlock vtx
  | removeWithAnchor invalidRoot => pool.removeWithAnchor invalidRoot
  | expire time => pool.expire time
  | trimToSize policy sizelimit => CTxMemPool.trimToSize policy pool sizelimit
  | prioritiseTransaction hash nFeeDelta => pool.prioritiseTransaction hash nFeeDelta
  | clear => pool.clear

/-! `addUnchecked` is used by `AcceptToMemoryPool`, "which DOES do all the appropriate checks": it
turns away transactions with zerocoins, those that are in the pool already, and those that conflict
with one of it; and what a transaction spends has to be there before it. -/

/-- A new transaction that is not in conflict with the pool. -/
structure NonConflicting (entry : CTxMemPoolEntry) : Prop where
  noZerocoins : entry.tx.hasZerocoinSpendInputs = false
  fresh : pool.existsTx entry.tx.hash = false
  unspent : ∀ tx, pool.Holds tx → ∀ outpoint ∈ outpoints entry.tx, outpoint ∉ outpoints tx
  unrevealed : ∀ tx, pool.Holds tx → ∀ nullifier ∈ nullifiers entry.tx, nullifier ∉ nullifiers tx

/-- Its entry is as the constructor built it, and the transaction does not spend from itself. -/
structure Admissible (entry : CTxMemPoolEntry) : Prop extends NonConflicting pool entry where
  built : ∃ tx nFee nTime nTxSize sigOpCount spendsCoinbaseOrCoinstake, wrap64 nFee = nFee ∧
    entry = .new tx nFee nTime nTxSize sigOpCount spendsCoinbaseOrCoinstake
  notOwnParent : ¬ SpendsFrom entry.tx entry.tx.hash

/-- The entries of a disconnected block come back one after the other, each of them admitted to the
pool with those before it. -/
def Batch (admitted : CTxMemPool → List Uint256 → CTxMemPoolEntry → Prop) (pool : CTxMemPool)
    (earlier : List Uint256) : List CTxMemPoolEntry → Prop
  | [] => True
  | entry :: entries =>
    admitted pool earlier entry ∧ Batch admitted (pool.addUncheckedAlone entry)
      (entry.tx.hash :: earlier) entries

/-- What a transaction of a block spends was confirmed with it or before it, so that its parents in
the pool are among those that came back before it, and none of them is its child. -/
structure AdmissibleFromBlock (earlier : List Uint256) (entry : CTxMemPoolEntry) : Prop
    extends Admissible pool entry where
  childrenLater : ∀ tx, pool.Holds tx → tx.hash ∈ earlier → ¬ SpendsFrom tx entry.tx.hash
  parentsEarlier : ∀ parent, pool.existsTx parent → SpendsFrom entry.tx parent → parent ∈ earlier

/-- The transactions of a block in their order: what they spend was confirmed with them or before
them, so that their parents in the pool come before them in the block. -/
def BlockOrdered (earlier : List Uint256) : List CTransaction → Prop
  | [] => True
  | tx :: vtx =>
    (∀ parent, pool.existsTx parent → SpendsFrom tx parent → parent ∈ earlier) ∧
    BlockOrdered (tx.hash :: earlier) vtx

def Identified (vtx : List CTransaction) : Prop :=
  ∀ tx ∈ vtx, pool.existsTx tx.hash → pool.Holds tx

def Legal : Operation → Prop
  | .addUnchecked entry _ => Admissible pool entry ∧ ∀ tx, pool.Holds tx →
    ¬ SpendsFrom tx entry.tx.hash
  | .addFromBlock entries => Batch AdmissibleFromBlock pool [] entries
  | .removeForBlock vtx => BlockOrdered pool [] vtx ∧ Identified pool vtx
  | _ => True

/-- The pools that operations lead to from the empty pool, each of them allowed where it is used. -/
inductive Reached (allowed : CTxMemPool → Operation → Prop) : CTxMemPool → Prop where
  | empty : Reached allowed {}
  | step {pool : CTxMemPool} {operation : Operation} (before : Reached allowed pool)
      (legal : allowed pool operation) : Reached allowed (operation.run pool)

end Deviant.Mempool
