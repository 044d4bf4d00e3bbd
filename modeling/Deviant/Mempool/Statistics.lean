import Mathlib.Algebra.BigOperators.Group.Finset.Basic
import Deviant.Mempool.LinkUpdates

namespace Deviant.Mempool

open Primitives Relation CTxMemPoolEntry CTxMemPool

/-! Statistics of packages.  Number, size, fees and signature operations are kept in the same way,
up to the overflow of fees, so that what an operation does to a package is shown for all of them at
once. -/

inductive Direction where
  | ancestors
  | descendants
deriving DecidableEq

namespace Direction

def update : Direction → (size fee count sigOps : Int) → CTxMemPoolEntry → CTxMemPoolEntry
  | ancestors, size, fee, count, sigOps => updateAncestorState size fee count sigOps
  | descendants, size, fee, count, _ => updateDescendantState size fee count

def opposite : Direction → Direction
  | ancestors => descendants
  | descendants => ancestors

def steps (spends : Uint256 → Uint256 → Prop) : Direction → Uint256 → Uint256 → Prop
  | ancestors => spends
  | descendants => Function.swap spends

end Direction

/-- A statistic that entries keep of their packages in a direction: what an entry contributes, where
the sum is kept, and which part of an update concerns it. -/
structure Statistic (direction : Direction) where
  own : CTxMemPoolEntry → Int
  total : CTxMemPoolEntry → Int
  change : (size fee count sigOps : Int) → Int
  round : Int → Int := id
  own_core : ∀ entry, own entry = own entry.core := by intros; rfl
  round_add : ∀ a b, round (round a + b) = round (a + b) := by intros; rfl
  total_update : ∀ size fee count sigOps entry,
    total (direction.update size fee count sigOps entry) =
    round (total entry + change size fee count sigOps) := by
      intros; rfl
  total_other : ∀ size fee count sigOps entry,
    total (direction.opposite.update size fee count sigOps entry) = total entry := by intros; rfl
  change_add : ∀ size fee count sigOps size' fee' count' sigOps',
    change (size + size') (fee + fee') (count + count') (sigOps + sigOps') =
      change size fee count sigOps + change size' fee' count' sigOps' := by intros; rfl
  change_own : ∀ entry, change entry.nTxSize entry.getModifiedFee 1 entry.sigOpCount =
    own entry := by intros; rfl
  change_wrap : ∀ a size fee count sigOps,
    round (a + change size (wrap64 fee) count sigOps) =
    round (a + change size fee count sigOps) := by intros; rfl
  total_new : ∀ tx nFee nTime nTxSize sigOpCount spendsCoinbaseOrCoinstake delta, wrap64 nFee = nFee →
    total ((new tx nFee nTime nTxSize sigOpCount spendsCoinbaseOrCoinstake).prioritised delta) =
      round (own
        ((new tx nFee nTime nTxSize sigOpCount spendsCoinbaseOrCoinstake).prioritised delta)) := by
      intros
      unfold prioritised
      split <;> rfl

namespace Statistic

def countWithAncestors : Statistic .ancestors where
  own _ := 1
  total := nCountWithAncestors
  change _ _ count _ := count

def countWithDescendants : Statistic .descendants where
  own _ := 1
  total := nCountWithDescendants
  change _ _ count _ := count

def sizeWithAncestors : Statistic .ancestors where
  own entry := entry.nTxSize
  total := nSizeWithAncestors
  change size _ _ _ := size

def sizeWithDescendants : Statistic .descendants where
  own entry := entry.nTxSize
  total := nSizeWithDescendants
  change size _ _ _ := size

def sigOpCountWithAncestors : Statistic .ancestors where
  own entry := entry.sigOpCount
  total := nSigOpCountWithAncestors
  change _ _ _ sigOps := sigOps

theorem wrap64_wrap64 : wrap64 (wrap64 value) = wrap64 value := Int.bmod_bmod

theorem total_new_fee {total : CTxMemPoolEntry → Int} {delta : Int}
    (alone : total entry = entry.nFee) (noDelta : entry.feeDelta = 0)
    (bounded : wrap64 entry.nFee = entry.nFee)
    (updated : total (entry.updateFeeDelta delta) =
      wrap64 (total entry + wrap64 (delta - entry.feeDelta))) :
    total (entry.prioritised delta) = wrap64 (entry.prioritised delta).getModifiedFee := by
  unfold prioritised
  split
  · rw [getModifiedFee, alone, noDelta, Int.add_zero, bounded, bounded]
  · have fee : (entry.updateFeeDelta delta).getModifiedFee = wrap64 (entry.nFee + delta) := rfl
    rw [updated, alone, noDelta, Int.sub_zero, wrap64_add_wrap64, fee, wrap64_wrap64]

def modFeesWithAncestors : Statistic .ancestors where
  own := getModifiedFee
  total := nModFeesWithAncestors
  change _ fee _ _ := fee
  round := wrap64
  round_add := wrap64_wrap64_add
  change_wrap a _ fee _ _ := wrap64_add_wrap64 a fee
  total_new _ _ _ _ _ _ _ bounded := total_new_fee rfl rfl bounded rfl

def modFeesWithDescendants : Statistic .descendants where
  own := getModifiedFee
  total := nModFeesWithDescendants
  change _ fee _ _ := fee
  round := wrap64
  round_add := wrap64_wrap64_add
  change_wrap a _ fee _ _ := wrap64_add_wrap64 a fee
  total_new _ _ _ _ _ _ _ bounded := total_new_fee rfl rfl bounded rfl

variable {direction : Direction} (stat : Statistic direction)

theorem change_zero : stat.change 0 0 0 0 = 0 := by
  have twice := stat.change_add 0 0 0 0 0 0 0 0
  simp only [Int.add_zero] at twice
  omega

theorem change_neg (size : Int) :
    stat.change (-size) (-fee) (-count) (-sigOps) = -stat.change size fee count sigOps := by
  have cancelled := stat.change_add size fee count sigOps (-size) (-fee) (-count) (-sigOps)
  simp only [Int.add_right_neg, stat.change_zero] at cancelled
  omega

theorem change_leaving :
    stat.round (a + stat.change (-entry.nTxSize) (wrap64 (-entry.getModifiedFee)) (-1)
      (-entry.sigOpCount)) =
      stat.round (a - stat.own entry) := by
  rw [stat.change_wrap, stat.change_neg, stat.change_own, Int.sub_eq_add_neg]

theorem change_sum (pool : CTxMemPool) (set : List Uint256)
    (present : ∀ hash ∈ set, pool.existsTx hash = true) :
    stat.round (a + stat.change (pool.sumOver (fun entry => entry.nTxSize) set)
        (wrap64 (pool.sumOver getModifiedFee set)) set.length
        (pool.sumOver (fun entry => entry.sigOpCount) set)) =
      stat.round (a + pool.sumOver stat.own set) := by
  rw [stat.change_wrap]
  congr 2
  induction set with
  | nil => exact stat.change_zero
  | cons hash set ih =>
    obtain ⟨entry, found⟩ := Option.isSome_iff_exists.mp (present hash List.mem_cons_self)
    have rest := ih (List.forall_mem_cons.mp present).2
    have step (value : CTxMemPoolEntry → Int) :
        pool.sumOver value (hash :: set) = value entry + pool.sumOver value set := by
      simp [sumOver, found]
    have length : ((hash :: set).length : Int) = 1 + set.length := by
      rw [List.length_cons]
      omega
    rw [step, step, step, step, length, stat.change_add, stat.change_own, rest]

end Statistic

section Updates

variable {pool : CTxMemPool}

theorem mapTx_updateAncestorsOf (found : pool.mapTx.lookup it = some entry) (add : Bool)
    (setAncestors : List Uint256) :
    (pool.updateAncestorsOf add it setAncestors).mapTx =
      (pool.modifyEach (Direction.descendants.update ((if add then 1 else -1) * entry.nTxSize)
        (wrap64 ((if add then 1 else -1) * entry.getModifiedFee)) (if add then 1 else -1)
        ((if add then 1 else -1) * entry.sigOpCount)) setAncestors).mapTx := by
  have linked :
      ((pool.getMemPoolParents it).foldl (fun pool piter => pool.updateChild piter it add)
        pool).mapTx = pool.mapTx := by
    apply foldl_project mapTx
    intro pool piter
    rfl
  simp only [updateAncestorsOf, found]
  exact modifyEach_mapTx_congr linked

variable {direction : Direction} (stat : Statistic direction)

theorem Statistic.change_leaving_mul :
    stat.round (a + stat.change (-1 * entry.nTxSize) (wrap64 (-1 * entry.getModifiedFee)) (-1)
        (-1 * entry.sigOpCount)) = stat.round (a - stat.own entry) := by
  simp only [Int.neg_mul, Int.one_mul]
  exact stat.change_leaving

end Updates

section Totals

variable {direction : Direction} {stat : Statistic direction} {pool : CTxMemPool}
  {members : Uint256 → Finset Uint256} {own : Uint256 → Int} {size fee count sigOps : Int}
  {set : List Uint256}

def CountedOver (stat : Statistic direction) (pool : CTxMemPool)
    (members : Uint256 → Finset Uint256) (own : Uint256 → Int) : Prop :=
  ∀ hash entry, pool.mapTx.lookup hash = some entry →
    stat.total entry = stat.round (∑ y ∈ members hash, own y)

variable (counted : CountedOver stat pool members own)

include counted

theorem CountedOver.congr (total : ∀ hash entry, next.mapTx.lookup hash = some entry →
      ∃ old, pool.mapTx.lookup hash = some old ∧ stat.total entry = stat.total old)
    (same : ∀ hash, next.existsTx hash = true → others hash = members hash) :
    CountedOver stat next others own := by
  intro hash entry found
  obtain ⟨old, oldFound, unchanged⟩ := total hash entry found
  rw [unchanged, same hash (existsTx_of_lookup found)]
  exact counted hash old oldFound

theorem CountedOver.modifyEach (distinct : set.Nodup) (changed : ∀ hash ∈ set,
      stat.round (∑ y ∈ members hash, own y + stat.change size fee count sigOps) =
      stat.round (∑ y ∈ others hash, own y))
    (kept : ∀ hash, hash ∉ set → others hash = members hash) :
    CountedOver stat (pool.modifyEach (direction.update size fee count sigOps) set) others own := by
  intro hash entry found
  rw [lookup_modifyEach distinct] at found
  split at found
  next member =>
    obtain ⟨old, oldFound, rfl⟩ := Option.map_eq_some_iff.mp found
    rw [stat.total_update, counted hash old oldFound, stat.round_add, changed hash member]
  next other =>
    rw [kept hash other]
    exact counted hash entry found

theorem CountedOver.gain (distinct : set.Nodup)
    (weight : ∀ a, stat.round (a + stat.change size fee count sigOps) = stat.round (a + own it))
    (fresh : ∀ hash ∈ set, it ∉ members hash) :
    CountedOver stat (pool.modifyEach (direction.update size fee count sigOps) set)
      (fun hash => if hash ∈ set then insert it (members hash) else members hash) own := by
  refine counted.modifyEach distinct (fun hash member => ?_) fun hash other => if_neg other
  rw [weight, if_pos member, Finset.sum_insert (fresh hash member), Int.add_comm]

theorem CountedOver.lose (distinct : set.Nodup)
    (weight : ∀ a, stat.round (a + stat.change size fee count sigOps) = stat.round (a - own it))
    (present : ∀ hash ∈ set, it ∈ members hash) :
    CountedOver stat (pool.modifyEach (direction.update size fee count sigOps) set)
      (fun hash => if hash ∈ set then (members hash).erase it else members hash) own := by
  refine counted.modifyEach distinct (fun hash member => ?_) fun hash other => if_neg other
  have sum := Finset.add_sum_erase (members hash) own (present hash member)
  rw [weight, if_pos member]
  congr 1
  omega

theorem CountedOver.other (distinct : set.Nodup) :
    CountedOver stat (pool.modifyEach (direction.opposite.update size fee count sigOps) set)
      members own := by
  apply counted.congr _ fun _ _ => rfl
  intro hash entry found
  rw [lookup_modifyEach distinct] at found
  split at found
  · obtain ⟨old, oldFound, rfl⟩ := Option.map_eq_some_iff.mp found
    exact ⟨old, oldFound, stat.total_other size fee count sigOps old⟩
  · exact ⟨entry, found, rfl⟩

end Totals

open Classical in
noncomputable def CTxMemPool.package (pool : CTxMemPool) (steps : Uint256 → Uint256 → Prop)
    (hash : Uint256) :
    Finset Uint256 := pool.nodes.filter (ReflTransGen steps hash)

theorem CTxMemPool.mem_package {pool : CTxMemPool} {steps : Uint256 → Uint256 → Prop}
    {hash other : Uint256} :
    other ∈ pool.package steps hash ↔ pool.existsTx other = true ∧
      ReflTransGen steps hash other := by
  simp [package, mem_nodes]

def Statistic.ownOf {direction : Direction} (stat : Statistic direction) (pool : CTxMemPool)
    (hash : Uint256) : Int :=
  (pool.mapTx.lookup hash).elim 0 stat.own

def Counted {direction : Direction} (stat : Statistic direction) (pool : CTxMemPool)
    (spends : Uint256 → Uint256 → Prop) : Prop :=
  CountedOver stat pool (pool.package (direction.steps spends)) (stat.ownOf pool)

end Deviant.Mempool
