import Mathlib
import Deviant.Mempool.TxMempool

namespace Deviant.Mempool

open Primitives

/-! The comparators of the ordered indexes of the pool, with the products that the source computes
in floating point read as exact integers. -/

theorem strictWeak_of_key [LinearOrder β] {less : α → α → Prop} (key : α → β)
    (keyed : ∀ a b, less a b ↔ key a < key b) :
    IsStrictWeakOrder α less := by
  have same : less = Function.onFun (· < ·) key := funext₂ fun a b => propext (keyed a b)
  have order : IsStrictWeakOrder β (· < ·) := isStrictWeakOrder_of_isOrderConnected
  rw [same]
  infer_instance

/-- A fraction with what decides between equal ones. -/
def ratioKey (fee size tie : Int) : ℚ ×ₗ Int := toLex ((fee / size : ℚ), tie)

/-- Fractions are compared without a division. -/
theorem ratioKey_lt_iff (positive : 0 < size) (positive' : 0 < size') :
    ratioKey fee size tie < ratioKey fee' size' tie' ↔ if fee * size' = size * fee' then tie < tie'
      else fee * size' < size * fee' := by
  have above : (0 : ℚ) < size := by exact_mod_cast positive
  have above' : (0 : ℚ) < size' := by exact_mod_cast positive'
  have less : (fee / size : ℚ) < fee' / size' ↔ fee * size' < size * fee' := by
    rw [div_lt_div_iff₀ above above', mul_comm (fee' : ℚ)]
    exact_mod_cast Iff.rfl
  have equal : (fee / size : ℚ) = fee' / size' ↔ fee * size' = size * fee' := by
    rw [div_eq_div_iff above.ne' above'.ne', mul_comm (fee' : ℚ)]
    exact_mod_cast Iff.rfl
  rw [ratioKey, ratioKey, Prod.Lex.toLex_lt_toLex, less, equal]
  split
  next same => simp [same]
  next different => simp [different]

namespace CTxMemPoolEntry

structure Sized (entry : CTxMemPoolEntry) : Prop where
  own : 0 < entry.nTxSize
  descendants : 0 < entry.nSizeWithDescendants
  ancestors : 0 < entry.nSizeWithAncestors

def useDescendantScore (a : CTxMemPoolEntry) : Bool :=
  a.nModFeesWithDescendants * a.nTxSize > a.getModifiedFee * a.nSizeWithDescendants

def descendantFee (a : CTxMemPoolEntry) :
    Int := if a.useDescendantScore then a.nModFeesWithDescendants else a.getModifiedFee

def descendantSize (a : CTxMemPoolEntry) :
    Int := if a.useDescendantScore then a.nSizeWithDescendants else a.nTxSize

theorem Sized.descendantSize_pos (sized : Sized a) : 0 < a.descendantSize := by
  unfold descendantSize
  split
  next => exact sized.descendants
  next => exact_mod_cast sized.own

def compareByDescendantScore (a b : CTxMemPoolEntry) : Bool :=
  let f1 := a.descendantFee * b.descendantSize
  let f2 := a.descendantSize * b.descendantFee
  if f1 = f2 then a.nTime ≥ b.nTime else f1 < f2

def compareByScore (a b : CTxMemPoolEntry) : Bool :=
  let f1 := a.getModifiedFee * b.nTxSize
  let f2 := b.getModifiedFee * a.nTxSize
  if f1 = f2 then b.tx.hash < a.tx.hash else f1 > f2

def compareByAncestorFee (a b : CTxMemPoolEntry) : Bool :=
  let f1 := a.nModFeesWithAncestors * b.nSizeWithAncestors
  let f2 := a.nSizeWithAncestors * b.nModFeesWithAncestors
  if f1 = f2 then a.tx.hash < b.tx.hash else f1 > f2

def scoreKey (a : CTxMemPoolEntry) : ℚ ×ₗ Int := ratioKey a.getModifiedFee a.nTxSize a.tx.hash.toNat

def ancestorKey (a : CTxMemPoolEntry) : ℚ ×ₗ Int :=
  ratioKey a.nModFeesWithAncestors a.nSizeWithAncestors (-a.tx.hash.toNat)

def descendantKey (a : CTxMemPoolEntry) :
    ℚ ×ₗ Int := ratioKey a.descendantFee a.descendantSize (-a.nTime)

namespace Sized

variable (sized : Sized a) (sized' : Sized b)
include sized sized'

theorem compareByScore_iff : compareByScore a b ↔ b.scoreKey < a.scoreKey := by
  have own := sized.own
  have own' := sized'.own
  rw [scoreKey, scoreKey, ratioKey_lt_iff (by omega) (by omega), mul_comm (b.nTxSize : Int)]
  by_cases same : a.getModifiedFee * b.nTxSize = b.getModifiedFee * a.nTxSize
  · simp [compareByScore, same, BitVec.lt_def]
  · simp [compareByScore, same, Ne.symm same]

theorem compareByAncestorFee_iff : compareByAncestorFee a b ↔ b.ancestorKey < a.ancestorKey := by
  rw [ancestorKey, ancestorKey, ratioKey_lt_iff sized'.ancestors sized.ancestors,
    mul_comm b.nSizeWithAncestors, mul_comm b.nModFeesWithAncestors]
  by_cases same :
    a.nModFeesWithAncestors * b.nSizeWithAncestors = a.nSizeWithAncestors * b.nModFeesWithAncestors
  · simp [compareByAncestorFee, same, BitVec.lt_def]
  · simp [compareByAncestorFee, same, Ne.symm same]

theorem compareByDescendantScore_iff :
    compareByDescendantScore a b ∧ ¬compareByDescendantScore b a ↔
      a.descendantKey < b.descendantKey := by
  rw [descendantKey, descendantKey,
    ratioKey_lt_iff sized.descendantSize_pos sized'.descendantSize_pos]
  unfold compareByDescendantScore
  rw [mul_comm b.descendantFee, mul_comm b.descendantSize]
  by_cases same : a.descendantFee * b.descendantSize = a.descendantSize * b.descendantFee
  · simpa [same] using le_of_lt
  · simpa [same, Ne.symm same] using le_of_lt

end Sized

theorem compareByDescendantScore_self (a : CTxMemPoolEntry) : compareByDescendantScore a a := by
  simp [compareByDescendantScore, mul_comm]

/-- The descendant score puts each entry before itself, and only its strict part is a strict weak
ordering; the other two are. -/
theorem compare_strictWeak_iff (entries : Set CTxMemPoolEntry)
    (sized : ∀ entry ∈ entries, Sized entry) :
    IsStrictWeakOrder entries (fun a b => compareByScore a b) ∧
      IsStrictWeakOrder entries (fun a b => compareByAncestorFee a b) ∧
      (IsStrictWeakOrder entries (fun a b => compareByDescendantScore a b) ↔ entries = ∅) ∧
      IsStrictWeakOrder entries (fun a b => compareByDescendantScore a b ∧
        ¬compareByDescendantScore b a) := by
  have all (entry : entries) : Sized entry.1 := sized entry entry.2
  refine ⟨?_, ?_, ⟨fun order => ?_, fun empty => ?_⟩, ?_⟩
  · exact strictWeak_of_key (fun entry => OrderDual.toDual entry.1.scoreKey) fun a b =>
      (all a).compareByScore_iff (all b)
  · exact strictWeak_of_key (fun entry => OrderDual.toDual entry.1.ancestorKey) fun a b =>
      (all a).compareByAncestorFee_iff (all b)
  · refine Set.eq_empty_of_forall_notMem fun entry member => ?_
    exact order.irrefl ⟨entry, member⟩ entry.compareByDescendantScore_self
  · subst empty
    exact { irrefl := fun a => a.2.elim, trans := fun a => a.2.elim, incomp_trans := fun a => a.2.elim }
  · exact strictWeak_of_key (fun entry => entry.1.descendantKey) fun a b =>
      (all a).compareByDescendantScore_iff (all b)

def entryOfOneByte (hash : Uint256) : CTxMemPoolEntry :=
  new { hash := hash, nVersion := 1, vin := [], vout := [] } 0 0 1 0 false

theorem sized_entryOfOneByte (hash : Uint256) : (entryOfOneByte hash).Sized :=
  ⟨Nat.one_pos, Int.one_pos, Int.one_pos⟩

/-- Equal fees, so that the hashes decide. -/
theorem compare_strictWeak_tied :
    (compareByScore (entryOfOneByte 256) (entryOfOneByte 1) ∧
      ¬compareByScore (entryOfOneByte 1) (entryOfOneByte 256)) ∧
    (compareByAncestorFee (entryOfOneByte 1) (entryOfOneByte 256) ∧
      ¬compareByAncestorFee (entryOfOneByte 256) (entryOfOneByte 1)) ∧
    IsStrictWeakOrder (Set.range entryOfOneByte) (fun a b => compareByScore a b) ∧
    IsStrictWeakOrder (Set.range entryOfOneByte) (fun a b => compareByAncestorFee a b) := by
  have orders :=
    compare_strictWeak_iff (Set.range entryOfOneByte)
    (Set.forall_mem_range.mpr sized_entryOfOneByte)
  exact ⟨by decide, by decide, orders.1, orders.2.1⟩

theorem compareByDescendantScore_not_strictWeak :
    ¬IsStrictWeakOrder { entry // Sized entry } (fun a b => compareByDescendantScore a b) :=
  fun order => order.irrefl ⟨_, sized_entryOfOneByte 1⟩ (by decide)

end CTxMemPoolEntry

end Deviant.Mempool
