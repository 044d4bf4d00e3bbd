import Deviant.BlockIndex.Ancestors
import Mathlib.Data.Prod.Lex
import Mathlib.Data.List.MinMax
import Mathlib.Order.Nat

namespace Deviant.BlockIndex

open Data Primitives CBlockIndex

/-! The order of the candidates, and what of an entry it and the walks along the tree depend on. -/

namespace BlockTree

variable {env : IndexEnv} {tree before : BlockTree} {pindex : Uint256}

def rank (env : IndexEnv) (tree : BlockTree) (pindex : Uint256) : ℕ ×ₗ ℕᵒᵈ ×ₗ ℕᵒᵈ :=
  toLex ((tree.deref pindex).nChainWork,
    toLex (OrderDual.toDual (tree.deref pindex).nSequenceId, OrderDual.toDual (env.address pindex)))

theorem lessWork_iff : tree.lessWork env a b = true ↔ tree.rank env a < tree.rank env b := by
  unfold rank lessWork
  simp only [Prod.Lex.toLex_lt_toLex, OrderDual.toDual_lt_toDual, EmbeddingLike.apply_eq_iff_eq]
  split
  · simp only [Bool.false_eq_true, false_iff]
    omega
  · split
    · simp only [true_iff]
      omega
    · split
      · simp only [Bool.false_eq_true, false_iff]
        omega
      · split
        · simp only [true_iff]
          omega
        · simp only [decide_eq_true_eq]
          omega

theorem not_lessWork_iff : (!tree.lessWork env a b) = true ↔ tree.rank env b ≤ tree.rank env a := by
  rw [Bool.not_eq_true', ← Bool.not_eq_true, lessWork_iff, not_lt]

theorem bestCandidate_eq_argmax :
    tree.bestCandidate env = tree.setBlockIndexCandidates.argmax (tree.rank env) := by
  unfold bestCandidate List.argmax
  congr 1
  funext best pindex
  cases best with
  | none => rfl
  | some best => simp [List.argAux, lessWork_iff]

def bare (entry : CBlockIndex) : CBlockIndex :=
  { entry with
    nStatus := { haveData := entry.nStatus.haveData }
    nUndoPos := 0 }

def Alike (before tree : BlockTree) : Prop :=
  ∀ pindex, (tree.mapBlockIndex.lookup pindex).map bare = (before.mapBlockIndex.lookup pindex).map bare

theorem Alike.refl (tree : BlockTree) : Alike tree tree := fun _ => rfl

theorem Alike.trans (first : Alike before middle) (second : Alike middle tree) :
    Alike before tree :=
  fun pindex => (second pindex).trans (first pindex)

section

variable (alike : Alike before tree)

include alike

variable (pindex : Uint256)

theorem Alike.bare_deref : bare (tree.deref pindex) = bare (before.deref pindex) := by
  have same := alike pindex
  unfold deref
  cases left : tree.mapBlockIndex.lookup pindex <;> cases right :
    before.mapBlockIndex.lookup pindex <;> simp_all

theorem Alike.field (read : CBlockIndex → β) (stays : ∀ entry, read (bare entry) = read entry)
    (pindex : Uint256) :
    read (tree.deref pindex) = read (before.deref pindex) := by
  rw [← stays, alike.bare_deref, stays]

theorem Alike.known :
    (tree.mapBlockIndex.lookup pindex).isSome = (before.mapBlockIndex.lookup pindex).isSome := by
  have same := congrArg Option.isSome (alike pindex)
  simpa using same

theorem Alike.parentOf : tree.parentOf = before.parentOf :=
  funext (alike.field pprev fun _ => rfl)

theorem Alike.heightOf : tree.heightOf = before.heightOf :=
  funext (alike.field nHeight fun _ => rfl)

theorem Alike.nChainTx : (tree.deref pindex).nChainTx = (before.deref pindex).nChainTx :=
  alike.field CBlockIndex.nChainTx (fun _ => rfl) pindex

theorem Alike.haveData : (tree.statusOf pindex).haveData = (before.statusOf pindex).haveData :=
  alike.field (fun entry => entry.nStatus.haveData) (fun _ => rfl) pindex

theorem Alike.rank : tree.rank env = before.rank env := by
  funext pindex
  unfold BlockTree.rank
  rw [alike.field nChainWork fun _ => rfl, alike.field nSequenceId fun _ => rfl]

theorem Alike.shaped (shaped : before.Shaped forest) : tree.Shaped forest where
  parentOf := alike.parentOf.trans shaped.parentOf
  heightOf := alike.heightOf.trans shaped.heightOf
  rooted := shaped.rooted
  pskip pindex pprev own :=
    (alike.field pskip (fun _ => rfl) pindex).trans (shaped.pskip pindex pprev own)

end

theorem alike_setEntry (known : (tree.mapBlockIndex.lookup pindex).isSome = true)
    (same : bare entry = bare (tree.deref pindex)) : Alike tree (tree.setEntry pindex entry) := by
  intro other
  unfold setEntry
  rw [Table.lookup_insert_eq]
  split
  · next equal =>
    obtain ⟨old, found⟩ := Option.isSome_iff_exists.mp known
    rw [equal, found, Option.map_some, Option.map_some, same, deref_of_lookup found]
  · rfl

theorem deref_setEntry :
    (tree.setEntry pindex entry).deref other = if other = pindex then entry
      else tree.deref other := by
  unfold deref setEntry
  rw [Table.lookup_insert_eq]
  split <;> rfl

end BlockTree

end Deviant.BlockIndex
