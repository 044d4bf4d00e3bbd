import Deviant.Coins.Observers

namespace Deviant.Coins

open Data Primitives CacheLayer SaplingMerkleTree

/-! The Sapling side of a cache stack: nullifiers, anchors and the best hashes.

An anchor entry that a cache already has keeps its tree when a child is written
back, so the trees in play must be told apart by their roots (`TreesInPlay`). -/

variable {σ : Type} [BaseView σ] [PedersenHash] {Known : SaplingMerkleTree → Prop}

section

variable (Known : SaplingMerkleTree → Prop)

/-- The Merkle hash has no collision, and no null root, among the known trees. -/
structure TreesInPlay : Prop where
  injective : ∀ tree tree', Known tree → Known tree' →
    root tree = root tree' → tree = tree'
  nonnull : ∀ tree, Known tree → root tree ≠ 0

structure AnchorEntryOk (rt : Uint256) (entry : CAnchorsSaplingCacheEntry)
    (beneath : Option SaplingMerkleTree) : Prop where
  known : Known entry.tree
  rooted : root entry.tree = rt
  clean : entry.dirty = false → entry.shown = beneath

def CacheLayer.NullifiersOk (own : CacheLayer) (beneath : Uint256 → Bool) : Prop :=
  ∀ nullifier entry, own.cacheSaplingNullifiers.lookup nullifier = some entry →
    entry.dirty = false → entry.entered = beneath nullifier

def CacheLayer.AnchorsOk (own : CacheLayer) (beneath : Uint256 → Option SaplingMerkleTree) : Prop :=
  ∀ rt entry, own.cacheSaplingAnchors.lookup rt = some entry →
    AnchorEntryOk Known rt entry (beneath rt)

def CCoinsView.SaplingOk : CCoinsView σ → Prop
  | .base view => ∀ rt tree, BaseView.getSaplingAnchorAt view rt = some tree →
    Known tree ∧ root tree = rt
  | .cache own below =>
    own.NullifiersOk below.nullifierAt ∧ own.AnchorsOk Known below.anchorAt ∧ below.SaplingOk

end

omit [PedersenHash] in
theorem CacheLayer.NullifiersOk.insert {own : CacheLayer} (ok : own.NullifiersOk beneath)
    {entry : CNullifiersCacheEntry}
    (entryOk : entry.dirty = false → entry.entered = beneath nullifier) :
    NullifiersOk
      { own with cacheSaplingNullifiers := own.cacheSaplingNullifiers.insert nullifier entry }
      beneath :=
  Table.forall_lookup_insert entryOk ok

theorem CacheLayer.AnchorsOk.insert {own : CacheLayer} (ok : own.AnchorsOk Known beneath)
    (entryOk : AnchorEntryOk Known rt entry (beneath rt)) :
    AnchorsOk Known { own with cacheSaplingAnchors := own.cacheSaplingAnchors.insert rt entry } beneath :=
  Table.forall_lookup_insert entryOk ok

theorem saplingOk_mapLayers (keepsNullifiers : Keeps change CacheLayer.cacheSaplingNullifiers)
    (keepsAnchors : Keeps change CacheLayer.cacheSaplingAnchors) (view : CCoinsView σ) :
    (view.mapLayers change).SaplingOk Known ↔ view.SaplingOk Known := by
  induction view with
  | base view => exact Iff.rfl
  | cache own below ih =>
    simp [CCoinsView.mapLayers, CCoinsView.SaplingOk, NullifiersOk, AnchorsOk, keepsNullifiers,
      keepsAnchors, ih, nullifierAt_mapLayers keepsNullifiers, anchorAt_mapLayers keepsAnchors]

variable {view : CCoinsView σ}

theorem anchorAt_known (ok : view.SaplingOk Known) (answered : view.anchorAt rt = some tree) :
    Known tree ∧ root tree = rt := by
  induction view with
  | base view => exact ok rt tree answered
  | cache own below ih =>
    rw [anchorAt_cache] at answered
    cases found : own.cacheSaplingAnchors.lookup rt with
    | none =>
      rw [found] at answered
      exact ih ok.2.2 answered
    | some entry =>
      have entryOk := ok.2.1 rt entry found
      simp only [found, Option.elim_some, CAnchorsSaplingCacheEntry.shown] at answered
      split at answered
      · cases answered
        exact ⟨entryOk.known, entryOk.rooted⟩
      · cases answered

section

variable (view : CCoinsView σ)

omit [PedersenHash] in
theorem getNullifier_same : (view.getNullifier nullifier).2.nullifierAt = view.nullifierAt := by
  induction view with
  | base view => rfl
  | cache own below ih =>
    funext other
    simp only [CCoinsView.getNullifier, getNullifier]
    cases found : own.cacheSaplingNullifiers.lookup nullifier with
    | some entry => rfl
    | none =>
      rw [nullifierAt_cache, nullifierAt_cache, ih]
      simp only [Table.lookup_insert_eq]
      split
      next same =>
        subst same
        rw [found]
        rfl
      · rfl

omit [PedersenHash] in
theorem getSaplingAnchorAt_same (rt : Uint256) :
    (view.getSaplingAnchorAt rt).2.anchorAt = view.anchorAt := by
  induction view with
  | base view => rfl
  | cache own below ih =>
    funext other
    have answered : below.anchorAt rt = (below.getSaplingAnchorAt rt).1 := rfl
    simp only [CCoinsView.getSaplingAnchorAt, getSaplingAnchorAt]
    rcases asked : below.getSaplingAnchorAt rt with ⟨tree, below'⟩
    rw [asked] at ih answered
    cases found : own.cacheSaplingAnchors.lookup rt with
    | some entry => rfl
    | none =>
      cases tree with
      | none => simp [anchorAt_cache, ih]
      | some tree =>
        simp only [anchorAt_cache, ih, Table.lookup_insert_eq]
        split
        next same =>
          subst same
          rw [found, Option.elim_none, answered]
          rfl
        · rfl

omit [PedersenHash] in
theorem getBestAnchor_same : view.getBestAnchor.2.bestAnchor = view.bestAnchor := by
  induction view with
  | base view => rfl
  | cache own below ih =>
    simp only [CCoinsView.getBestAnchor, getBestAnchor]
    split
    next unset =>
      rw [bestAnchor_cache, bestAnchor_cache, if_pos unset, ih]
      split <;> rfl
    · rfl

omit [PedersenHash] in
theorem getBestBlock_same : view.getBestBlock.2.bestBlock = view.bestBlock := by
  induction view with
  | base view => rfl
  | cache own below ih =>
    simp only [CCoinsView.getBestBlock, getBestBlock]
    split
    next unset =>
      rw [bestBlock_cache, bestBlock_cache, if_pos unset, ih]
      split <;> rfl
    · rfl

end

theorem getNullifier_saplingOk (ok : view.SaplingOk Known) :
    (view.getNullifier nullifier).2.SaplingOk Known := by
  induction view with
  | base view => exact ok
  | cache own below ih =>
    obtain ⟨nullifiersOk, anchorsOk, belowOk⟩ := ok
    have anchorsSame : (below.getNullifier nullifier).2.anchorAt = below.anchorAt :=
      anchorAt_of_fills (getNullifier_fills below nullifier) fun _ => rfl
    simp only [CCoinsView.getNullifier, getNullifier]
    cases own.cacheSaplingNullifiers.lookup nullifier with
    | some entry => exact ⟨nullifiersOk, anchorsOk, belowOk⟩
    | none =>
      refine ⟨?_, by rw [anchorsSame]; exact anchorsOk, ih belowOk⟩
      rw [getNullifier_same]
      exact nullifiersOk.insert fun _ => rfl

theorem getSaplingAnchorAt_saplingOk (ok : view.SaplingOk Known) :
    (view.getSaplingAnchorAt rt).2.SaplingOk Known := by
  induction view with
  | base view => exact ok
  | cache own below ih =>
    obtain ⟨nullifiersOk, anchorsOk, belowOk⟩ := ok
    have nullifiersSame : (below.getSaplingAnchorAt rt).2.nullifierAt = below.nullifierAt :=
      nullifierAt_of_fills (getSaplingAnchorAt_fills below rt) fun _ => rfl
    have anchorsSame := getSaplingAnchorAt_same below rt
    have answered : below.anchorAt rt = (below.getSaplingAnchorAt rt).1 := rfl
    have after := ih belowOk
    simp only [CCoinsView.getSaplingAnchorAt, getSaplingAnchorAt]
    rcases asked : below.getSaplingAnchorAt rt with ⟨tree, below'⟩
    rw [asked] at nullifiersSame anchorsSame answered after
    cases own.cacheSaplingAnchors.lookup rt with
    | some entry => exact ⟨nullifiersOk, anchorsOk, belowOk⟩
    | none =>
      rw [← nullifiersSame] at nullifiersOk
      rw [← anchorsSame] at anchorsOk
      cases tree with
      | none => exact ⟨nullifiersOk, anchorsOk, after⟩
      | some tree =>
        obtain ⟨known, rooted⟩ := anchorAt_known belowOk answered
        refine ⟨nullifiersOk, anchorsOk.insert ⟨known, rooted, fun _ => ?_⟩, after⟩
        rw [anchorsSame]
        exact answered.symm

end Deviant.Coins
