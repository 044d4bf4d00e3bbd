import Deviant.Coins.CoinRefinement

namespace Deviant.Coins

open Primitives CCoinsView

/-! What a view answers about nullifiers, anchors and the best hashes, and the frame
of the reads: a read of one kind fills tables of that kind only, so it changes no
answer of another kind. -/

variable {σ : Type} [BaseView σ]

namespace CCoinsView

variable (view : CCoinsView σ)

def nullifierAt (nullifier : Uint256) : Bool := (view.getNullifier nullifier).1

def anchorAt (rt : Uint256) : Option SaplingMerkleTree := (view.getSaplingAnchorAt rt).1

def bestAnchor : Uint256 := view.getBestAnchor.1

def bestBlock : Uint256 := view.getBestBlock.1

end CCoinsView

/-- The tree an anchor entry shows: none once the anchor is marked unentered. -/
def CAnchorsSaplingCacheEntry.shown (entry : CAnchorsSaplingCacheEntry) :
    Option SaplingMerkleTree :=
  if entry.entered then some entry.tree else none

open CacheLayer hiding CoinsOk getNullifier getSaplingAnchorAt getBestAnchor getBestBlock

variable (view : CCoinsView σ) (own : CacheLayer) (below : CCoinsView σ)

theorem nullifierAt_cache (nullifier : Uint256) : (cache own below).nullifierAt nullifier =
      ((own.cacheSaplingNullifiers.lookup nullifier).elim (below.nullifierAt nullifier)
        fun entry => entry.entered) := by
  simp only [nullifierAt, getNullifier, CacheLayer.getNullifier]
  cases own.cacheSaplingNullifiers.lookup nullifier with
  | none => rfl
  | some entry => rfl

theorem anchorAt_cache (rt : Uint256) : (cache own below).anchorAt rt =
      ((own.cacheSaplingAnchors.lookup rt).elim (below.anchorAt rt) CAnchorsSaplingCacheEntry.shown) := by
  simp only [anchorAt, getSaplingAnchorAt, CacheLayer.getSaplingAnchorAt]
  cases own.cacheSaplingAnchors.lookup rt with
  | some entry => rfl
  | none =>
    rcases below.getSaplingAnchorAt rt with ⟨tree, below'⟩
    cases tree with
    | none => rfl
    | some tree => rfl

theorem bestAnchor_cache : (cache own below).bestAnchor =
      if own.hashSaplingAnchor = 0 then below.bestAnchor else own.hashSaplingAnchor := by
  simp only [bestAnchor, getBestAnchor, CacheLayer.getBestAnchor]
  split <;> rfl

theorem bestBlock_cache :
    (cache own below).bestBlock = if own.hashBlock = 0 then below.bestBlock else own.hashBlock := by
  simp only [bestBlock, getBestBlock, CacheLayer.getBestBlock]
  split <;> rfl

def CCoinsView.mapLayers (change : CacheLayer → CacheLayer) : CCoinsView σ → CCoinsView σ
  | .base view => .base view
  | .cache own below => .cache (change own) (below.mapLayers change)

omit [BaseView σ] in
theorem mapLayers_cache :
    (cache own below).mapLayers change = cache (change own) (below.mapLayers change) := rfl

section

variable {change : CacheLayer → CacheLayer}

abbrev Keeps {β : Type} (change : CacheLayer → CacheLayer) (field : CacheLayer → β) : Prop :=
  ∀ own, field (change own) = field own

theorem coinAt_mapLayers (keeps : Keeps change cacheCoins) (view : CCoinsView σ) :
    (view.mapLayers change).coinAt = view.coinAt := by
  induction view with
  | base view => rfl
  | cache own below ih =>
    funext outpoint
    rw [mapLayers_cache, coinAt_cache, coinAt_cache, keeps, ih]

theorem nullifierAt_mapLayers (keeps : Keeps change cacheSaplingNullifiers) (view : CCoinsView σ) :
    (view.mapLayers change).nullifierAt = view.nullifierAt := by
  induction view with
  | base view => rfl
  | cache own below ih =>
    funext nullifier
    rw [mapLayers_cache, nullifierAt_cache, nullifierAt_cache, keeps, ih]

theorem anchorAt_mapLayers (keeps : Keeps change cacheSaplingAnchors)
    (view : CCoinsView σ) : (view.mapLayers change).anchorAt = view.anchorAt := by
  induction view with
  | base view => rfl
  | cache own below ih =>
    funext rt
    rw [mapLayers_cache, anchorAt_cache, anchorAt_cache, keeps, ih]

theorem bestAnchor_mapLayers (keeps : Keeps change hashSaplingAnchor)
    (view : CCoinsView σ) : (view.mapLayers change).bestAnchor = view.bestAnchor := by
  induction view with
  | base view => rfl
  | cache own below ih => rw [mapLayers_cache, bestAnchor_cache, bestAnchor_cache, keeps, ih]

theorem bestBlock_mapLayers (keeps : Keeps change hashBlock) (view : CCoinsView σ) :
    (view.mapLayers change).bestBlock = view.bestBlock := by
  induction view with
  | base view => rfl
  | cache own below ih => rw [mapLayers_cache, bestBlock_cache, bestBlock_cache, keeps, ih]

theorem coinsOk_mapLayers (keeps : Keeps change cacheCoins) (view : CCoinsView σ) :
    (view.mapLayers change).CoinsOk ↔ view.CoinsOk := by
  induction view with
  | base view => exact Iff.rfl
  | cache own below ih =>
    simp [mapLayers_cache, CoinsOk, CacheLayer.CoinsOk, keeps, ih, coinAt_mapLayers keeps]

/-! Two views that a rewriting makes equal give the same answers about what it keeps. -/

variable {view after : CCoinsView σ}

variable (fills : after.mapLayers change = view.mapLayers change)

include fills

theorem coinAt_of_fills (keeps : Keeps change cacheCoins) : after.coinAt = view.coinAt := by
  rw [← coinAt_mapLayers keeps after, fills, coinAt_mapLayers keeps]

theorem nullifierAt_of_fills (keeps : Keeps change cacheSaplingNullifiers) :
    after.nullifierAt = view.nullifierAt := by
  rw [← nullifierAt_mapLayers keeps after, fills, nullifierAt_mapLayers keeps]

theorem anchorAt_of_fills (keeps : Keeps change cacheSaplingAnchors) :
    after.anchorAt = view.anchorAt := by
  rw [← anchorAt_mapLayers keeps after, fills, anchorAt_mapLayers keeps]

theorem bestAnchor_of_fills (keeps : Keeps change hashSaplingAnchor) :
    after.bestAnchor = view.bestAnchor := by
  rw [← bestAnchor_mapLayers keeps after, fills, bestAnchor_mapLayers keeps]

theorem bestBlock_of_fills (keeps : Keeps change hashBlock) : after.bestBlock = view.bestBlock := by
  rw [← bestBlock_mapLayers keeps after, fills, bestBlock_mapLayers keeps]

theorem coinsOk_of_fills (ok : view.CoinsOk) (keeps : Keeps change cacheCoins) : after.CoinsOk := by
  rw [← coinsOk_mapLayers keeps after, fills, coinsOk_mapLayers keeps]
  exact ok

end

variable (own : CacheLayer)

def CacheLayer.forgetCoins : CacheLayer := { own with cacheCoins := ∅ }
def CacheLayer.forgetNullifiers : CacheLayer := { own with cacheSaplingNullifiers := ∅ }
def CacheLayer.forgetAnchors : CacheLayer := { own with cacheSaplingAnchors := ∅ }
def CacheLayer.forgetBestAnchor : CacheLayer := { own with hashSaplingAnchor := 0 }
def CacheLayer.forgetBestBlock : CacheLayer := { own with hashBlock := 0 }

theorem getCoin_fills (outpoint : COutPoint) :
    (view.getCoin outpoint).2.mapLayers forgetCoins = view.mapLayers forgetCoins := by
  induction view with
  | base view => rfl
  | cache own below ih =>
    simp only [getCoin, fetchCoin]
    rcases asked : below.getCoin outpoint with ⟨coin, below'⟩
    rw [asked] at ih
    cases own.cacheCoins.lookup outpoint with
    | some entry => rfl
    | none =>
      cases coin with
      | none => exact congrArg (cache _) ih
      | some tmp => exact congrArg (cache _) ih

theorem getNullifier_fills (nullifier : Uint256) :
      (view.getNullifier nullifier).2.mapLayers forgetNullifiers =
        view.mapLayers forgetNullifiers := by
  induction view with
  | base view => rfl
  | cache own below ih =>
    simp only [getNullifier, CacheLayer.getNullifier]
    cases own.cacheSaplingNullifiers.lookup nullifier with
    | some entry => rfl
    | none => exact congrArg (cache _) ih

theorem getSaplingAnchorAt_fills (rt : Uint256) :
      (view.getSaplingAnchorAt rt).2.mapLayers forgetAnchors = view.mapLayers forgetAnchors := by
  induction view with
  | base view => rfl
  | cache own below ih =>
    simp only [getSaplingAnchorAt, CacheLayer.getSaplingAnchorAt]
    rcases asked : below.getSaplingAnchorAt rt with ⟨tree, below'⟩
    rw [asked] at ih
    cases own.cacheSaplingAnchors.lookup rt with
    | some entry => rfl
    | none =>
      cases tree with
      | none => exact congrArg (cache _) ih
      | some tree => exact congrArg (cache _) ih

theorem getBestAnchor_fills :
    view.getBestAnchor.2.mapLayers forgetBestAnchor = view.mapLayers forgetBestAnchor := by
  induction view with
  | base view => rfl
  | cache own below ih =>
    simp only [getBestAnchor, CacheLayer.getBestAnchor]
    split
    · exact congrArg (cache _) ih
    · rfl

theorem getBestBlock_fills :
    view.getBestBlock.2.mapLayers forgetBestBlock = view.mapLayers forgetBestBlock := by
  induction view with
  | base view => rfl
  | cache own below ih =>
    simp only [getBestBlock, CacheLayer.getBestBlock]
    split
    · exact congrArg (cache _) ih
    · rfl

end Deviant.Coins
