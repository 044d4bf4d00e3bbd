import Deviant.Coins.ViewProgram

namespace Deviant.Coins

open CAnchorsSaplingCacheEntry CCoinsView Data Option Primitives SaplingMerkleTree

/-! Writing the Sapling side of a cache back to the view below it. -/

variable {σ : Type} [BaseView σ] [PedersenHash] {Known : SaplingMerkleTree → Prop}

/-- What the Sapling side of a base view owes a cache above it.  The anchor of the empty tree is
special to a database, so nothing is asked there unless the entry leaves it as it is. -/
class LawfulSapling (σ : Type) [BaseView σ] [PedersenHash] : Prop where
  batchWrite_getNullifier {view after : σ} :
    BaseView.batchWrite view mapCoins hashBlock hashSaplingAnchor mapSaplingAnchors
    mapSaplingNullifiers = .ok after →
      ∀ nullifier, BaseView.getNullifier after nullifier =
        (mapSaplingNullifiers.lookup nullifier).elim (BaseView.getNullifier view nullifier)
          fun entry => if entry.dirty then entry.entered else BaseView.getNullifier view nullifier
  batchWrite_getSaplingAnchorAt {view after : σ} :
    BaseView.batchWrite view mapCoins hashBlock hashSaplingAnchor mapSaplingAnchors
    mapSaplingNullifiers = .ok after →
      ∀ rt, (rt = emptyRoot → ∀ entry, mapSaplingAnchors.lookup rt = some entry →
          entry.dirty = true → entry.shown = BaseView.getSaplingAnchorAt view rt) →
        BaseView.getSaplingAnchorAt after rt =
          (mapSaplingAnchors.lookup rt).elim (BaseView.getSaplingAnchorAt view rt)
            fun entry => if entry.dirty then entry.shown else BaseView.getSaplingAnchorAt view rt
  batchWrite_getBestAnchor {view after : σ} :
    BaseView.batchWrite view mapCoins hashBlock hashSaplingAnchor mapSaplingAnchors
    mapSaplingNullifiers = .ok after →
      BaseView.getBestAnchor after = if hashSaplingAnchor = 0 then BaseView.getBestAnchor view
      else hashSaplingAnchor
  batchWrite_getBestBlock {view after : σ} :
    BaseView.batchWrite view mapCoins hashBlock hashSaplingAnchor mapSaplingAnchors
    mapSaplingNullifiers = .ok after →
      BaseView.getBestBlock after = hashBlock

def NullifierEntryOk (entry : CNullifiersCacheEntry) (beneath : Bool) : Prop :=
  entry.dirty = false → entry.entered = beneath

omit [PedersenHash] in
theorem mergeNullifier_spec (oursOk : ∀ us, ours = some us → NullifierEntryOk us beneath)
    (childOk : NullifierEntryOk child (ours.elim beneath fun us => us.entered)) :
    ∃ merged, mergeNullifier nullifier child ours = .ok merged ∧
      (∀ entry, merged = some entry → NullifierEntryOk entry beneath) ∧
      (merged.elim beneath fun entry => entry.entered) = child.entered := by
  cases dirty : child.dirty with
  | false => exact ⟨ours, by simp [mergeNullifier, dirty], oursOk, (childOk dirty).symm⟩
  | true =>
    cases ours with
    | none =>
      refine ⟨some { entered := child.entered, dirty := true }, by simp [mergeNullifier, dirty], ?_, rfl⟩
      rintro entry ⟨⟩ clean
      cases clean
    | some us =>
      by_cases same : us.entered = child.entered
      · exact ⟨some us, by simp [mergeNullifier, same], oursOk, same⟩
      · refine ⟨some { entered := child.entered, dirty := true },
          by simp [mergeNullifier, dirty, same], ?_, rfl⟩
        rintro entry ⟨⟩ clean
        cases clean

theorem mergeAnchor_spec (inPlay : TreesInPlay Known)
    (oursOk : ∀ us, ours = some us → AnchorEntryOk Known rt us beneath)
    (childOk : AnchorEntryOk Known rt child (ours.elim beneath shown)) :
    ∃ merged, mergeAnchor rt child ours = .ok merged ∧
      (∀ entry, merged = some entry → AnchorEntryOk Known rt entry beneath) ∧
      merged.elim beneath shown = child.shown := by
  cases dirty : child.dirty with
  | false => exact ⟨ours, by simp [mergeAnchor, dirty], oursOk, (childOk.clean dirty).symm⟩
  | true =>
    cases ours with
    | none =>
      refine ⟨some { entered := child.entered, tree := child.tree, dirty := true },
        by simp [mergeAnchor, dirty], ?_, rfl⟩
      rintro entry ⟨⟩
      exact ⟨childOk.known, childOk.rooted, fun clean => by cases clean⟩
    | some us =>
      have usOk := oursOk us rfl
      have sameTree : us.tree = child.tree :=
        inPlay.injective _ _ usOk.known childOk.known (usOk.rooted.trans childOk.rooted.symm)
      by_cases same : us.entered = child.entered
      · refine ⟨some us, by simp [mergeAnchor, same], oursOk, ?_⟩
        simp [shown, same, sameTree]
      · refine ⟨some { us with entered := child.entered, dirty := true },
          by simp [mergeAnchor, dirty, same], ?_, ?_⟩
        · rintro entry ⟨⟩
          exact ⟨usOk.known, usOk.rooted, fun clean => by cases clean⟩
        · simp [shown, sameTree]

theorem CacheLayer.batchWrite_sapling (inPlay : TreesInPlay Known) {own after : CacheLayer}
    {beneathNullifiers : Uint256 → Bool} {beneathAnchors : Uint256 → Option SaplingMerkleTree}
    (nullifiersOk : own.NullifiersOk beneathNullifiers)
    (anchorsOk : own.AnchorsOk Known beneathAnchors) {mapCoins : CCoinsMap}
    {hashBlock hashSaplingAnchor : Uint256} {mapSaplingAnchors : CAnchorsSaplingMap}
    {mapSaplingNullifiers : CNullifiersMap}
    (childNullifiers : ∀ nullifier entry, mapSaplingNullifiers.lookup nullifier = some entry →
      NullifierEntryOk entry
        ((own.cacheSaplingNullifiers.lookup nullifier).elim (beneathNullifiers nullifier)
          fun us => us.entered))
    (childAnchors : ∀ rt entry, mapSaplingAnchors.lookup rt = some entry →
      AnchorEntryOk Known rt entry
      ((own.cacheSaplingAnchors.lookup rt).elim (beneathAnchors rt) shown))
    (written : own.batchWrite mapCoins hashBlock hashSaplingAnchor mapSaplingAnchors
      mapSaplingNullifiers = .ok after) :
    after.NullifiersOk beneathNullifiers ∧ after.AnchorsOk Known beneathAnchors ∧
      (∀ nullifier,
        ((after.cacheSaplingNullifiers.lookup nullifier).elim (beneathNullifiers nullifier)
          fun us => us.entered) = (mapSaplingNullifiers.lookup nullifier).elim
          ((own.cacheSaplingNullifiers.lookup nullifier).elim (beneathNullifiers nullifier)
            fun us => us.entered)
          fun entry => entry.entered) ∧
      ∀ rt, (after.cacheSaplingAnchors.lookup rt).elim (beneathAnchors rt) shown =
      (mapSaplingAnchors.lookup rt).elim
          ((own.cacheSaplingAnchors.lookup rt).elim (beneathAnchors rt) shown)
          shown := by
  obtain ⟨anchors, mergedAnchors, anchorsMerged⟩ :=
    mergeTable_spec mergeAnchor anchorsOk fun rt entry present =>
    mergeAnchor_spec inPlay (anchorsOk rt) (childAnchors rt entry present)
  obtain ⟨nullifiers, mergedNullifiers, nullifiersMerged⟩ :=
    mergeTable_spec mergeNullifier nullifiersOk fun nullifier entry present =>
      mergeNullifier_spec (nullifiersOk nullifier) (childNullifiers nullifier entry present)
  simp only [CacheLayer.batchWrite, mergedAnchors, mergedNullifiers] at written
  split at written
  · cases written
  · cases written
    exact ⟨nullifiersMerged.1, anchorsMerged.1, nullifiersMerged.2, anchorsMerged.2⟩

omit [PedersenHash] in
theorem exists_batchWrite_base {view : σ} {below : CCoinsView σ}
    (written : (base view).batchWrite mapCoins hashBlock hashSaplingAnchor anchors nullifiers =
      .ok below) :
    ∃ stored, BaseView.batchWrite view mapCoins hashBlock hashSaplingAnchor anchors nullifiers =
      .ok stored ∧
      base stored = below := by
  simp only [batchWrite] at written
  cases stored : BaseView.batchWrite view mapCoins hashBlock hashSaplingAnchor anchors nullifiers with
  | error reason =>
    rw [stored] at written
    cases written
  | ok after =>
    rw [stored] at written
    exact ⟨after, rfl, Except.ok.inj written⟩

omit [PedersenHash] in
theorem exists_batchWrite_cache {parent : CacheLayer} {beneath below : CCoinsView σ} (written :
      (cache parent beneath).batchWrite mapCoins hashBlock hashSaplingAnchor anchors nullifiers =
      .ok below) :
    ∃ layer, parent.batchWrite mapCoins hashBlock hashSaplingAnchor anchors nullifiers = .ok layer ∧
      cache layer beneath = below := by
  simp only [batchWrite] at written
  cases merged : parent.batchWrite mapCoins hashBlock hashSaplingAnchor anchors nullifiers with
  | error reason =>
    rw [merged] at written
    cases written
  | ok layer =>
    rw [merged] at written
    exact ⟨layer, rfl, Except.ok.inj written⟩

theorem CacheLayer.batchWrite_base [LawfulSapling σ] {own : CacheLayer} {view : σ}
    {below : CCoinsView σ} (ok : (cache own (.base view)).SaplingOk Known)
    (emptyKept : (cache own (.base view)).anchorAt emptyRoot =
      (base view).anchorAt emptyRoot)
    (written : (base view).batchWrite own.cacheCoins own.hashBlock own.hashSaplingAnchor
      own.cacheSaplingAnchors own.cacheSaplingNullifiers = .ok below) :
    below.SaplingOk Known ∧ below.nullifierAt = (cache own (.base view)).nullifierAt ∧
      below.anchorAt = (cache own (.base view)).anchorAt := by
  obtain ⟨base, stored, rfl⟩ := exists_batchWrite_base written
  have anchors : (CCoinsView.base base).anchorAt = (CCoinsView.cache own (.base view)).anchorAt := by
    funext rt
    have law := LawfulSapling.batchWrite_getSaplingAnchorAt stored rt
        fun empty entry present dirty => by
      subst empty
      rw [anchorAt_cache, present] at emptyKept
      exact emptyKept
    refine law.trans ?_
    rw [anchorAt_cache]
    cases present : own.cacheSaplingAnchors.lookup rt with
    | none => rfl
    | some entry =>
      cases dirty : entry.dirty with
      | true => simp [dirty]
      | false =>
        simp only [elim_some, dirty, Bool.false_eq_true, if_false]
        exact ((ok.2.1 rt entry present).clean dirty).symm
  refine ⟨?_, ?_, anchors⟩
  · intro rt tree answered
    exact anchorAt_known ok ((congrFun anchors rt).symm.trans answered)
  · funext nullifier
    refine (LawfulSapling.batchWrite_getNullifier stored nullifier).trans ?_
    rw [nullifierAt_cache]
    cases present : own.cacheSaplingNullifiers.lookup nullifier with
    | none => rfl
    | some entry =>
      cases dirty : entry.dirty with
      | true => simp [dirty]
      | false =>
        simp only [elim_some, dirty, Bool.false_eq_true, if_false]
        exact (ok.1 nullifier entry present dirty).symm

omit [PedersenHash] in
theorem batchWrite_best {own after : CacheLayer}
    (written : own.batchWrite mapCoins hashBlock hashSaplingAnchor mapSaplingAnchors
      mapSaplingNullifiers = .ok after) :
    after.hashSaplingAnchor = hashSaplingAnchor ∧ after.hashBlock = hashBlock := by
  simp only [CacheLayer.batchWrite] at written
  split at written
  · cases written
  · split at written
    · cases written
    · split at written
      · cases written
      · cases written
        exact ⟨rfl, rfl⟩

namespace CCoinsViewCache

variable {cache after : CCoinsViewCache σ}

omit [PedersenHash] in
theorem flush_written (flushed : cache.flush = .ok after) :
    cache.below.batchWrite cache.own.cacheCoins cache.own.hashBlock cache.own.hashSaplingAnchor
      cache.own.cacheSaplingAnchors cache.own.cacheSaplingNullifiers = .ok after.below := by
  simp only [flush] at flushed
  cases written :
      cache.below.batchWrite cache.own.cacheCoins cache.own.hashBlock cache.own.hashSaplingAnchor
      cache.own.cacheSaplingAnchors cache.own.cacheSaplingNullifiers with
  | error reason =>
    rw [written] at flushed
    cases flushed
  | ok below =>
    rw [written] at flushed
    cases flushed
    rfl

omit [PedersenHash] in
theorem flush_over {view written : σ} (based : cache.below = .base view)
    (batchWritten : BaseView.batchWrite view cache.own.cacheCoins cache.own.hashBlock
      cache.own.hashSaplingAnchor cache.own.cacheSaplingAnchors cache.own.cacheSaplingNullifiers =
      .ok written) : cache.flush = .ok {
      own := { hashBlock := cache.own.hashBlock, hashSaplingAnchor := cache.own.hashSaplingAnchor }
      below := .base written } := by
  simp [flush, based, batchWrite, batchWritten, Except.map]

theorem flush_sapling [LawfulSapling σ] (inPlay : TreesInPlay Known)
    (ok : cache.view.SaplingOk Known)
    (emptyKept : cache.view.anchorAt emptyRoot = cache.below.anchorAt emptyRoot)
    (flushed : cache.flush = .ok after) :
    after.below.SaplingOk Known ∧ after.below.nullifierAt = cache.view.nullifierAt ∧
      after.below.anchorAt = cache.view.anchorAt := by
  have written := flush_written flushed
  obtain ⟨own, below⟩ := cache
  cases below with
  | base view => exact CacheLayer.batchWrite_base ok emptyKept written
  | cache parent beneath =>
    obtain ⟨layer, merged, same⟩ := exists_batchWrite_cache written
    rw [← same]
    obtain ⟨nullifiersOk, anchorsOk, belowOk⟩ := ok.2.2
    obtain ⟨layerNullifiers, layerAnchors, showsNullifiers, showsAnchors⟩ :=
      CacheLayer.batchWrite_sapling inPlay nullifiersOk anchorsOk (fun nullifier entry found => by
          rw [← nullifierAt_cache]
          exact ok.1 nullifier entry found)
        (fun rt entry found => by
          rw [← anchorAt_cache]
          exact ok.2.1 rt entry found)
        merged
    refine ⟨⟨layerNullifiers, layerAnchors, belowOk⟩, ?_, ?_⟩
    · funext nullifier
      rw [nullifierAt_cache, showsNullifiers, view, nullifierAt_cache, nullifierAt_cache]
    · funext rt
      rw [anchorAt_cache, showsAnchors, view, anchorAt_cache, anchorAt_cache]

theorem flush_best [LawfulSapling σ]
    (anchorFilled : cache.own.hashSaplingAnchor = cache.view.bestAnchor)
    (blockFilled : cache.own.hashBlock = cache.view.bestBlock) (flushed : cache.flush = .ok after) :
    after.below.bestAnchor = cache.view.bestAnchor ∧
      after.below.bestBlock = cache.view.bestBlock := by
  have written := flush_written flushed
  rw [← anchorFilled, ← blockFilled]
  obtain ⟨own, below⟩ := cache
  simp only [view, bestAnchor_cache, bestBlock_cache] at anchorFilled blockFilled
  cases below with
  | base base =>
    obtain ⟨base', stored, same⟩ := exists_batchWrite_base written
    rw [← same]
    refine ⟨?_, LawfulSapling.batchWrite_getBestBlock stored⟩
    have law : (CCoinsView.base base').bestAnchor =
        if own.hashSaplingAnchor = 0 then (CCoinsView.base base).bestAnchor
        else own.hashSaplingAnchor :=
      LawfulSapling.batchWrite_getBestAnchor stored
    rw [law]
    exact anchorFilled.symm
  | cache parent beneath =>
    obtain ⟨layer, merged, same⟩ := exists_batchWrite_cache written
    rw [← same]
    obtain ⟨anchorGiven, blockGiven⟩ := batchWrite_best merged
    simp only [bestAnchor_cache, bestBlock_cache] at anchorFilled blockFilled ⊢
    grind

end CCoinsViewCache

end Deviant.Coins
