import Deviant.Coins.View

namespace Deviant.Coins

open CCoinsView Coin Data Function Option Primitives

/-! The coins of a cache stack refine one map from outpoints to unspent coins.

`coinAt` is what the code answers for an outpoint.  The flags of an entry are
sound against what the view below answers at the same outpoint (`EntryOk`), and
every operation is described by its effect on `coinAt` alone. -/

variable {σ : Type} [BaseView σ]

def CCoinsView.coinAt (view : CCoinsView σ) (outpoint : COutPoint) : Option Coin :=
  (view.getCoin outpoint).1.bind unspent?

variable {cache : CCoinsViewCache σ} {own : CacheLayer} {coin : Coin}

theorem Coin.unspent?_of_isSpent (spent : coin.isSpent = true) : coin.unspent? = none := by
  simp [unspent?, spent]

theorem Coin.unspent?_of_not_isSpent (unspent : coin.isSpent = false) :
    coin.unspent? = some coin := by
  simp [unspent?, unspent]

theorem Coin.not_isSpent_of_unspent? {seen : Coin} (visible : coin.unspent? = some seen) :
    seen.isSpent = false := by
  cases spent : coin.isSpent with
  | true => simp [unspent?, spent] at visible
  | false =>
    simp only [unspent?, spent, Bool.false_eq_true, if_false, Option.some.injEq] at visible
    exact visible ▸ spent

@[simp] theorem Coin.empty_unspent? : empty.unspent? = none := rfl

theorem coinAt_base (view : σ) :
    (base view).coinAt outpoint = (BaseView.getCoin view outpoint).bind unspent? := rfl

variable {below : CCoinsView σ}

theorem coinAt_hit {outpoint : COutPoint} {entry : CCoinsCacheEntry}
    (found : own.cacheCoins.lookup outpoint = some entry) :
    (CCoinsView.cache own below).coinAt outpoint = entry.coin.unspent? := by
  simp [coinAt, getCoin, CacheLayer.fetchCoin, found]

theorem coinAt_miss {outpoint : COutPoint} (absent : own.cacheCoins.lookup outpoint = none) :
    (CCoinsView.cache own below).coinAt outpoint = below.coinAt outpoint := by
  rcases asked : below.getCoin outpoint with ⟨coin, below'⟩
  cases coin with
  | none => simp [CCoinsView.coinAt, CCoinsView.getCoin, CacheLayer.fetchCoin, absent, asked]
  | some tmp => simp [CCoinsView.coinAt, CCoinsView.getCoin, CacheLayer.fetchCoin, absent, asked]

theorem coinAt_cache (own : CacheLayer) (below : CCoinsView σ) (outpoint : COutPoint) :
    (CCoinsView.cache own below).coinAt outpoint =
      ((own.cacheCoins.lookup outpoint).elim (below.coinAt outpoint) fun entry =>
        entry.coin.unspent?) := by
  cases found : own.cacheCoins.lookup outpoint with
  | none => exact coinAt_miss found
  | some entry => exact coinAt_hit found

/-- The flags of a cache entry are sound against the coin the view below shows. -/
structure EntryOk (entry : CCoinsCacheEntry) (beneath : Option Coin) : Prop where
  fresh : entry.fresh = true → beneath = none
  clean : entry.dirty = false → entry.coin.unspent? = beneath
  cleared : entry.coin.isSpent = true → entry.coin = empty

def CacheLayer.CoinsOk (own : CacheLayer) (beneath : COutPoint → Option Coin) : Prop :=
  ∀ outpoint entry, own.cacheCoins.lookup outpoint = some entry → EntryOk entry (beneath outpoint)

def CCoinsView.CoinsOk : CCoinsView σ → Prop
  | .base view => ∀ outpoint coin, BaseView.getCoin view outpoint = some coin → coin.isSpent = false
  | .cache own below => own.CoinsOk below.coinAt ∧ below.CoinsOk

theorem CacheLayer.CoinsOk.insert (ok : own.CoinsOk beneath)
    (entryOk : EntryOk entry (beneath outpoint)) :
    CacheLayer.CoinsOk { own with cacheCoins := own.cacheCoins.insert outpoint entry } beneath :=
  Table.forall_lookup_insert entryOk ok

theorem CacheLayer.CoinsOk.erase (ok : own.CoinsOk beneath) :
    CacheLayer.CoinsOk { own with cacheCoins := own.cacheCoins.erase outpoint } beneath := by
  intro other found lookup
  simp only [Table.lookup_erase_eq] at lookup
  split at lookup
  · cases lookup
  · exact ok other found lookup

/-- A read changes no answer, keeps the invariant, and reports only cleared coins as spent. -/
structure CoinRead (view after : CCoinsView σ) (answer : Option Coin) : Prop where
  ok : after.CoinsOk
  same : after.coinAt = view.coinAt
  cleared : ∀ coin, answer = some coin → coin.isSpent = true → coin = empty

theorem coinAt_insert :
    (CCoinsView.cache { own with cacheCoins := own.cacheCoins.insert outpoint entry } below).coinAt =
      update (CCoinsView.cache own below).coinAt outpoint entry.coin.unspent? := by
  funext other
  rw [coinAt_cache, update_apply]
  simp only [Table.lookup_insert_eq]
  split
  · rfl
  · exact (coinAt_cache own below other).symm

theorem coinAt_erase :
    (CCoinsView.cache { own with cacheCoins := own.cacheCoins.erase outpoint } below).coinAt =
        update (CCoinsView.cache own below).coinAt outpoint (below.coinAt outpoint) := by
  funext other
  rw [coinAt_cache, update_apply]
  simp only [Table.lookup_erase_eq]
  split
  next same =>
    subst same
    rfl
  · exact (coinAt_cache own below other).symm

theorem coinAt_cache_congr {below' : CCoinsView σ} (same : below'.coinAt = below.coinAt) :
    (CCoinsView.cache own below').coinAt = (CCoinsView.cache own below).coinAt := by
  funext outpoint
  rw [coinAt_cache, coinAt_cache, same]

theorem fetchCoin_read (ok : (CCoinsView.cache own below).CoinsOk)
    (asked : CoinRead below (below.getCoin outpoint).2 (below.getCoin outpoint).1) :
    let fetched := own.fetchCoin outpoint (below.getCoin outpoint) below
    CoinRead (.cache own below) (.cache fetched.2.1 fetched.2.2) (fetched.1.map (·.coin)) ∧
      fetched.2.1.cacheCoins.lookup outpoint = fetched.1 := by
  obtain ⟨layerOk, belowOk⟩ := ok
  cases found : own.cacheCoins.lookup outpoint with
  | some entry =>
    simp only [CacheLayer.fetchCoin, found, map_some]
    refine ⟨⟨⟨layerOk, belowOk⟩, rfl, ?_⟩, trivial⟩
    rintro coin ⟨⟩ spent
    exact (layerOk outpoint entry found).cleared spent
  | none =>
    have answered : below.coinAt outpoint = (below.getCoin outpoint).1.bind unspent? := rfl
    rcases result : below.getCoin outpoint with ⟨coin, below'⟩
    rw [result] at asked answered
    have layerOk' : own.CoinsOk below'.coinAt := asked.same ▸ layerOk
    cases coin with
    | none =>
      simp only [CacheLayer.fetchCoin, found, map_none]
      refine ⟨⟨⟨layerOk', asked.ok⟩, coinAt_cache_congr asked.same, ?_⟩, trivial⟩
      rintro coin ⟨⟩
    | some tmp =>
      simp only [CacheLayer.fetchCoin, found, map_some]
      have beneath : below'.coinAt outpoint = tmp.unspent? := by
        rw [asked.same, answered]
        rfl
      have entryOk : EntryOk { coin := tmp, fresh := tmp.isSpent } (below'.coinAt outpoint) := by
        rw [beneath]
        exact ⟨fun spent => unspent?_of_isSpent spent, fun _ => rfl, asked.cleared tmp rfl⟩
      refine ⟨⟨⟨layerOk'.insert entryOk, asked.ok⟩, ?_, asked.cleared⟩, AList.lookup_insert _⟩
      rw [coinAt_insert, coinAt_cache_congr asked.same]
      apply update_eq_self_iff.mpr
      rw [coinAt_miss found, ← asked.same]
      exact beneath.symm

theorem getCoin_read {view : CCoinsView σ} (ok : view.CoinsOk) (outpoint : COutPoint) :
    CoinRead view (view.getCoin outpoint).2 (view.getCoin outpoint).1 := by
  induction view with
  | base view =>
    refine ⟨ok, rfl, ?_⟩
    intro coin answered spent
    have unspent := ok outpoint coin answered
    rw [unspent] at spent
    cases spent
  | cache own below ih => exact (fetchCoin_read ok (ih ok.2)).1

namespace CCoinsViewCache

theorem fetchCoin_spec (ok : cache.view.CoinsOk) (outpoint : COutPoint) :
    CoinRead cache.view (cache.fetchCoin outpoint).2.view ((cache.fetchCoin outpoint).1.map (·.coin)) ∧
      (cache.fetchCoin outpoint).2.own.cacheCoins.lookup outpoint = (cache.fetchCoin outpoint).1 :=
  fetchCoin_read ok (getCoin_read ok.2 outpoint)

theorem fetchCoin_coinAt (cache : CCoinsViewCache σ) (outpoint : COutPoint) :
    cache.view.coinAt outpoint = ((cache.fetchCoin outpoint).1.map (·.coin)).bind unspent? := rfl

variable (ok : cache.view.CoinsOk)

include ok

variable (outpoint : COutPoint)

theorem accessCoin_spec : (cache.accessCoin outpoint).2.view.CoinsOk ∧
      (cache.accessCoin outpoint).2.view.coinAt = cache.view.coinAt ∧
      (cache.accessCoin outpoint).1 = (cache.view.coinAt outpoint).getD empty := by
  obtain ⟨read, _⟩ := fetchCoin_spec ok outpoint
  rw [fetchCoin_coinAt]
  rcases fetched : cache.fetchCoin outpoint with ⟨entry, cache'⟩
  rw [fetched] at read
  cases entry with
  | none => simpa [accessCoin, fetched] using ⟨read.ok, read.same⟩
  | some entry =>
    simp only [accessCoin, fetched, map_some, bind_some]
    refine ⟨read.ok, read.same, ?_⟩
    cases spent : entry.coin.isSpent with
    | true => rw [unspent?_of_isSpent spent, read.cleared entry.coin rfl spent]; rfl
    | false => rw [unspent?_of_not_isSpent spent]; rfl

theorem haveCoin_spec : (cache.haveCoin outpoint).2.view.CoinsOk ∧
      (cache.haveCoin outpoint).2.view.coinAt = cache.view.coinAt ∧
      (cache.haveCoin outpoint).1 = (cache.view.coinAt outpoint).isSome := by
  obtain ⟨read, _⟩ := fetchCoin_spec ok outpoint
  rw [fetchCoin_coinAt]
  rcases fetched : cache.fetchCoin outpoint with ⟨entry, cache'⟩
  rw [fetched] at read
  cases entry with
  | none => simpa [haveCoin, fetched] using ⟨read.ok, read.same⟩
  | some entry =>
    simp only [haveCoin, fetched, map_some, bind_some]
    refine ⟨read.ok, read.same, ?_⟩
    cases spent : entry.coin.isSpent with
    | true => rw [unspent?_of_isSpent spent]; rfl
    | false => rw [unspent?_of_not_isSpent spent]; rfl

theorem setCoin_spec {outpoint : COutPoint} (entryOk : EntryOk entry (cache.below.coinAt outpoint)) :
    (cache.setCoin outpoint entry).view.CoinsOk ∧ (cache.setCoin outpoint entry).view.coinAt =
        update cache.view.coinAt outpoint entry.coin.unspent? :=
  ⟨⟨ok.1.insert entryOk, ok.2⟩, coinAt_insert⟩

theorem eraseCoin_spec :
        (cache.eraseCoin outpoint).view.CoinsOk ∧
          (cache.eraseCoin outpoint).view.coinAt = update cache.view.coinAt outpoint
          (cache.below.coinAt outpoint) :=
  ⟨⟨ok.1.erase, ok.2⟩, coinAt_erase⟩

/-- The entry `AddCoin` starts from: the one in the cache, or a new empty one, which is
sound when the view below shows no coin or the caller may overwrite. -/
private theorem addCoin_entryOk {outpoint : COutPoint} {possibleOverwrite : Bool}
    (unspent : coin.isSpent = false)
    (fits : possibleOverwrite = false → cache.view.coinAt outpoint = none) :
    let entry := (cache.own.cacheCoins.lookup outpoint).getD {}
    EntryOk { coin, dirty := true, fresh := entry.fresh || (!possibleOverwrite && !entry.dirty) }
      (cache.below.coinAt outpoint) := by
  refine ⟨?_, ?_, ?_⟩
  · intro fresh
    simp only [Bool.or_eq_true, Bool.and_eq_true, Bool.not_eq_true'] at fresh
    cases found : cache.own.cacheCoins.lookup outpoint with
    | none =>
      simp only [found, getD_none, Bool.false_eq_true, and_true, false_or] at fresh
      exact (coinAt_miss found).symm.trans (fits fresh)
    | some entry =>
      have entryOk := ok.1 outpoint entry found
      simp only [found, getD_some] at fresh
      rcases fresh with marked | ⟨noOverwrite, clean⟩
      · exact entryOk.fresh marked
      · exact (entryOk.clean clean).symm.trans ((coinAt_hit found).symm.trans (fits noOverwrite))
  · intro clean
    cases clean
  · intro spent
    rw [unspent] at spent
    cases spent

theorem addCoin_spec {outpoint : COutPoint} {possibleOverwrite : Bool}
    (unspent : coin.isSpent = false)
    (fits : possibleOverwrite = false → cache.view.coinAt outpoint = none) :
    ∃ after, cache.addCoin outpoint coin possibleOverwrite = .ok after ∧ after.view.CoinsOk ∧
      after.view.coinAt =
        if coin.isIgnored then cache.view.coinAt
        else update cache.view.coinAt outpoint (some coin) := by
  cases ignored : coin.isIgnored with
  | true => exact ⟨cache, by simp [addCoin, unspent, ignored], ok, by simp⟩
  | false =>
    -- Without permission to overwrite, the entry found must read as spent.
    have replaceable : (!possibleOverwrite &&
        !((cache.own.cacheCoins.lookup outpoint).getD {}).coin.isSpent) = false := by
      cases possibleOverwrite with
      | true => rfl
      | false =>
        cases found : cache.own.cacheCoins.lookup outpoint with
        | none => rfl
        | some entry =>
          have hidden := fits rfl
          rw [show cache.view.coinAt outpoint = _ from coinAt_hit found] at hidden
          cases spent : entry.coin.isSpent with
          | true => simp [spent]
          | false =>
            rw [unspent?_of_not_isSpent spent] at hidden
            cases hidden
    obtain ⟨afterOk, afterCoins⟩ := setCoin_spec ok (addCoin_entryOk ok unspent fits)
    refine ⟨_, ?_, afterOk, ?_⟩
    · simp [addCoin, unspent, ignored, replaceable]
    · rw [afterCoins, unspent?_of_not_isSpent unspent]
      rfl

theorem spendCoin_spec : (cache.spendCoin outpoint).2.view.CoinsOk ∧
      (cache.spendCoin outpoint).2.view.coinAt = update cache.view.coinAt outpoint none ∧
      (cache.spendCoin outpoint).1 = (cache.view.coinAt outpoint).getD empty := by
  have accessed := (accessCoin_spec ok outpoint).2.2
  obtain ⟨read, stored⟩ := fetchCoin_spec ok outpoint
  have answered := fetchCoin_coinAt cache outpoint
  rcases fetched : cache.fetchCoin outpoint with ⟨entry, cache'⟩
  rw [fetched] at read stored answered
  cases entry with
  | none =>
    simp only [accessCoin, fetched] at accessed
    simp only [spendCoin, fetched]
    refine ⟨read.ok, ?_, accessed⟩
    rw [read.same]
    exact (update_eq_self_iff.mpr answered.symm).symm
  | some entry =>
    simp only [accessCoin, fetched] at accessed
    have entryOk := read.ok.1 outpoint entry stored
    cases fresh : entry.fresh with
    | true =>
      simp only [spendCoin, fetched, fresh, if_true]
      obtain ⟨erasedOk, erasedCoins⟩ := eraseCoin_spec read.ok outpoint
      refine ⟨erasedOk, ?_, accessed⟩
      rw [erasedCoins, read.same, entryOk.fresh fresh]
    | false =>
      simp only [spendCoin, fetched, fresh, Bool.false_eq_true, if_false]
      have clearedOk : EntryOk { entry with coin := empty, dirty := true }
          (cache'.below.coinAt outpoint) :=
        ⟨entryOk.fresh, fun clean => (by cases clean), fun _ => rfl⟩
      obtain ⟨setOk, setCoins⟩ := setCoin_spec read.ok clearedOk
      rw [fresh] at setOk setCoins
      refine ⟨setOk, ?_, accessed⟩
      rw [setCoins, read.same]
      rfl

theorem uncache_spec :
    (cache.uncache outpoint).view.CoinsOk ∧
      (cache.uncache outpoint).view.coinAt = cache.view.coinAt := by
  cases found : cache.own.cacheCoins.lookup outpoint with
  | none => simpa [uncache, found] using ok
  | some entry =>
    cases flags : (!entry.dirty && !entry.fresh) with
    | false => simpa [uncache, found, flags] using ok
    | true =>
      simp only [uncache, found, flags, if_true]
      obtain ⟨erasedOk, erasedCoins⟩ := eraseCoin_spec ok outpoint
      refine ⟨erasedOk, ?_⟩
      simp only [Bool.and_eq_true, Bool.not_eq_true'] at flags
      rw [erasedCoins, ← (ok.1 outpoint entry found).clean flags.1]
      exact update_eq_self_iff.mpr (coinAt_hit found).symm

end CCoinsViewCache

/-- What the coins of a base view owe a cache above them: `BatchWrite` stores the dirty
entries, and does not throw `std::logic_error`. -/
class LawfulCoins (σ : Type) [BaseView σ] : Prop where
  batchWrite_getCoin {view after : σ} :
    BaseView.batchWrite view mapCoins hashBlock hashSaplingAnchor mapSaplingAnchors
    mapSaplingNullifiers = .ok after →
      ∀ outpoint, BaseView.getCoin after outpoint =
        match mapCoins.lookup outpoint with
        | some entry => if entry.dirty then entry.coin.unspent? else BaseView.getCoin view outpoint
        | none => BaseView.getCoin view outpoint
  batchWrite_throws {view : σ} :
    BaseView.batchWrite view mapCoins hashBlock hashSaplingAnchor mapSaplingAnchors mapSaplingNullifiers ≠
      .error (.logicError what)

/-- A failure that some `BatchWrite` of the base view itself ends with. -/
def RaisedByBase (σ : Type) [BaseView σ] (reason : Failure) : Prop :=
  ∃ (view : σ) (mapCoins : CCoinsMap) (hashBlock hashSaplingAnchor : Uint256)
    (mapSaplingAnchors : CAnchorsSaplingMap) (mapSaplingNullifiers : CNullifiersMap),
    BaseView.batchWrite view mapCoins hashBlock hashSaplingAnchor mapSaplingAnchors mapSaplingNullifiers =
      .error reason

theorem mergeCoin_spec (oursOk : ∀ us, ours = some us → EntryOk us beneath)
    (childOk : EntryOk child (ours.elim beneath fun us => us.coin.unspent?)) :
    ∃ merged, mergeCoin outpoint child ours = .ok merged ∧
      (∀ entry, merged = some entry → EntryOk entry beneath) ∧
      (merged.elim beneath fun entry => entry.coin.unspent?) = child.coin.unspent? := by
  cases dirty : child.dirty with
  | false => exact ⟨ours, by simp [mergeCoin, dirty], oursOk, (childOk.clean dirty).symm⟩
  | true =>
    cases ours with
    | none =>
      simp only [elim_none] at childOk
      cases dropped : (child.fresh && child.coin.isSpent) with
      | true =>
        refine ⟨none, by simp [mergeCoin, dropped], by simp, ?_⟩
        simp only [Bool.and_eq_true] at dropped
        rw [elim_none, childOk.fresh dropped.1, unspent?_of_isSpent dropped.2]
      | false =>
        refine ⟨some { coin := child.coin, dirty := true, fresh := child.fresh },
          by simp [mergeCoin, dirty, dropped], ?_, rfl⟩
        rintro entry ⟨⟩
        exact ⟨childOk.fresh, fun clean => (by cases clean), childOk.cleared⟩
    | some us =>
      simp only [elim_some] at childOk
      have usOk := oursOk us rfl
      have applied : (child.fresh && !us.coin.isSpent) = false := by
        cases fresh : child.fresh with
        | false => rfl
        | true =>
          have hidden := childOk.fresh fresh
          cases spent : us.coin.isSpent with
          | true => rfl
          | false =>
            rw [unspent?_of_not_isSpent spent] at hidden
            cases hidden
      cases dropped : (us.fresh && child.coin.isSpent) with
      | true =>
        refine ⟨none, by simp [mergeCoin, dirty, applied, dropped], by simp, ?_⟩
        simp only [Bool.and_eq_true] at dropped
        rw [elim_none, usOk.fresh dropped.1, unspent?_of_isSpent dropped.2]
      | false =>
        refine ⟨some { us with coin := child.coin, dirty := true },
          by simp [mergeCoin, dirty, applied, dropped], ?_, rfl⟩
        rintro entry ⟨⟩
        exact ⟨usOk.fresh, fun clean => (by cases clean), childOk.cleared⟩

theorem mergeCoins_spec (ok : (CCoinsView.cache own below).CoinsOk) {mapCoins : CCoinsMap}
    (childOk : ∀ outpoint entry, mapCoins.lookup outpoint = some entry →
      EntryOk entry ((CCoinsView.cache own below).coinAt outpoint)) :
    ∃ merged, mergeTable mergeCoin mapCoins own.cacheCoins = .ok merged ∧
      ∀ own' : CacheLayer, own'.cacheCoins = merged → own'.CoinsOk below.coinAt ∧
        ∀ outpoint, (CCoinsView.cache own' below).coinAt outpoint =
          (mapCoins.lookup outpoint).elim ((CCoinsView.cache own below).coinAt outpoint)
            fun entry => entry.coin.unspent? := by
  simp only [coinAt_cache] at childOk
  obtain ⟨merged, merges, mergedOk, shows⟩ :=
    mergeTable_spec mergeCoin ok.1 fun outpoint entry present =>
    mergeCoin_spec (ok.1 outpoint) (childOk outpoint entry present)
  refine ⟨merged, merges, ?_⟩
  rintro own' rfl
  refine ⟨mergedOk, fun outpoint => ?_⟩
  rw [coinAt_cache, shows, coinAt_cache]

theorem mergeAnchor_exists (rt : Uint256) (child : CAnchorsSaplingCacheEntry)
    (ours : Option CAnchorsSaplingCacheEntry) : ∃ merged, mergeAnchor rt child ours = .ok merged := by
  cases ours <;> simp only [mergeAnchor] <;> split <;> try exact ⟨_, rfl⟩
  split <;> exact ⟨_, rfl⟩

theorem mergeNullifier_exists (nullifier : Uint256) (child : CNullifiersCacheEntry)
    (ours : Option CNullifiersCacheEntry) :
    ∃ merged, mergeNullifier nullifier child ours = .ok merged := by
  cases ours <;> simp only [mergeNullifier] <;> split <;> try exact ⟨_, rfl⟩
  split <;> exact ⟨_, rfl⟩

theorem batchWrite_coins [LawfulCoins σ] {view : CCoinsView σ} (ok : view.CoinsOk)
    {mapCoins : CCoinsMap} (childOk : ∀ outpoint entry, mapCoins.lookup outpoint = some entry →
      EntryOk entry (view.coinAt outpoint))
    (hashBlock hashSaplingAnchor : Uint256)
    (mapSaplingAnchors : CAnchorsSaplingMap) (mapSaplingNullifiers : CNullifiersMap) :
    match view.batchWrite mapCoins hashBlock hashSaplingAnchor mapSaplingAnchors
      mapSaplingNullifiers with
    | .ok after => after.CoinsOk ∧ ∀ outpoint, after.coinAt outpoint =
        (mapCoins.lookup outpoint).elim (view.coinAt outpoint) fun entry => entry.coin.unspent?
    | .error reason => RaisedByBase σ reason := by
  cases view with
  | base view =>
    cases written : BaseView.batchWrite view mapCoins hashBlock hashSaplingAnchor mapSaplingAnchors
        mapSaplingNullifiers with
    | error reason =>
      simp only [batchWrite, written, Except.map]
      exact ⟨view, mapCoins, hashBlock, hashSaplingAnchor, mapSaplingAnchors, mapSaplingNullifiers,
        written⟩
    | ok after =>
      simp only [batchWrite, written, Except.map]
      have stores := LawfulCoins.batchWrite_getCoin written
      constructor
      · intro outpoint coin answered
        rw [stores] at answered
        split at answered
        · split at answered
          · exact not_isSpent_of_unspent? answered
          · exact ok outpoint coin answered
        · exact ok outpoint coin answered
      · intro outpoint
        rw [coinAt_base, stores]
        cases present : mapCoins.lookup outpoint with
        | none => rfl
        | some entry =>
          cases dirty : entry.dirty with
          | false =>
            simp only [dirty, Bool.false_eq_true, if_false, elim_some]
            exact ((childOk outpoint entry present).clean dirty).symm
          | true =>
            simp only [if_true, elim_some, dirty]
            cases spent : entry.coin.isSpent with
            | true => rw [unspent?_of_isSpent spent]; rfl
            | false =>
              rw [unspent?_of_not_isSpent spent, bind_some, unspent?_of_not_isSpent spent]
  | cache own below =>
    obtain ⟨coins, mergedCoins, coinsOk⟩ := mergeCoins_spec ok childOk
    obtain ⟨anchors, mergedAnchors⟩ :=
      mergeTable_exists fun rt entry (_ : mapSaplingAnchors.lookup rt = some entry) =>
      mergeAnchor_exists rt entry (own.cacheSaplingAnchors.lookup rt)
    obtain ⟨nullifiers, mergedNullifiers⟩ := mergeTable_exists
      fun nf entry (_ : mapSaplingNullifiers.lookup nf = some entry) =>
        mergeNullifier_exists nf entry (own.cacheSaplingNullifiers.lookup nf)
    simp only [batchWrite, CacheLayer.batchWrite, mergedCoins, mergedAnchors,
      mergedNullifiers, Except.map]
    obtain ⟨layerOk, shows⟩ := coinsOk {
      cacheCoins := coins, cacheSaplingAnchors := anchors, cacheSaplingNullifiers := nullifiers
      hashBlock := hashBlock, hashSaplingAnchor := hashSaplingAnchor } rfl
    exact ⟨⟨layerOk, ok.2⟩, shows⟩

theorem CCoinsViewCache.flush_coins [LawfulCoins σ] (ok : cache.view.CoinsOk) :
    match cache.flush with
    | .ok after => after.view.CoinsOk ∧ after.view.coinAt = cache.view.coinAt ∧
      after.below.coinAt = cache.view.coinAt
    | .error reason => RaisedByBase σ reason := by
  have written := batchWrite_coins ok.2 ok.1 cache.own.hashBlock cache.own.hashSaplingAnchor
    cache.own.cacheSaplingAnchors cache.own.cacheSaplingNullifiers
  simp only [CCoinsViewCache.flush]
  cases outcome :
      cache.below.batchWrite cache.own.cacheCoins cache.own.hashBlock cache.own.hashSaplingAnchor
      cache.own.cacheSaplingAnchors cache.own.cacheSaplingNullifiers with
  | error reason =>
    rw [outcome] at written
    exact written
  | ok below =>
    rw [outcome] at written
    obtain ⟨belowOk, shows⟩ := written
    have belowCoins : below.coinAt = cache.view.coinAt := by
      funext outpoint
      rw [shows]
      exact (coinAt_cache cache.own cache.below outpoint).symm
    refine ⟨⟨?_, belowOk⟩, ?_, belowCoins⟩
    · intro outpoint entry found
      cases found
    · rw [← belowCoins]
      funext outpoint
      exact coinAt_miss rfl

end Deviant.Coins
