import Deviant.Data.MapMerge
import Deviant.Primitives.Transaction

namespace Deviant.Coins

open Data Primitives

/-! The coins views: a base view (the chain state database) under a stack of
`CCoinsViewCache` objects.  A read through a cache may fill that cache and every
cache below it, so a read returns the changed view beside its answer. -/

structure Coin where
  fCoinBase : Bool := false
  fCoinStake : Bool := false
  out : CTxOut := CTxOut.null
  nHeight : Nat := 0
deriving DecidableEq

namespace Coin

/-- What the default constructor builds and `Clear` leaves. -/
def empty : Coin := {}

def isSpent (coin : Coin) : Bool := coin.out.isNull

/-- The coin as a user of the UTXO set sees it: a spent coin is no coin. -/
def unspent? (coin : Coin) : Option Coin := if coin.isSpent then none else some coin

/-- `AddCoin` keeps no coin whose output can never be spent as a coin. -/
def isIgnored (coin : Coin) : Bool :=
  CScript.isUnspendable coin.out.scriptPubKey || coin.out.isZerocoinMint

end Coin

/-- How a check that asks no view can end other than by passing. -/
inductive Rejection where
  | rejected (reason : String)
  | runtimeError (what : String)
deriving DecidableEq

inductive Failure where
  | logicError (what : String)
  | assertion (condition : String)
  | check (rejection : Rejection)
  /-- A call outside the contract of the abstract view; no code path raises it. -/
  | unspecified
deriving DecidableEq

structure CCoinsCacheEntry where
  coin : Coin := Coin.empty
  dirty : Bool := false
  fresh : Bool := false
deriving DecidableEq

structure CAnchorsSaplingCacheEntry where
  entered : Bool := false
  tree : SaplingMerkleTree := []
  dirty : Bool := false
deriving DecidableEq

structure CNullifiersCacheEntry where
  entered : Bool := false
  dirty : Bool := false
deriving DecidableEq

abbrev CCoinsMap := Table COutPoint CCoinsCacheEntry
abbrev CAnchorsSaplingMap := Table Uint256 CAnchorsSaplingCacheEntry
abbrev CNullifiersMap := Table Uint256 CNullifiersCacheEntry

/-- The virtual methods a view at the bottom of the stack provides. -/
class BaseView (σ : Type) where
  getCoin : σ → COutPoint → Option Coin
  getBestBlock : σ → Uint256
  getSaplingAnchorAt : σ → Uint256 → Option SaplingMerkleTree
  getNullifier : σ → Uint256 → Bool
  getBestAnchor : σ → Uint256
  batchWrite : σ → CCoinsMap → Uint256 → Uint256 → CAnchorsSaplingMap → CNullifiersMap →
    Except Failure σ

/-- The members of one `CCoinsViewCache`, without the view it is backed by. -/
structure CacheLayer where
  cacheCoins : CCoinsMap := ∅
  hashBlock : Uint256 := 0
  hashSaplingAnchor : Uint256 := 0
  cacheSaplingAnchors : CAnchorsSaplingMap := ∅
  cacheSaplingNullifiers : CNullifiersMap := ∅

inductive CCoinsView (σ : Type) where
  | base (view : σ)
  | cache (own : CacheLayer) (below : CCoinsView σ)

/-! A layer's read takes `asked`, the answer of the view below together with that
view after the call, and uses it only where the source calls the view below. -/

namespace CacheLayer

variable {β : Type}

variable (own : CacheLayer)

def fetchCoin (outpoint : COutPoint) (asked : Option Coin × β) (below : β) :
    Option CCoinsCacheEntry × CacheLayer × β :=
  match own.cacheCoins.lookup outpoint with
  | some entry => (some entry, own, below)
  | none =>
    match asked with
    | (none, below') => (none, own, below')
    | (some tmp, below') =>
      let entry : CCoinsCacheEntry := { coin := tmp, fresh := tmp.isSpent }
      (some entry, { own with cacheCoins := own.cacheCoins.insert outpoint entry }, below')

def getBestBlock (asked : Uint256 × β) (below : β) : Uint256 × CacheLayer × β :=
  if own.hashBlock = 0 then (asked.1, { own with hashBlock := asked.1 }, asked.2)
  else (own.hashBlock, own, below)

def getBestAnchor (asked : Uint256 × β) (below : β) : Uint256 × CacheLayer × β :=
  if own.hashSaplingAnchor = 0 then (asked.1, { own with hashSaplingAnchor := asked.1 }, asked.2)
  else (own.hashSaplingAnchor, own, below)

def getSaplingAnchorAt (rt : Uint256) (asked : Option SaplingMerkleTree × β) (below : β) :
    Option SaplingMerkleTree × CacheLayer × β :=
  match own.cacheSaplingAnchors.lookup rt with
  | some entry => (if entry.entered then some entry.tree else none, own, below)
  | none =>
    match asked with
    | (none, below') => (none, own, below')
    | (some tree, below') =>
      let entry : CAnchorsSaplingCacheEntry := { entered := true, tree }
      (some tree, { own with cacheSaplingAnchors := own.cacheSaplingAnchors.insert rt entry }, below')

def getNullifier (nullifier : Uint256) (asked : Bool × β) (below : β) : Bool × CacheLayer × β :=
  match own.cacheSaplingNullifiers.lookup nullifier with
  | some entry => (entry.entered, own, below)
  | none =>
    let entry : CNullifiersCacheEntry := { entered := asked.1 }
    (asked.1,
      { own with cacheSaplingNullifiers := own.cacheSaplingNullifiers.insert nullifier entry },
      asked.2)

end CacheLayer

/-- One turn of the coins loop of `BatchWrite`. -/
def mergeCoin (_ : COutPoint) (child : CCoinsCacheEntry) (ours : Option CCoinsCacheEntry) :
    Except Failure (Option CCoinsCacheEntry) :=
  if !child.dirty then .ok ours
  else
    match ours with
    | none =>
      if child.fresh && child.coin.isSpent then .ok none
      else .ok (some { coin := child.coin, dirty := true, fresh := child.fresh })
    | some us =>
      if child.fresh && !us.coin.isSpent then
        .error (.logicError
          "FRESH flag misapplied to cache entry for base transaction with spendable outputs")
      else if us.fresh && child.coin.isSpent then .ok none
      else .ok (some { us with coin := child.coin, dirty := true })

/-- One turn of `BatchWriteAnchors`; an entry we have keeps its own tree. -/
def mergeAnchor (_ : Uint256) (child : CAnchorsSaplingCacheEntry)
    (ours : Option CAnchorsSaplingCacheEntry) :
    Except Failure (Option CAnchorsSaplingCacheEntry) :=
  if !child.dirty then .ok ours
  else
    match ours with
    | none => .ok (some { entered := child.entered, tree := child.tree, dirty := true })
    | some us =>
      if us.entered != child.entered then .ok (some { us with entered := child.entered, dirty := true })
      else .ok (some us)

/-- One turn of `BatchWriteNullifiers`. -/
def mergeNullifier (_ : Uint256) (child : CNullifiersCacheEntry) (ours : Option CNullifiersCacheEntry) :
    Except Failure (Option CNullifiersCacheEntry) :=
  if !child.dirty then .ok ours
  else
    match ours with
    | none => .ok (some { entered := child.entered, dirty := true })
    | some us =>
      if us.entered != child.entered then .ok (some { entered := child.entered, dirty := true })
      else .ok (some us)

def CacheLayer.batchWrite (own : CacheLayer) (mapCoins : CCoinsMap)
    (hashBlockIn hashSaplingAnchorIn : Uint256) (mapSaplingAnchors : CAnchorsSaplingMap)
    (mapSaplingNullifiers : CNullifiersMap) : Except Failure CacheLayer :=
  match mergeTable mergeCoin mapCoins own.cacheCoins with
  | .error reason => .error reason
  | .ok cacheCoins =>
    match mergeTable mergeAnchor mapSaplingAnchors own.cacheSaplingAnchors with
    | .error reason => .error reason
    | .ok cacheSaplingAnchors =>
      match mergeTable mergeNullifier mapSaplingNullifiers own.cacheSaplingNullifiers with
      | .error reason => .error reason
      | .ok cacheSaplingNullifiers =>
        .ok {
          cacheCoins, cacheSaplingAnchors, cacheSaplingNullifiers
          hashBlock := hashBlockIn
          hashSaplingAnchor := hashSaplingAnchorIn }

namespace CCoinsView

variable {σ : Type} [BaseView σ]

def getCoin : CCoinsView σ → COutPoint → Option Coin × CCoinsView σ
  | .base view, outpoint => (BaseView.getCoin view outpoint, .base view)
  | .cache own below, outpoint =>
    let (entry, own', below') := own.fetchCoin outpoint (below.getCoin outpoint) below
    (entry.map (·.coin), .cache own' below')

def getBestBlock : CCoinsView σ → Uint256 × CCoinsView σ
  | .base view => (BaseView.getBestBlock view, .base view)
  | .cache own below =>
    let (hash, own', below') := own.getBestBlock below.getBestBlock below
    (hash, .cache own' below')

def getBestAnchor : CCoinsView σ → Uint256 × CCoinsView σ
  | .base view => (BaseView.getBestAnchor view, .base view)
  | .cache own below =>
    let (hash, own', below') := own.getBestAnchor below.getBestAnchor below
    (hash, .cache own' below')

def getSaplingAnchorAt : CCoinsView σ → Uint256 → Option SaplingMerkleTree × CCoinsView σ
  | .base view, rt => (BaseView.getSaplingAnchorAt view rt, .base view)
  | .cache own below, rt =>
    let (tree, own', below') := own.getSaplingAnchorAt rt (below.getSaplingAnchorAt rt) below
    (tree, .cache own' below')

def getNullifier : CCoinsView σ → Uint256 → Bool × CCoinsView σ
  | .base view, nullifier => (BaseView.getNullifier view nullifier, .base view)
  | .cache own below, nullifier =>
    let (spent, own', below') := own.getNullifier nullifier (below.getNullifier nullifier) below
    (spent, .cache own' below')

def batchWrite (view : CCoinsView σ) (mapCoins : CCoinsMap) (hashBlock hashSaplingAnchor : Uint256)
    (mapSaplingAnchors : CAnchorsSaplingMap) (mapSaplingNullifiers : CNullifiersMap) :
    Except Failure (CCoinsView σ) :=
  match view with
  | .base view =>
    (BaseView.batchWrite view mapCoins hashBlock hashSaplingAnchor mapSaplingAnchors
      mapSaplingNullifiers).map .base
  | .cache own below =>
    (own.batchWrite mapCoins hashBlock hashSaplingAnchor mapSaplingAnchors mapSaplingNullifiers).map
      (.cache · below)

end CCoinsView

/-- A `CCoinsViewCache` object: its members and the view it is backed by. -/
structure CCoinsViewCache (σ : Type) where
  own : CacheLayer := {}
  below : CCoinsView σ

namespace CCoinsViewCache

variable {σ : Type} [BaseView σ]

variable (cache : CCoinsViewCache σ)

def view : CCoinsView σ := .cache cache.own cache.below

variable (outpoint : COutPoint)

def fetchCoin : Option CCoinsCacheEntry × CCoinsViewCache σ :=
  let (entry, own, below) := cache.own.fetchCoin outpoint (cache.below.getCoin outpoint) cache.below
  (entry, { own, below })

def getCoin : Option Coin × CCoinsViewCache σ :=
  let (entry, cache') := cache.fetchCoin outpoint
  (entry.map (·.coin), cache')

def setCoin (entry : CCoinsCacheEntry) : CCoinsViewCache σ :=
  { cache with own := { cache.own with cacheCoins := cache.own.cacheCoins.insert outpoint entry } }

def eraseCoin : CCoinsViewCache σ :=
  { cache with own := { cache.own with cacheCoins := cache.own.cacheCoins.erase outpoint } }

def addCoin (coin : Coin) (possibleOverwrite : Bool) : Except Failure (CCoinsViewCache σ) :=
  if coin.isSpent then .error (.assertion "!coin.IsSpent()")
  else if coin.isIgnored then .ok cache
  else
    -- An absent entry is emplaced empty, which reads as spent and without flags.
    let entry := (cache.own.cacheCoins.lookup outpoint).getD {}
    if !possibleOverwrite && !entry.coin.isSpent then
      .error (.logicError "Adding new coin that replaces non-pruned entry")
    else
      let fresh := !possibleOverwrite && !entry.dirty
      .ok (cache.setCoin outpoint { coin, dirty := true, fresh := entry.fresh || fresh })

/-- `SpendCoin`; the answer is what `moveout` holds afterwards if it was a default coin before. -/
def spendCoin : Coin × CCoinsViewCache σ :=
  match cache.fetchCoin outpoint with
  | (none, cache') => (Coin.empty, cache')
  | (some entry, cache') =>
    if entry.fresh then (entry.coin, cache'.eraseCoin outpoint)
    else (entry.coin, cache'.setCoin outpoint { entry with coin := Coin.empty, dirty := true })

def accessCoin : Coin × CCoinsViewCache σ :=
  match cache.fetchCoin outpoint with
  | (none, cache') => (Coin.empty, cache')
  | (some entry, cache') => (entry.coin, cache')

def haveCoin : Bool × CCoinsViewCache σ :=
  match cache.fetchCoin outpoint with
  | (none, cache') => (false, cache')
  | (some entry, cache') => (!entry.coin.isSpent, cache')

def haveCoinInCache : Bool :=
  (cache.own.cacheCoins.lookup outpoint).isSome

def uncache : CCoinsViewCache σ :=
  match cache.own.cacheCoins.lookup outpoint with
  | none => cache
  | some entry => if !entry.dirty && !entry.fresh then cache.eraseCoin outpoint else cache

/-- `Flush` keeps the two best hashes of the cache it empties. -/
def flush : Except Failure (CCoinsViewCache σ) :=
  (cache.below.batchWrite cache.own.cacheCoins cache.own.hashBlock cache.own.hashSaplingAnchor
    cache.own.cacheSaplingAnchors cache.own.cacheSaplingNullifiers).map fun below =>
      { own := { hashBlock := cache.own.hashBlock, hashSaplingAnchor := cache.own.hashSaplingAnchor }, below }

def getBestBlock : Uint256 × CCoinsViewCache σ :=
  let (hash, own, below) := cache.own.getBestBlock cache.below.getBestBlock cache.below
  (hash, { own, below })

def setBestBlock (hashBlockIn : Uint256) : CCoinsViewCache σ :=
  { cache with own := { cache.own with hashBlock := hashBlockIn } }

def getBestAnchor : Uint256 × CCoinsViewCache σ :=
  let (hash, own, below) := cache.own.getBestAnchor cache.below.getBestAnchor cache.below
  (hash, { own, below })

def getSaplingAnchorAt (rt : Uint256) : Option SaplingMerkleTree × CCoinsViewCache σ :=
  let (tree, own, below) :=
    cache.own.getSaplingAnchorAt rt (cache.below.getSaplingAnchorAt rt) cache.below
  (tree, { own, below })

def getNullifier (nullifier : Uint256) : Bool × CCoinsViewCache σ :=
  let (spent, own, below) :=
    cache.own.getNullifier nullifier (cache.below.getNullifier nullifier) cache.below
  (spent, { own, below })

def setAnchor (rt : Uint256) (entry : CAnchorsSaplingCacheEntry) (best : Uint256) :
    CCoinsViewCache σ :=
  { cache with own := { cache.own with
      cacheSaplingAnchors := cache.own.cacheSaplingAnchors.insert rt entry
      hashSaplingAnchor := best } }

def pushAnchor [PedersenHash] (cache : CCoinsViewCache σ) (tree : SaplingMerkleTree) :
    CCoinsViewCache σ :=
  let newrt := SaplingMerkleTree.root tree
  let (currentRoot, cache') := cache.getBestAnchor
  if currentRoot = newrt then cache'
  else cache'.setAnchor newrt { entered := true, tree, dirty := true } newrt

def popAnchor (newrt : Uint256) : Except Failure (CCoinsViewCache σ) :=
  let (currentRoot, cache') := cache.getBestAnchor
  if currentRoot = newrt then .ok cache'
  else
    -- `BringBestAnchorIntoCache`
    match cache'.getSaplingAnchorAt currentRoot with
    | (none, _) => .error (.assertion "GetSaplingAnchorAt(currentRoot, tree)")
    | (some _, cache'') =>
      let entry := (cache''.own.cacheSaplingAnchors.lookup currentRoot).getD {}
      .ok (cache''.setAnchor currentRoot { entry with entered := false, dirty := true } newrt)

def setNullifier (spent : Bool) (nullifier : Uint256) : CCoinsViewCache σ :=
  { cache with own := { cache.own with
      cacheSaplingNullifiers :=
        cache.own.cacheSaplingNullifiers.insert nullifier { entered := spent, dirty := true } } }

def setNullifiers (tx : CTransaction) (spent : Bool) : CCoinsViewCache σ :=
  tx.shieldedSpends.foldl (fun cache spend => cache.setNullifier spent spend.nullifier) cache

end CCoinsViewCache

end Deviant.Coins
