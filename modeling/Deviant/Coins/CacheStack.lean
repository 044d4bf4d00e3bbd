import Deviant.TxDB.CoinsViewDB

namespace Deviant.Coins

open Primitives CCoinsView CCoinsViewCache BaseView

/-! Runs of a stack of caches.  Calls are issued to the top cache, empty caches are
put on top and flushed ones taken off; the run is compared with a plain map from
outpoints to coins that knows neither caches nor flags. -/

inductive StackOp where
  | addCoin (outpoint : COutPoint) (coin : Coin) (possibleOverwrite : Bool)
  | spendCoin (outpoint : COutPoint)
  | getCoin (outpoint : COutPoint)
  | accessCoin (outpoint : COutPoint)
  | haveCoin (outpoint : COutPoint)
  | haveCoinInCache (outpoint : COutPoint)
  | uncache (outpoint : COutPoint)
  | flush
  | push
  | pop
deriving DecidableEq

inductive StackAnswer where
  | done
  | found (coin : Option Coin)
  | coin (coin : Coin)
  | flag (value : Bool)
deriving DecidableEq

variable {σ : Type} [BaseView σ]

def CCoinsViewCache.perform (cache : CCoinsViewCache σ) :
    StackOp → Except Failure (StackAnswer × CCoinsView σ)
  | .addCoin outpoint coin possibleOverwrite =>
    (cache.addCoin outpoint coin possibleOverwrite).map fun after => (.done, after.view)
  | .spendCoin outpoint =>
    .ok (.coin (cache.spendCoin outpoint).1, (cache.spendCoin outpoint).2.view)
  | .getCoin outpoint => .ok (.found (cache.getCoin outpoint).1, (cache.getCoin outpoint).2.view)
  | .accessCoin outpoint =>
    .ok (.coin (cache.accessCoin outpoint).1, (cache.accessCoin outpoint).2.view)
  | .haveCoin outpoint => .ok (.flag (cache.haveCoin outpoint).1, (cache.haveCoin outpoint).2.view)
  | .haveCoinInCache outpoint => .ok (.flag (cache.haveCoinInCache outpoint), cache.view)
  | .uncache outpoint => .ok (.done, (cache.uncache outpoint).view)
  | .flush => cache.flush.map fun after => (.done, after.view)
  | .push => .ok (.done, .cache {} cache.view)
  | .pop => .ok (.done, cache.below)

namespace CCoinsView

def perform : CCoinsView σ → StackOp → Except Failure (StackAnswer × CCoinsView σ)
  | .cache own below, op => CCoinsViewCache.perform { own, below } op
  | .base view, .push => .ok (.done, .cache {} (.base view))
  | .base _, _ => .error .unspecified

def performAll : CCoinsView σ → List StackOp → Except Failure (List StackAnswer × CCoinsView σ)
  | view, [] => .ok ([], view)
  | view, op :: rest =>
    match view.perform op with
    | .error reason => .error reason
    | .ok (answer, after) => (after.performAll rest).map fun result => (answer :: result.1, result.2)

end CCoinsView

/-- No entry of the cache differs from the view below, as after `Flush` and any reads since. -/
def CacheLayer.isFlushed (own : CacheLayer) :
    Bool := own.cacheCoins.entries.all fun entry => !entry.2.dirty

/-- The caller's side: calls go to a cache, an added coin is unspent and, unless it may
overwrite, is added where no unspent coin is visible, and only flushed caches are dropped. -/
def StackOp.isLegal (view : CCoinsView σ) (op : StackOp) : Bool :=
  match view, op with
  | _, .push => true
  | .base _, _ => false
  | .cache _ _, .addCoin outpoint coin possibleOverwrite =>
    !coin.isSpent && (possibleOverwrite || (view.coinAt outpoint).isNone)
  | .cache own _, .pop => own.isFlushed
  | .cache _ _, _ => true

def CCoinsView.isLegalRun (view : CCoinsView σ) : List StackOp → Bool
  | [] => true
  | op :: rest =>
    op.isLegal view &&
      match view.perform op with
      | .error _ => true
      | .ok (_, after) => after.isLegalRun rest

variable (map : COutPoint → Option Coin)

def StackOp.onMap : StackOp → COutPoint → Option Coin
  | .addCoin outpoint coin _ => if coin.isIgnored then map
    else Function.update map outpoint (some coin)
  | .spendCoin outpoint => Function.update map outpoint none
  | _ => map

def mapAfter (ops : List StackOp) : COutPoint → Option Coin :=
  ops.foldl StackOp.onMap map

/-- The answer a call may give over a plain map.  `GetCoin` may report a spent coin;
`HaveCoinInCache` is about the cache and not about the map. -/
def StackOp.Answers : StackOp → StackAnswer → Prop
  | .getCoin outpoint, .found coin => coin.bind Coin.unspent? = map outpoint
  | .spendCoin outpoint, .coin coin => coin = (map outpoint).getD Coin.empty
  | .accessCoin outpoint, .coin coin => coin = (map outpoint).getD Coin.empty
  | .haveCoin outpoint, .flag value => value = (map outpoint).isSome
  | .haveCoinInCache _, .flag _ => True
  | .addCoin .., .done | .uncache _, .done | .flush, .done | .push, .done | .pop, .done => True
  | _, _ => False

def AllAnswer (map : COutPoint → Option Coin) : List StackOp → List StackAnswer → Prop
  | [], [] => True
  | op :: ops, answer :: answers => op.Answers map answer ∧ AllAnswer (op.onMap map) ops answers
  | _, _ => False

theorem coinAt_push (view : CCoinsView σ) : (cache {} view).coinAt = view.coinAt := by
  funext outpoint
  exact coinAt_miss rfl

theorem CoinsOk.push {view : CCoinsView σ} (ok : view.CoinsOk) : (cache {} view).CoinsOk := by
  refine ⟨?_, ok⟩
  intro outpoint entry found
  cases found

theorem coinAt_pop {own : CacheLayer} {below : CCoinsView σ} (ok : (cache own below).CoinsOk)
    (flushed : own.isFlushed = true) : below.coinAt = (cache own below).coinAt := by
  funext outpoint
  cases found : own.cacheCoins.lookup outpoint with
  | none => exact (coinAt_miss found).symm
  | some entry =>
    have member := List.of_mem_dlookup found
    have clean := List.all_eq_true.mp flushed _ member
    rw [coinAt_hit found]
    exact ((ok.1 outpoint entry found).clean (by simpa using clean)).symm

theorem perform_refines [LawfulCoins σ] {view : CCoinsView σ} (ok : view.CoinsOk) {op : StackOp}
    (legal : op.isLegal view = true) :
    match view.perform op with
    | .ok (answer, after) =>
      after.CoinsOk ∧ after.coinAt = op.onMap view.coinAt ∧ op.Answers view.coinAt answer
    | .error reason => RaisedByBase σ reason := by
  cases view with
  | base view =>
    cases op with
    | push => exact ⟨CoinsOk.push ok, coinAt_push _, trivial⟩
    | _ => cases legal
  | cache own below =>
    let cache : CCoinsViewCache σ := { own, below }
    change cache.view.CoinsOk at ok
    cases op with
    | addCoin outpoint coin possibleOverwrite =>
      simp only [StackOp.isLegal, Bool.and_eq_true, Bool.not_eq_true', Bool.or_eq_true] at legal
      obtain ⟨unspent, fits⟩ := legal
      have fits' : possibleOverwrite = false → cache.view.coinAt outpoint = none := by
        rintro rfl
        simpa [cache, view] using fits
      obtain ⟨after, added, afterOk, afterCoins⟩ := addCoin_spec ok unspent fits'
      have performed : (CCoinsView.cache own below).perform (.addCoin outpoint coin possibleOverwrite) =
          .ok (.done, after.view) := by
        change (cache.addCoin outpoint coin possibleOverwrite).map _ = _
        rw [added]
        rfl
      rw [performed]
      exact ⟨afterOk, afterCoins, trivial⟩
    | spendCoin outpoint => exact CCoinsViewCache.spendCoin_spec ok outpoint
    | getCoin outpoint =>
      obtain ⟨read, _⟩ := fetchCoin_spec ok outpoint
      exact ⟨read.ok, read.same, rfl⟩
    | accessCoin outpoint => exact CCoinsViewCache.accessCoin_spec ok outpoint
    | haveCoin outpoint => exact CCoinsViewCache.haveCoin_spec ok outpoint
    | haveCoinInCache outpoint => exact ⟨ok, rfl, trivial⟩
    | uncache outpoint =>
      obtain ⟨afterOk, afterCoins⟩ := uncache_spec ok outpoint
      exact ⟨afterOk, afterCoins, trivial⟩
    | flush =>
      have flushed := flush_coins ok
      have performed : (CCoinsView.cache own below).perform .flush =
          cache.flush.map fun after => (.done, after.view) := rfl
      cases outcome : cache.flush with
      | error reason =>
        rw [outcome] at flushed
        rw [performed, outcome]
        exact flushed
      | ok after =>
        rw [outcome] at flushed
        rw [performed, outcome]
        exact ⟨flushed.1, flushed.2.1, trivial⟩
    | push => exact ⟨CoinsOk.push ok, coinAt_push _, trivial⟩
    | pop => exact ⟨ok.2, coinAt_pop ok legal, trivial⟩

theorem performAll_refines [LawfulCoins σ] {view : CCoinsView σ} (ok : view.CoinsOk)
    {ops : List StackOp} (legal : view.isLegalRun ops = true) :
    match view.performAll ops with
    | .ok (answers, after) => after.CoinsOk ∧ after.coinAt = mapAfter view.coinAt ops ∧
        AllAnswer view.coinAt ops answers
    | .error reason => RaisedByBase σ reason := by
  induction ops generalizing view with
  | nil => exact ⟨ok, rfl, trivial⟩
  | cons op rest ih =>
    simp only [isLegalRun, Bool.and_eq_true] at legal
    have first := perform_refines ok legal.1
    cases performed : view.perform op with
    | error reason =>
      rw [performed] at first
      simp only [performAll, performed]
      exact first
    | ok result =>
      obtain ⟨answer, after⟩ := result
      rw [performed] at first
      obtain ⟨afterOk, afterCoins, answered⟩ := first
      have later := ih afterOk (by simpa only [performed] using legal.2)
      have unfolded : view.performAll (op :: rest) =
          (after.performAll rest).map fun result => (answer :: result.1, result.2) := by
        simp [performAll, performed]
      rw [unfolded]
      cases ran : after.performAll rest with
      | error reason =>
        rw [ran] at later
        exact later
      | ok final =>
        rw [ran] at later
        obtain ⟨lastOk, lastCoins, restAnswered⟩ := later
        rw [afterCoins] at lastCoins restAnswered
        exact ⟨lastOk, lastCoins, answered, restAnswered⟩

/-- Every legal run over a base view without spent coins gives the answers of the plain map,
and leaves exactly that map visible; no call ends in `std::logic_error`. -/
theorem cache_stack_refines_map [LawfulCoins σ] (view : σ)
    (neverSpent : ∀ outpoint coin, getCoin view outpoint = some coin → coin.isSpent = false)
    (ops : List StackOp) (legal : (base view).isLegalRun ops = true) :
    match (base view).performAll ops with
    | .ok (answers, after) =>
      (∀ outpoint, after.coinAt outpoint = mapAfter (getCoin view) ops outpoint) ∧
        AllAnswer (getCoin view) ops answers
    | .error reason => RaisedByBase σ reason ∧ ∀ what, reason ≠ .logicError what := by
  have start : (base view).coinAt = getCoin view := by
    funext outpoint
    rw [coinAt_base]
    cases answered : getCoin view outpoint with
    | none => rfl
    | some coin => exact Coin.unspent?_of_not_isSpent (neverSpent outpoint coin answered)
  have ran := @performAll_refines σ _ _ (.base view) neverSpent ops legal
  cases outcome : (base view).performAll ops with
  | error reason =>
    rw [outcome] at ran
    refine ⟨ran, ?_⟩
    rintro what rfl
    obtain ⟨base, mapCoins, hashBlock, hashAnchor, anchors, nullifiers, raised⟩ := ran
    exact LawfulCoins.batchWrite_throws raised
  | ok result =>
    rw [outcome] at ran
    rw [← start]
    exact ⟨fun outpoint => congrFun ran.2.1 outpoint, ran.2.2⟩

section

open TxDB

private def somewhere : COutPoint := { hash := 7, n := 0 }

private def someCoin : Coin := { out := { nValue := 5, scriptPubKey := [0x51] }, nHeight := 3 }

private def sampleRun : List StackOp :=
  [.push, .addCoin somewhere someCoin false, .push, .haveCoin somewhere, .spendCoin somewhere,
    .flush, .pop, .addCoin somewhere someCoin false, .uncache somewhere, .accessCoin somewhere]

local instance : PedersenHash := ⟨fun tree => BitVec.ofNat 256 (tree.length + 1)⟩

theorem cache_stack_refines_map_sampleRun :
        ∃ after, (base ({} : CCoinsViewDB)).performAll sampleRun =
          .ok ([.done, .done, .done, .flag true, .coin someCoin, .done, .done, .done, .done,
            .coin someCoin], after) ∧
      ∀ outpoint, after.coinAt outpoint = mapAfter (getCoin ({} : CCoinsViewDB))
      sampleRun outpoint := by
  have refined := cache_stack_refines_map ({} : CCoinsViewDB) (fun _ _ found => by cases found) sampleRun
    (by decide)
  refine ⟨_, rfl, ?_⟩
  exact refined.1

end

end Deviant.Coins
