import Deviant.Coins.SaplingRefinement
import Deviant.Data.Program

namespace Deviant.Coins

open Data Primitives SaplingMerkleTree Program CacheLayer Function

/-! Programs over a coins view.

Block validation reaches the chain state only through the methods of a
`CCoinsViewCache`.  Its functions are written once, as programs over those
methods, and have two meanings: over a cache stack, which is what the code does,
and over the plain state the stack stands for. -/

/-- The chain state without caches: what a view answers, and nothing else. -/
@[ext] structure PlainView where
  coins : COutPoint → Option Coin
  nullifiers : Uint256 → Bool
  anchors : Uint256 → Option SaplingMerkleTree
  bestAnchor : Uint256
  bestBlock : Uint256

inductive ViewOp where
  | haveCoin (outpoint : COutPoint)
  | accessCoin (outpoint : COutPoint)
  | spendCoin (outpoint : COutPoint)
  | addCoin (outpoint : COutPoint) (coin : Coin) (possibleOverwrite : Bool)
  | getNullifier (nullifier : Uint256)
  | setNullifiers (tx : CTransaction) (spent : Bool)
  | getSaplingAnchorAt (rt : Uint256)
  | getBestAnchor
  | pushAnchor (tree : SaplingMerkleTree)
  | popAnchor (newrt : Uint256)
  | getBestBlock
  | setBestBlock (hash : Uint256)

abbrev ViewOp.Answer : ViewOp → Type
  | .haveCoin _ | .getNullifier _ => Bool
  | .accessCoin _ | .spendCoin _ => Coin
  | .getSaplingAnchorAt _ => Option SaplingMerkleTree
  | .getBestAnchor | .getBestBlock => Uint256
  | .addCoin .. | .setNullifiers .. | .pushAnchor _ | .popAnchor _ | .setBestBlock _ => Unit

abbrev ViewProgram := Program ViewOp ViewOp.Answer Failure

namespace ViewProgram

def call (op : ViewOp) : ViewProgram op.Answer := perform op

def lift {α : Type} : Except Rejection α → ViewProgram α
  | .ok value => .done value
  | .error rejection => .fail (.check rejection)

variable (outpoint : COutPoint)

def haveCoin : ViewProgram Bool := call (.haveCoin outpoint)
def accessCoin : ViewProgram Coin := call (.accessCoin outpoint)
def spendCoin : ViewProgram Coin := call (.spendCoin outpoint)
def addCoin (coin : Coin) (possibleOverwrite : Bool) : ViewProgram Unit :=
  call (.addCoin outpoint coin possibleOverwrite)
def getNullifier (nullifier : Uint256) : ViewProgram Bool := call (.getNullifier nullifier)
def setNullifiers (tx : CTransaction) (spent : Bool) : ViewProgram Unit :=
  call (.setNullifiers tx spent)
def getSaplingAnchorAt (rt : Uint256) : ViewProgram (Option SaplingMerkleTree) :=
  call (.getSaplingAnchorAt rt)
def getBestAnchor : ViewProgram Uint256 := call .getBestAnchor
def pushAnchor (tree : SaplingMerkleTree) : ViewProgram Unit := call (.pushAnchor tree)
def popAnchor (newrt : Uint256) : ViewProgram Unit := call (.popAnchor newrt)
def getBestBlock : ViewProgram Uint256 := call .getBestBlock
def setBestBlock (hash : Uint256) : ViewProgram Unit := call (.setBestBlock hash)

end ViewProgram

structure ClosedUnderReads {σ : Type} [BaseView σ] (Holds : CCoinsView σ → Prop) : Prop where
  getCoin : ∀ {view} outpoint, Holds view → Holds (view.getCoin outpoint).2
  getNullifier : ∀ {view} nullifier, Holds view → Holds (view.getNullifier nullifier).2
  getSaplingAnchorAt : ∀ {view} rt, Holds view → Holds (view.getSaplingAnchorAt rt).2
  getBestAnchor : ∀ {view}, Holds view → Holds view.getBestAnchor.2
  getBestBlock : ∀ {view}, Holds view → Holds view.getBestBlock.2

variable {σ : Type} [BaseView σ] [PedersenHash] {Known : SaplingMerkleTree → Prop}

def CCoinsViewCache.step (op : ViewOp) (cache : CCoinsViewCache σ) :
    Except Failure (op.Answer × CCoinsViewCache σ) :=
  match op with
  | .haveCoin outpoint => .ok (cache.haveCoin outpoint)
  | .accessCoin outpoint => .ok (cache.accessCoin outpoint)
  | .spendCoin outpoint => .ok (cache.spendCoin outpoint)
  | .addCoin outpoint coin possibleOverwrite =>
    (cache.addCoin outpoint coin possibleOverwrite).map fun after => ((), after)
  | .getNullifier nullifier => .ok (cache.getNullifier nullifier)
  | .setNullifiers tx spent => .ok ((), cache.setNullifiers tx spent)
  | .getSaplingAnchorAt rt => .ok (cache.getSaplingAnchorAt rt)
  | .getBestAnchor => .ok cache.getBestAnchor
  | .pushAnchor tree => .ok ((), cache.pushAnchor tree)
  | .popAnchor newrt => (cache.popAnchor newrt).map fun after => ((), after)
  | .getBestBlock => .ok cache.getBestBlock
  | .setBestBlock hash => .ok ((), cache.setBestBlock hash)

namespace PlainView

def markNullifiers (nullifiers : Uint256 → Bool) (tx : CTransaction) (spent : Bool) :
    Uint256 → Bool :=
  fun nullifier =>
    if nullifier ∈ tx.shieldedSpends.map SpendDescription.nullifier then spent
      else nullifiers nullifier

/-- The methods on the plain state.  Where a caller must not go (adding over a coin without
permission, a null hash, an unknown tree) the outcome is left open. -/
def step (Known : SaplingMerkleTree → Prop) [DecidablePred Known] (op : ViewOp) (plain : PlainView) :
    Except Failure (op.Answer × PlainView) :=
  match op with
  | .haveCoin outpoint => .ok ((plain.coins outpoint).isSome, plain)
  | .accessCoin outpoint => .ok ((plain.coins outpoint).getD Coin.empty, plain)
  | .spendCoin outpoint =>
    .ok ((plain.coins outpoint).getD Coin.empty,
      { plain with coins := update plain.coins outpoint none })
  | .addCoin outpoint coin possibleOverwrite =>
    if coin.isSpent then .error (.assertion "!coin.IsSpent()")
    else if coin.isIgnored then .ok ((), plain)
    else if !possibleOverwrite && (plain.coins outpoint).isSome then .error .unspecified
    else .ok ((), { plain with coins := update plain.coins outpoint (some coin) })
  | .getNullifier nullifier => .ok (plain.nullifiers nullifier, plain)
  | .setNullifiers tx spent =>
    .ok ((), { plain with nullifiers := markNullifiers plain.nullifiers tx spent })
  | .getSaplingAnchorAt rt => .ok (plain.anchors rt, plain)
  | .getBestAnchor => .ok (plain.bestAnchor, plain)
  | .pushAnchor tree =>
    if plain.bestAnchor = root tree then .ok ((), plain)
    else if Known tree ∧ root tree ≠ 0 then
      .ok ((), { plain with
        anchors := update plain.anchors (root tree) (some tree)
        bestAnchor := root tree })
    else .error .unspecified
  | .popAnchor newrt =>
    if plain.bestAnchor = newrt then .ok ((), plain)
    else if (plain.anchors plain.bestAnchor).isNone then
      .error (.assertion "GetSaplingAnchorAt(currentRoot, tree)")
    else if newrt = 0 then .error .unspecified
    else .ok ((), { plain with
      anchors := update plain.anchors plain.bestAnchor none
      bestAnchor := newrt })
  | .getBestBlock => .ok (plain.bestBlock, plain)
  | .setBestBlock hash => if hash = 0 then .error .unspecified
    else .ok ((), { plain with bestBlock := hash })

end PlainView

section

open PlainView

variable [DecidablePred Known] (plain : PlainView)

open ViewProgram

theorem run_lift_eq_ok : run (step Known) (lift outcome) plain = .ok (value, after) ↔
      outcome = .ok value ∧ after = plain := by
  cases outcome with
  | error reason => simp [lift]
  | ok value => simp [lift, eq_comm]

@[simp] theorem run_haveCoin :
    run (step Known) (haveCoin outpoint) plain =
      .ok ((plain.coins outpoint).isSome, plain) := rfl

@[simp] theorem run_accessCoin :
    run (step Known) (accessCoin outpoint) plain =
      .ok ((plain.coins outpoint).getD Coin.empty, plain) := rfl

@[simp] theorem run_spendCoin :
    run (step Known) (spendCoin outpoint) plain = .ok ((plain.coins outpoint).getD Coin.empty,
        { plain with coins := update plain.coins outpoint none }) := rfl

@[simp] theorem run_getNullifier :
    run (step Known) (getNullifier nullifier) plain =
      .ok (plain.nullifiers nullifier, plain) := rfl

@[simp] theorem run_setNullifiers (tx : CTransaction) :
    run (step Known) (setNullifiers tx spent) plain =
      .ok ((), { plain with nullifiers := markNullifiers plain.nullifiers tx spent }) := rfl

@[simp] theorem run_getSaplingAnchorAt :
    run (step Known) (getSaplingAnchorAt rt) plain = .ok (plain.anchors rt, plain) := rfl

@[simp] theorem run_getBestAnchor :
    run (step Known) getBestAnchor plain = .ok (plain.bestAnchor, plain) := rfl

@[simp] theorem run_getBestBlock :
    run (step Known) getBestBlock plain = .ok (plain.bestBlock, plain) := rfl

theorem run_setBestBlock {hash : Uint256} (notNull : hash ≠ 0) :
    run (step Known) (setBestBlock hash) plain = .ok ((), { plain with bestBlock := hash }) :=
  run_perform.trans (if_neg notNull)

section

variable (tree : SaplingMerkleTree)

def PlainView.pushed (plain : PlainView) : PlainView :=
  if plain.bestAnchor = root tree then plain
  else { plain with
    anchors := update plain.anchors (root tree) (some tree)
    bestAnchor := root tree }

@[simp] theorem PlainView.pushed_coins : (plain.pushed tree).coins = plain.coins := by
  unfold pushed
  split <;> rfl

@[simp] theorem PlainView.pushed_nullifiers :
    (plain.pushed tree).nullifiers = plain.nullifiers := by
  unfold pushed
  split <;> rfl

@[simp] theorem PlainView.pushed_bestAnchor : (plain.pushed tree).bestAnchor = root tree := by
  unfold pushed
  split
  next same => exact same
  · rfl

theorem PlainView.pushed_anchors : (plain.pushed tree).anchors =
      if plain.bestAnchor = root tree then plain.anchors
      else update plain.anchors (root tree) (some tree) := by
  unfold pushed
  split <;> rfl

end

theorem run_pushAnchor (known : Known tree) (notNull : root tree ≠ 0) :
    run (step Known) (pushAnchor tree) plain = .ok ((), plain.pushed tree) := by
  refine run_perform.trans ?_
  simp only [PlainView.step, PlainView.pushed]
  split
  · rfl
  · rw [if_pos ⟨known, notNull⟩]

def PlainView.popped (newrt : Uint256) (plain : PlainView) : PlainView :=
  if plain.bestAnchor = newrt then plain
  else { plain with
    anchors := update plain.anchors plain.bestAnchor none
    bestAnchor := newrt }

omit [PedersenHash] in
@[simp] theorem PlainView.popped_coins : (plain.popped newrt).coins = plain.coins := by
  unfold popped
  split <;> rfl

omit [PedersenHash] in
@[simp] theorem PlainView.popped_nullifiers :
    (plain.popped newrt).nullifiers = plain.nullifiers := by
  unfold popped
  split <;> rfl

theorem run_popAnchor (notNull : newrt ≠ 0)
    (stored : plain.bestAnchor = newrt ∨ (plain.anchors plain.bestAnchor).isSome = true) :
    run (step Known) (popAnchor newrt) plain = .ok ((), plain.popped newrt) := by
  refine run_perform.trans ?_
  simp only [PlainView.step, PlainView.popped]
  split
  · rfl
  next changes =>
    have found : (plain.anchors plain.bestAnchor).isNone = false := by
      simpa using stored.resolve_left changes
    simp [found]

theorem run_addCoin (unspent : coin.isSpent = false)
    (fits : possibleOverwrite = true ∨ plain.coins outpoint = none) :
    run (step Known) (addCoin outpoint coin possibleOverwrite) plain =
      .ok ((), { plain with coins :=
        if coin.isIgnored then plain.coins else update plain.coins outpoint (some coin) }) := by
  have allowed : (!possibleOverwrite && (plain.coins outpoint).isSome) = false := by
    rcases fits with rfl | absent
    · rfl
    · simp [absent]
  refine run_perform.trans ?_
  simp only [PlainView.step, unspent, allowed, Bool.false_eq_true, if_false]
  cases coin.isIgnored with
  | false => rfl
  | true => rfl

end

def CCoinsView.plain (view : CCoinsView σ) : PlainView where
  coins := view.coinAt
  nullifiers := view.nullifierAt
  anchors := view.anchorAt
  bestAnchor := view.bestAnchor
  bestBlock := view.bestBlock

structure CCoinsView.Ok (Known : SaplingMerkleTree → Prop) (view : CCoinsView σ) : Prop where
  coins : view.CoinsOk
  sapling : view.SaplingOk Known

def StandsFor (Known : SaplingMerkleTree → Prop) (plain : PlainView) (cache : CCoinsViewCache σ) :
    Prop :=
  cache.view.Ok Known ∧ cache.view.plain = plain

omit [PedersenHash] in
theorem emptyCache_plain (view : CCoinsView σ) : (CCoinsView.cache {} view).plain = view.plain := by
  refine PlainView.ext (funext fun outpoint => ?_) (funext fun nullifier => ?_)
    (funext fun rt => ?_) ?_ ?_
  · exact coinAt_cache {} view outpoint
  · exact nullifierAt_cache {} view nullifier
  · exact anchorAt_cache {} view rt
  · exact bestAnchor_cache {} view
  · exact bestBlock_cache {} view

theorem emptyCache_ok {view : CCoinsView σ} (ok : view.Ok Known) :
    (CCoinsView.cache {} view).Ok Known where
  coins := ⟨fun _ _ found => (by cases found), ok.coins⟩
  sapling := ⟨fun _ _ found => (by cases found), fun _ _ found => (by cases found), ok.sapling⟩

theorem saplingOk_of_fills {view after : CCoinsView σ}
    (fills : after.mapLayers change = view.mapLayers change) (ok : view.SaplingOk Known)
    (keepsNullifiers : Keeps change cacheSaplingNullifiers)
    (keepsAnchors : Keeps change cacheSaplingAnchors) : after.SaplingOk Known := by
  rw [← saplingOk_mapLayers keepsNullifiers keepsAnchors after, fills,
    saplingOk_mapLayers keepsNullifiers keepsAnchors]
  exact ok

/-- A read leaves every answer and the invariant as they were. -/
theorem closedUnderReads_plain :
    ClosedUnderReads fun view : CCoinsView σ => view.Ok Known ∧ view.plain = plain where
  getCoin {view} outpoint holds := by
    obtain ⟨ok, rfl⟩ := holds
    have fills := getCoin_fills view outpoint
    have read := getCoin_read ok.coins outpoint
    refine ⟨⟨read.ok, saplingOk_of_fills fills ok.sapling (fun _ => rfl) fun _ => rfl⟩, ?_⟩
    exact PlainView.ext read.same (nullifierAt_of_fills fills fun _ => rfl)
      (anchorAt_of_fills fills fun _ => rfl) (bestAnchor_of_fills fills fun _ => rfl)
      (bestBlock_of_fills fills fun _ => rfl)
  getNullifier {view} nullifier holds := by
    obtain ⟨ok, rfl⟩ := holds
    have fills := getNullifier_fills view nullifier
    refine ⟨⟨coinsOk_of_fills fills ok.coins fun _ => rfl, getNullifier_saplingOk ok.sapling⟩, ?_⟩
    exact PlainView.ext (coinAt_of_fills fills fun _ => rfl) (getNullifier_same view)
      (anchorAt_of_fills fills fun _ => rfl) (bestAnchor_of_fills fills fun _ => rfl)
      (bestBlock_of_fills fills fun _ => rfl)
  getSaplingAnchorAt {view} rt holds := by
    obtain ⟨ok, rfl⟩ := holds
    have fills := getSaplingAnchorAt_fills view rt
    refine ⟨⟨coinsOk_of_fills fills ok.coins fun _ => rfl, getSaplingAnchorAt_saplingOk ok.sapling⟩,
      ?_⟩
    exact PlainView.ext (coinAt_of_fills fills fun _ => rfl)
      (nullifierAt_of_fills fills fun _ => rfl) (getSaplingAnchorAt_same view rt)
      (bestAnchor_of_fills fills fun _ => rfl) (bestBlock_of_fills fills fun _ => rfl)
  getBestAnchor {view} holds := by
    obtain ⟨ok, rfl⟩ := holds
    have fills := getBestAnchor_fills view
    refine ⟨⟨coinsOk_of_fills fills ok.coins fun _ => rfl,
      saplingOk_of_fills fills ok.sapling (fun _ => rfl) fun _ => rfl⟩, ?_⟩
    exact PlainView.ext (coinAt_of_fills fills fun _ => rfl)
      (nullifierAt_of_fills fills fun _ => rfl) (anchorAt_of_fills fills fun _ => rfl)
      (getBestAnchor_same view) (bestBlock_of_fills fills fun _ => rfl)
  getBestBlock {view} holds := by
    obtain ⟨ok, rfl⟩ := holds
    have fills := getBestBlock_fills view
    refine ⟨⟨coinsOk_of_fills fills ok.coins fun _ => rfl,
      saplingOk_of_fills fills ok.sapling (fun _ => rfl) fun _ => rfl⟩, ?_⟩
    exact PlainView.ext (coinAt_of_fills fills fun _ => rfl)
      (nullifierAt_of_fills fills fun _ => rfl) (anchorAt_of_fills fills fun _ => rfl)
      (bestAnchor_of_fills fills fun _ => rfl) (getBestBlock_same view)

namespace CCoinsViewCache

variable (cache : CCoinsViewCache σ)

omit [PedersenHash] in
theorem spendCoin_fills : (cache.spendCoin outpoint).2.view.mapLayers forgetCoins =
      cache.view.mapLayers forgetCoins := by
  have fetched : (cache.fetchCoin outpoint).2.view.mapLayers forgetCoins =
      cache.view.mapLayers forgetCoins := getCoin_fills cache.view outpoint
  simp only [spendCoin]
  rcases result : cache.fetchCoin outpoint with ⟨entry, cache'⟩
  rw [result] at fetched
  cases entry with
  | none => exact fetched
  | some entry =>
    simp only
    split
    · exact fetched
    · exact fetched

omit [BaseView σ] [PedersenHash] in
theorem addCoin_fills {cache after : CCoinsViewCache σ}
    (added : cache.addCoin outpoint coin possibleOverwrite = .ok after) :
    after.view.mapLayers forgetCoins = cache.view.mapLayers forgetCoins := by
  unfold addCoin at added
  split at added
  · cases added
  · split at added
    · cases added
      rfl
    · simp only at added
      split at added
      · cases added
      · cases added
        rfl

omit [PedersenHash] in
theorem getSaplingAnchorAt_cached {cache : CCoinsViewCache σ}
    (answered : (cache.getSaplingAnchorAt rt).1 = some tree) :
    ∃ entry, (cache.getSaplingAnchorAt rt).2.own.cacheSaplingAnchors.lookup rt = some entry := by
  simp only [getSaplingAnchorAt, CacheLayer.getSaplingAnchorAt] at answered ⊢
  rcases asked : cache.below.getSaplingAnchorAt rt with ⟨below, below'⟩
  simp only [asked] at answered
  cases found : cache.own.cacheSaplingAnchors.lookup rt with
  | some entry => exact ⟨entry, found⟩
  | none =>
    cases below with
    | none =>
      rw [found] at answered
      cases answered
    | some below => exact ⟨_, AList.lookup_insert _⟩

omit [PedersenHash] in
private theorem popAnchor_eq (newrt : Uint256) : cache.popAnchor newrt =
      if cache.getBestAnchor.1 = newrt then .ok cache.getBestAnchor.2
      else
        match cache.getBestAnchor.2.getSaplingAnchorAt cache.getBestAnchor.1 with
        | (none, _) => .error (.assertion "GetSaplingAnchorAt(currentRoot, tree)")
        | (some _, cache'') => .ok (cache''.setAnchor cache.getBestAnchor.1
            { (cache''.own.cacheSaplingAnchors.lookup cache.getBestAnchor.1).getD {} with
              entered := false, dirty := true } newrt) := rfl

omit [PedersenHash] in
theorem haveCoin_fetches : (cache.haveCoin outpoint).2 = (cache.fetchCoin outpoint).2 := by
  unfold haveCoin
  rcases cache.fetchCoin outpoint with ⟨entry, cache'⟩
  cases entry <;> rfl

omit [PedersenHash] in
theorem accessCoin_fetches : (cache.accessCoin outpoint).2 = (cache.fetchCoin outpoint).2 := by
  unfold accessCoin
  rcases cache.fetchCoin outpoint with ⟨entry, cache'⟩
  cases entry <;> rfl

section

variable {plain : PlainView} {cache : CCoinsViewCache σ} (stands : StandsFor Known plain cache)

include stands

theorem coins_written {after : CCoinsViewCache σ}
    (fills : after.view.mapLayers forgetCoins = cache.view.mapLayers forgetCoins)
    (afterOk : after.view.CoinsOk) (written : after.view.coinAt = coins) :
    StandsFor Known { plain with coins } after := by
  obtain ⟨ok, rfl⟩ := stands
  refine ⟨⟨afterOk, saplingOk_of_fills fills ok.sapling (fun _ => rfl) fun _ => rfl⟩, ?_⟩
  exact PlainView.ext written (nullifierAt_of_fills fills fun _ => rfl)
    (anchorAt_of_fills fills fun _ => rfl) (bestAnchor_of_fills fills fun _ => rfl)
    (bestBlock_of_fills fills fun _ => rfl)

theorem setNullifier_standsFor :
    StandsFor Known { plain with nullifiers := update plain.nullifiers nullifier spent }
      (cache.setNullifier spent nullifier) := by
  obtain ⟨ok, rfl⟩ := stands
  have fills : (cache.setNullifier spent nullifier).view.mapLayers forgetNullifiers =
      cache.view.mapLayers forgetNullifiers := rfl
  refine ⟨⟨coinsOk_of_fills fills ok.coins fun _ => rfl,
    ok.sapling.1.insert (fun clean => by cases clean), ok.sapling.2⟩, ?_⟩
  refine PlainView.ext (coinAt_of_fills fills fun _ => rfl) ?_ (anchorAt_of_fills fills fun _ => rfl)
    (bestAnchor_of_fills fills fun _ => rfl) (bestBlock_of_fills fills fun _ => rfl)
  funext other
  simp only [CCoinsView.plain, view, setNullifier, nullifierAt_cache, Table.lookup_insert_eq,
    update_apply]
  split <;> rfl

theorem setNullifiers_standsFor :
    StandsFor Known { plain with nullifiers := PlainView.markNullifiers plain.nullifiers tx spent }
      (cache.setNullifiers tx spent) := by
  unfold PlainView.markNullifiers setNullifiers
  induction tx.shieldedSpends generalizing plain cache with
  | nil => simpa using stands
  | cons spend rest ih =>
    obtain ⟨laterOk, later⟩ := ih (setNullifier_standsFor stands)
    refine ⟨laterOk, later.trans ?_⟩
    apply PlainView.ext <;> try rfl
    funext nullifier
    by_cases member : nullifier ∈ rest.map SpendDescription.nullifier
    · simp [member]
    · by_cases same : nullifier = spend.nullifier
      · simp [same]
      · simp [same]

theorem setAnchor_standsFor {rt best : Uint256} {entry : CAnchorsSaplingCacheEntry}
    (entryOk : AnchorEntryOk Known rt entry (cache.below.anchorAt rt)) (notNull : best ≠ 0) :
    StandsFor Known
      { plain with anchors := update plain.anchors rt entry.shown, bestAnchor := best }
      (cache.setAnchor rt entry best) := by
  obtain ⟨ok, rfl⟩ := stands
  have fills :
      (cache.setAnchor rt entry best).view.mapLayers (fun own =>
        own.forgetAnchors.forgetBestAnchor) = cache.view.mapLayers (fun own =>
        own.forgetAnchors.forgetBestAnchor) := rfl
  refine ⟨⟨coinsOk_of_fills fills ok.coins fun _ => rfl, ok.sapling.1,
    ok.sapling.2.1.insert entryOk, ok.sapling.2.2⟩, ?_⟩
  refine PlainView.ext (coinAt_of_fills fills fun _ => rfl)
    (nullifierAt_of_fills fills fun _ => rfl) ?_ ?_ (bestBlock_of_fills fills fun _ => rfl)
  · funext other
    simp only [CCoinsView.plain, view, setAnchor, anchorAt_cache, Table.lookup_insert_eq,
      update_apply]
    split <;> rfl
  · simp only [CCoinsView.plain, view, setAnchor, bestAnchor_cache, if_neg notNull]

theorem setBestBlock_standsFor {hash : Uint256} (notNull : hash ≠ 0) :
    StandsFor Known { plain with bestBlock := hash } (cache.setBestBlock hash) := by
  obtain ⟨ok, rfl⟩ := stands
  have fills :
    (cache.setBestBlock hash).view.mapLayers forgetBestBlock =
    cache.view.mapLayers forgetBestBlock := rfl
  refine ⟨⟨coinsOk_of_fills fills ok.coins fun _ => rfl,
    saplingOk_of_fills fills ok.sapling (fun _ => rfl) fun _ => rfl⟩, ?_⟩
  refine PlainView.ext (coinAt_of_fills fills fun _ => rfl) (nullifierAt_of_fills fills fun _ => rfl)
    (anchorAt_of_fills fills fun _ => rfl) (bestAnchor_of_fills fills fun _ => rfl) ?_
  simp only [CCoinsView.plain, view, setBestBlock, bestBlock_cache, if_neg notNull]

theorem getBestAnchor_answers :
    cache.getBestAnchor.1 = plain.bestAnchor := congrArg PlainView.bestAnchor stands.2

theorem getSaplingAnchorAt_answers (rt : Uint256) :
    (cache.getSaplingAnchorAt rt).1 = plain.anchors rt :=
  congrFun (congrArg PlainView.anchors stands.2) rt

theorem getBestAnchor_standsFor : StandsFor Known plain cache.getBestAnchor.2 :=
  closedUnderReads_plain.getBestAnchor stands

theorem getSaplingAnchorAt_standsFor (rt : Uint256) :
    StandsFor Known plain (cache.getSaplingAnchorAt rt).2 :=
  closedUnderReads_plain.getSaplingAnchorAt rt stands

theorem pushAnchor_standsFor {tree : SaplingMerkleTree}
    (known : Known tree) (notNull : root tree ≠ 0) (changes : plain.bestAnchor ≠ root tree) :
    StandsFor Known
      { plain with
        anchors := update plain.anchors (root tree) (some tree)
        bestAnchor := root tree }
      (cache.pushAnchor tree) := by
  have pushed : cache.pushAnchor tree = cache.getBestAnchor.2.setAnchor (root tree)
      { entered := true, tree, dirty := true } (root tree) := by
    rw [← stands.2] at changes
    exact if_neg changes
  rw [pushed]
  exact setAnchor_standsFor (getBestAnchor_standsFor stands) ⟨known, rfl,
    fun clean => (by cases clean)⟩ notNull

theorem popAnchor_standsFor {newrt : Uint256} (notNull : newrt ≠ 0)
    (changes : plain.bestAnchor ≠ newrt) {tree : SaplingMerkleTree}
    (stored : plain.anchors plain.bestAnchor = some tree) :
    ∃ after, cache.popAnchor newrt = .ok after ∧ StandsFor Known
        { plain with
          anchors := update plain.anchors plain.bestAnchor none
          bestAnchor := newrt }
        after := by
  have stands' := getBestAnchor_standsFor stands
  have answered := (getSaplingAnchorAt_answers stands' _).trans stored
  have stands'' := getSaplingAnchorAt_standsFor stands' plain.bestAnchor
  obtain ⟨entry, cached⟩ := getSaplingAnchorAt_cached answered
  have entryOk := stands''.1.sapling.2.1 plain.bestAnchor entry cached
  rw [popAnchor_eq, getBestAnchor_answers stands, if_neg changes]
  rcases result : cache.getBestAnchor.2.getSaplingAnchorAt plain.bestAnchor with ⟨found, cache''⟩
  rw [result] at answered cached entryOk stands''
  simp only at answered cached
  simp only [answered, cached, Option.getD_some]
  exact ⟨_, rfl, setAnchor_standsFor stands'' ⟨entryOk.known, entryOk.rooted,
    fun clean => (by cases clean)⟩ notNull⟩

theorem popAnchor_same :
    ∃ after, cache.popAnchor plain.bestAnchor = .ok after ∧ StandsFor Known plain after := by
  exact ⟨cache.getBestAnchor.2, if_pos (getBestAnchor_answers stands),
    getBestAnchor_standsFor stands⟩

theorem popAnchor_missing
    {newrt : Uint256} (changes : plain.bestAnchor ≠ newrt)
    (missing : plain.anchors plain.bestAnchor = none) :
    cache.popAnchor newrt = .error (.assertion "GetSaplingAnchorAt(currentRoot, tree)") := by
  have answered := (getSaplingAnchorAt_answers (getBestAnchor_standsFor stands) _).trans missing
  rw [popAnchor_eq, getBestAnchor_answers stands, if_neg changes]
  rcases result : cache.getBestAnchor.2.getSaplingAnchorAt plain.bestAnchor with ⟨found, cache''⟩
  rw [result] at answered
  simp only at answered
  simp [answered]

theorem fetchCoin_standsFor : StandsFor Known plain (cache.fetchCoin outpoint).2 :=
  closedUnderReads_plain.getCoin outpoint stands

theorem getNullifier_standsFor : StandsFor Known plain (cache.getNullifier nullifier).2 :=
  closedUnderReads_plain.getNullifier nullifier stands

theorem getBestBlock_standsFor : StandsFor Known plain cache.getBestBlock.2 :=
  closedUnderReads_plain.getBestBlock stands

end

end CCoinsViewCache

open CCoinsViewCache

private theorem addCoin_refines {plain : PlainView} {cache : CCoinsViewCache σ}
    (stands : StandsFor Known plain cache) {outpoint : COutPoint} {coin : Coin}
    {possibleOverwrite : Bool} (unspent : coin.isSpent = false)
    (fits : (!possibleOverwrite && (plain.coins outpoint).isSome) = false ∨ coin.isIgnored = true) :
    ∃ after, cache.addCoin outpoint coin possibleOverwrite = .ok after ∧
      StandsFor Known { plain with
        coins := if coin.isIgnored then plain.coins else update plain.coins outpoint (some coin) }
          after := by
  have coins : cache.view.coinAt = plain.coins := congrArg PlainView.coins stands.2
  cases ignored : coin.isIgnored with
  | true => exact ⟨cache, by simp [addCoin, unspent, ignored], stands⟩
  | false =>
    simp only [ignored, Bool.false_eq_true, or_false, Bool.and_eq_false_iff, Bool.not_eq_false']
      at fits
    have fits' : possibleOverwrite = false → cache.view.coinAt outpoint = none := by
      rintro rfl
      simpa [coins] using fits
    obtain ⟨after, added, afterOk, afterCoins⟩ := addCoin_spec stands.1.coins unspent fits'
    rw [ignored, coins] at afterCoins
    exact ⟨after, added, coins_written stands (addCoin_fills added) afterOk afterCoins⟩

/-- Every method of a cache, over any stack and base view, does to the answers what the plain
method does, as long as the caller keeps to the contract. -/
theorem cache_refines_plain [DecidablePred Known] : Refines (PlainView.step Known) step
      (StandsFor Known : PlainView → CCoinsViewCache σ → Prop) (· = Failure.unspecified) := by
  intro op plain cache stands
  have ok := stands.1
  have coins : cache.view.coinAt = plain.coins := congrArg PlainView.coins stands.2
  cases op with
  | haveCoin outpoint =>
    have answer := (haveCoin_spec ok.coins outpoint).2.2
    rw [coins] at answer
    refine ⟨(cache.haveCoin outpoint).2, by rw [← answer]; rfl, ?_⟩
    rw [haveCoin_fetches]
    exact fetchCoin_standsFor stands
  | accessCoin outpoint =>
    have answer := (accessCoin_spec ok.coins outpoint).2.2
    rw [coins] at answer
    refine ⟨(cache.accessCoin outpoint).2, by rw [← answer]; rfl, ?_⟩
    rw [accessCoin_fetches]
    exact fetchCoin_standsFor stands
  | spendCoin outpoint =>
    obtain ⟨afterOk, afterCoins, answer⟩ := spendCoin_spec ok.coins outpoint
    rw [coins] at answer afterCoins
    exact ⟨(cache.spendCoin outpoint).2, by rw [← answer]; rfl,
      coins_written stands (spendCoin_fills cache) afterOk afterCoins⟩
  | addCoin outpoint coin possibleOverwrite =>
    simp only [PlainView.step, step]
    cases spent : coin.isSpent with
    | true => exact .inr (by simp [addCoin, spent, Except.map])
    | false =>
      cases blocked : (!possibleOverwrite && (plain.coins outpoint).isSome) with
      | false =>
        obtain ⟨after, added, stands'⟩ := addCoin_refines stands spent (.inl blocked)
        rw [added]
        cases ignored : coin.isIgnored with
        | true => exact ⟨after, rfl, by simpa [ignored] using stands'⟩
        | false => exact ⟨after, rfl, by simpa [ignored] using stands'⟩
      | true =>
        cases ignored : coin.isIgnored with
        | true =>
          obtain ⟨after, added, stands'⟩ := addCoin_refines stands spent (.inr ignored)
          rw [added]
          exact ⟨after, rfl, by simpa [ignored] using stands'⟩
        | false => exact .inl rfl
  | getNullifier nullifier =>
    have answer : (cache.getNullifier nullifier).1 = plain.nullifiers nullifier :=
      congrFun (congrArg PlainView.nullifiers stands.2) nullifier
    exact ⟨_, by rw [← answer]; rfl, getNullifier_standsFor stands⟩
  | setNullifiers tx spent => exact ⟨_, rfl, setNullifiers_standsFor stands⟩
  | getSaplingAnchorAt rt =>
    exact ⟨_, by rw [← getSaplingAnchorAt_answers stands]; rfl, getSaplingAnchorAt_standsFor stands rt⟩
  | getBestAnchor =>
    exact ⟨_, by rw [← getBestAnchor_answers stands]; rfl, getBestAnchor_standsFor stands⟩
  | pushAnchor tree =>
    simp only [PlainView.step, step]
    split
    next same =>
      have kept : cache.pushAnchor tree = cache.getBestAnchor.2 :=
        if_pos ((getBestAnchor_answers stands).trans same)
      rw [kept]
      exact ⟨_, rfl, getBestAnchor_standsFor stands⟩
    next changes =>
      split
      next known => exact ⟨_, rfl, pushAnchor_standsFor stands known.1 known.2 changes⟩
      · exact .inl rfl
  | popAnchor newrt =>
    simp only [PlainView.step, step]
    split
    next same =>
      obtain ⟨after, popped, stands'⟩ := popAnchor_same stands
      rw [← same, popped]
      exact ⟨after, rfl, stands'⟩
    next changes =>
      cases stored : plain.anchors plain.bestAnchor with
      | none =>
        rw [popAnchor_missing stands changes stored]
        exact .inr rfl
      | some tree =>
        simp only [Option.isNone_some, Bool.false_eq_true, if_false]
        split
        · exact .inl rfl
        next notNull =>
          obtain ⟨after, popped, stands'⟩ := popAnchor_standsFor stands notNull changes stored
          rw [popped]
          exact ⟨after, rfl, stands'⟩
  | getBestBlock =>
    have answer : cache.getBestBlock.1 = plain.bestBlock := congrArg PlainView.bestBlock stands.2
    exact ⟨_, by rw [← answer]; rfl, getBestBlock_standsFor stands⟩
  | setBestBlock hash =>
    simp only [PlainView.step, step]
    split
    · exact .inl rfl
    next notNull => exact ⟨_, rfl, setBestBlock_standsFor stands notNull⟩

end Deviant.Coins
