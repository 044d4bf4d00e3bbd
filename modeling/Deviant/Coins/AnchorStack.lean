import Deviant.Coins.Below
import Deviant.TxDB.CoinsViewDB

namespace Deviant.Coins

open CacheLayer Data Function List PlainView Primitives SaplingMerkleTree

/-! Runs of calls on a cache, compared with a model that keeps the nullifiers and the
anchors as sets and the chain of note commitment trees as a stack. -/

inductive CacheCall where
  | op (op : ViewOp)
  | getCoin (outpoint : COutPoint)
  | haveCoinInCache (outpoint : COutPoint)
  | uncache (outpoint : COutPoint)

namespace CacheCall

/-- `GetBestBlock` and `SetBestBlock` -/
def asksBestBlock : CacheCall → Bool
  | .op .getBestBlock | .op (.setBestBlock _) => true
  | _ => false

/-- `GetBestAnchor`, which pushing and popping call as well -/
def asksBestAnchor : CacheCall → Bool
  | .op .getBestAnchor | .op (.pushAnchor _) | .op (.popAnchor _) => true
  | _ => false

end CacheCall

section

variable {σ : Type} [BaseView σ] [PedersenHash] {Known : SaplingMerkleTree → Prop}

namespace CCoinsViewCache

def call (cache : CCoinsViewCache σ) : CacheCall → Except Failure (CCoinsViewCache σ)
  | .op op => (cache.step op).map Prod.snd
  | .getCoin outpoint => .ok (cache.getCoin outpoint).2
  | .haveCoinInCache _ => .ok cache
  | .uncache outpoint => .ok (cache.uncache outpoint)

def callAll (cache : CCoinsViewCache σ) : List CacheCall → Except Failure (CCoinsViewCache σ)
  | [] => .ok cache
  | call :: rest =>
    match cache.call call with
    | .error reason => .error reason
    | .ok after => after.callAll rest

end CCoinsViewCache

structure StackModel where
  coins : COutPoint → Option Coin
  nullifiers : Uint256 → Bool
  anchors : Uint256 → Option SaplingMerkleTree
  /-- The note commitment tree of every block that changed it, the latest first. -/
  trees : List SaplingMerkleTree
  bestBlock : Uint256

namespace StackModel

def tree (model : StackModel) : SaplingMerkleTree := model.trees.headD []

def plain (model : StackModel) : PlainView where
  coins := model.coins
  nullifiers := model.nullifiers
  anchors := model.anchors
  bestAnchor := root model.tree
  bestBlock := model.bestBlock

def call (model : StackModel) : CacheCall → StackModel
  | .op (.spendCoin outpoint) => { model with coins := Function.update model.coins outpoint none }
  | .op (.addCoin outpoint coin _) =>
    if coin.isIgnored then model
      else { model with coins := Function.update model.coins outpoint (some coin) }
  | .op (.setNullifiers tx spent) =>
    { model with nullifiers := markNullifiers model.nullifiers tx spent }
  | .op (.pushAnchor tree) =>
    if tree = model.tree then model
    else { model with
      anchors := Function.update model.anchors (root tree) (some tree)
      trees := tree :: model.trees }
  | .op (.popAnchor newrt) =>
    if newrt = root model.tree then model
    else { model with
      anchors := Function.update model.anchors (root model.tree) none
      trees := model.trees.tail }
  | .op (.setBestBlock hash) => { model with bestBlock := hash }
  | _ => model

def callAll (model : StackModel) (calls : List CacheCall) : StackModel := calls.foldl call model

/-- The caller's side.  An added coin is unspent and, unless it may overwrite, new; trees only grow;
an anchor is popped to the one below it, or not at all; a best block has a hash. -/
def Legal (Known : SaplingMerkleTree → Prop) (model : StackModel) : CacheCall → Prop
  | .op (.addCoin outpoint coin possibleOverwrite) =>
    coin.isSpent = false ∧ (possibleOverwrite = true ∨ model.coins outpoint = none)
  | .op (.pushAnchor tree) => Known tree ∧ model.tree <+: tree
  | .op (.popAnchor newrt) =>
    newrt = root model.tree ∨ ∃ top beneath rest, model.trees = top :: beneath :: rest ∧
      newrt = root beneath
  | .op (.setBestBlock hash) => hash ≠ 0
  | _ => True

def LegalRun (Known : SaplingMerkleTree → Prop) (model : StackModel) : List CacheCall → Prop
  | [] => True
  | call :: rest => model.Legal Known call ∧ (model.call call).LegalRun Known rest

/-- Each tree of the stack has grown from the one below, and all are stored. -/
structure Ok (Known : SaplingMerkleTree → Prop) (model : StackModel) : Prop where
  nonempty : model.trees ≠ []
  grown : model.trees.Pairwise fun above below => below <+: above ∧ below ≠ above
  known : ∀ tree ∈ model.trees, Known tree
  stored : ∀ tree ∈ model.trees, model.anchors (root tree) = some tree

section

variable {model : StackModel} (inPlay : TreesInPlay Known) (ok : model.Ok Known)

omit [PedersenHash] in
theorem tree_of_cons (trees : model.trees = top :: rest) :
    model.tree = top := by rw [tree, trees, headD_cons]

include ok

theorem Ok.tree_mem : model.tree ∈ model.trees := by
  cases trees : model.trees with
  | nil => exact absurd trees ok.nonempty
  | cons top rest =>
    rw [tree_of_cons trees]
    exact mem_cons_self

theorem Ok.within (member : below ∈ model.trees) : below <+: model.tree := by
  cases trees : model.trees with
  | nil => exact absurd trees ok.nonempty
  | cons top rest =>
    rw [tree_of_cons trees]
    rcases mem_cons.mp (trees ▸ member) with rfl | deeper
    · exact prefix_rfl
    · exact ((pairwise_cons.mp (trees ▸ ok.grown)).1 below deeper).1

include inPlay

theorem Ok.root_ne {tree : SaplingMerkleTree} (known : Known tree) (other : tree ≠ model.tree) :
    root tree ≠ root model.tree :=
  fun sameRoot => other (inPlay.injective _ _ known (ok.known _ ok.tree_mem) sameRoot)

theorem Ok.push {tree : SaplingMerkleTree} (known : Known tree) (grows : model.tree <+: tree)
    (changes : tree ≠ model.tree) : Ok Known { model with
      anchors := Function.update model.anchors (root tree) (some tree)
      trees := tree :: model.trees } where
  nonempty := cons_ne_nil _ _
  grown := by
    refine pairwise_cons.mpr ⟨fun below member => ⟨(ok.within member).trans grows, ?_⟩, ok.grown⟩
    rintro rfl
    exact changes ((ok.within member).eq_of_length_le grows.length_le)
  known := by
    intro other member
    rcases mem_cons.mp member with rfl | deeper
    · exact known
    · exact ok.known other deeper
  stored := by
    intro other member
    rcases mem_cons.mp member with rfl | deeper
    · exact update_self ..
    · refine (update_of_ne ?_ ..).trans (ok.stored other deeper)
      intro sameRoot
      have same := inPlay.injective _ _ (ok.known other deeper) known sameRoot
      subst same
      exact changes ((ok.within deeper).eq_of_length_le grows.length_le)

theorem Ok.pop (trees : model.trees = top :: beneath :: rest) : Ok Known { model with
      anchors := Function.update model.anchors (root model.tree) none
      trees := model.trees.tail } where
  nonempty := by
    rw [trees]
    exact cons_ne_nil _ _
  grown := ok.grown.tail
  known := fun other member => ok.known other (mem_of_mem_tail member)
  stored := by
    intro other member
    refine (update_of_ne ?_ ..).trans (ok.stored other (mem_of_mem_tail member))
    apply ok.root_ne inPlay (ok.known other (mem_of_mem_tail member))
    rw [tree_of_cons trees]
    rw [trees] at member
    have grown := ok.grown
    rw [trees] at grown
    exact ((pairwise_cons.mp grown).1 other member).2

theorem Ok.call {call : CacheCall} (legal : model.Legal Known call) :
    (model.call call).Ok Known := by
  have same : ∀ {changed : StackModel}, changed.anchors = model.anchors →
      changed.trees = model.trees → changed.Ok Known := fun anchors trees =>
    ⟨trees ▸ ok.nonempty, trees ▸ ok.grown, trees ▸ ok.known, trees ▸ anchors ▸ ok.stored⟩
  unfold StackModel.call
  split
  · exact same rfl rfl
  · split
    · exact ok
    · exact same rfl rfl
  · exact same rfl rfl
  · split
    · exact ok
    next changes => exact ok.push inPlay legal.1 legal.2 changes
  · split
    · exact ok
    next changes =>
      obtain ⟨top, beneath, rest, trees, -⟩ := legal.resolve_left changes
      exact ok.pop inPlay trees
  · exact same rfl rfl
  · exact ok

theorem Ok.call_emptyRoot (knownEmpty : Known []) {call : CacheCall} (legal : model.Legal Known call) :
    (model.call call).anchors emptyRoot = model.anchors emptyRoot := by
  have rootNonempty : ∀ tree, Known tree → tree ≠ [] → emptyRoot ≠ root tree :=
    fun tree known grown sameRoot => grown (inPlay.injective _ _ known knownEmpty sameRoot.symm)
  unfold StackModel.call
  split
  · rfl
  · split <;> rfl
  · rfl
  · split
    · rfl
    next changes =>
      refine update_of_ne (rootNonempty _ legal.1 ?_) ..
      rintro rfl
      exact changes (prefix_nil.mp legal.2).symm
  · split
    · rfl
    next changes =>
      obtain ⟨top, beneath, rest, trees, -⟩ := legal.resolve_left changes
      refine update_of_ne (rootNonempty _ (ok.known _ ok.tree_mem) ?_) ..
      have grown := ok.grown
      rw [trees] at grown
      rw [tree_of_cons trees]
      rintro rfl
      have strictly := (pairwise_cons.mp grown).1 beneath mem_cons_self
      exact strictly.2 (prefix_nil.mp strictly.1)
  · rfl
  · rfl

end

end StackModel

section

variable {model : StackModel} {cache after : CCoinsViewCache σ}

theorem StackModel.Ok.step [DecidablePred Known] (inPlay : TreesInPlay Known) (ok : model.Ok Known)
    (legal : model.Legal Known (.op op)) :
    ∃ answer, step Known op model.plain = .ok (answer, (model.call (.op op)).plain) := by
  cases op with
  | addCoin outpoint coin possibleOverwrite =>
    refine ⟨(), Program.run_perform.symm.trans ((run_addCoin _ legal.1 legal.2).trans ?_)⟩
    simp only [StackModel.call]
    cases coin.isIgnored with
    | true => rfl
    | false => rfl
  | pushAnchor tree =>
    refine ⟨(), Program.run_perform.symm.trans
      ((run_pushAnchor _ legal.1 (inPlay.nonnull _ legal.1)).trans ?_)⟩
    simp only [StackModel.call, pushed]
    by_cases same : tree = model.tree
    · have kept : model.plain.bestAnchor = root tree :=
        congrArg root same.symm
      rw [if_pos same, if_pos kept]
    · have changed : model.plain.bestAnchor ≠ root tree :=
        Ne.symm (ok.root_ne inPlay legal.1 same)
      rw [if_neg same, if_neg changed]
      rfl
  | popAnchor newrt =>
    have notNull : newrt ≠ 0 := by
      rcases legal with same | ⟨top, beneath, rest, trees, isBeneath⟩
      · exact same ▸ inPlay.nonnull _ (ok.known _ ok.tree_mem)
      · refine isBeneath ▸ inPlay.nonnull _ (ok.known _ ?_)
        rw [trees]
        exact mem_cons_of_mem _ mem_cons_self
    have stored : (model.plain.anchors model.plain.bestAnchor).isSome = true :=
      Option.isSome_iff_exists.mpr ⟨_, ok.stored _ ok.tree_mem⟩
    refine ⟨(), Program.run_perform.symm.trans ((run_popAnchor _ notNull (.inr stored)).trans ?_)⟩
    simp only [StackModel.call, popped]
    by_cases same : newrt = root model.tree
    · have kept : model.plain.bestAnchor = newrt := same.symm
      rw [if_pos same, if_pos kept]
    · obtain ⟨top, beneath, rest, trees, isBeneath⟩ := legal.resolve_left same
      have changed : model.plain.bestAnchor ≠ newrt := Ne.symm same
      rw [if_neg same, if_neg changed]
      have nowBest : StackModel.tree { model with
          anchors := Function.update model.anchors (root model.tree) none
          trees := model.trees.tail } = beneath := StackModel.tree_of_cons (by rw [trees, tail_cons])
      simp [StackModel.plain, nowBest, ← isBeneath]
  | setBestBlock hash => exact ⟨(), if_neg legal⟩
  | _ => exact ⟨_, rfl⟩

omit [BaseView σ] [PedersenHash] in
theorem CCoinsViewCache.uncache_fills (cache : CCoinsViewCache σ) (outpoint : COutPoint) :
    (cache.uncache outpoint).view.mapLayers forgetCoins = cache.view.mapLayers forgetCoins := by
  unfold uncache
  split
  · rfl
  · split <;> rfl

theorem call_refines (inPlay : TreesInPlay Known) (ok : model.Ok Known)
    (stands : StandsFor Known model.plain cache) (legal : model.Legal Known call) :
    ∃ after, cache.call call = .ok after ∧ StandsFor Known (model.call call).plain after := by
  classical
  cases call with
  | op op =>
    obtain ⟨answer, stepped⟩ := ok.step inPlay legal
    have agrees := cache_refines_plain op model.plain cache stands
    rw [stepped] at agrees
    obtain ⟨after, performed, stands'⟩ := agrees
    exact ⟨after, by rw [CCoinsViewCache.call, performed]; rfl, stands'⟩
  | getCoin outpoint => exact ⟨_, rfl, CCoinsViewCache.fetchCoin_standsFor stands⟩
  | haveCoinInCache outpoint => exact ⟨cache, rfl, stands⟩
  | uncache outpoint =>
    obtain ⟨afterOk, afterCoins⟩ := CCoinsViewCache.uncache_spec stands.1.coins outpoint
    exact ⟨_, rfl, CCoinsViewCache.coins_written stands (cache.uncache_fills outpoint) afterOk
      (afterCoins.trans (congrArg coins stands.2))⟩

end

namespace CCoinsViewCache

variable {cache after : CCoinsViewCache σ}

omit [BaseView σ] [PedersenHash] in
theorem own_of_fills {β : Type} (field : CacheLayer → β)
    (fills : after.view.mapLayers change = cache.view.mapLayers change)
    (keeps : Keeps change field) : field after.own = field cache.own := by
  rw [← keeps after.own, ← keeps cache.own]
  exact congrArg field (CCoinsView.cache.inj fills).1

omit [BaseView σ] [PedersenHash] in
theorem hashes_of_fills (fills : after.view.mapLayers change = cache.view.mapLayers change)
    (block : Keeps change hashBlock)
    (anchor : Keeps change hashSaplingAnchor) :
    after.own.hashBlock = cache.own.hashBlock ∧
      after.own.hashSaplingAnchor = cache.own.hashSaplingAnchor :=
  ⟨own_of_fills hashBlock fills block, own_of_fills hashSaplingAnchor fills anchor⟩

section

variable (cache : CCoinsViewCache σ)

omit [BaseView σ] [PedersenHash] in
theorem setNullifiers_hashes (tx : CTransaction) :
    (cache.setNullifiers tx spent).own.hashBlock = cache.own.hashBlock ∧
      (cache.setNullifiers tx spent).own.hashSaplingAnchor = cache.own.hashSaplingAnchor := by
  unfold setNullifiers
  induction tx.shieldedSpends generalizing cache with
  | nil => exact ⟨rfl, rfl⟩
  | cons spend rest ih => exact ih (cache.setNullifier spent spend.nullifier)

omit [PedersenHash] in
theorem getBestBlock_hashBlock : cache.getBestBlock.2.own.hashBlock = cache.view.bestBlock := by
  rw [view, bestBlock_cache]
  simp only [getBestBlock, CacheLayer.getBestBlock]
  split <;> rfl

omit [PedersenHash] in
theorem getBestAnchor_hashSaplingAnchor :
    cache.getBestAnchor.2.own.hashSaplingAnchor = cache.getBestAnchor.1 := by
  simp only [getBestAnchor, CacheLayer.getBestAnchor]
  split <;> rfl

theorem pushAnchor_hashes (tree : SaplingMerkleTree) :
      (cache.pushAnchor tree).own.hashBlock = cache.own.hashBlock ∧
        (cache.pushAnchor tree).own.hashSaplingAnchor = root tree := by
  have block : cache.getBestAnchor.2.own.hashBlock = cache.own.hashBlock :=
    own_of_fills hashBlock (getBestAnchor_fills cache.view) fun _ => rfl
  have best := cache.getBestAnchor_hashSaplingAnchor
  unfold pushAnchor
  simp only
  split
  next same => exact ⟨block, best.trans same⟩
  · exact ⟨block, rfl⟩

end

omit [PedersenHash] in
theorem popAnchor_hashes (popped : cache.popAnchor newrt = .ok after) :
    after.own.hashBlock = cache.own.hashBlock ∧ after.own.hashSaplingAnchor = newrt := by
  have block : cache.getBestAnchor.2.own.hashBlock = cache.own.hashBlock :=
    own_of_fills hashBlock (getBestAnchor_fills cache.view) fun _ => rfl
  have best := cache.getBestAnchor_hashSaplingAnchor
  unfold popAnchor at popped
  generalize cache.getBestAnchor = asked at block best popped
  obtain ⟨currentRoot, cache'⟩ := asked
  simp only at popped block best
  split at popped
  next same =>
    cases popped
    exact ⟨block, best.trans same⟩
  · have blockThen :
        (cache'.getSaplingAnchorAt currentRoot).2.own.hashBlock = cache'.own.hashBlock :=
      own_of_fills hashBlock (getSaplingAnchorAt_fills cache'.view currentRoot) fun _ => rfl
    generalize cache'.getSaplingAnchorAt currentRoot = found at blockThen popped
    obtain ⟨tree, cache''⟩ := found
    cases tree with
    | none => cases popped
    | some tree =>
      cases popped
      exact ⟨blockThen.trans block, rfl⟩

def hashBlockAfter (cache : CCoinsViewCache σ) : CacheCall → Uint256
  | .op .getBestBlock => cache.view.bestBlock
  | .op (.setBestBlock hash) => hash
  | _ => cache.own.hashBlock

def hashSaplingAnchorAfter (cache : CCoinsViewCache σ) : CacheCall → Uint256
  | .op .getBestAnchor => cache.view.bestAnchor
  | .op (.pushAnchor tree) => root tree
  | .op (.popAnchor newrt) => newrt
  | _ => cache.own.hashSaplingAnchor

omit [BaseView σ] [PedersenHash] in
theorem map_snd_map_unit (outcome : Except Failure (CCoinsViewCache σ)) :
    (outcome.map fun after => ((), after)).map Prod.snd = outcome := by
  cases outcome <;> rfl

theorem call_hashes {call : CacheCall} (performed : cache.call call = .ok after) :
    after.own.hashBlock = cache.hashBlockAfter call ∧
      after.own.hashSaplingAnchor = cache.hashSaplingAnchorAfter call := by
  have fetched (outpoint : COutPoint) :
        (cache.fetchCoin outpoint).2.own.hashBlock = cache.own.hashBlock ∧
        (cache.fetchCoin outpoint).2.own.hashSaplingAnchor = cache.own.hashSaplingAnchor :=
    hashes_of_fills (getCoin_fills cache.view outpoint) (fun _ => rfl) fun _ => rfl
  cases call with
  | op op =>
    cases op with
    | haveCoin outpoint =>
      have same : (cache.haveCoin outpoint).2 = after := Except.ok.inj performed
      rw [← same, haveCoin_fetches]
      exact fetched outpoint
    | accessCoin outpoint =>
      have same : (cache.accessCoin outpoint).2 = after := Except.ok.inj performed
      rw [← same, accessCoin_fetches]
      exact fetched outpoint
    | spendCoin outpoint =>
      cases performed
      exact hashes_of_fills cache.spendCoin_fills (fun _ => rfl) fun _ => rfl
    | addCoin outpoint coin possibleOverwrite =>
      exact hashes_of_fills (addCoin_fills ((map_snd_map_unit _).symm.trans performed))
        (fun _ => rfl) fun _ => rfl
    | getNullifier nullifier =>
      cases performed
      exact hashes_of_fills (getNullifier_fills cache.view nullifier) (fun _ => rfl) fun _ => rfl
    | setNullifiers tx spent =>
      cases performed
      exact cache.setNullifiers_hashes tx
    | getSaplingAnchorAt rt =>
      cases performed
      exact hashes_of_fills (getSaplingAnchorAt_fills cache.view rt) (fun _ => rfl) fun _ => rfl
    | getBestAnchor =>
      cases performed
      exact ⟨own_of_fills hashBlock (getBestAnchor_fills cache.view) fun _ => rfl,
        cache.getBestAnchor_hashSaplingAnchor⟩
    | pushAnchor tree =>
      cases performed
      exact cache.pushAnchor_hashes tree
    | popAnchor newrt => exact popAnchor_hashes ((map_snd_map_unit _).symm.trans performed)
    | getBestBlock =>
      cases performed
      exact ⟨cache.getBestBlock_hashBlock,
        own_of_fills hashSaplingAnchor (getBestBlock_fills cache.view) fun _ => rfl⟩
    | setBestBlock hash =>
      cases performed
      exact ⟨rfl, rfl⟩
  | getCoin outpoint =>
    cases performed
    exact fetched outpoint
  | haveCoinInCache outpoint =>
    cases performed
    exact ⟨rfl, rfl⟩
  | uncache outpoint =>
    cases performed
    exact hashes_of_fills (cache.uncache_fills outpoint) (fun _ => rfl) fun _ => rfl

end CCoinsViewCache

theorem StackModel.call_bestBlock (model : StackModel) (call : CacheCall) :
    (model.call call).bestBlock = match call with
      | .op (.setBestBlock hash) => hash
      | _ => model.bestBlock := by
  cases call with
  | op op =>
    cases op with
    | addCoin | pushAnchor | popAnchor =>
      simp only [StackModel.call]
      split <;> rfl
    | _ => rfl
  | _ => rfl

theorem StackModel.call_root {model : StackModel} {call : CacheCall} (legal : model.Legal Known call) :
    root (model.call call).tree = match call with
      | .op (.pushAnchor tree) => root tree
      | .op (.popAnchor newrt) => newrt
      | _ => root model.tree := by
  cases call with
  | op op =>
    cases op with
    | addCoin outpoint coin possibleOverwrite =>
      simp only [StackModel.call]
      split <;> rfl
    | pushAnchor tree =>
      simp only [StackModel.call]
      split
      next same => rw [same]
      · rfl
    | popAnchor newrt =>
      simp only [StackModel.call]
      split
      next same => exact same.symm
      next changes =>
        obtain ⟨top, beneath, rest, trees, isBeneath⟩ := legal.resolve_left changes
        simp [StackModel.tree, trees, isBeneath]
    | _ => rfl
  | _ => rfl

section

variable {parent : PlainView} {model : StackModel} {cache : CCoinsViewCache σ}

theorem CCoinsViewCache.call_below {Holds : CCoinsView σ → Prop} (closed : ClosedUnderReads Holds)
    {after : CCoinsViewCache σ} {call : CacheCall} (holds : Holds cache.below)
    (performed : cache.call call = .ok after) : Holds after.below := by
  cases call with
  | op op =>
    cases stepped : cache.step op with
    | error reason => simp [CCoinsViewCache.call, stepped, Except.map] at performed
    | ok result =>
      simp only [CCoinsViewCache.call, stepped, Except.map, Except.ok.injEq] at performed
      exact performed ▸ step_below closed op holds stepped
  | getCoin outpoint =>
    cases performed
    exact fetchCoin_below closed holds outpoint
  | haveCoinInCache outpoint =>
    cases performed
    exact holds
  | uncache outpoint =>
    cases performed
    unfold uncache
    split
    · exact holds
    · split <;> exact holds

variable (Known parent model cache) in
/-- A cache over a parent that answers as `parent`, and the model of the calls it has received. -/
structure Tracks : Prop where
  ok : model.Ok Known
  stands : StandsFor Known model.plain cache
  below : cache.below.Ok Known ∧ cache.below.plain = parent
  empty : model.anchors emptyRoot = parent.anchors emptyRoot

section

variable (inPlay : TreesInPlay Known) (tracks : Tracks Known parent model cache)

include inPlay tracks

theorem Tracks.call (knownEmpty : Known [])
    {call : CacheCall} (legal : model.Legal Known call) :
    ∃ after, cache.call call = .ok after ∧ Tracks Known parent (model.call call) after ∧
      ((call.asksBestBlock = true ∨ cache.own.hashBlock = model.bestBlock) →
        after.own.hashBlock = (model.call call).bestBlock) ∧
      ((call.asksBestAnchor = true ∨ cache.own.hashSaplingAnchor = root model.tree) →
        after.own.hashSaplingAnchor = root (model.call call).tree) := by
  obtain ⟨after, performed, stands⟩ := call_refines inPlay tracks.ok tracks.stands legal
  obtain ⟨block, anchor⟩ := CCoinsViewCache.call_hashes performed
  have bestBlock : cache.view.bestBlock = model.bestBlock := congrArg bestBlock tracks.stands.2
  have bestAnchor : cache.view.bestAnchor = root model.tree :=
    congrArg bestAnchor tracks.stands.2
  refine ⟨after, performed, ⟨tracks.ok.call inPlay legal, stands, ?_, ?_⟩, fun asked => ?_,
    fun asked => ?_⟩
  · exact CCoinsViewCache.call_below closedUnderReads_plain tracks.below performed
  · exact (tracks.ok.call_emptyRoot inPlay knownEmpty legal).trans tracks.empty
  · rw [block, StackModel.call_bestBlock]
    cases call with
    | op op => cases op <;> simp_all [CacheCall.asksBestBlock, CCoinsViewCache.hashBlockAfter]
    | _ => simp_all [CacheCall.asksBestBlock, CCoinsViewCache.hashBlockAfter]
  · rw [anchor, StackModel.call_root legal]
    cases call with
    | op op => cases op <;> simp_all [CacheCall.asksBestAnchor,
      CCoinsViewCache.hashSaplingAnchorAfter]
    | _ => simp_all [CacheCall.asksBestAnchor, CCoinsViewCache.hashSaplingAnchorAfter]

theorem Tracks.callAll (knownEmpty : Known [])
    {calls : List CacheCall} (legal : model.LegalRun Known calls) :
    ∃ after, cache.callAll calls = .ok after ∧ Tracks Known parent (model.callAll calls) after ∧
      ((calls.any CacheCall.asksBestBlock = true ∨ cache.own.hashBlock = model.bestBlock) →
        after.own.hashBlock = (model.callAll calls).bestBlock) ∧
      ((calls.any CacheCall.asksBestAnchor = true ∨
          cache.own.hashSaplingAnchor = root model.tree) →
        after.own.hashSaplingAnchor = root (model.callAll calls).tree) := by
  induction calls generalizing model cache with
  | nil =>
    exact ⟨cache, rfl, tracks, fun asked => asked.resolve_left Bool.false_ne_true,
      fun asked => asked.resolve_left Bool.false_ne_true⟩
  | cons call rest ih =>
    obtain ⟨middle, performed, tracks', block, anchor⟩ := tracks.call inPlay knownEmpty legal.1
    obtain ⟨after, ran, tracks'', laterBlock, laterAnchor⟩ := ih tracks' legal.2
    refine ⟨after, ?_, tracks'', fun asked => laterBlock ?_, fun asked => laterAnchor ?_⟩
    · simp [CCoinsViewCache.callAll, performed, ran]
    · rw [any_cons, Bool.or_eq_true] at asked
      rcases asked with (here | later) | before
      · exact .inr (block (.inl here))
      · exact .inl later
      · exact .inr (block (.inr before))
    · rw [any_cons, Bool.or_eq_true] at asked
      rcases asked with (here | later) | before
      · exact .inr (anchor (.inl here))
      · exact .inl later
      · exact .inr (anchor (.inr before))

/-- The outcome of a `Flush`: the view below answers as the cache did, or the base view has refused
the batch. -/
def HandsDown (Known : SaplingMerkleTree → Prop) (view : CCoinsView σ) :
    Except Failure (CCoinsViewCache σ) → Prop
  | .ok after => after.below.plain = view.plain ∧ after.below.Ok Known
  | .error reason => RaisedByBase σ reason

theorem Tracks.flush [LawfulCoins σ] [LawfulSapling σ]
    (block : cache.own.hashBlock = model.bestBlock)
    (anchor : cache.own.hashSaplingAnchor = root model.tree) :
    HandsDown Known cache.view cache.flush := by
  have coins := CCoinsViewCache.flush_coins tracks.stands.1.coins
  cases flushed : cache.flush with
  | error reason =>
    rw [flushed] at coins
    exact coins
  | ok after =>
    rw [flushed] at coins
    obtain ⟨coinsOk, -, belowCoins⟩ := coins
    have shown := tracks.stands.2
    have emptyKept : cache.view.anchorAt emptyRoot = cache.below.anchorAt emptyRoot := by
      refine (congrFun (congrArg anchors shown) _).trans (tracks.empty.trans ?_)
      exact congrFun (congrArg anchors tracks.below.2).symm _
    obtain ⟨saplingOk, nullifiers, anchors⟩ :=
      CCoinsViewCache.flush_sapling inPlay tracks.stands.1.sapling emptyKept flushed
    obtain ⟨bestAnchor, bestBlock⟩ :=
      CCoinsViewCache.flush_best (anchor.trans (congrArg bestAnchor shown).symm)
      (block.trans (congrArg bestBlock shown).symm) flushed
    exact ⟨PlainView.ext belowCoins nullifiers anchors bestAnchor bestBlock, coinsOk.2, saplingOk⟩

end

/-- A child cache on any parent, and any calls on it among which both best hashes are asked for: the
child answers as the model of sets and a stack of trees does, and after `Flush` so does the
parent. -/
theorem child_flush_refines_stack [LawfulCoins σ] [LawfulSapling σ] (inPlay : TreesInPlay Known)
    (knownEmpty : Known []) {parent : CCoinsView σ} (parentOk : parent.Ok Known) {model : StackModel}
    (modelOk : model.Ok Known) (starts : parent.plain = model.plain) {calls : List CacheCall}
    (legal : model.LegalRun Known calls) (askedBlock : calls.any CacheCall.asksBestBlock = true)
    (askedAnchor : calls.any CacheCall.asksBestAnchor = true) :
    ∃ child, ({ below := parent } : CCoinsViewCache σ).callAll calls = .ok child ∧
      child.view.plain = (model.callAll calls).plain ∧ HandsDown Known child.view child.flush := by
  have opened : Tracks Known parent.plain model ({ below := parent } : CCoinsViewCache σ) :=
    ⟨modelOk, ⟨emptyCache_ok parentOk, (emptyCache_plain parent).trans starts⟩,
      ⟨parentOk, rfl⟩, by rw [starts]; rfl⟩
  obtain ⟨child, ran, tracks, block, anchor⟩ := opened.callAll inPlay knownEmpty legal
  exact ⟨child, ran, tracks.stands.2, tracks.flush inPlay (block (.inl askedBlock))
    (anchor (.inl askedAnchor))⟩

end

end

namespace SampleStack

open TxDB

local instance : PedersenHash := ⟨fun tree => BitVec.ofNat 256 (tree.length + 1)⟩

def trees : List SaplingMerkleTree := [[], [5], [5, 6]]

theorem inPlay : TreesInPlay (· ∈ trees) where
  injective tree tree' member member' := by
    have apart : ∀ first ∈ trees, ∀ second ∈ trees, root first = root second →
      first = second := by decide
    exact apart tree member tree' member'
  nonnull := by decide

def parent : CCoinsView CCoinsViewDB := .cache {} (.base {})

def model : StackModel where
  coins _ := none
  nullifiers _ := false
  anchors rt := if rt = 1 then some [] else none
  trees := [[]]
  bestBlock := 0

theorem parentOk : parent.Ok (· ∈ trees) := by
  refine emptyCache_ok ⟨fun outpoint coin found => (by cases found), fun rt tree found => ?_⟩
  change (if rt = emptyRoot then some [] else none) = some tree at found
  split at found
  next isEmpty =>
    cases found
    exact ⟨by decide, isEmpty.symm⟩
  · cases found

theorem starts : parent.plain = model.plain := (emptyCache_plain _).trans rfl

theorem modelOk : model.Ok (· ∈ trees) where
  nonempty := by decide
  grown := pairwise_singleton ..
  known tree member := by
    cases mem_singleton.mp member
    decide
  stored tree member := by
    cases mem_singleton.mp member
    rfl

def spending : CTransaction where
  hash := 11
  nVersion := 3
  vin := []
  vout := []
  sapData := some { valueBalance := 0, vShieldedSpend := [⟨1, 7⟩], vShieldedOutput := [], bindingSig := [] }

/-- The anchor of the second tree is pushed, popped and pushed again, and a nullifier is marked
twice. -/
def calls : List CacheCall := [
  .op (.pushAnchor [5]), .op (.setNullifiers spending true), .op (.pushAnchor [5, 6]),
    .op (.setBestBlock 3),
  .op (.popAnchor 2), .op (.setNullifiers spending false), .op (.getSaplingAnchorAt 3),
    .op (.pushAnchor [5, 6]),
  .op (.setNullifiers spending true), .op (.getNullifier 7)]

theorem legal : model.LegalRun (· ∈ trees) calls := by
  refine ⟨⟨by decide, by decide⟩, trivial, ⟨by decide, by decide⟩, by change (3 : Uint256) ≠ 0; decide, .inr ?_,
    trivial, trivial, ⟨by decide, by decide⟩, trivial, trivial, trivial⟩
  exact ⟨[5, 6], [5], [[]], rfl, rfl⟩

theorem child_flush_refines_stack_calls :
    (∃ child, ({ below := parent } : CCoinsViewCache CCoinsViewDB).callAll calls = .ok child ∧
      child.view.plain = (model.callAll calls).plain ∧
      HandsDown (· ∈ trees) child.view child.flush) ∧
    ∃ after, (({ below := parent } : CCoinsViewCache CCoinsViewDB).callAll calls).bind
      CCoinsViewCache.flush =
        .ok after ∧
      after.below.nullifierAt 7 = true ∧ after.below.bestAnchor = 3 ∧
      after.below.anchorAt 3 = some [5, 6] ∧ after.below.bestBlock = 3 :=
  ⟨child_flush_refines_stack inPlay (by decide) parentOk modelOk starts legal rfl rfl, _, rfl, rfl,
    rfl, rfl, rfl⟩

end SampleStack

end Deviant.Coins
