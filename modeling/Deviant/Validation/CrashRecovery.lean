import Deviant.Coins.Below
import Deviant.Validation.ChainSapling

namespace Deviant.Validation

open Chain Coins Consensus Data List Primitives TxDB SaplingMerkleTree Program PlainView CCoinsViewCache
open CCoinsViewDB hiding bestBlock coins oldTip

/-! `ReplayBlocks` after a crash between two batches of a flush. -/

/-- The coins `RollforwardBlock` writes for a transaction. -/
def rollforwardWrites (env : Env) (nHeight : Nat) (tx : CTransaction) : List CoinWrite :=
  (if tx.isCoinBase then [] else inputWrites tx.vin) ++
    outputWrites env tx nHeight (skipInvalidUTXOS env.params nHeight) 0 tx.vout

def redoWrites (env : Env) (nHeight : Nat) (txs : List CTransaction) : List CoinWrite :=
  txs.flatMap (rollforwardWrites env nHeight)

theorem redoWrites_cons :
    redoWrites env nHeight (tx :: rest) = rollforwardWrites env nHeight tx ++
      redoWrites env nHeight rest :=
  flatMap_cons

section

variable [PedersenHash] {Known : SaplingMerkleTree → Prop} [DecidablePred Known] {env now : Env}
  {files : BlockFiles} {block : CBlock} {pindex pprev : CBlockIndex} {isFirst : Bool}
  {tx : CTransaction}
  {totals totals' : BlockTotals} {plain after : PlainView} {blockundo : CBlockUndo}

variable (Known env) in
theorem rollforwardTxs_run (valid : ∀ tx ∈ txs, ∀ out ∈ tx.vout, out.isNull = false) : run (step Known)
        (rollforwardTxs env nHeight (skipInvalidUTXOS env.params nHeight) txs) plain =
      .ok ((), plain.writeCoins (redoWrites env nHeight txs)) := by
  induction txs generalizing plain with
  | nil => rfl
  | cons tx rest ih =>
    have spent : run (step Known) (rollforwardInputs tx) plain =
        .ok ((), plain.writeCoins (if tx.isCoinBase then [] else inputWrites tx.vin)) := by
      unfold rollforwardInputs
      split
      · rfl
      · obtain ⟨coins, ran, -⟩ := spendInputs_run Known tx.vin plain
        exact run_bind_ok ran
    have added := addCoinsFrom_run Known env tx nHeight true (skipInvalidUTXOS env.params nHeight) 0
      (plain.writeCoins (if tx.isCoinBase then [] else inputWrites tx.vin)) (valid tx mem_cons_self)
      (.inl rfl)
    rw [rollforwardTxs, run_bind_ok spent]
    refine (run_bind_ok added).trans ?_
    rw [ih (forall_mem_cons.mp valid).2, redoWrites_cons, rollforwardWrites, writeCoins_append,
      writeCoins_append]

variable (mints : SpendsMints env.zerocoin files)

include mints

section

variable (rules : SameRules env now) (onDisk : OnDisk files plain)
  (connected : TxConnected Known now block pindex pprev isFirst tx totals plain totals' after)

include rules onDisk connected

theorem zerocoin_input_absent (kind : tx.hasZerocoinSpendInputs = true) (member : input ∈ tx.vin)
    (isSpend : (input.isZerocoinSpend || input.isZerocoinPublicSpend) = true) :
    plain.coins input.prevout = none := by
  cases found : plain.coins input.prevout with
  | none => rfl
  | some coin =>
    exfalso
    obtain ⟨pindex', block', other, out, read, inBlock, indexed, hash, kept⟩ := onDisk _ coin found
    cases isPublic : input.isZerocoinPublicSpend with
    | false =>
      rw [isPublic, Bool.or_false, CTxIn.isZerocoinSpend, Bool.and_eq_true, beq_iff_eq] at isSpend
      exact mints.hashed pindex' block' read other inBlock (hash.symm.trans isSpend.1)
    | true =>
      obtain ⟨nValueIn, spent, -⟩ := connected.valueIn
      obtain ⟨_, inputs⟩ := connectZerocoinSpends_inputs spent kind
      obtain ⟨denomination, parsed⟩ := connectZerocoinInputs_parsed inputs input member isPublic
      rw [rules.parseZerocoinPublicSpend] at parsed
      have isMint :=
        mints.mint input tx denomination parsed pindex' block' read other inBlock out indexed hash
      rw [isIgnoredOutput, isMint, Bool.or_true] at kept
      cases kept

theorem rollforwardWrites_connected (onlyZerocoins : OnlyZerocoins tx) :
    applyWrites plain.coins (rollforwardWrites env pindex.nHeight tx) = after.coins := by
  have same : after.coins = applyWrites plain.coins (connectWrites env pindex.nHeight tx) := by
    rw [connected.effect, rules.connected]
    rfl
  rw [same, rollforwardWrites, connectWrites, txInputWrites, hasNoCoinInputs, applyWrites_append,
    applyWrites_append]
  cases coinbase : tx.isCoinBase with
  | true => rfl
  | false =>
    cases kind : tx.hasZerocoinSpendInputs with
    | false => rfl
    | true =>
      have idle : applyWrites plain.coins (inputWrites tx.vin) = plain.coins := by
        apply applyWrites_idle
        intro write member
        obtain ⟨input, inVin, rfl⟩ := mem_map.mp member
        exact zerocoin_input_absent mints rules onDisk connected kind inVin
          (onlyZerocoins kind input inVin)
      simp [idle]

end

theorem redoWrites_connected (rules : SameRules env now) (onDisk : OnDisk files plain)
    (read : files.readBlockFromDisk pindex = some block) (inBlock : ∀ tx ∈ txs, tx ∈ block.vtx)
    (loop : TxsConnected Known now block pindex pprev isFirst txs totals plain totals' after)
    (onlyZerocoins : ∀ tx ∈ txs, OnlyZerocoins tx) :
    applyWrites plain.coins (redoWrites env pindex.nHeight txs) = after.coins := by
  induction loop with
  | nil => rfl
  | cons first later ih =>
    rw [redoWrites_cons, applyWrites_append,
      rollforwardWrites_connected mints rules onDisk first (onlyZerocoins _ mem_cons_self)]
    apply ih
    · rw [first.effect]
      exact onDisk.connected read (inBlock _ mem_cons_self)
    · exact (forall_mem_cons.mp inBlock).2
    · exact (forall_mem_cons.mp onlyZerocoins).2

end

section

variable [PedersenHash] {env : Env} {files : BlockFiles} {path fork top : BlockPath}
    {plain base : PlainView}

theorem chainState_suffix (state : ChainState env files path plain) (suffix : fork <:+ path) :
    ∃ base, ChainState env files fork base := by
  induction state with
  | start =>
    rw [suffix_nil.mp suffix]
    exact ⟨blank, .start⟩
  | genesis rules isGenesis height anchored ran =>
    rcases suffix_cons_iff.mp suffix with rfl | below
    · exact ⟨_, .genesis rules isGenesis height anchored ran⟩
    · rw [suffix_nil.mp below]
      exact ⟨blank, .start⟩
  | connect below rules notGenesis height header read readUndo atTip new only ran unmet ih =>
    rcases suffix_cons_iff.mp suffix with rfl | deeper
    · exact ⟨_, .connect below rules notGenesis height header read readUndo atTip new only ran unmet⟩
    · exact ih deeper

theorem rollback_same :
    run (step fun _ => True) (rollback env files path path) mixed = .ok (true, mixed) := by
  cases path with
  | nil => rfl
  | cons pindex pprev => rw [rollback, if_pos rfl, run_pure]

variable (env files) in
/-- Rolling back from one chain to another makes the same coin writes on any coins, and restores the
Sapling state. -/
def RollsBack (path : BlockPath) (plain : PlainView) (fork : BlockPath) (base : PlainView) : Prop :=
  ∃ undo, applyWrites plain.coins undo = base.coins ∧ ∀ mixed, SameSapling mixed plain →
      ∃ final, run (step fun _ => True) (rollback env files fork path) mixed = .ok (true, final) ∧
        final.coins = applyWrites mixed.coins undo ∧ SameSapling final base

theorem rollsBack_same (rooted : ∀ tree, root tree ≠ 0) (state : ChainState env files path plain)
    (forkState : ChainState env files path base) : RollsBack env files path plain path base := by
  have same := chainState_unique rooted state forkState
  subst same
  exact ⟨[], rfl, fun mixed sapling => ⟨mixed, rollback_same, rfl, sapling⟩⟩

theorem rollsBack (rooted : ∀ tree, root tree ≠ 0) (state : ChainState env files path plain)
    (forkState : ChainState env files fork base) (suffix : fork <:+ path) (nonempty : fork ≠ []) :
    RollsBack env files path plain fork base := by
  induction state with
  | start => exact absurd (suffix_nil.mp suffix) nonempty
  | genesis rules isGenesis height anchored ran =>
    rcases suffix_cons_iff.mp suffix with rfl | below
    · exact rollsBack_same rooted (.genesis rules isGenesis height anchored ran) forkState
    · exact absurd (suffix_nil.mp below) nonempty
  | @connect pindex pprev path block blockundo now plain after below rules notGenesis height header
      read readUndo atTip new onlyZerocoins ran unmet ih =>
      rcases suffix_cons_iff.mp suffix with rfl | deeper
      · exact rollsBack_same rooted
          (.connect below rules notGenesis height header read readUndo atTip new onlyZerocoins ran
            unmet) forkState
      · obtain ⟨undo, undone, later⟩ := ih deeper
        have connected := blockConnected_of_run rooted rules notGenesis new ran
        have kept := chainState_kept rooted below
        have onChain : OnChain env now block pindex pprev plain after := {
          rules
          restorable := kept.restorable
          dated := fun tx _ input _ coin found => kept.dated _ coin found
          erasable := fun tx member => (onlyZerocoins tx member).erasable
          notGenesis := by omega
          anchored := kept.anchored pprev rfl
          notNull := kept.bestAnchor_ne_zero rooted
          unmet }
        refine ⟨blockUndoWrites block blockundo ++ undo, ?_, fun mixed sapling => ?_⟩
        · rw [applyWrites_append, connected.coins_undone kept.restorable, undone]
        · obtain ⟨result, middle, disconnected, notFailed, coins, middleSapling⟩ :=
            disconnectBlock_unclean connected onChain sapling
          obtain ⟨final, rolled, finalCoins, finalSapling⟩ := later middle middleSapling
          refine ⟨final, ?_, by rw [finalCoins, coins, applyWrites_append], finalSapling⟩
          have notZero : pindex.nHeight ≠ 0 := by omega
          have rolledBack : run (step fun _ => True) (rollbackBlock env files pindex (pprev :: path))
              mixed = .ok (true, middle) := by
            rw [rollbackBlock, read, readUndo]
            refine (run_bind_ok disconnected).trans ?_
            rw [decide_eq_true notFailed, run_pure]
          rw [rollback, if_neg (cons_ne_of_suffix deeper), if_neg notZero, run_bind_ok rolledBack]
          exact rolled

/-- Going back to any block of a chain, in any stack of caches, restores the coins and the Sapling
state. -/
theorem rollback_restores [BaseView σ] {cache : CCoinsViewCache σ} (rooted : ∀ tree, root tree ≠ 0)
    (state : ChainState env files path plain) (forkState : ChainState env files fork base)
    (suffix : fork <:+ path) (nonempty : fork ≠ [])
    (stands : StandsFor (fun _ => True) plain cache) :
    ∃ final restored, run CCoinsViewCache.step (rollback env files fork path) cache =
      .ok (true, final) ∧
      StandsFor (fun _ => True) restored final ∧ restored.coins = base.coins ∧
      SameSapling restored base := by
  obtain ⟨undo, undone, rolls⟩ := rollsBack rooted state forkState suffix nonempty
  obtain ⟨restored, ran, coins, sapling⟩ := rolls plain ⟨rfl, rfl, rfl⟩
  obtain ⟨final, cacheRan, holds⟩ := cache_refines_plain.run_ok stands ran
  exact ⟨final, restored, cacheRan, holds, coins.trans undone, sapling⟩

theorem rollforward_append
    (ran : run (step fun _ => True) (rollforward env files top first) mixed = .ok (true, middle)) :
    run (step fun _ => True) (rollforward env files top (first ++ later)) mixed =
      run (step fun _ => True) (rollforward env files top later) middle := by
  induction first generalizing mixed with
  | nil =>
    cases ran
    rfl
  | cons nHeight rest ih =>
    rw [rollforward] at ran
    rw [cons_append, rollforward]
    cases found : top.getAncestor nHeight with
    | nil =>
      rw [found] at ran
      cases ran
    | cons pindex pprev =>
      rw [found] at ran
      obtain ⟨done, between, forward, ran⟩ := run_bind_eq_ok ran
      rw [run_bind_ok forward]
      cases done with
      | false => cases ran
      | true => exact ih ran

variable (env files) in
/-- Rolling forward from one chain to another, both on the way to `top`, makes the same coin writes
on any coins, and changes nothing else. -/
def RollsForward (top fork : BlockPath) (base : PlainView) (path : BlockPath) (plain : PlainView) :
    Prop :=
  ∃ redo, applyWrites base.coins redo = plain.coins ∧ ∀ mixed, run (step fun _ => True)
        (rollforward env files top (List.range' (fork.nHeight + 1) (path.nHeight - fork.nHeight)))
      mixed = .ok (true, mixed.writeCoins redo)

theorem rollsForward_nothing (sameHeight : path.nHeight = fork.nHeight)
    (sameCoins : base.coins = plain.coins) : RollsForward env files top fork base path plain := by
  refine ⟨[], sameCoins, fun mixed => ?_⟩
  rw [sameHeight, Nat.sub_self]
  rfl

theorem rollsForward (rooted : ∀ tree, root tree ≠ 0) (mints : SpendsMints env.zerocoin files)
    (numbered : top.Numbered) (state : ChainState env files path plain)
    (forkState : ChainState env files fork base) (onTop : path <:+ top) (suffix : fork <:+ path) :
    RollsForward env files top fork base path plain := by
  have atFork : ∀ {plain}, ChainState env files fork plain → base.coins = plain.coins :=
    fun here => congrArg coins (chainState_unique rooted forkState here)
  induction state with
  | start =>
    have null := suffix_nil.mp suffix
    subst null
    exact rollsForward_nothing rfl (atFork .start)
  | genesis rules isGenesis height anchored ran =>
    rcases suffix_cons_iff.mp suffix with rfl | below
    · exact rollsForward_nothing rfl (atFork (.genesis rules isGenesis height anchored ran))
    · have null := suffix_nil.mp below
      subst null
      have sameCoins : base.coins = blank.coins := atFork .start
      rw [genesis_effect rules isGenesis ran]
      exact rollsForward_nothing height sameCoins
  | @connect pindex pprev path block blockundo now plain after below rules notGenesis height header
      read readUndo atTip new onlyZerocoins ran unmet ih =>
      rcases suffix_cons_iff.mp suffix with rfl | deeper
      · exact rollsForward_nothing rfl
          (atFork (.connect below rules notGenesis height header read readUndo atTip new
            onlyZerocoins ran unmet))
      · obtain ⟨redo, redone, earlier⟩ := ih ((suffix_cons pindex _).trans onTop) deeper
        have connected := blockConnected_of_run rooted rules notGenesis new ran
        obtain ⟨saplingTree, totals, middle, body⟩ := connected.body
        have kept := chainState_kept rooted below
        refine ⟨redo ++ redoWrites env pindex.nHeight block.vtx, ?_, fun mixed => ?_⟩
        · rw [applyWrites_append, redone, body.coins]
          exact redoWrites_connected mints rules kept.onDisk read (fun _ member => member) body.loop
            onlyZerocoins
        · have forkBelow : fork.nHeight ≤ pprev.nHeight := by
            have forkHeight := (kept.numbered.suffix deeper).nHeight
            have pathHeight : pprev.nHeight = path.length := kept.numbered.1
            have length := deeper.length_le
            rw [length_cons] at length
            omega
          have heights : List.range' (fork.nHeight + 1) (pindex.nHeight - fork.nHeight) =
              List.range' (fork.nHeight + 1) (pprev.nHeight - fork.nHeight) ++ [pindex.nHeight] := by
            have count : pindex.nHeight - fork.nHeight = pprev.nHeight - fork.nHeight + 1 := by omega
            have last : fork.nHeight + 1 + (pprev.nHeight - fork.nHeight) = pindex.nHeight := by omega
            rw [count, List.range'_1_concat, last]
          have soFar : run (step fun _ => True)
              (rollforward env files top (List.range' (fork.nHeight + 1)
                (pprev.nHeight - fork.nHeight))) mixed =
              .ok (true, mixed.writeCoins redo) := earlier mixed
          have forward : run (step fun _ => True) (rollforwardBlock env files pindex)
              (mixed.writeCoins redo) = .ok
                (true, (mixed.writeCoins redo).writeCoins
                  (redoWrites env pindex.nHeight block.vtx)) := by
            rw [rollforwardBlock, read]
            exact run_bind_ok (rollforwardTxs_run _ env connected.valid)
          change run _ (rollforward env files top (List.range' _ (pindex.nHeight - _))) mixed = _
          rw [heights, rollforward_append soFar, rollforward,
            BlockPath.getAncestor_suffix numbered onTop]
          rw [run_bind_ok forward, writeCoins_append]
          rfl

omit [PedersenHash] in
theorem hash_ne_zero (nonempty : path ≠ []) : path.hash ≠ 0 := by
  cases path with
  | nil => exact absurd rfl nonempty
  | cons pindex _ => exact pindex.notNull

variable {pindexOld pindexNew : BlockPath} {old new : PlainView}

/-- Replaying from a mixture of the coins of two chains, with the Sapling state of the old one,
gives the coins of the new one, with the Sapling state of the fork. -/
theorem replay_run (rooted : ∀ tree, root tree ≠ 0) (mints : SpendsMints env.zerocoin files)
    (oldState : ChainState env files pindexOld old) (newState : ChainState env files pindexNew new)
    (forkState : ChainState env files fork base) (onOld : fork <:+ pindexOld)
    (onNew : fork <:+ pindexNew) (met : fork = [] → pindexOld = []) (nonempty : pindexNew ≠ [])
    (same : SameSapling mixed old)
    (mixture : ∀ key, mixed.coins key = old.coins key ∨ mixed.coins key = new.coins key) :
    ∃ final, run (step fun _ => True) (replay env files pindexOld fork pindexNew) mixed =
        .ok (true, final) ∧ final.coins = new.coins ∧ SameSapling final base ∧
        final.bestBlock = pindexNew.hash := by
  have back : RollsBack env files pindexOld old fork base := by
    by_cases null : fork = []
    · have nullOld := met null
      subst null nullOld
      exact rollsBack_same rooted oldState forkState
    · exact rollsBack rooted oldState forkState onOld null
  obtain ⟨undo, undone, rolledBack⟩ := back
  obtain ⟨redo, redone, rolledForward⟩ :=
    rollsForward rooted mints (chainState_kept rooted newState).numbered newState forkState
    suffix_rfl onNew
  obtain ⟨middle, backRan, backCoins, backSapling⟩ := rolledBack mixed same
  refine ⟨{ middle.writeCoins redo with bestBlock := pindexNew.hash }, ?_, ?_, ?_, rfl⟩
  · rw [replay, run_bind_ok backRan]
    simp only [if_true]
    rw [run_bind_ok (rolledForward middle)]
    exact run_bind_ok (run_setBestBlock _ (hash_ne_zero nonempty))
  · change applyWrites middle.coins redo = new.coins
    rw [backCoins]
    exact applyWrites_replay undone redone mixture
  · exact ⟨backSapling.nullifiers, backSapling.anchors, backSapling.bestAnchor⟩

theorem replayAndFlush_run (ok : (CCoinsView.base db).Ok fun _ => True)
    (ran : run (step fun _ => True) (replay env files pindexOld fork pindexNew)
      (CCoinsView.base db).plain = .ok (true, final)) (unset : db.getBestBlock = 0)
    (marked : db.getHeadBlocks = [final.bestBlock, hashOld]) (notNull : final.bestBlock ≠ 0) :
    ∃ cache after, StandsFor (fun _ => True) final cache ∧ cache.below = .base db ∧
      cache.own.hashBlock = final.bestBlock ∧ cache.flush = .ok after ∧ ∃ written,
        db.batchWrite cache.own.cacheCoins cache.own.hashBlock cache.own.hashSaplingAnchor
          cache.own.cacheSaplingAnchors cache.own.cacheSaplingNullifiers = .ok written ∧
          after.below = .base written ∧
        replayAndFlush env files pindexOld fork pindexNew db = .ok (true, written) := by
  have opened : StandsFor (fun _ => True) (CCoinsView.base db).plain
      ({ below := .base db } : CCoinsViewCache CCoinsViewDB) := ⟨emptyCache_ok ok, emptyCache_plain _⟩
  obtain ⟨cache, cacheRan, stands⟩ := cache_refines_plain.run_ok opened ran
  have based : cache.below = .base db := run_below (closedUnderReads_base db) rfl cacheRan
  have hashBlock : cache.own.hashBlock = final.bestBlock := by
    have best : cache.view.bestBlock = final.bestBlock := congrArg bestBlock stands.2
    rw [view, based, bestBlock_cache] at best
    split at best
    · exact absurd (best.symm.trans unset) notNull
    · exact best
  have tip : db.oldTip cache.own.hashBlock = .ok hashOld := by
    rw [CCoinsViewDB.oldTip, if_pos unset, marked, hashBlock]
    exact if_pos rfl
  have written := @batchWrite_eq _ db cache.own.cacheCoins cache.own.hashBlock cache.own.hashSaplingAnchor
    cache.own.cacheSaplingAnchors cache.own.cacheSaplingNullifiers hashOld (hashBlock ▸ notNull) tip
  have flushed := flush_over based written
  refine ⟨cache, _, stands, based, hashBlock, flushed, _, written, rfl, ?_⟩
  rw [replayAndFlush, cacheRan]
  simp only [flushed, Except.map]
  rfl

end

/-- A flush that takes a consistent database from the state of one chain to the coins of another.  A
null old tip means that nothing was flushed before. -/
structure Flushing [PedersenHash] (env : Env) (files : BlockFiles) (blocks : BlockMap)
    (pindexOld pindexNew : BlockPath) (old new : PlainView) (db : CCoinsViewDB)
    (mapCoins : CCoinsMap) (hashSaplingAnchor : Uint256) (mapSaplingAnchors : CAnchorsSaplingMap)
    (mapSaplingNullifiers : CNullifiersMap) : Prop where
  oldState : ChainState env files pindexOld old
  newState : ChainState env files pindexNew new
  findOld : pindexOld ≠ [] → blocks.find pindexOld.hash = some pindexOld
  findNew : blocks.find pindexNew.hash = some pindexNew
  ok : (CCoinsView.base db).Ok fun _ => True
  before : (CCoinsView.base db).plain = old
  unmarked : db.headBlocks = none
  whole : ∃ flushed,
    db.batchWrite mapCoins pindexNew.hash hashSaplingAnchor mapSaplingAnchors mapSaplingNullifiers =
    .ok flushed ∧ (CCoinsView.base flushed).coinAt = new.coins

section

variable [PedersenHash] {env : Env} {files : BlockFiles} {blocks : BlockMap}
  {pindexOld pindexNew : BlockPath}
  {old new : PlainView} {db crashed : CCoinsViewDB} {mapCoins : CCoinsMap} {hashSaplingAnchor : Uint256}
  {mapSaplingAnchors : CAnchorsSaplingMap} {mapSaplingNullifiers : CNullifiersMap}
  (flushing : Flushing env files blocks pindexOld pindexNew old new db mapCoins hashSaplingAnchor
    mapSaplingAnchors mapSaplingNullifiers)

include flushing

theorem Flushing.nonempty : pindexNew ≠ [] := by
  intro null
  have suffix := blocks.rooted _ _ flushing.findNew
  rw [null] at suffix
  cases suffix_nil.mp suffix

theorem Flushing.oldTip (rooted : ∀ tree, root tree ≠ 0) (hashBlock : Uint256) :
    db.oldTip hashBlock = .ok pindexOld.hash := by
  have best : db.getBestBlock = pindexOld.hash := by
    rw [← (chainState_kept rooted flushing.oldState).best, ← flushing.before]
    rfl
  have heads : db.getHeadBlocks = [] := by
    rw [getHeadBlocks, flushing.unmarked]
    rfl
  rw [CCoinsViewDB.oldTip, best, heads]
  split
  next null => rw [null]
  · rfl

theorem Flushing.fork :
    ∃ fork, oldAndFork blocks pindexOld.hash pindexNew = .ok (some (pindexOld, fork)) ∧
      fork <:+ pindexOld ∧ fork <:+ pindexNew ∧ (fork = [] → pindexOld = []) := by
  cases pindexOld with
  | nil => exact ⟨[], rfl, suffix_rfl, nil_suffix, fun _ => rfl⟩
  | cons pindex pprev =>
    have found := flushing.findOld (cons_ne_nil pindex pprev)
    obtain ⟨fork, common, onOld, onNew, notNull⟩ := BlockPath.lastCommonAncestor_spec
      (blocks.numbered _ _ found) (blocks.numbered _ _ flushing.findNew) (blocks.rooted _ _ found)
      (blocks.rooted _ _ flushing.findNew)
    refine ⟨fork, ?_, onOld, onNew, fun null => absurd null notNull⟩
    rw [oldAndFork, if_neg (hash_ne_zero (cons_ne_nil pindex pprev)), found]
    simp [common, Except.map]

theorem Flushing.mixture {oldTip : Uint256}
    (interrupted : Interrupted db mapCoins pindexNew.hash oldTip crashed) (key : COutPoint) :
    (CCoinsView.base crashed).plain.coins key = old.coins key ∨
      (CCoinsView.base crashed).plain.coins key = new.coins key := by
  obtain ⟨flushed, whole, flushedCoins⟩ := flushing.whole
  rw [← flushing.before, ← flushedCoins]
  change (crashed.getCoin key).bind _ = (db.getCoin key).bind _ ∨
    (crashed.getCoin key).bind _ = (flushed.getCoin key).bind _
  exact (interrupted.mixture whole).imp (fun same => by rw [same]) fun same => by rw [same]

omit flushing in
theorem interrupted_sapling (interrupted : Interrupted db mapCoins hashBlock oldTip crashed) :
    SameSapling (CCoinsView.base crashed).plain (CCoinsView.base db).plain ∧
      (fun rt => crashed.getSaplingAnchorAt rt) = fun rt => db.getSaplingAnchorAt rt := by
  have nullifiers : crashed.saplingNullifiers = db.saplingNullifiers := by rw [interrupted.rest]
  have anchors : crashed.saplingAnchors = db.saplingAnchors := by rw [interrupted.rest]
  have best : crashed.bestSaplingAnchor = db.bestSaplingAnchor := by rw [interrupted.rest]
  have sameAnchors : crashed.getSaplingAnchorAt = db.getSaplingAnchorAt := by
    funext rt
    rw [CCoinsViewDB.getSaplingAnchorAt, CCoinsViewDB.getSaplingAnchorAt, anchors]
  refine ⟨⟨?_, sameAnchors, ?_⟩, sameAnchors⟩
  · change crashed.getNullifier = db.getNullifier
    funext nullifier
    rw [CCoinsViewDB.getNullifier, CCoinsViewDB.getNullifier, nullifiers]
  · change crashed.getBestAnchor = db.getBestAnchor
    rw [CCoinsViewDB.getBestAnchor, CCoinsViewDB.getBestAnchor, best]

theorem Flushing.interrupted_ok {oldTip : Uint256}
    (interrupted : Interrupted db mapCoins pindexNew.hash oldTip crashed) :
    (CCoinsView.base crashed).Ok fun _ => True := by
  obtain ⟨flushed, whole, _⟩ := flushing.whole
  refine ⟨fun outpoint coin found => ?_, fun rt tree found => ?_⟩
  · rcases interrupted.mixture whole with same | same
    · exact flushing.ok.coins outpoint coin (same.symm.trans found)
    · have batchWritten :
          BaseView.batchWrite db mapCoins pindexNew.hash hashSaplingAnchor mapSaplingAnchors
          mapSaplingNullifiers = .ok flushed := whole
      have stores := LawfulCoins.batchWrite_getCoin batchWritten outpoint
      have answered := (same.trans stores).symm.trans found
      split at answered
      · split at answered
        · exact Coin.not_isSpent_of_unspent? answered
        · exact flushing.ok.coins outpoint coin answered
      · exact flushing.ok.coins outpoint coin answered
  · exact flushing.ok.sapling rt tree ((congrFun (interrupted_sapling interrupted).2 rt).symm.trans found)

omit flushing in
variable (env files blocks pindexOld pindexNew new crashed) in
/-- The cache a replay ends with before it is flushed, and the database it is flushed to. -/
structure Replayed (fork : BlockPath) (base final : PlainView)
    (cache : CCoinsViewCache CCoinsViewDB) (written : CCoinsViewDB) : Prop where
  located : oldAndFork blocks pindexOld.hash pindexNew = .ok (some (pindexOld, fork))
  onNew : fork <:+ pindexNew
  forkState : ChainState env files fork base
  sapling : SameSapling final base
  stands : StandsFor (fun _ => True) final cache
  based : cache.below = .base crashed
  hashBlock : cache.own.hashBlock = pindexNew.hash
  batchWritten : crashed.batchWrite cache.own.cacheCoins cache.own.hashBlock cache.own.hashSaplingAnchor
    cache.own.cacheSaplingAnchors cache.own.cacheSaplingNullifiers = .ok written
  flushedCoins : (CCoinsView.base written).coinAt = new.coins

theorem Flushing.replays (rooted : ∀ tree, root tree ≠ 0) (mints : SpendsMints env.zerocoin files)
    {oldTip : Uint256} (tip : db.oldTip pindexNew.hash = .ok oldTip)
    (interrupted : Interrupted db mapCoins pindexNew.hash oldTip crashed) :
    ∃ fork base final cache written,
      Replayed env files blocks pindexOld pindexNew new crashed fork base final cache written ∧
      replayBlocks env files blocks crashed = .ok (true, written) := by
  have isOld : pindexOld.hash = oldTip := Except.ok.inj ((flushing.oldTip rooted _).symm.trans tip)
  obtain ⟨fork, located, onOld, onNew, met⟩ := flushing.fork
  obtain ⟨base, forkState⟩ := chainState_suffix flushing.oldState onOld
  have sapling : SameSapling (CCoinsView.base crashed).plain old :=
    flushing.before ▸ (interrupted_sapling interrupted).1
  obtain ⟨final, ran, coins, finalSapling, best⟩ :=
    replay_run rooted mints flushing.oldState flushing.newState forkState onOld onNew met
    flushing.nonempty sapling (flushing.mixture interrupted)
  have unset : crashed.getBestBlock = 0 := by
    rw [CCoinsViewDB.getBestBlock, interrupted.rest]
    rfl
  have marked : crashed.getHeadBlocks = [pindexNew.hash, oldTip] := by
    rw [getHeadBlocks, interrupted.rest]
    rfl
  have notNull : final.bestBlock ≠ 0 := best ▸ hash_ne_zero flushing.nonempty
  obtain ⟨cache, after, stands, based, hashBlock, flushed, written, batchWritten, below, replayed⟩ :=
    replayAndFlush_run (flushing.interrupted_ok interrupted) ran unset (best ▸ marked) notNull
  have shown : after.below.coinAt = cache.view.coinAt := by
    have kept := flush_coins stands.1.coins
    rw [flushed] at kept
    exact kept.2.2
  have flushedCoins : (CCoinsView.base written).coinAt = new.coins := by
    rw [← below, shown, ← coins]
    exact congrArg PlainView.coins stands.2
  refine ⟨fork, base, final, cache, written,
    ⟨located, onNew, forkState, finalSapling, stands, based, hashBlock.trans best, batchWritten,
      flushedCoins⟩, ?_⟩
  rw [← isOld] at marked
  simp only [replayBlocks, marked, flushing.findNew, located]
  exact replayed

omit flushing in
theorem Replayed.sapling_written (rooted : ∀ tree, root tree ≠ 0)
    (replayed : Replayed env files blocks pindexOld pindexNew new crashed fork base final cache written) :
    written.getNullifier = base.nullifiers ∧ written.getBestAnchor = base.bestAnchor ∧
      written.getSaplingAnchorAt = base.anchors := by
  have view : cache.view = .cache cache.own (.base crashed) := by rw [view, replayed.based]
  have shown : (CCoinsView.cache cache.own (.base crashed)).plain = final :=
    view ▸ replayed.stands.2
  have nullifiers := (congrArg nullifiers shown).trans replayed.sapling.nullifiers
  have anchors := (congrArg anchors shown).trans replayed.sapling.anchors
  have best := (congrArg bestAnchor shown).trans replayed.sapling.bestAnchor
  have batchWritten :
      BaseView.batchWrite crashed cache.own.cacheCoins cache.own.hashBlock
      cache.own.hashSaplingAnchor cache.own.cacheSaplingAnchors cache.own.cacheSaplingNullifiers =
      .ok written := replayed.batchWritten
  have emptyKept : (CCoinsView.cache cache.own (.base crashed)).anchorAt emptyRoot =
      (CCoinsView.base crashed).anchorAt emptyRoot := by
    refine (congrFun anchors _).trans ((chainState_emptyRoot rooted replayed.forkState).trans ?_)
    exact (if_pos rfl : crashed.getSaplingAnchorAt emptyRoot = some []).symm
  obtain ⟨-, writtenNullifiers, writtenAnchors⟩ :=
    CacheLayer.batchWrite_base (view ▸ replayed.stands.1.sapling) emptyKept
    (congrArg (Except.map CCoinsView.base) batchWritten)
  refine ⟨writtenNullifiers.trans nullifiers, ?_, writtenAnchors.trans anchors⟩
  refine (LawfulSapling.batchWrite_getBestAnchor batchWritten).trans (Eq.trans ?_ best)
  exact (bestAnchor_cache cache.own (.base crashed)).symm

/-- However a flush is cut into batches and wherever it is interrupted once the first batch is
written, `ReplayBlocks` brings the database to the new tip, unmarked, with exactly the coins of the
new tip's chain. -/
theorem replayBlocks_recovers_coins (rooted : ∀ tree, root tree ≠ 0)
    (mints : SpendsMints env.zerocoin files) {sizeExceeded : List DBWrite → Bool}
    {written : List (List DBWrite)}
    (computed : db.batches sizeExceeded mapCoins pindexNew.hash hashSaplingAnchor mapSaplingAnchors
      mapSaplingNullifiers = .ok written) {k : Nat} (started : 0 < k) :
    ∃ final, replayBlocks env files blocks ((written.take k).foldl writeBatch db) =
      .ok (true, final) ∧
      final.getBestBlock = pindexNew.hash ∧ final.getHeadBlocks = [] ∧
      (CCoinsView.base final).coinAt = new.coins := by
  rcases Nat.lt_or_ge k written.length with notAll | all
  · obtain ⟨oldTip, tip, interrupted⟩ := interrupted_of_take computed started notAll
    obtain ⟨fork, base, final, cache, after, replayed, ran⟩ :=
      flushing.replays rooted mints tip interrupted
    obtain ⟨best, heads⟩ := batchWrite_tip replayed.batchWritten
    refine ⟨after, ran, ?_, ?_, replayed.flushedCoins⟩
    · rw [CCoinsViewDB.getBestBlock, best, replayed.hashBlock]
      rfl
    · rw [getHeadBlocks, heads]
      rfl
  · -- Everything was written: the database is unmarked, and nothing is replayed.
    obtain ⟨flushed, whole, coins⟩ := flushing.whole
    obtain ⟨best, heads⟩ := batchWrite_tip whole
    have unmarked : flushed.getHeadBlocks = [] := by
      rw [getHeadBlocks, heads]
      rfl
    rw [take_of_length_le all, foldl_writeBatch_all computed whole]
    refine ⟨flushed, ?_, ?_, unmarked, coins⟩
    · simp [replayBlocks, unmarked]
    · rw [CCoinsViewDB.getBestBlock, best]
      rfl

/-- A flush interrupted between two batches.  `RollforwardBlock` marks no nullifier and pushes no
anchor, so `ReplayBlocks` leaves the Sapling state of the fork: it is the new tip's exactly if no
block between the two has a shielded spend or output. -/
theorem replayBlocks_recovers_sapling_iff (rooted : ∀ tree, root tree ≠ 0)
    (mints : SpendsMints env.zerocoin files) (apart : RootsApart (commitments files pindexNew))
    {sizeExceeded : List DBWrite → Bool} {written : List (List DBWrite)}
    (computed : db.batches sizeExceeded mapCoins pindexNew.hash hashSaplingAnchor mapSaplingAnchors
      mapSaplingNullifiers = .ok written) {k : Nat} (started : 0 < k) (notAll : k < written.length) :
    ∃ fork final, oldAndFork blocks pindexOld.hash pindexNew = .ok (some (pindexOld, fork)) ∧
      replayBlocks env files blocks ((written.take k).foldl writeBatch db) = .ok (true, final) ∧
      ((final.getNullifier = new.nullifiers ∧ final.getBestAnchor = new.bestAnchor ∧
          final.getSaplingAnchorAt new.bestAnchor = new.anchors new.bestAnchor) ↔
        Transparent (blocksAbove files fork pindexNew)) := by
  obtain ⟨oldTip, tip, interrupted⟩ := interrupted_of_take computed started notAll
  obtain ⟨fork, base, final, cache, after, replayed, ran⟩ :=
    flushing.replays rooted mints tip interrupted
  obtain ⟨nullifiers, best, anchors⟩ := replayed.sapling_written rooted
  refine ⟨fork, after, replayed.located, ran, ?_⟩
  rw [nullifiers, best, anchors]
  exact chainState_sapling_iff rooted flushing.newState replayed.forkState replayed.onNew apart

end

namespace SampleChain

local instance : PedersenHash := ⟨fun tree => BitVec.ofNat 256 (tree.length % 2 + 1)⟩

theorem root_ne_zero (tree : SaplingMerkleTree) : root tree ≠ 0 := ofNat_parity_ne_zero

def params : Params where
  __ := mainParams
  isMain := false
  vUpgrades idx := if idx = .upgradeV5_0 then some 1 else mainParams.vUpgrades idx

def genesisIndex : CBlockIndex where
  hash := params.hashGenesisBlock
  nHeight := 0
  hashFinalSaplingRoot := 0
  notNull := by decide

def firstIndex :
    CBlockIndex := { hash := 2, nHeight := 1, hashFinalSaplingRoot := 2, notNull := two_ne_null }

def coinBase (hash : Uint256) : CTransaction where
  hash := hash
  nVersion := 1
  vin := [{ prevout := ⟨0, 2 ^ 32 - 1⟩, scriptSig := [0x51, 0x00], nSequence := 0 }]
  vout := [{ nValue := 250 * coinUnit, scriptPubKey := [0x51] }]

def genesisBlock : CBlock where
  hash := params.hashGenesisBlock
  hashPrevBlock := 0
  hashMerkleRoot := 0
  hashFinalSaplingRoot := 0
  nTime := 1529589600
  vtx := [coinBase 9]

def firstBlock : CBlock where
  hash := 2
  hashPrevBlock := params.hashGenesisBlock
  hashMerkleRoot := 0
  hashFinalSaplingRoot := 2
  nTime := 1529589700
  vtx := [coinBase 10, {
    hash := 11
    nVersion := 3
    vin := []
    vout := []
    sapData := some {
      valueBalance := 0, vShieldedSpend := [⟨1, 7⟩], vShieldedOutput := [⟨5⟩], bindingSig := [1] } }]

def env : Env :=
  let env := Env.trusting params
  { env with
    zerocoin := { env.zerocoin with parseZerocoinPublicSpend := fun _ _ => none }
    node := { env.node with
      tip := some (params.hashGenesisBlock, 0)
      blockHeight := fun hash => if hash = params.hashGenesisBlock then some 0 else none } }

def files : BlockFiles where
  readBlockFromDisk pindex := if pindex = firstIndex then some firstBlock else none
  undoReadFromDisk pindex := if pindex = firstIndex then some { vtxundo := [{}] } else none

def blocks : BlockMap where
  genesis := genesisIndex
  find hash :=
    if hash = 2 then some [firstIndex, genesisIndex]
    else if hash = params.hashGenesisBlock then some [genesisIndex] else none
  named hash path found := by
    split at found
    next same =>
      cases found
      exact same.symm
    · split at found
      next same =>
        cases found
        exact same.symm
      · cases found
  numbered hash path found := by
    split at found
    · cases found
      decide
    · split at found
      · cases found
        decide
      · cases found
  rooted hash path found := by
    split at found
    · cases found
      exact suffix_cons firstIndex [genesisIndex]
    · split at found
      · cases found
        exact suffix_rfl
      · cases found

theorem spendsMints : SpendsMints env.zerocoin files where
  hashed pindex block read tx member := by
    simp only [files] at read
    split at read
    · cases read
      simp only [firstBlock, mem_cons, not_mem_nil, or_false] at member
      rcases member with rfl | rfl <;> decide
    · cases read
  mint _ _ _ parsed := by cases parsed

def afterGenesis : PlainView := { blank with bestBlock := params.hashGenesisBlock }

theorem genesisState : ChainState env files [genesisIndex] afterGenesis :=
  .genesis ⟨rfl, rfl, rfl, rfl, rfl⟩ (rfl : genesisBlock.hash = _) rfl rfl rfl

def minted : Coin where
  fCoinBase := true
  out := { nValue := 250 * coinUnit, scriptPubKey := [0x51] }
  nHeight := 1

theorem firstState : ∃ new, ChainState env files [firstIndex, genesisIndex] new ∧
    new.coins = Function.update (fun _ => none) ⟨10, 0⟩ (some minted) ∧ new.nullifiers 7 = true ∧
      new.bestAnchor = 2 := by
  have newBlock : NewBlock firstBlock afterGenesis.coins := ⟨by decide, fun _ _ _ => rfl⟩
  have unmet : ∀ rt, rt ≠ afterGenesis.bestAnchor → afterGenesis.anchors rt = none :=
    fun rt new => if_neg new
  exact ⟨_, .connect genesisState ⟨rfl, rfl, rfl, rfl, rfl⟩ (by decide) rfl rfl rfl rfl rfl newBlock
    (by decide) rfl (unmet _),
    rfl, rfl, rfl⟩

def db : CCoinsViewDB := { bestBlock := some params.hashGenesisBlock }

def mapCoins :
    CCoinsMap := (∅ : CCoinsMap).insert ⟨10, 0⟩ { coin := minted, dirty := true, fresh := true }

def mapSaplingAnchors : CAnchorsSaplingMap :=
  (∅ : CAnchorsSaplingMap).insert 2 { entered := true, tree := [5], dirty := true }

def mapSaplingNullifiers :
    CNullifiersMap := (∅ : CNullifiersMap).insert 7 { entered := true, dirty := true }

theorem flushing (newState : ChainState env files [firstIndex, genesisIndex] new)
    (coins : new.coins = Function.update (fun _ => none) ⟨10, 0⟩ (some minted)) :
    Flushing env files blocks [genesisIndex] [firstIndex, genesisIndex] afterGenesis new db mapCoins 2
      mapSaplingAnchors mapSaplingNullifiers where
  oldState := genesisState
  newState := newState
  findOld _ := rfl
  findNew := rfl
  ok := ⟨fun outpoint coin found => (by cases found), fun rt tree found => (by
    change (if rt = emptyRoot then some [] else none) = some tree at found
    split at found
    next isEmpty =>
      cases found
      exact ⟨trivial, isEmpty.symm⟩
    · cases found)⟩
  before := rfl
  unmarked := rfl
  whole := by
    obtain ⟨flushed, written⟩ : ∃ flushed,
        BaseView.batchWrite db mapCoins 2 2 mapSaplingAnchors mapSaplingNullifiers = .ok flushed :=
        ⟨_, rfl⟩
    refine ⟨flushed, written, funext fun outpoint => ?_⟩
    rw [coins, Function.update_apply, coinAt_base, LawfulCoins.batchWrite_getCoin written outpoint]
    simp only [mapCoins, Table.lookup_insert_eq]
    by_cases here : outpoint = ⟨10, 0⟩
    · simp only [if_pos here]
      rfl
    · simp only [if_neg here]
      rfl

def batches : List (List DBWrite) := [
  [.bestBlock none, .headBlocks (some [2, params.hashGenesisBlock]), .coin ⟨10, 0⟩ (some minted)],
  [.saplingAnchor 2 (some [5]), .saplingNullifier 7 (some true), .bestSaplingAnchor 2,
    .headBlocks none, .bestBlock (some 2)]]

theorem batches_computed :
    db.batches (fun batch => decide (2 < batch.length)) mapCoins 2 2 mapSaplingAnchors
      mapSaplingNullifiers =
      .ok batches := rfl

/-- Interrupted after the first of its two batches, the flush is replayed. -/
theorem replayBlocks_recovers_coins_first :
    ∃ final, replayBlocks env files blocks ((batches.take 1).foldl writeBatch db) = .ok (true, final) ∧
      final.getBestBlock = 2 ∧ final.getHeadBlocks = [] ∧
      (CCoinsView.base final).coinAt = Function.update (fun _ => none) ⟨10, 0⟩ (some minted) := by
  obtain ⟨new, newState, coins, -⟩ := firstState
  obtain ⟨final, ran, best, heads, finalCoins⟩ :=
    replayBlocks_recovers_coins (flushing newState coins)
      root_ne_zero spendsMints batches_computed Nat.one_pos
  exact ⟨final, ran, best, heads, finalCoins.trans coins⟩

/-- Before the first batch is written nothing is marked, and the replay leaves the old tip. -/
theorem replayBlocks_nothing_written :
    ∃ new, Flushing env files blocks [genesisIndex] [firstIndex,
      genesisIndex] afterGenesis new db mapCoins 2
        mapSaplingAnchors mapSaplingNullifiers ∧
      db.batches (fun batch => decide (2 < batch.length)) mapCoins 2 2 mapSaplingAnchors
      mapSaplingNullifiers =
        .ok batches ∧
      replayBlocks env files blocks ((batches.take 0).foldl writeBatch db) = .ok (true, db) ∧
      db.getBestBlock ≠ BlockPath.hash [firstIndex, genesisIndex] := by
  obtain ⟨new, newState, coins, -⟩ := firstState
  exact ⟨new, flushing newState coins, batches_computed, rfl, by decide⟩

/-- Replayed after the first batch, the database has neither the nullifier of the first block nor
its anchor. -/
theorem replayBlocks_loses_sapling :
    ∃ new final, Flushing env files blocks [genesisIndex] [firstIndex,
      genesisIndex] afterGenesis new db mapCoins 2
        mapSaplingAnchors mapSaplingNullifiers ∧
      db.batches (fun batch => decide (2 < batch.length)) mapCoins 2 2 mapSaplingAnchors
      mapSaplingNullifiers =
        .ok batches ∧
      replayBlocks env files blocks ((batches.take 1).foldl writeBatch db) = .ok (true, final) ∧
      new.nullifiers 7 = true ∧ final.getNullifier 7 = false ∧ new.bestAnchor = 2 ∧
      final.getBestAnchor = 1 := by
  obtain ⟨new, newState, coins, spent, best⟩ := firstState
  exact ⟨new, _, flushing newState coins, batches_computed, rfl, spent, rfl, best, rfl⟩

theorem rootsApart : RootsApart (commitments files [firstIndex, genesisIndex]) := by
  have isPrefix : ∀ tree : SaplingMerkleTree, tree <+: [5] → tree = [] ∨ tree = [5] :=
      fun tree within =>
    (prefix_cons_iff.mp within).imp id fun ⟨rest, same, nested⟩ => by
      rw [same, prefix_nil.mp nested]
  intro earlier later first second sameRoot
  rcases isPrefix earlier first with rfl | rfl <;> rcases isPrefix later second with rfl | rfl
  · rfl
  · exact absurd sameRoot (by decide)
  · exact absurd sameRoot (by decide)
  · rfl

/-- The first block is not transparent, and its Sapling state is not recovered. -/
theorem replayBlocks_recovers_sapling_iff_first :
    ∃ new, ChainState env files [firstIndex, genesisIndex] new ∧ ∃ fork final,
      oldAndFork blocks params.hashGenesisBlock [firstIndex, genesisIndex] =
      .ok (some ([genesisIndex], fork)) ∧
      replayBlocks env files blocks ((batches.take 1).foldl writeBatch db) = .ok (true, final) ∧
      ((final.getNullifier = new.nullifiers ∧ final.getBestAnchor = new.bestAnchor ∧
          final.getSaplingAnchorAt new.bestAnchor = new.anchors new.bestAnchor) ↔
        Transparent (blocksAbove files fork [firstIndex, genesisIndex])) := by
  obtain ⟨new, newState, coins, -⟩ := firstState
  exact ⟨new, newState,
    replayBlocks_recovers_sapling_iff (flushing newState coins) root_ne_zero spendsMints rootsApart
    batches_computed Nat.one_pos (by decide)⟩

theorem rollback_restores_genesis : ∃ cache final : CCoinsViewCache CCoinsViewDB, ∃ restored,
    run CCoinsViewCache.step (rollback env files [genesisIndex] [firstIndex, genesisIndex]) cache =
      .ok (true, final) ∧
      StandsFor (fun _ => True) restored final ∧ restored.coins = afterGenesis.coins ∧
      SameSapling restored afterGenesis := by
  obtain ⟨new, state, coins, -⟩ := firstState
  have opened := child_standsFor (flushing state coins).ok
  obtain ⟨cache, stands⟩ : ∃ cache : CCoinsViewCache CCoinsViewDB,
    StandsFor (fun _ => True) new cache := by
    cases state with
    | connect below _ _ _ _ _ _ _ _ _ ran =>
      cases chainState_unique root_ne_zero below genesisState
      obtain ⟨cache, -, stands⟩ := cache_refines_plain.run_ok opened ran
      exact ⟨cache, stands⟩
  exact ⟨cache, rollback_restores root_ne_zero state genesisState (suffix_cons _ _)
    (cons_ne_nil _ _) stands⟩

theorem child_runs_apart_first : ∃ blockundo new, ∃ child : CCoinsViewCache CCoinsViewDB,
    run CCoinsViewCache.step (connectBlock env firstBlock firstIndex (some genesisIndex) false)
      { below := .base db } = .ok (blockundo, child) ∧ StandsFor (fun _ => True) new child ∧
      child.below.Ok (fun _ => True) ∧ child.below.plain = afterGenesis := by
  obtain ⟨new, state, coins, -⟩ := firstState
  exact ⟨_, _, child_runs_apart (flushing state coins).ok rfl⟩

end SampleChain

end Deviant.Validation
