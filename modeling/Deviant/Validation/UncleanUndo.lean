import Deviant.Validation.BlockUndo

namespace Deviant.Validation

open Coins Consensus Data List Primitives SaplingMerkleTree Program PlainView

/-! Disconnecting a block from coins it may never have been applied to, as after a
crash: the coins come out as if the writes had been made to the right ones, and the
Sapling state does not depend on the coins. -/

section

variable (undone : List (CTransaction × CTxUndo))

def undoTxs (plain : PlainView) : PlainView :=
  undone.foldl (fun plain entry => disconnected entry.1 entry.2 plain) plain

def undoWrites : List CoinWrite :=
  undone.flatMap fun entry => disconnectWrites entry.1 entry.2

theorem undoTxs_coins (plain : PlainView) :
    (undoTxs undone plain).coins = applyWrites plain.coins (undoWrites undone) := by
  induction undone generalizing plain with
  | nil => rfl
  | cons entry earlier ih =>
    rw [undoWrites, flatMap_cons, applyWrites_append]
    exact ih (disconnected entry.1 entry.2 plain)

theorem undoTxs_nullifiers (same : plain.nullifiers = plain'.nullifiers) :
    (undoTxs undone plain).nullifiers = (undoTxs undone plain').nullifiers := by
  induction undone generalizing plain plain' with
  | nil => exact same
  | cons entry earlier ih =>
    apply ih
    simp [disconnected, same]

theorem undoTxs_frame (plain : PlainView) :
    undoTxs undone plain = overlay plain (undoTxs undone plain) := by
  induction undone generalizing plain with
  | nil => rfl
  | cons entry earlier ih => exact ih (disconnected entry.1 entry.2 plain)

end

/-- Surroundings that connect and disconnect blocks to the same effect.  The node's own state, and
what its zerocoin database holds, may differ. -/
structure SameRules (env now : Env) : Prop where
  params : now.params = env.params
  invalidOutPoints : now.invalidOutPoints = env.invalidOutPoints
  parseZerocoinPublicSpend :
    now.zerocoin.parseZerocoinPublicSpend = env.zerocoin.parseZerocoinPublicSpend
  txInToZerocoinSpend : now.zerocoin.txInToZerocoinSpend = env.zerocoin.txInToZerocoinSpend
  txOutToPublicCoin : now.zerocoin.txOutToPublicCoin = env.zerocoin.txOutToPublicCoin

theorem SameRules.connected (rules : SameRules env now) :
    connected now nHeight tx = connected env nHeight tx := by
  have output : outputWrite now = outputWrite env := by
    funext tx nHeight fSkipInvalid i out
    simp [outputWrite, rules.invalidOutPoints]
  funext plain
  simp [Validation.connected, connectWrites, outputWrites, output, rules.params]

theorem SameRules.disconnectZerocoinInputs (rules : SameRules env now) :
    disconnectZerocoinInputs now.zerocoin tx inputs =
      disconnectZerocoinInputs env.zerocoin tx inputs := by
  induction inputs with
  | nil => rfl
  | cons input rest ih =>
    simp [Validation.disconnectZerocoinInputs, ih, rules.parseZerocoinPublicSpend,
      rules.txInToZerocoinSpend]

theorem SameRules.undoFits (rules : SameRules env now) (fits : UndoFits now tx txundo) :
    UndoFits env tx txundo := by
  refine ⟨?_, fits.usable, fits.length⟩
  have erased := fits.erased
  simp only [disconnectZerocoinTx, rules.disconnectZerocoinInputs, rules.txOutToPublicCoin]
    at erased ⊢
  exact erased

structure SameSapling (plain plain' : PlainView) : Prop where
  nullifiers : plain.nullifiers = plain'.nullifiers
  anchors : plain.anchors = plain'.anchors
  bestAnchor : plain.bestAnchor = plain'.bestAnchor

section

variable [PedersenHash] {Known : SaplingMerkleTree → Prop} [DecidablePred Known]
  {env now : Env} {block : CBlock} {pindex pprev : CBlockIndex} {isFirst : Bool}
  {totals totals' : BlockTotals} {plain after : PlainView} {blockundo : CBlockUndo}

variable (Known) in
theorem disconnectTxs_run (fits : ∀ entry ∈ undone, UndoFits env entry.1 entry.2) (plain : PlainView) :
    ∃ result, run (step Known) (disconnectTxs env undone) plain =
        .ok (result, undoTxs undone plain) ∧ result ≠ .failed := by
  induction undone generalizing plain with
  | nil => exact ⟨.ok, rfl, by simp⟩
  | cons entry earlier ih =>
    obtain ⟨tx, txundo⟩ := entry
    obtain ⟨first, ran, notFailed, -⟩ := disconnectTx_run Known (fits _ mem_cons_self) plain
    obtain ⟨rest, restRan, restNotFailed⟩ :=
      ih (forall_mem_cons.mp fits).2 (disconnected tx txundo plain)
    refine ⟨combine (decide (first = .ok)) rest, ?_, combine_ne_failed restNotFailed⟩
    rw [disconnectTxs, run_bind_ok ran]
    cases first with
    | failed => exact absurd rfl notFailed
    | ok => exact run_bind_ok restRan
    | unclean => exact run_bind_ok restRan

section

variable (loop : TxsConnected Known env block pindex pprev isFirst txs totals plain totals' after)

include loop

theorem TxsConnected.undone (restorable : Restorable plain)
    (valid : ∀ tx ∈ txs, ∀ out ∈ tx.vout, out.isNull = false) :
    undoTxs (txs.zip (undoRecords env pindex.nHeight txs plain)).reverse after = plain := by
  induction loop with
  | nil => rfl
  | @cons isFirst tx later totals totals' totals'' plain middle after first _ ih =>
    have laterRestorable : Restorable middle :=
      first.effect ▸ restorable.connected (valid tx mem_cons_self)
    have back := ih laterRestorable (forall_mem_cons.mp valid).2
    rw [undoRecords, zip_cons_cons, reverse_cons, undoTxs, foldl_append, ← first.effect]
    change disconnected tx (undoRecord tx plain) (undoTxs _ after) = plain
    rw [back, first.effect]
    exact disconnected_connected first.applies restorable.storable

theorem TxsConnected.undoFits (restorable : Restorable plain)
    (valid : ∀ tx ∈ txs, ∀ out ∈ tx.vout, out.isNull = false) (dated : ∀ tx ∈ txs, Dated plain tx)
    (notGenesis : pindex.nHeight ≠ 0) (erasable : ∀ tx ∈ txs, Erasable env.zerocoin tx) :
    ∀ entry ∈ txs.zip (undoRecords env pindex.nHeight txs plain),
      UndoFits env entry.1 entry.2 ∧ ∀ undo ∈ entry.2.vprevout, undo.isIgnored = false := by
  induction loop with
  | nil => exact fun entry member => absurd member not_mem_nil
  | @cons isFirst tx later totals totals' totals'' plain middle after first _ ih =>
    intro entry member
    rw [undoRecords, zip_cons_cons, mem_cons, ← first.effect] at member
    rcases member with rfl | member
    · refine ⟨undoFits_of_connected first restorable (dated tx mem_cons_self)
        (erasable tx mem_cons_self), ?_⟩
      intro undo inRecord
      obtain ⟨input, _, found⟩ := mem_undoRecord first.applies inRecord
      exact restorable.storable _ undo found
    · refine ih ?_ ?_ ?_ ?_ entry member
      · exact first.effect ▸ restorable.connected (valid tx mem_cons_self)
      · exact (forall_mem_cons.mp valid).2
      · rw [first.effect]
        exact fun other member => (dated other (mem_cons_of_mem _ member)).connected notGenesis
      · exact (forall_mem_cons.mp erasable).2

end

def blockUndoWrites (block : CBlock) (blockundo : CBlockUndo) : List CoinWrite :=
  undoWrites (block.vtx.zip ({} :: blockundo.vtxundo)).reverse

theorem popped_pushed {plain mixed : PlainView} (anchors : mixed.anchors = (plain.pushed tree).anchors)
    (bestAnchor : mixed.bestAnchor = root tree)
    (unmet : root tree ≠ plain.bestAnchor → plain.anchors (root tree) = none) :
    (mixed.popped plain.bestAnchor).anchors = plain.anchors ∧
      (mixed.popped plain.bestAnchor).bestAnchor = plain.bestAnchor := by
  unfold popped
  by_cases same : root tree = plain.bestAnchor
  · rw [pushed, if_pos same.symm] at anchors
    rw [if_pos (bestAnchor.trans same)]
    exact ⟨anchors, bestAnchor.trans same⟩
  · rw [pushed, if_neg (Ne.symm same)] at anchors
    rw [if_neg (by rwa [bestAnchor])]
    refine ⟨?_, rfl⟩
    rw [anchors, bestAnchor, Function.update_idem, ← unmet same, Function.update_eq_self]

/-- What is known of a block on a chain, beside that it was connected. -/
structure OnChain (env now : Env) (block : CBlock) (pindex pprev : CBlockIndex)
    (plain after : PlainView) : Prop where
  rules : SameRules env now
  restorable : Restorable plain
  dated : ∀ tx ∈ block.vtx, Dated plain tx
  erasable : ∀ tx ∈ block.vtx, Erasable now.zerocoin tx
  notGenesis : pindex.nHeight ≠ 0
  anchored : plain.bestAnchor = anchorOf env.params pprev
  notNull : plain.bestAnchor ≠ 0
  unmet : after.bestAnchor ≠ plain.bestAnchor → plain.anchors after.bestAnchor = none

theorem BlockConnected.coins_undone
    (connected : BlockConnected Known env block pindex pprev plain blockundo after)
    (restorable : Restorable plain) :
    applyWrites after.coins (blockUndoWrites block blockundo) = plain.coins := by
  obtain ⟨saplingTree, totals, middle, body⟩ := connected.body
  have back := congrArg coins (body.loop.undone restorable connected.valid)
  rw [undoTxs_coins] at back
  rw [blockUndoWrites, connected.records, body.coins]
  exact back

theorem disconnectBlock_unclean
    (connected : BlockConnected Known now block pindex pprev plain blockundo after)
    (onChain : OnChain env now block pindex pprev plain after) (same : SameSapling mixed after) :
    ∃ result final, run (step Known) (disconnectBlock env block pprev (some blockundo)) mixed =
        .ok (result, final) ∧ result ≠ .failed ∧
      final.coins = applyWrites mixed.coins (blockUndoWrites block blockundo) ∧
      SameSapling final plain := by
  obtain ⟨saplingTree, totals, middle, body⟩ := connected.body
  have records := connected.records
  have fits : ∀ entry ∈ (block.vtx.zip ({} :: blockundo.vtxundo)).reverse,
      UndoFits env entry.1 entry.2 := by
    intro entry member
    rw [mem_reverse, records] at member
    exact onChain.rules.undoFits (body.loop.undoFits onChain.restorable connected.valid onChain.dated
      onChain.notGenesis onChain.erasable entry member).1
  obtain ⟨result, ran, notFailed⟩ := disconnectTxs_run Known fits mixed
  generalize undoneIs : undoTxs (block.vtx.zip ({} :: blockundo.vtxundo)).reverse mixed = undone
    at ran
  have framed : undone = overlay mixed undone := undoneIs ▸ undoTxs_frame _ mixed
  have nullifiers : undone.nullifiers = plain.nullifiers := by
    rw [← undoneIs, undoTxs_nullifiers _ (same.nullifiers.trans body.nullifiers), records,
      body.loop.undone onChain.restorable connected.valid]
  have undoneAnchors : undone.anchors = mixed.anchors := by
    rw [framed]
    rfl
  have undoneBest : undone.bestAnchor = mixed.bestAnchor := by
    rw [framed]
    rfl
  have isRoot : mixed.bestAnchor = root totals.saplingTree := same.bestAnchor.trans body.bestAnchor
  have stored : mixed.bestAnchor = plain.bestAnchor ∨
      (mixed.anchors mixed.bestAnchor).isSome = true := by
    rw [same.anchors, same.bestAnchor]
    exact .inr body.stored_after
  obtain ⟨anchorsBack, bestBack⟩ :=
    popped_pushed (undoneAnchors.trans (same.anchors.trans body.anchors)) (undoneBest.trans isRoot)
    (body.bestAnchor ▸ onChain.unmet)
  have popped : run (step Known) (ViewProgram.popAnchor plain.bestAnchor) undone =
      .ok ((), undone.popped plain.bestAnchor) :=
    run_popAnchor undone onChain.notNull (by rwa [undoneAnchors, undoneBest])
  refine ⟨result, { undone.popped plain.bestAnchor with bestBlock := pprev.hash }, ?_,
    notFailed, ?_, ?_, anchorsBack, bestBack⟩
  · simp only [disconnectBlock, connected.sameLength, ne_eq, not_true_eq_false, if_false]
    rw [run_bind_ok ran, ← onChain.anchored]
    cases result with
    | failed => exact absurd rfl notFailed
    | ok => exact (run_bind_ok popped).trans (run_bind_ok (run_setBestBlock _ pprev.notNull))
    | unclean => exact (run_bind_ok popped).trans (run_bind_ok (run_setBestBlock _ pprev.notNull))
  · refine undone.popped_coins.trans ?_
    rw [← undoneIs, undoTxs_coins]
    rfl
  · exact undone.popped_nullifiers.trans nullifiers

end

end Deviant.Validation
