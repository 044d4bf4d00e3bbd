import Deviant.Index.BlockIndexes
import Deviant.Validation.UncleanUndo

namespace Deviant.Index

open Coins Consensus Data List Primitives Validation Program PlainView

/-! What connecting and disconnecting a block collect for the indexes, as functions of the plain
chain state, beside what they do to that state. -/

variable (batches : List IndexBatch)

namespace IndexBatch

variable (first second : IndexBatch)

@[simp] theorem append_addressIndex :
    (first ++ second).addressIndex = first.addressIndex ++ second.addressIndex := rfl

@[simp] theorem append_addressUnspentIndex :
    (first ++ second).addressUnspentIndex = first.addressUnspentIndex ++
      second.addressUnspentIndex := rfl

@[simp] theorem append_spentIndex :
    (first ++ second).spentIndex = first.spentIndex ++ second.spentIndex := rfl

@[simp] theorem append_empty (batch : IndexBatch) : batch ++ ({} : IndexBatch) = batch := by
  obtain ⟨activity, unspent, spent⟩ := batch
  change IndexBatch.mk (activity ++ []) (unspent ++ []) (spent ++ []) = _
  simp

@[simp] theorem concat_cons : concat (batch :: batches) = batch ++ concat batches := rfl

theorem concat_addressIndex : (concat batches).addressIndex = batches.flatMap addressIndex := by
  induction batches with
  | nil => rfl
  | cons batch batches ih => simp [ih]

theorem concat_addressUnspentIndex :
    (concat batches).addressUnspentIndex = batches.flatMap addressUnspentIndex := by
  induction batches with
  | nil => rfl
  | cons batch batches ih => simp [ih]

theorem concat_spentIndex : (concat batches).spentIndex = batches.flatMap spentIndex := by
  induction batches with
  | nil => rfl
  | cons batch batches ih => simp [ih]

end IndexBatch

variable (coins : COutPoint → Option Coin)

def coinOr (outpoint : COutPoint) : Coin := (coins outpoint).getD Coin.empty

section

variable (nHeight i : Nat)

def inputsBatch (txhash : Uint256) (j : Nat) (inputs : List CTxIn) : IndexBatch :=
  .concat ((inputs.zipIdx j).map fun (input, j) =>
    spendBatch nHeight i txhash j input.prevout (coinOr coins input.prevout).out)

def spendsBatch (tx : CTransaction) : IndexBatch :=
  if hasNoCoinInputs tx then {} else inputsBatch coins nHeight i tx.hash 0 tx.vin

def txBatch (tx : CTransaction) : IndexBatch :=
  spendsBatch coins nHeight i tx ++ receivesBatch nHeight i tx

def txsBatch (env : Env) (nHeight : Nat) : Nat → List CTransaction → PlainView → IndexBatch
  | _, [], _ => {}
  | i, tx :: rest, plain =>
    txBatch plain.coins nHeight i tx ++ txsBatch env nHeight (i + 1) rest (connected env nHeight tx plain)

def unspendsBatch (txhash : Uint256) (undone : List ((CTxIn × Coin) × Nat)) : IndexBatch :=
  .concat (undone.map fun ((input, undo), j) => unspendBatch nHeight i txhash j input.prevout undo)

def undoTxBatch (tx : CTransaction) (txundo : CTxUndo) : IndexBatch :=
  unreceivesBatch nHeight i tx ++
    if hasNoCoinInputs tx then {}
    else unspendsBatch nHeight i tx.hash (tx.vin.zip txundo.vprevout).zipIdx.reverse

end

def undoTxsBatch (nHeight : Nat) (undone : List ((CTransaction × CTxUndo) × Nat)) : IndexBatch :=
  .concat (undone.map fun ((tx, txundo), i) => undoTxBatch nHeight i tx txundo)

section

variable [PedersenHash] {Known : SaplingMerkleTree → Prop} [DecidablePred Known]
  {env : Env} {block : CBlock} {pindex pprev : CBlockIndex} {plain after : PlainView}
  {totals : BlockTotals} {fZerocoinActive fSaplingActive : Bool} {indexes : Indexes}
  {blockundo : CBlockUndo}

variable (Known) in
theorem recordInputs_run (j : Nat) : run (step Known) (recordInputs nHeight i txhash j inputs) plain =
      .ok (inputsBatch plain.coins nHeight i txhash j inputs, plain) := by
  induction inputs generalizing j with
  | nil => rfl
  | cons input rest ih =>
    rw [recordInputs, run_bind_ok (run_accessCoin plain), run_bind_ok (ih (j + 1))]
    rfl

variable (Known) in
theorem recordSpends_run :
    run (step Known) (recordSpends nHeight i tx) plain =
      .ok (spendsBatch plain.coins nHeight i tx, plain) := by
  unfold recordSpends spendsBatch
  split
  · rfl
  · exact recordInputs_run Known 0

theorem connectTxIndexed_wp
    (checked : TransactionChecked env.params fZerocoinActive fSaplingActive tx)
    (absent : ∀ n, plain.coins ⟨tx.hash, n⟩ = none) :
    Wp (step Known) (connectTxIndexed env block pindex pprev i tx totals) plain
      (fun result after => TxConnected Known env block pindex pprev (i == 0)
        tx totals plain result.1 after ∧
        result.2 = txBatch plain.coins pindex.nHeight i tx) (· ≠ Failure.unspecified) := by
  refine Wp.after_run (recordSpends_run Known) ?_
  refine (connectTx_wp checked absent).bind fun totals' after _ connected => ?_
  exact Wp.pure ⟨connected, rfl⟩

theorem connectTxsIndexed_wp
    (checked : ∀ tx ∈ txs, TransactionChecked env.params fZerocoinActive fSaplingActive tx)
    (unique : (txs.map CTransaction.hash).Nodup)
    (absent : ∀ tx ∈ txs, ∀ n, plain.coins ⟨tx.hash, n⟩ = none) :
    Wp (step Known) (connectTxsIndexed env block pindex pprev i txs totals) plain
      (fun result after => TxsConnected Known env block pindex pprev (i == 0)
        txs totals plain result.1 after ∧
        result.2 = txsBatch env pindex.nHeight i txs plain) (· ≠ Failure.unspecified) := by
  induction txs generalizing i totals plain with
  | nil => exact Wp.pure ⟨.nil, rfl⟩
  | cons tx rest ih =>
    refine (connectTxIndexed_wp (checked tx mem_cons_self) (absent tx mem_cons_self)).bind
      fun (totals', batch) middle _ first => ?_
    obtain ⟨first, isBatch⟩ := first
    have restAbsent := first.effect ▸ absent_after env pindex.nHeight unique absent
    refine (ih (forall_mem_cons.mp checked).2 unique.of_cons restAbsent).bind
      fun (totals'', later) after _ rest => ?_
    obtain ⟨rest, isLater⟩ := rest
    refine Wp.pure ⟨.cons first rest, ?_⟩
    rw [txsBatch, ← first.effect]
    exact congrArg₂ (· ++ ·) isBatch isLater

variable (known : ∀ tree, Known tree) (rooted : ∀ tree, SaplingMerkleTree.root tree ≠ 0)

include known rooted

theorem connectBlockIndexed_wp (notGenesis : block.hash ≠ env.params.hashGenesisBlock)
    (unique : (block.vtx.map CTransaction.hash).Nodup)
    (absent : ∀ tx ∈ block.vtx, ∀ n, plain.coins ⟨tx.hash, n⟩ = none) :
    Wp (step Known) (connectBlockIndexed env block pindex pprev indexes) plain
      (fun result after => BlockConnected Known env block pindex pprev plain result.1 after ∧
        result.2 = indexes.connect (txsBatch env pindex.nHeight 0 block.vtx plain))
      (· ≠ Failure.unspecified) := by
  refine lift_wp fun _ passed => ?_
  have checked := checkBlock_ok passed
  refine Wp.after_run (run_getBestBlock plain) ?_
  split
  · exact Wp.fail (by simp)
  next parent =>
  refine lift_wp fun _ kind => ?_
  refine Wp.after_run (run_getBestAnchor plain) (Wp.after_run (run_getSaplingAnchorAt plain) ?_)
  cases stored : plain.anchors plain.bestAnchor with
  | none => exact Wp.fail (by simp)
  | some saplingTree =>
    refine (connectTxsIndexed_wp checked.transactions unique absent).bind
      fun result middle _ loop => ?_
    obtain ⟨totals, batch⟩ := result
    obtain ⟨loop, isBatch⟩ := loop
    refine Wp.after_run (run_pushAnchor middle (known _) (rooted _)) ?_
    refine lift_wp fun _ passed => ?_
    refine Wp.of_ok (run_bind_ok (run_bind_ok (run_setBestBlock _ pindex.notNull))) ?_
    exact ⟨⟨checked, not_not.mp parent, kind, saplingTree, totals, middle,
      stored, loop, passed, rfl, rfl⟩, congrArg indexes.connect isBatch⟩

end

section

variable [PedersenHash] {Known : SaplingMerkleTree → Prop} [DecidablePred Known]
  {env : Env} {block : CBlock} {pindex pprev : CBlockIndex} {plain after : PlainView}
  {indexes : Indexes} {blockundo : CBlockUndo}

/-- Undo coins that `AddCoin` stores. -/
def Stored (undone : List Coin) : Prop := ∀ undo ∈ undone, undo.isIgnored = false

variable (Known) in
theorem restoreInputsIndexed_run (plain : PlainView)
    (usable : Usable (undone.map fun entry => entry.1.2))
    (stored : Stored (undone.map fun entry => entry.1.2)) :
    ∃ result, run (step Known) (restoreInputsIndexed nHeight i txhash undone) plain =
        .ok ((result, unspendsBatch nHeight i txhash undone),
          plain.writeCoins (restoreWrites (undone.map Prod.fst))) ∧ result ≠ .failed := by
  induction undone generalizing plain with
  | nil => exact ⟨.ok, rfl, by simp⟩
  | cons entry earlier ih =>
    obtain ⟨⟨input, undo⟩, j⟩ := entry
    obtain ⟨unspent, dated⟩ := usable undo mem_cons_self
    have kept : undo.isIgnored = false := stored undo mem_cons_self
    have first := applyTxInUndo_run Known input.prevout plain unspent dated input rfl
    obtain ⟨result, ran, notFailed⟩ := ih (plain.writeCoins (restoreWrites [(input, undo)]))
      (forall_mem_cons.mp usable).2 (forall_mem_cons.mp stored).2
    have there :
        ((plain.writeCoins (restoreWrites [(input, undo)])).coins input.prevout).getD Coin.empty =
        undo := by
      simp [writeCoins, restoreWrites, kept, applyWrites, restoredAt]
    have read : run (step Known) (ViewProgram.accessCoin input.prevout)
        (plain.writeCoins (restoreWrites [(input, undo)])) =
        .ok (undo, plain.writeCoins (restoreWrites [(input, undo)])) := by
      rw [run_accessCoin, there]
    rw [writeCoins_restore_cons] at ran
    refine ⟨combine (plain.coins input.prevout).isNone result, ?_, combine_ne_failed notFailed⟩
    rw [restoreInputsIndexed, run_bind_ok first]
    cases plain.coins input.prevout with
    | none => exact (run_bind_ok read).trans (run_bind_ok ran)
    | some coin => exact (run_bind_ok read).trans (run_bind_ok ran)

variable (Known) in
theorem disconnectTxIndexed_run (nHeight i : Nat) (fits : UndoFits env tx txundo)
    (stored : Stored txundo.vprevout) (plain : PlainView) :
    ∃ result, run (step Known) (disconnectTxIndexed env nHeight i tx txundo) plain =
        .ok ((result, undoTxBatch nHeight i tx txundo), disconnected tx txundo plain) ∧
        result ≠ .failed := by
  obtain ⟨fClean, spent, -⟩ := spendOutputsFrom_run Known tx.hash 0 plain
  rw [disconnectTxIndexed, run_bind_ok (fits.erased_run Known plain)]
  simp only [Bool.not_true, Bool.false_eq_true, if_false]
  rw [run_bind_ok spent]
  cases kind : hasNoCoinInputs tx with
  | true =>
    refine ⟨combine fClean .ok, ?_, combine_ne_failed (by simp)⟩
    simp only [disconnected, disconnectWrites, undoTxBatch, kind, if_true, append_nil,
      IndexBatch.append_empty, run_pure]
    rfl
  | false =>
    have sameLength := fits.length kind
    have undone : (tx.vin.zip txundo.vprevout).zipIdx.reverse.map (fun entry => entry.1.2) =
        txundo.vprevout.reverse := by
      have seconds :
          ((tx.vin.zip txundo.vprevout).zipIdx.map Prod.fst).map Prod.snd = txundo.vprevout := by
        rw [zipIdx_map_fst, map_snd_zip sameLength.le]
      rw [map_map] at seconds
      rw [map_reverse]
      exact congrArg List.reverse seconds
    obtain ⟨result, restored, notFailed⟩ :=
      restoreInputsIndexed_run Known
        { plain.writeCoins (spentOutputWrites tx.hash 0 tx.vout) with
          nullifiers := markNullifiers plain.nullifiers tx false }
        (undone ▸ fun undo member => fits.usable undo (mem_reverse.mp member))
        (undone ▸ fun undo member => stored undo (mem_reverse.mp member))
    refine ⟨combine fClean result, ?_, combine_ne_failed notFailed⟩
    simp only [sameLength, ne_eq, not_true_eq_false, if_false]
    refine (run_bind_ok restored).trans ?_
    simp only [run_pure, disconnected, disconnectWrites, undoTxBatch, kind, Bool.false_eq_true,
      if_false, writeCoins_append, map_reverse, zipIdx_map_fst]
    rfl

variable (Known) in
theorem disconnectTxsIndexed_run (nHeight : Nat)
    (fits : ∀ entry ∈ undone, UndoFits env entry.1.1 entry.1.2)
    (stored : ∀ entry ∈ undone, Stored entry.1.2.vprevout) (plain : PlainView) :
    ∃ result, run (step Known) (disconnectTxsIndexed env nHeight undone) plain =
        .ok ((result, undoTxsBatch nHeight undone), undoTxs (undone.map Prod.fst) plain) ∧
        result ≠ .failed := by
  induction undone generalizing plain with
  | nil => exact ⟨.ok, rfl, by simp⟩
  | cons entry earlier ih =>
    obtain ⟨⟨tx, txundo⟩, i⟩ := entry
    obtain ⟨first, ran, notFailed⟩ := disconnectTxIndexed_run Known nHeight i (fits _ mem_cons_self)
      (stored _ mem_cons_self) plain
    obtain ⟨rest, restRan, restNotFailed⟩ := ih (forall_mem_cons.mp fits).2
      (forall_mem_cons.mp stored).2 (disconnected tx txundo plain)
    refine ⟨combine (decide (first = .ok)) rest, ?_, combine_ne_failed restNotFailed⟩
    rw [disconnectTxsIndexed, run_bind_ok ran]
    cases first with
    | failed => exact absurd rfl notFailed
    | ok => exact run_bind_ok restRan
    | unclean => exact run_bind_ok restRan

def undoBlockBatch (env : Env) (nHeight : Nat) (txs : List CTransaction) (plain : PlainView) :
    IndexBatch :=
  undoTxsBatch nHeight (txs.zip (undoRecords env nHeight txs plain)).zipIdx.reverse

theorem disconnectBlockIndexed_run
    (connected : BlockConnected Known env block pindex pprev plain blockundo after)
    (restorable : Restorable plain) (dated : ∀ tx ∈ block.vtx, Dated plain tx)
    (notGenesis : pindex.nHeight ≠ 0) (erasable : ∀ tx ∈ block.vtx, Erasable env.zerocoin tx)
    (anchored : plain.bestAnchor = anchorOf env.params pprev) (notNull : plain.bestAnchor ≠ 0) :
    ∃ result final,
      run (step Known) (disconnectBlockIndexed env block pindex pprev (some blockundo) indexes)
          after =
        .ok ((result, indexes.disconnect (undoBlockBatch env pindex.nHeight block.vtx plain)),
          final) ∧
      result ≠ .failed := by
  obtain ⟨saplingTree, totals, middle, body⟩ := connected.body
  have fits : ∀ entry ∈ (block.vtx.zip (undoRecords env pindex.nHeight block.vtx plain)).zipIdx.reverse,
      UndoFits env entry.1.1 entry.1.2 ∧ Stored entry.1.2.vprevout := fun entry member =>
    body.loop.undoFits restorable connected.valid dated notGenesis erasable _
      (fst_mem_of_mem_zipIdx (mem_reverse.mp member))
  obtain ⟨result, ran, notFailed⟩ := disconnectTxsIndexed_run Known pindex.nHeight
    (fun entry member => (fits entry member).1) (fun entry member => (fits entry member).2) after
  generalize undoneIs : undoTxs _ after = undone at ran
  have framed : undone = overlay after undone := undoneIs ▸ undoTxs_frame _ after
  have popped : run (step Known) (ViewProgram.popAnchor (anchorOf env.params pprev)) undone =
      .ok ((), undone.popped (anchorOf env.params pprev)) := by
    refine run_popAnchor undone (anchored ▸ notNull) ?_
    rw [framed]
    exact .inr body.stored_after
  refine ⟨result, { undone.popped (anchorOf env.params pprev) with bestBlock := pprev.hash },
    ?_, notFailed⟩
  simp only [disconnectBlockIndexed, connected.sameLength, ne_eq, not_true_eq_false, if_false]
  rw [connected.records, run_bind_ok ran]
  cases result with
  | failed => exact absurd rfl notFailed
  | ok => exact (run_bind_ok popped).trans (run_bind_ok (run_setBestBlock _ pprev.notNull))
  | unclean => exact (run_bind_ok popped).trans (run_bind_ok (run_setBestBlock _ pprev.notNull))

end

end Deviant.Index
