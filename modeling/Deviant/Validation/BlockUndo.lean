import Deviant.TxDB.CoinsViewDB
import Deviant.Validation.ConnectSpec

namespace Deviant.Validation

open Coins Consensus Data List Primitives Program PlainView SaplingMerkleTree CCoinsViewCache

/-! Disconnecting a block takes back what connecting it did. -/

/-- An input that spends no zerocoin to `ConnectBlock`, as its previous output is not null, but does
so to `DisconnectZerocoinTx`, which asks the script alone. -/
abbrev Misread (input : CTxIn) : Prop :=
  (input.isZerocoinSpend || input.isZerocoinPublicSpend) = false ∧
    CScript.isZerocoinSpend input.scriptSig = true

/-- The inputs of a zerocoin spend that are misread can be parsed as spends. -/
abbrev Erasable (zerocoin : Zerocoin) (tx : CTransaction) : Prop :=
  tx.hasZerocoinSpendInputs = true → ∀ input ∈ tx.vin, Misread input →
    (zerocoin.txInToZerocoinSpend input).isSome = true

/-- A zerocoin spend has no other inputs.  `CheckTransaction` asks this of a block after
`ZC_TimeStart`. -/
abbrev OnlyZerocoins (tx : CTransaction) : Prop :=
  tx.hasZerocoinSpendInputs = true → ∀ input ∈ tx.vin,
    (input.isZerocoinSpend || input.isZerocoinPublicSpend) = true

theorem OnlyZerocoins.erasable (only : OnlyZerocoins tx) : Erasable zerocoin tx :=
  fun kind input member misread =>
    absurd (only kind input member) (by rw [misread.1]; exact Bool.false_ne_true)

theorem disconnectZerocoinInputs_ok
    (connected : connectZerocoinInputs env block pindex tx inputs nValueIn = .ok nValueIn')
    (parses : ∀ input ∈ inputs, Misread input → (env.zerocoin.txInToZerocoinSpend input).isSome = true) :
    disconnectZerocoinInputs env.zerocoin tx inputs = .ok true := by
  induction inputs generalizing nValueIn with
  | nil => rfl
  | cons input rest ih =>
    obtain ⟨here, restParses⟩ := forall_mem_cons.mp parses
    rw [connectZerocoinInputs, ← Bool.not_or] at connected
    cases isSpend : input.isZerocoinSpend || input.isZerocoinPublicSpend with
    | false =>
      rw [isSpend, Bool.not_false, if_pos rfl] at connected
      have later := ih connected restParses
      have notPublic := (Bool.or_eq_false_iff.mp isSpend).2
      cases byScript : CScript.isZerocoinSpend input.scriptSig with
      | false => simp [disconnectZerocoinInputs, notPublic, byScript, later]
      | true =>
        obtain ⟨denomination, parsed⟩ := Option.isSome_iff_exists.mp (here ⟨isSpend, byScript⟩)
        simp [disconnectZerocoinInputs, notPublic, byScript, parsed, later]
    | true =>
      simp only [isSpend, Bool.not_true, Bool.false_eq_true, if_false, require_bind_eq_ok] at connected
      obtain ⟨denomination, parsed, connected⟩ := bind_eq_ok.mp connected.2
      rw [require_bind_eq_ok] at connected
      have later := ih connected.2 restParses
      cases isPublic : input.isZerocoinPublicSpend with
      | true =>
        cases publicSpend : env.zerocoin.parseZerocoinPublicSpend input tx with
        | none => simp [parseZerocoinSpend, isPublic, publicSpend] at parsed
        | some denomination => simp [disconnectZerocoinInputs, isPublic, publicSpend, later]
      | false =>
        cases spend : env.zerocoin.txInToZerocoinSpend input with
        | none => simp [parseZerocoinSpend, isPublic, spend] at parsed
        | some denomination => simp [disconnectZerocoinInputs, isPublic, spend, later]

theorem parses_of_disconnected (erased : disconnectZerocoinInputs zerocoin tx inputs = .ok true) :
    ∀ input ∈ inputs, Misread input → (zerocoin.txInToZerocoinSpend input).isSome = true := by
  induction inputs with
  | nil => exact fun input member => absurd member not_mem_nil
  | cons first rest ih =>
    rw [disconnectZerocoinInputs] at erased
    intro input member misread
    rcases mem_cons.mp member with rfl | later
    · rw [if_neg (by rw [(Bool.or_eq_false_iff.mp misread.1).2]; exact Bool.false_ne_true),
        if_pos misread.2] at erased
      split at erased
      · cases erased
      next parsed => rw [parsed, Option.isSome_some]
    · refine ih ?_ input later misread
      grind

theorem connectZerocoinSpends_inputs
    (spent : connectZerocoinSpends env block pindex tx nValueIn = .ok nValueIn')
    (kind : tx.hasZerocoinSpendInputs = true) :
    ∃ nValueIn, connectZerocoinInputs env block pindex tx tx.vin nValueIn = .ok nValueIn' := by
  simp only [connectZerocoinSpends, kind, Bool.not_true, Bool.false_eq_true, if_false] at spent
  cases inChain : env.zerocoin.isTransactionInChain tx.hash with
  | none =>
    rw [inChain] at spent
    exact ⟨_, spent⟩
  | some nHeightTx =>
    simp only [inChain, require_bind_eq_ok] at spent
    exact ⟨_, spent.2⟩

theorem disconnectZerocoinTx_ok (minted : connectMints env pindex tx = .ok ())
    (spent : connectZerocoinSpends env block pindex tx nValueIn = .ok nValueIn')
    (erasable : Erasable env.zerocoin tx) : disconnectZerocoinTx env.zerocoin tx = .ok true := by
  simp only [connectMints, require_bind_eq_ok, require_eq_ok] at minted
  cases kind : tx.hasZerocoinSpendInputs with
  | false =>
    simp only [disconnectZerocoinTx, kind, Bool.false_eq_true, if_false]
    exact congrArg Except.ok minted.2
  | true =>
    obtain ⟨_, connected⟩ := connectZerocoinSpends_inputs spent kind
    have erased := disconnectZerocoinInputs_ok connected (erasable kind)
    simp only [disconnectZerocoinTx, kind, if_true, erased]
    exact congrArg Except.ok minted.2

theorem erasable_of_disconnected (erased : disconnectZerocoinTx zerocoin tx = .ok true) :
    Erasable zerocoin tx := by
  intro kind
  rw [disconnectZerocoinTx, if_pos kind] at erased
  obtain ⟨spendsErased, inputs, both⟩ := bind_eq_ok.mp erased
  cases spendsErased with
  | false => cases both
  | true => exact parses_of_disconnected inputs

section

variable {σ : Type} {step : (op : ViewOp) → σ → Except Failure (ViewOp.Answer op × σ)} {env : Env}
    {state final : σ}

theorem erasable_of_disconnectTx (ran : run step (disconnectTx env tx txundo) state = .ok (.ok, final)) :
    Erasable env.zerocoin tx := by
  unfold disconnectTx at ran
  obtain ⟨erased, middle, lifted, rest⟩ := run_bind_eq_ok ran
  apply erasable_of_disconnected
  cases result : disconnectZerocoinTx env.zerocoin tx with
  | error reason =>
    rw [result] at lifted
    cases lifted
  | ok value =>
    rw [result] at lifted
    cases lifted
    cases erased with
    | false => cases rest
    | true => rfl

/-- Whatever the view is, transactions are only undone cleanly if their zerocoin spends could be
read. -/
theorem erasable_of_disconnectTxs {undone : List (CTransaction × CTxUndo)}
    (ran : run step (disconnectTxs env undone) state = .ok (.ok, final)) :
    ∀ entry ∈ undone, Erasable env.zerocoin entry.1 := by
  induction undone generalizing state final with
  | nil => exact fun entry member => absurd member not_mem_nil
  | cons entry earlier ih =>
    obtain ⟨result, middle, first, rest⟩ := run_bind_eq_ok ran
    cases result with
    | failed => cases rest
    | unclean =>
      obtain ⟨later, _, -, same⟩ := run_bind_eq_ok rest
      cases later <;> cases same
    | ok =>
      obtain ⟨later, _, ranLater, same⟩ := run_bind_eq_ok rest
      have clean : later = .ok := by cases later <;> cases same; rfl
      subst clean
      exact forall_mem_cons.mpr ⟨erasable_of_disconnectTx first, ih ranLater⟩

end

def undoRecords (env : Env) (nHeight : Nat) : List CTransaction → PlainView → List CTxUndo
  | [], _ => []
  | tx :: rest, plain =>
    undoRecord tx plain :: undoRecords env nHeight rest (connected env nHeight tx plain)

theorem undoRecords_length : (undoRecords env nHeight txs plain).length = txs.length := by
  induction txs generalizing plain with
  | nil => rfl
  | cons tx rest ih => rw [undoRecords, length_cons, length_cons, ih]

theorem undoRecords_coinbase (checked : BlockChecked env block) :
    undoRecords env nHeight block.vtx plain = {} :: (undoRecords env nHeight block.vtx plain).tail := by
  have form := checked.form
  simp only [checkBlockForm, require_bind_eq_ok] at form
  cases vtx : block.vtx with
  | nil => simp [vtx] at form
  | cons coinbase rest =>
    rw [vtx] at form
    have isCoinBase : coinbase.isCoinBase = true := by simpa using form.1
    simp [undoRecords, undoRecord, hasNoCoinInputs, isCoinBase]

def overlay (rest plain : PlainView) : PlainView :=
  { rest with coins := plain.coins, nullifiers := plain.nullifiers }

section

variable [PedersenHash] {Known : SaplingMerkleTree → Prop} [DecidablePred Known]
  {env : Env} {block : CBlock} {pindex pprev : CBlockIndex} {isFirst : Bool}
  {totals totals' : BlockTotals} {plain after : PlainView} {blockundo : CBlockUndo}

theorem TxsConnected.undo
    (loop : TxsConnected Known env block pindex pprev isFirst txs totals plain totals' after) :
    totals'.vtxundo = totals.vtxundo ++ if isFirst
      then (undoRecords env pindex.nHeight txs plain).tail
      else undoRecords env pindex.nHeight txs plain := by
  induction loop with
  | nil => simp [undoRecords]
  | cons first later ih =>
    rw [ih, first.undo, first.effect]
    split
    · rfl
    · rw [append_assoc]
      rfl

/-- What disconnecting needs to know about a transaction of the block. -/
structure Undoable (env : Env) (plain : PlainView) (tx : CTransaction) : Prop where
  valid : ∀ out ∈ tx.vout, out.isNull = false
  dated : Dated plain tx
  allowed : ∀ n, n < tx.vout.length → ⟨tx.hash, n⟩ ∉ env.invalidOutPoints
  erasable : Erasable env.zerocoin tx

theorem undoFits_of_connected
    (connected : TxConnected Known env block pindex pprev isFirst tx totals plain totals' after)
    (restorable : Restorable plain) (dated : Dated plain tx) (erasable : Erasable env.zerocoin tx) :
    UndoFits env tx (undoRecord tx plain) := by
  obtain ⟨nValueIn, spent, -⟩ := connected.valueIn
  refine ⟨disconnectZerocoinTx_ok connected.minted spent erasable,
    undoRecord_usable connected.applies restorable dated, fun kind => ?_⟩
  simp [undoRecord, kind, coinsSpent]

section

variable (loop : TxsConnected Known env block pindex pprev isFirst txs totals plain totals' after)

include loop

theorem disconnectTxs_undoes (restorable : Restorable plain)
    (undoable : ∀ tx ∈ txs, Undoable env plain tx) (notGenesis : pindex.nHeight ≠ 0)
    (earlier : List (CTransaction × CTxUndo)) (rest : PlainView) : run (step Known)
        (disconnectTxs env ((txs.zip (undoRecords env pindex.nHeight txs plain)).reverse ++
          earlier))
        (overlay rest after) = run (step Known) (disconnectTxs env earlier)
        (overlay rest plain) := by
  induction loop generalizing earlier with
  | nil => rfl
  | @cons isFirst tx later totals totals' totals'' plain middle after first _ ih =>
    have here := undoable tx mem_cons_self
    have laterUndoable : ∀ other ∈ later, Undoable env middle other := by
      intro other member
      have before := undoable other (mem_cons_of_mem _ member)
      rw [first.effect]
      exact ⟨before.valid, before.dated.connected notGenesis, before.allowed, before.erasable⟩
    have laterRestorable : Restorable middle := first.effect ▸ restorable.connected here.valid
    obtain ⟨result, ran, -, clean⟩ := disconnectTx_run Known
      (undoFits_of_connected first restorable here.dated here.erasable) (overlay rest middle)
    have isClean : result = .ok := by
      apply clean
      rw [first.effect]
      exact connected_justConnected first.applies here.allowed
    have undone :
        disconnected tx (undoRecord tx plain) (overlay rest middle) = overlay rest plain := by
      have inverse :
          disconnected tx (undoRecord tx plain) (connected env pindex.nHeight tx plain) = plain :=
        disconnected_connected first.applies restorable.storable
      rw [← first.effect] at inverse
      exact congrArg (overlay rest) inverse
    rw [isClean, undone] at ran
    have step := ih laterRestorable laterUndoable ((tx, undoRecord tx plain) :: earlier)
    rw [undoRecords, zip_cons_cons, reverse_cons, append_assoc, ← first.effect]
    refine step.trans ?_
    rw [disconnectTxs, run_bind_ok ran]
    exact run_bind_pure combine_true

theorem TxsConnected.frame : after = overlay plain after := by
  induction loop with
  | nil => rfl
  | cons first later ih =>
    rw [ih, first.effect]
    rfl

end

section Body

variable {saplingTree : SaplingMerkleTree} {middle : PlainView}
  (body : BlockBody Known env block pindex pprev plain saplingTree totals middle blockundo after)

include body

theorem BlockBody.coins : after.coins = middle.coins := by
  rw [body.effect]
  exact middle.pushed_coins _

theorem BlockBody.nullifiers : after.nullifiers = middle.nullifiers := by
  rw [body.effect]
  exact middle.pushed_nullifiers _

theorem BlockBody.bestAnchor : after.bestAnchor = root totals.saplingTree := by
  rw [body.effect]
  exact middle.pushed_bestAnchor _

theorem BlockBody.anchors : after.anchors = (plain.pushed totals.saplingTree).anchors := by
  have middleAnchors : middle.anchors = plain.anchors := by
    rw [body.loop.frame]
    rfl
  have middleBest : middle.bestAnchor = plain.bestAnchor := by
    rw [body.loop.frame]
    rfl
  rw [body.effect, plain.pushed_anchors, ← middleAnchors, ← middleBest]
  exact middle.pushed_anchors totals.saplingTree

theorem BlockBody.stored_after : (after.anchors after.bestAnchor).isSome = true := by
  rw [body.anchors, body.bestAnchor, plain.pushed_anchors]
  split
  next same =>
    rw [← same, body.stored]
    rfl
  · simp

end Body

section

variable (connected : BlockConnected Known env block pindex pprev plain blockundo after)

include connected

theorem BlockConnected.records :
    ({} : CTxUndo) :: blockundo.vtxundo = undoRecords env pindex.nHeight block.vtx plain := by
  obtain ⟨saplingTree, totals, middle, body⟩ := connected.body
  rw [undoRecords_coinbase connected.checked, body.undo, body.loop.undo]
  rfl

theorem BlockConnected.sameLength : blockundo.vtxundo.length + 1 = block.vtx.length := by
  rw [← undoRecords_length, ← connected.records, length_cons]

theorem BlockConnected.valid : ∀ tx ∈ block.vtx, ∀ out ∈ tx.vout, out.isNull = false :=
  fun tx member => notNull_of_checked (connected.checked.transactions tx member)

end

theorem erasable_of_disconnectBlock {σ : Type}
    {step : (op : ViewOp) → σ → Except Failure (ViewOp.Answer op × σ)} {state final : σ}
    (sameLength : blockundo.vtxundo.length + 1 = block.vtx.length)
    (ran : run step (disconnectBlock env block pprev (some blockundo)) state = .ok (.ok, final)) :
    ∀ tx ∈ block.vtx, Erasable env.zerocoin tx := by
  simp only [disconnectBlock, sameLength, ne_eq, not_true_eq_false, if_false] at ran
  obtain ⟨result, middle, undone, rest⟩ := run_bind_eq_ok ran
  have clean : result = .ok := by
    cases result with
    | ok => rfl
    | failed => cases rest
    | unclean =>
      obtain ⟨_, _, -, rest⟩ := run_bind_eq_ok rest
      obtain ⟨_, _, -, rest⟩ := run_bind_eq_ok rest
      cases rest
  subst clean
  have firsts : (block.vtx.zip ({} :: blockundo.vtxundo)).map Prod.fst = block.vtx :=
    map_fst_zip (by rw [length_cons]; omega)
  intro tx member
  rw [← firsts] at member
  obtain ⟨entry, inZip, rfl⟩ := mem_map.mp member
  exact erasable_of_disconnectTxs undone entry (mem_reverse.mpr inZip)

theorem disconnectBlock_run
    (connected : BlockConnected Known env block pindex pprev plain blockundo after)
    (restorable : Restorable plain) (undoable : ∀ tx ∈ block.vtx, Undoable env plain tx)
    (notGenesis : pindex.nHeight ≠ 0) (anchored : plain.bestAnchor = anchorOf env.params pprev)
    (notNull : plain.bestAnchor ≠ 0) :
    ∃ final, run (step Known) (disconnectBlock env block pprev (some blockundo)) after =
        .ok (.ok, final) ∧ final.coins = plain.coins ∧ final.nullifiers = plain.nullifiers ∧
      final.bestAnchor = plain.bestAnchor ∧ final.bestBlock = plain.bestBlock := by
  obtain ⟨saplingTree, totals, middle, body⟩ := connected.body
  have framed : overlay after middle = after := by
    rw [body.effect]
    exact PlainView.ext (middle.pushed_coins _).symm (middle.pushed_nullifiers _).symm rfl rfl rfl
  have undone : run (step Known)
      (disconnectTxs env (block.vtx.zip ({} :: blockundo.vtxundo)).reverse) after =
        .ok (.ok, overlay after plain) := by
    rw [connected.records]
    have back := disconnectTxs_undoes body.loop restorable undoable notGenesis [] after
    rwa [append_nil, framed] at back
  have popped : run (step Known) (ViewProgram.popAnchor (anchorOf env.params pprev))
      (overlay after plain) = .ok ((), (overlay after plain).popped (anchorOf env.params pprev)) :=
    run_popAnchor (overlay after plain) (anchored ▸ notNull) (.inr body.stored_after)
  refine ⟨{ (overlay after plain).popped (anchorOf env.params pprev) with bestBlock := pprev.hash },
    ?_, ?_⟩
  · simp only [disconnectBlock, connected.sameLength, ne_eq, not_true_eq_false, if_false]
    rw [run_bind_ok undone]
    exact (run_bind_ok popped).trans (run_bind_ok (run_setBestBlock _ pprev.notNull))
  · unfold PlainView.popped
    split
    next same => exact ⟨rfl, rfl, same.trans anchored.symm, connected.parent.symm⟩
    · exact ⟨rfl, rfl, anchored.symm, connected.parent.symm⟩

section

variable (loop : TxsConnected Known env block pindex pprev isFirst txs totals plain totals' after)

include loop

theorem TxsConnected.tree :
    totals'.saplingTree = totals.saplingTree ++ txs.flatMap newCommitments := by
  induction loop with
  | nil => simp
  | cons first later ih => rw [ih, first.tree, flatMap_cons, append_assoc]

theorem TxsConnected.restorable (valid : ∀ tx ∈ txs, ∀ out ∈ tx.vout, out.isNull = false)
    (restorable : Restorable plain) : Restorable after := by
  induction loop with
  | nil => exact restorable
  | cons first later ih =>
    refine ih (forall_mem_cons.mp valid).2 ?_
    rw [first.effect]
    exact restorable.connected (valid _ mem_cons_self)

end

omit [PedersenHash] in
theorem newCommitments_eq_nil (checked : TransactionChecked env.params fZerocoinActive false tx) :
    newCommitments tx = [] := by
  have noData : tx.hasSaplingData = false := by
    by_contra data
    cases (checked.sapling (Bool.eq_true_of_not_eq_false data)).active
  simp [newCommitments, CTransaction.isShieldedTx, noData]

variable (connected : BlockConnected Known env block pindex pprev plain blockundo after)

include connected

theorem BlockConnected.restorable (restorable : Restorable plain) : Restorable after := by
  obtain ⟨saplingTree, totals, middle, body⟩ := connected.body
  have middleRestorable := body.loop.restorable connected.valid restorable
  refine ⟨fun outpoint coin found => ?_, fun outpoint coin found => ?_⟩
  · exact middleRestorable.storable outpoint coin (body.coins ▸ found)
  · exact middleRestorable.unspent outpoint coin (body.coins ▸ found)

theorem BlockConnected.anchored (child : pindex.nHeight = pprev.nHeight + 1)
    (header : pindex.hashFinalSaplingRoot = block.hashFinalSaplingRoot)
    (atTip : env.node.tip = some (pprev.hash, pprev.nHeight))
    (anchored : plain.bestAnchor = anchorOf env.params pprev)
    (rooted : ∀ tree, plain.anchors plain.bestAnchor = some tree → root tree = plain.bestAnchor) :
    after.bestAnchor = anchorOf env.params pindex := by
  obtain ⟨saplingTree, totals, middle, body⟩ := connected.body
  rw [body.bestAnchor]
  cases active : env.params.networkUpgradeActive pindex.nHeight .upgradeV5_0 with
  | true =>
    have passed := body.passed
    simp only [checkTotals, require_bind_eq_ok, active, Bool.not_true, Bool.false_or, beq_iff_eq]
      at passed
    simp [anchorOf, active, header, passed.1]
  | false =>
    have inactive : saplingActive env = false := by
      rw [saplingActive, nextHeight, atTip]
      rwa [child] at active
    have inactiveBefore : env.params.networkUpgradeActive pprev.nHeight .upgradeV5_0 = false := by
      unfold Params.networkUpgradeActive at active ⊢
      split
      · rfl
      next nActivationHeight scheduled =>
        simp only [scheduled, child, decide_eq_false_iff_not] at active ⊢
        omega
    have unchanged : totals.saplingTree = saplingTree := by
      rw [body.loop.tree]
      have none : block.vtx.flatMap newCommitments = [] := by
        rw [flatMap_eq_nil_iff]
        intro tx member
        exact newCommitments_eq_nil (inactive ▸ connected.checked.transactions tx member)
      rw [none, append_nil]
    rw [unchanged, rooted saplingTree body.stored, anchored]
    simp [anchorOf, active, inactiveBefore]

end

/-- The transactions of a block are new to the coins. -/
structure NewBlock (block : CBlock) (coins : COutPoint → Option Coin) : Prop where
  unique : (block.vtx.map CTransaction.hash).Nodup
  absent : ∀ tx ∈ block.vtx, ∀ n, coins ⟨tx.hash, n⟩ = none

/-- A new block that adds no banned output, and spends only coins that can be restored. -/
structure FreshBlock (env : Env) (block : CBlock) (coins : COutPoint → Option Coin) : Prop
    extends NewBlock block coins where
  allowed : ∀ tx ∈ block.vtx, ∀ n, n < tx.vout.length → ⟨tx.hash, n⟩ ∉ env.invalidOutPoints
  dated : ∀ tx ∈ block.vtx, ∀ input ∈ tx.vin, ∀ coin, coins input.prevout = some coin →
    coin.nHeight > 0

/-- A view of the chain up to a block, as the program keeps it: its caches are sound, it holds no
coin that `AddCoin` would drop, and its best anchor is the one of that block. -/
structure ViewAt {σ : Type} [BaseView σ] [PedersenHash] (params : Params) (pindex : CBlockIndex)
    (view : CCoinsView σ) : Prop where
  ok : view.Ok fun _ => True
  storable : ∀ outpoint coin, view.coinAt outpoint = some coin → coin.isIgnored = false
  anchored : view.bestAnchor = anchorOf params pindex

section

variable {σ : Type} [BaseView σ] [PedersenHash] {env : Env} {block : CBlock}
  {pindex pprev : CBlockIndex}
  {cache after : CCoinsViewCache σ} {blockundo : CBlockUndo}

theorem restorable_of_viewAt (viewAt : ViewAt params pindex cache.view) :
    Restorable cache.view.plain where
  storable := viewAt.storable
  unspent outpoint coin found := by
    obtain ⟨seen, -, visible⟩ := Option.bind_eq_some_iff.mp found
    exact Coin.not_isSpent_of_unspent? visible

theorem bestAnchor_ne_zero {view : CCoinsView σ} (ok : view.SaplingOk Known)
    (rooted : ∀ tree, root tree ≠ 0) (stored : view.anchorAt view.bestAnchor = some tree) :
    view.bestAnchor ≠ 0 := by
  rw [← (anchorAt_known ok stored).2]
  exact rooted tree

theorem connectBlock_plain (rooted : ∀ tree, root tree ≠ 0)
    (viewAt : ViewAt env.params pprev cache.view) (fresh : NewBlock block cache.view.coinAt)
    (notGenesis : block.hash ≠ env.params.hashGenesisBlock)
    (connected : run step (connectBlock env block pindex (some pprev) false) cache =
      .ok (blockundo, after)) :
    ∃ plainAfter,
      BlockConnected (fun _ => True) env block pindex pprev cache.view.plain blockundo plainAfter ∧
      StandsFor (fun _ => True) plainAfter after := by
  have stands : StandsFor (fun _ => True) cache.view.plain cache := ⟨viewAt.ok, rfl⟩
  have spec : Wp (step fun _ => True) (connectBlock env block pindex (some pprev) false)
      cache.view.plain (BlockConnected (fun _ => True) env block pindex pprev cache.view.plain)
      (· ≠ Failure.unspecified) :=
    connectBlock_wp (fun _ => trivial) rooted notGenesis fresh.unique fresh.absent
  rcases cache_refines_plain.of_run_ok stands connected with ⟨plainAfter, ran, related⟩ | ⟨reason,
    ran, unspecified⟩
  · exact ⟨plainAfter, spec.post ran, related⟩
  · exact absurd unspecified (spec.failed ran)

/-- Disconnecting a block right after connecting it, with the undo data connecting has produced, is
clean and gives back the coins, the nullifiers, the best anchor and the best block, just if it can
read every input that it takes for a zerocoin spend. -/
theorem disconnectBlock_undoes_connectBlock_iff (rooted : ∀ tree, root tree ≠ 0)
    (viewAt : ViewAt env.params pprev cache.view) (fresh : FreshBlock env block cache.view.coinAt)
    (notGenesis : block.hash ≠ env.params.hashGenesisBlock)
    (child : pindex.nHeight = pprev.nHeight + 1)
    (connected : run step (connectBlock env block pindex (some pprev) false) cache =
      .ok (blockundo, after)) :
    (∃ final, run step (disconnectBlock env block pprev (some blockundo)) after =
        .ok (.ok, final) ∧ final.view.coinAt = cache.view.coinAt ∧
        final.view.nullifierAt = cache.view.nullifierAt ∧
      final.view.bestAnchor = cache.view.bestAnchor ∧ final.view.bestBlock = pprev.hash) ↔
      ∀ tx ∈ block.vtx, Erasable env.zerocoin tx := by
  obtain ⟨plainAfter, blockConnected, stands⟩ :=
    connectBlock_plain rooted viewAt fresh.toNewBlock notGenesis connected
  refine ⟨fun ⟨_, ran, _⟩ => erasable_of_disconnectBlock blockConnected.sameLength ran,
    fun erasable => ?_⟩
  have undoable : ∀ tx ∈ block.vtx, Undoable env cache.view.plain tx := by
    intro tx member
    refine ⟨blockConnected.valid tx member, fun input inVin coin found => ?_,
      fresh.allowed tx member, erasable tx member⟩
    exact Nat.ne_of_gt (fresh.dated tx member input inVin coin found)
  have bestNotNull : cache.view.plain.bestAnchor ≠ 0 := by
    obtain ⟨saplingTree, _, _, body⟩ := blockConnected.body
    exact bestAnchor_ne_zero viewAt.ok.sapling rooted body.stored
  obtain ⟨plainFinal, ran, coins, nullifiers, bestAnchor, bestBlock⟩ :=
    disconnectBlock_run blockConnected (restorable_of_viewAt viewAt) undoable (by omega)
      viewAt.anchored bestNotNull
  obtain ⟨final, cacheRan, finalStands⟩ := cache_refines_plain.run_ok stands ran
  refine ⟨final, cacheRan, ?_, ?_, ?_, ?_⟩
  · exact (congrArg PlainView.coins finalStands.2).trans coins
  · exact (congrArg PlainView.nullifiers finalStands.2).trans nullifiers
  · exact (congrArg PlainView.bestAnchor finalStands.2).trans bestAnchor
  · exact ((congrArg PlainView.bestBlock finalStands.2).trans bestBlock).trans blockConnected.parent

end

section

open TxDB

theorem ofNat_parity_ne_zero : BitVec.ofNat 256 (n % 2 + 1) ≠ 0 := by
  rcases Nat.mod_two_eq_zero_or_one n with even | odd
  · rw [even]
    decide
  · rw [odd]
    decide

variable [PedersenHash] (coin : Coin)

def oneCoinDB : CCoinsViewDB where
  coins := (∅ : Table COutPoint Coin).insert ⟨9, 0⟩ coin
  bestBlock := some 1

def oneCoinCache : CCoinsViewCache CCoinsViewDB where
  own := {}
  below := .base (oneCoinDB coin)

theorem oneCoinDB_getCoin :
    BaseView.getCoin (oneCoinDB coin) outpoint = if outpoint = ⟨9, 0⟩ then some coin else none :=
  Table.lookup_insert_eq _ _ _ _

variable {coin} (unspent : coin.isSpent = false)

include unspent

theorem oneCoinCache_coinAt (outpoint : COutPoint) :
    (oneCoinCache coin).view.coinAt outpoint = if outpoint = ⟨9, 0⟩ then some coin else none := by
  refine (congrFun (congrArg coins (emptyCache_plain (.base (oneCoinDB coin)))) outpoint).trans ?_
  change (BaseView.getCoin (oneCoinDB coin) outpoint).bind Coin.unspent? = _
  rw [oneCoinDB_getCoin]
  split
  · exact Coin.unspent?_of_not_isSpent unspent
  · rfl

theorem oneCoinCache_absent (elsewhere : txid ≠ 9) :
    (oneCoinCache coin).view.coinAt ⟨txid, n⟩ = none := by
  rw [oneCoinCache_coinAt unspent, if_neg]
  intro same
  exact elsewhere (congrArg COutPoint.hash same)

theorem oneCoinCache_viewAt (kept : coin.isIgnored = false)
    (anchored : emptyRoot = anchorOf params pindex) :
    ViewAt params pindex (oneCoinCache coin).view where
  ok := by
    refine emptyCache_ok ⟨fun outpoint other found => ?_, fun rt tree found => ⟨trivial, ?_⟩⟩
    · rw [oneCoinDB_getCoin] at found
      split at found
      · cases found
        exact unspent
      · cases found
    · change (if rt = emptyRoot then some [] else none) = some tree at found
      split at found
      next isEmpty =>
        cases found
        exact isEmpty.symm
      · cases found
  storable outpoint other found := by
    rw [oneCoinCache_coinAt unspent] at found
    split at found
    · cases found
      exact kept
    · cases found
  anchored := anchored

end

section

open TxDB

local instance : PedersenHash := ⟨fun tree => BitVec.ofNat 256 (tree.length % 2 + 1)⟩

private def parentIndex :
    CBlockIndex := { hash := 1, nHeight := 1, hashFinalSaplingRoot := 0, notNull := one_ne_null }

private def sampleIndex :
    CBlockIndex := { hash := 2, nHeight := 2, hashFinalSaplingRoot := 0, notNull := two_ne_null }

private def anyoneCanSpend (nValue : Int) : CTxOut := { nValue, scriptPubKey := [0x51] }

private def spending (prevout : COutPoint) : CTxIn := { prevout, scriptSig := [], nSequence := 0 }

private def sampleCoinBase : CTransaction where
  hash := 10
  nVersion := 1
  vin := [{ prevout := ⟨0, 2 ^ 32 - 1⟩, scriptSig := [0x52, 0x00], nSequence := 0 }]
  vout := [anyoneCanSpend (21400 * coinUnit)]

private def sampleBlock : CBlock where
  hash := 2
  hashPrevBlock := 1
  hashMerkleRoot := 0
  hashFinalSaplingRoot := 0
  nTime := 1600000000
  vtx := [sampleCoinBase,
    { hash := 11, nVersion := 1, vin := [spending ⟨9, 0⟩],
      vout := [anyoneCanSpend 400, anyoneCanSpend 90] },
    { hash := 12, nVersion := 1, vin := [spending ⟨11, 0⟩], vout := [anyoneCanSpend 300] }]

private def sampleEnv : Env :=
  let env := Env.trusting mainParams
  { env with node := { env.node with
    tip := some (1, 1)
    blockHeight := fun hash => if hash = 1 then some 1 else none } }

private def sampleCoin : Coin := { out := anyoneCanSpend 500, nHeight := 1 }

private theorem fresh_of_new
    (hashes : (block.vtx.map CTransaction.hash).Nodup ∧ ∀ tx ∈ block.vtx, tx.hash ≠ 9)
    (allowed : env.invalidOutPoints = []) :
    FreshBlock env block (oneCoinCache sampleCoin).view.coinAt where
  unique := hashes.1
  absent tx member n := oneCoinCache_absent rfl (hashes.2 tx member)
  allowed _ _ _ _ := allowed ▸ not_mem_nil
  dated tx _ input _ coin found := by
    rw [oneCoinCache_coinAt rfl] at found
    split at found
    · cases found
      decide
    · cases found

theorem disconnectBlock_undoes_connectBlock_sampleBlock : ∃ blockundo after final,
    run step (connectBlock sampleEnv sampleBlock sampleIndex (some parentIndex) false)
      (oneCoinCache sampleCoin) =
        .ok (blockundo, after) ∧
      run step (disconnectBlock sampleEnv sampleBlock parentIndex (some blockundo)) after =
      .ok (.ok, final) ∧
      final.view.coinAt ⟨9, 0⟩ = some sampleCoin ∧ final.view.coinAt ⟨11, 0⟩ = none ∧
      final.view.bestBlock = 1 := by
  have connects : (run step (connectBlock sampleEnv sampleBlock sampleIndex (some parentIndex) false)
      (oneCoinCache sampleCoin)).toOption.isSome = true := by
    decide
  cases connected : run step (connectBlock sampleEnv sampleBlock sampleIndex (some parentIndex) false)
      (oneCoinCache sampleCoin) with
  | error reason =>
    rw [connected] at connects
    cases connects
  | ok result =>
    obtain ⟨blockundo, after⟩ := result
    obtain ⟨final, disconnected, coins, -, -, bestBlock⟩ := (disconnectBlock_undoes_connectBlock_iff
      (fun _ => ofNat_parity_ne_zero) (oneCoinCache_viewAt rfl rfl rfl)
      (fresh_of_new (by decide) rfl) (by decide) rfl connected).mpr (by decide)
    refine ⟨blockundo, after, final, rfl, disconnected, ?_, ?_, bestBlock⟩
    · rw [coins, oneCoinCache_coinAt rfl]
      rfl
    · rw [coins, oneCoinCache_coinAt rfl]
      rfl

/-- The test network, with its first blocks before `ZC_TimeStart`. -/
private def testParams : Params where
  isMain := false
  isTestnet := true
  hashGenesisBlock := 0x0000041e482b9b9691d98eefb48473405c0b8ec31b76df3797c74a78680ef818
  nMaxMoneyOut := 21000000 * coinUnit
  nCoinbaseMaturity := 15
  nBudgetCycleBlocks := 144
  heightLastInvalidUTXO := -1
  heightLastZCWrappedSerials := -1
  zcMaxPublicSpendsPerTx := 637
  zcMaxSpendsPerTx := 7
  zcTimeStart := 1508214600
  vUpgrades _ := some 201

/-- Scripts that are too short to be spends are not parsed. -/
private def testEnv : Env :=
  let zerocoin := { sampleEnv.zerocoin with
    txInToZerocoinSpend := fun input => if input.scriptSig.length < 4 then none else some 1 }
  { sampleEnv with params := testParams, zerocoin }

private def mixedBlock : CBlock := { sampleBlock with
  nTime := 1500000000
  vtx := [sampleCoinBase, {
    hash := 11
    nVersion := 1
    vin := [{ prevout := ⟨0, 0⟩, scriptSig := [0xc2, 1, 2, 3], nSequence := 0 },
      { prevout := ⟨9, 0⟩, scriptSig := [0xc2], nSequence := 0 }]
    vout := [anyoneCanSpend coinUnit] }] }

private def mixedUndo (env : Env) (block : CBlock) : Option (Except Failure DisconnectResult) :=
  match run step (connectBlock env block sampleIndex (some parentIndex) false)
    (oneCoinCache sampleCoin) with
  | .error _ => none
  | .ok (blockundo, after) =>
    some ((run step (disconnectBlock env block parentIndex (some blockundo)) after).map Prod.fst)

/-- A zerocoin spend with one more input that only looks like one is connected, and cannot be taken
back. -/
theorem disconnectBlock_throws_on_misread :
    ViewAt testParams parentIndex (oneCoinCache sampleCoin).view ∧
      FreshBlock testEnv mixedBlock (oneCoinCache sampleCoin).view.coinAt ∧
    mixedUndo testEnv mixedBlock = some (.error (.check (.runtimeError "TxInToZerocoinSpend"))) :=
  ⟨oneCoinCache_viewAt rfl rfl rfl, fresh_of_new (by decide) rfl, rfl⟩

end

end Deviant.Validation
