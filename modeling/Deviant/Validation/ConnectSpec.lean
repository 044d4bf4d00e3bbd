import Deviant.Validation.ConnectBlock
import Deviant.Validation.TxUndo

namespace Deviant.Validation

open Bool Coins Consensus Data Failure List PlainView Primitives Program ViewProgram ReadOnly CTransaction

/-! What a connected block is: the effect of `ConnectBlock` on the plain chain
state, and what its checks have established. -/

section Reads

variable {α : Type} [PedersenHash] (Known : SaplingMerkleTree → Prop) [DecidablePred Known]

abbrev Reads (program : ViewProgram α) : Prop :=
  ReadOnly (step Known) (· ≠ unspecified) program

theorem lift_reads : Reads Known (lift outcome) := by
  cases outcome with
  | error rejection => exact fail (by simp)
  | ok value => exact pure value

variable {Known} in
theorem lift_wp {outcome : Except Rejection α} {rest : α → ViewProgram β} {plain : PlainView}
    {Post : β → PlainView → Prop} (passes : ∀ value, outcome = .ok value →
      Wp (step Known) (rest value) plain Post (· ≠ unspecified)) :
    Wp (step Known) (lift outcome >>= rest) plain Post (· ≠ unspecified) :=
  (lift_reads Known).then_wp fun value ran => passes value ((run_lift_eq_ok plain).mp ran).1

theorem haveCoin_reads : Reads Known (haveCoin outpoint) :=
  fun plain => Wp.of_ok (run_haveCoin plain) rfl

theorem accessCoin_reads (outpoint : COutPoint) : Reads Known (accessCoin outpoint) :=
  fun plain => Wp.of_ok (run_accessCoin plain) rfl

theorem getNullifier_reads : Reads Known (getNullifier nullifier) :=
  fun plain => Wp.of_ok (run_getNullifier plain) rfl

theorem getSaplingAnchorAt_reads : Reads Known (getSaplingAnchorAt rt) :=
  fun plain => Wp.of_ok (run_getSaplingAnchorAt plain) rfl

theorem getBestBlock_reads : Reads Known getBestBlock :=
  fun plain => Wp.of_ok (run_getBestBlock plain) rfl

theorem haveCoins_reads : Reads Known (haveCoins inputs) := by
  induction inputs with
  | nil => exact pure true
  | cons input rest ih =>
    refine (haveCoin_reads Known).bind fun found => ?_
    cases found with
    | false => exact pure false
    | true => exact ih

variable (tx : CTransaction)

theorem haveInputs_reads : Reads Known (haveInputs tx) := by
  unfold haveInputs
  split
  · exact pure true
  · exact haveCoins_reads Known

theorem haveSpendRequirements_reads : Reads Known (haveSpendRequirements spends) := by
  induction spends with
  | nil => exact pure true
  | cons spend rest ih =>
    refine (getNullifier_reads Known).bind fun spent => ?_
    cases spent with
    | true => exact pure false
    | false =>
      refine (getSaplingAnchorAt_reads Known).bind fun tree => ?_
      cases tree with
      | none => exact pure false
      | some tree => exact ih

theorem haveShieldedRequirements_reads : Reads Known (haveShieldedRequirements tx) := by
  unfold haveShieldedRequirements
  split
  · exact haveSpendRequirements_reads Known
  · exact pure true

theorem sumInputs_reads (nResult : Int) : Reads Known (sumInputs inputs nResult) := by
  induction inputs generalizing nResult with
  | nil => exact pure nResult
  | cons input rest ih => exact (accessCoin_reads Known input.prevout).bind fun coin => ih _

theorem getValueIn_reads : Reads Known (getValueIn tx) := by
  unfold getValueIn
  split
  · exact pure 0
  · split
    · exact pure _
    · exact (sumInputs_reads Known 0).bind fun nResult =>
        (lift_reads Known).bind fun shielded => pure _

variable (env : Env)

theorem p2shSigOps_reads : Reads Known (p2shSigOps env inputs) := by
  induction inputs with
  | nil => exact pure 0
  | cons input rest ih =>
    exact (accessCoin_reads Known input.prevout).bind fun coin =>
      ih.bind fun nSigOps => pure _

theorem getSpendHeight_reads : Reads Known (getSpendHeight env) := by
  refine (getBestBlock_reads Known).bind fun hashBest => ?_
  cases env.node.blockHeight hashBest with
  | none => exact fail (by simp)
  | some nHeight => exact pure _

theorem checkInputValues_reads (inputs : List CTxIn) (nValueIn : Int) :
    Reads Known (checkInputValues params nSpendHeight inputs nValueIn) := by
  induction inputs generalizing nValueIn with
  | nil => exact pure nValueIn
  | cons input rest ih =>
    refine (accessCoin_reads Known input.prevout).bind fun coin => ?_
    split
    · exact fail (by simp)
    · exact (lift_reads Known).bind fun _ => (lift_reads Known).bind fun _ => ih _

theorem checkTxInputs_reads (params : Params) (tx : CTransaction) :
    Reads Known (checkTxInputs params tx nSpendHeight) := by
  refine (haveInputs_reads Known tx).bind fun found => (lift_reads Known).bind fun _ => ?_
  refine (haveShieldedRequirements_reads Known tx).bind fun met => (lift_reads Known).bind fun _ =>
    ?_
  refine (checkInputValues_reads Known tx.vin 0).bind fun nTransparent => ?_
  refine (lift_reads Known).bind fun shielded => ?_
  split
  · exact pure ()
  · refine (lift_reads Known).bind fun nValueOut => (lift_reads Known).bind fun _ => ?_
    exact (lift_reads Known).bind fun _ => lift_reads Known

theorem checkScripts_reads (tx : CTransaction) (fCLTVIsActivated : Bool) (i : Nat) :
    Reads Known (checkScripts env tx fCLTVIsActivated i inputs) := by
  induction inputs generalizing i with
  | nil => exact pure ()
  | cons input rest ih =>
    refine (accessCoin_reads Known input.prevout).bind fun coin => ?_
    split
    · exact fail (by simp)
    · exact (lift_reads Known).bind fun _ => ih _

theorem checkInputs_reads (tx : CTransaction) (fScriptChecks : Bool) :
    Reads Known (checkInputs env tx fScriptChecks fCLTVIsActivated) := by
  unfold checkInputs
  split
  · exact pure ()
  · refine (getSpendHeight_reads Known env).bind fun nSpendHeight => ?_
    refine (checkTxInputs_reads Known env.params tx).bind fun _ => ?_
    split
    · exact checkScripts_reads Known env tx fCLTVIsActivated 0
    · exact pure ()

theorem connectSpends_reads (tx : CTransaction) (nSigOps : Nat) :
    Reads Known (connectSpends env tx nSigOps) := by
  unfold connectSpends
  split
  · exact pure nSigOps
  · refine (haveInputs_reads Known tx).bind fun found => (lift_reads Known).bind fun _ => ?_
    refine (haveShieldedRequirements_reads Known tx).bind fun met =>
      (lift_reads Known).bind fun _ => ?_
    exact (p2shSigOps_reads Known env).bind fun nP2SHSigOps =>
      (lift_reads Known).bind fun _ => pure _

theorem addFee_reads (nFees : Int) : Reads Known (addFee tx nFees) := by
  unfold addFee
  split
  · exact pure nFees
  · exact (getValueIn_reads Known tx).bind fun valueIn =>
      (lift_reads Known).bind fun valueOut => pure _

theorem connectValues_reads (pindex : CBlockIndex) (tx : CTransaction) :
    Reads Known (connectValues env pindex pprev tx nFees nValueIn) := by
  unfold connectValues
  split
  · exact pure _
  · refine (addFee_reads Known tx nFees).bind fun nFees => (getValueIn_reads Known tx).bind
      fun valueIn => ?_
    exact (checkInputs_reads Known env tx _).bind fun _ => pure _

end Reads

section Checks

variable [PedersenHash] {Known : SaplingMerkleTree → Prop} [DecidablePred Known]
    {plain after : PlainView}

theorem haveCoins_true (ran : run (step Known) (haveCoins inputs) plain = .ok (true, after)) :
    ∀ input ∈ inputs, (plain.coins input.prevout).isSome = true := by
  induction inputs with
  | nil => simp
  | cons input rest ih =>
    rw [haveCoins, run_bind_ok (run_haveCoin plain)] at ran
    cases found : (plain.coins input.prevout).isSome with
    | false =>
      rw [found] at ran
      cases ran
    | true =>
      rw [found] at ran
      intro other member
      rcases mem_cons.mp member with rfl | later
      · exact found
      · exact ih ran other later

theorem haveSpendRequirements_true
    (ran : run (step Known) (haveSpendRequirements spends) plain = .ok (true, after)) :
    ∀ spend ∈ spends, plain.nullifiers spend.nullifier = false := by
  induction spends with
  | nil => simp
  | cons spend rest ih =>
    rw [haveSpendRequirements, run_bind_ok (run_getNullifier plain)] at ran
    cases spent : plain.nullifiers spend.nullifier with
    | true =>
      rw [spent] at ran
      cases ran
    | false =>
      simp only [spent, false_eq_true, if_false] at ran
      rw [run_bind_ok (run_getSaplingAnchorAt plain)] at ran
      cases stored : plain.anchors spend.anchor with
      | none =>
        rw [stored] at ran
        cases ran
      | some tree =>
        rw [stored] at ran
        intro other member
        rcases mem_cons.mp member with rfl | later
        · exact spent
        · exact ih ran other later

theorem run_reads_bind (reads : Reads Known question)
    (ran : run (step Known) (question >>= continuation) plain = .ok result) :
    ∃ answer, run (step Known) question plain = .ok (answer, plain) ∧
      run (step Known) (continuation answer) plain = .ok result := by
  obtain ⟨answer, middle, asked, rest⟩ := run_bind_eq_ok ran
  have same := reads.same asked
  subst same
  exact ⟨answer, asked, rest⟩

theorem run_lift_bind (ran : run (step Known) (lift outcome >>= continuation) plain = .ok result) :
    ∃ value, outcome = .ok value ∧ run (step Known) (continuation value) plain = .ok result := by
  obtain ⟨value, lifted, rest⟩ := run_reads_bind (lift_reads Known) ran
  exact ⟨value, ((run_lift_eq_ok plain).mp lifted).1, rest⟩

theorem run_asked_bind (reads : Reads Known question) (ran : run (step Known)
      (question >>= fun answer => lift (require answer reason) >>= fun _ => continuation) plain =
        .ok result) : run (step Known) question plain = .ok (true, plain) ∧
      run (step Known) continuation plain = .ok result := by
  obtain ⟨answer, asked, rest⟩ := run_reads_bind reads ran
  obtain ⟨_, required, rest⟩ := run_lift_bind rest
  rw [require_eq_ok] at required
  subst required
  exact ⟨asked, rest⟩

theorem connectSpends_ok (kind : hasNoCoinInputs tx = false)
    (ran : run (step Known) (connectSpends env tx nSigOps) plain = .ok (nSigOps', after)) :
    (∀ input ∈ tx.vin, (plain.coins input.prevout).isSome = true) ∧
      (tx.isShieldedTx = true → ∀ spend ∈ tx.shieldedSpends,
        plain.nullifiers spend.nullifier = false) := by
  simp only [connectSpends, kind, false_eq_true, if_false] at ran
  obtain ⟨found, ran⟩ := run_asked_bind (haveInputs_reads Known tx) ran
  obtain ⟨met, -⟩ := run_asked_bind (haveShieldedRequirements_reads Known tx) ran
  simp only [haveInputs, kind, false_eq_true, if_false] at found
  refine ⟨haveCoins_true found, fun shielded => ?_⟩
  simp only [haveShieldedRequirements, shielded, if_true] at met
  exact haveSpendRequirements_true met

end Checks

def newCommitments (tx : CTransaction) : List Uint256 :=
  if tx.isShieldedTx then tx.shieldedOutputs.map OutputDescription.cmu else []

section Transactions

variable [PedersenHash] {Known : SaplingMerkleTree → Prop} [DecidablePred Known]
  {env : Env} {block : CBlock} {pindex pprev : CBlockIndex} {isFirst : Bool} {tx : CTransaction}
  {totals totals' : BlockTotals} {plain after : PlainView} {fZerocoinActive fSaplingActive : Bool}

variable (Known env block pindex pprev) in
/-- A transaction went through the loop of `ConnectBlock`. -/
structure TxConnected (isFirst : Bool) (tx : CTransaction) (totals : BlockTotals)
    (plain : PlainView) (totals' : BlockTotals) (after : PlainView) : Prop where
  applies : Applies plain tx
  effect : after = connected env pindex.nHeight tx plain
  undo : totals'.vtxundo = if isFirst then totals.vtxundo else totals.vtxundo ++ [undoRecord tx plain]
  tree : totals'.saplingTree = totals.saplingTree ++ newCommitments tx
  maintained : checkMaintenance env block pindex tx = .ok ()
  minted : connectMints env pindex tx = .ok ()
  valueIn : ∃ nValueIn, connectZerocoinSpends env block pindex tx totals.nValueIn = .ok nValueIn ∧
    run (step Known) (connectValues env pindex pprev tx totals.nFees nValueIn) plain =
      .ok ((totals'.nFees, totals'.nValueIn), plain)
  valueOut : ∃ nValueOut, getValueOut tx = .ok nValueOut ∧
    totals'.nValueOut = wrap64 (totals.nValueOut + nValueOut)

omit [PedersenHash] in
theorem unshielded_of_checked (checked : TransactionChecked env.params fZerocoinActive fSaplingActive tx)
    (kind : hasNoCoinInputs tx = true) : tx.shieldedSpends = [] := by
  by_contra spends
  have sapling := checked.sapling (hasSaplingData_of_spends spends)
  simp only [hasNoCoinInputs, sapling.notCoinBase, sapling.noZerocoinSpend, Bool.or_self,
    false_eq_true] at kind

section

variable (checked : TransactionChecked env.params fZerocoinActive fSaplingActive tx)

include checked

omit [PedersenHash] in
theorem notNull_of_checked : ∀ out ∈ tx.vout, out.isNull = false := by
  intro out member
  have notNegative := (checked.outputs out member).1
  simp only [CTxOut.isNull, beq_eq_false_iff_ne, ne_eq]
  omega

theorem applies_of_checked (absent : ∀ n, plain.coins ⟨tx.hash, n⟩ = none)
    (ran : run (step Known) (connectSpends env tx nSigOps) plain = .ok (nSigOps', plain)) :
    Applies plain tx where
  absent := absent
  present kind := (connectSpends_ok kind ran).1
  distinct kind := checked.distinct (or_eq_false_iff.mp kind).2
  unshielded := unshielded_of_checked checked
  fresh spend member := by
    have spends : tx.shieldedSpends ≠ [] := ne_nil_of_mem member
    have kind : hasNoCoinInputs tx = false := by
      by_contra other
      exact spends (unshielded_of_checked checked (eq_true_of_not_eq_false other))
    have hasData := hasSaplingData_of_spends spends
    have shielded : tx.isShieldedTx = true := by
      simp [isShieldedTx, hasData, (checked.sapling hasData).version]
    exact (connectSpends_ok kind ran).2 shielded spend member

theorem connectTx_wp (absent : ∀ n, plain.coins ⟨tx.hash, n⟩ = none) :
    Wp (step Known) (connectTx env block pindex pprev isFirst tx totals) plain
      (TxConnected Known env block pindex pprev isFirst tx totals plain) (· ≠ unspecified) := by
  refine lift_wp fun _ _ => ?_
  refine lift_wp fun _ maintained => ?_
  refine lift_wp fun _ minted => ?_
  refine lift_wp fun nValueIn zerocoins => ?_
  refine (connectSpends_reads Known env tx _).then_wp fun nSigOps spends => ?_
  refine (connectValues_reads Known env pindex tx).then_wp fun sums values => ?_
  refine lift_wp fun valueOut counted => ?_
  have applies : Applies plain tx := applies_of_checked checked absent spends
  have updated :=
    updateCoins_run Known env pindex.nHeight plain checked.distinct (notNull_of_checked checked)
    absent
  refine Wp.of_ok (run_bind_ok updated) ?_
  exact {
    applies
    effect := rfl
    undo := by cases isFirst <;> rfl
    tree := rfl
    maintained := maintained
    minted := minted
    valueIn := ⟨nValueIn, zerocoins, values⟩
    valueOut := ⟨valueOut, counted, rfl⟩ }

end

omit [PedersenHash] in
theorem absent_after (env : Env) (nHeight : Nat) (unique : ((tx :: rest).map hash).Nodup)
    (absent : ∀ other ∈ tx :: rest, ∀ n, plain.coins ⟨other.hash, n⟩ = none) :
    ∀ other ∈ rest, ∀ n, (connected env nHeight tx plain).coins ⟨other.hash, n⟩ = none := by
  intro other member n
  have before := absent other (mem_cons_of_mem _ member) n
  refine applyWrites_induction (· = none) before fun value written => ?_
  rcases mem_append.mp written with input | output
  · exact txInputWrites_none input
  · have same := outputWrites_hash (mem_map_of_mem output)
    exact absurd (same ▸ mem_map_of_mem member) (nodup_cons.mp unique).1

variable (Known env block pindex pprev) in
/-- A list of transactions went through the loop of `ConnectBlock`. -/
inductive TxsConnected :
    Bool → List CTransaction → BlockTotals → PlainView → BlockTotals → PlainView → Prop
  | nil {isFirst : Bool} {totals : BlockTotals} {plain : PlainView} :
      TxsConnected isFirst [] totals plain totals plain
  | cons {isFirst : Bool} {tx : CTransaction} {rest : List CTransaction}
      {totals totals' totals'' : BlockTotals} {plain middle after : PlainView}
      (first : TxConnected Known env block pindex pprev isFirst tx totals plain totals' middle)
      (later : TxsConnected false rest totals' middle totals'' after) :
      TxsConnected isFirst (tx :: rest) totals plain totals'' after

theorem connectTxs_wp
    (checked : ∀ tx ∈ txs, TransactionChecked env.params fZerocoinActive fSaplingActive tx)
    (unique : (txs.map hash).Nodup) (absent : ∀ tx ∈ txs, ∀ n, plain.coins ⟨tx.hash, n⟩ = none) :
    Wp (step Known) (connectTxs env block pindex pprev isFirst txs totals) plain
      (TxsConnected Known env block pindex pprev isFirst txs totals plain) (· ≠ unspecified) := by
  induction txs generalizing isFirst totals plain with
  | nil => exact Wp.pure .nil
  | cons tx rest ih =>
    refine (connectTx_wp (checked tx mem_cons_self) (absent tx mem_cons_self)).bind
      fun totals' middle _ first => ?_
    have restAbsent := first.effect ▸ absent_after env pindex.nHeight unique absent
    refine (ih (forall_mem_cons.mp checked).2 unique.of_cons restAbsent).mono ?_
    exact fun _ _ later => .cons first later

variable (Known env block pindex pprev) in
structure BlockBody (plain : PlainView) (saplingTree : SaplingMerkleTree) (totals : BlockTotals)
    (middle : PlainView) (blockundo : CBlockUndo) (after : PlainView) : Prop where
  stored : plain.anchors plain.bestAnchor = some saplingTree
  loop : TxsConnected Known env block pindex pprev true block.vtx { saplingTree } plain totals middle
  passed : checkTotals env block pindex totals = .ok ()
  undo : blockundo.vtxundo = totals.vtxundo
  effect : after = { middle.pushed totals.saplingTree with bestBlock := pindex.hash }

variable (Known env block pindex pprev) in
/-- A block went through `ConnectBlock`. -/
structure BlockConnected (plain : PlainView) (blockundo : CBlockUndo) (after : PlainView) :
    Prop where
  checked : BlockChecked env block
  parent : plain.bestBlock = pprev.hash
  kind : checkBlockKind env block pindex = .ok ()
  body : ∃ saplingTree totals middle,
    BlockBody Known env block pindex pprev plain saplingTree totals middle blockundo after

variable (known : ∀ tree, Known tree) (rooted : ∀ tree, SaplingMerkleTree.root tree ≠ 0)

include known rooted

theorem connectBlockBody_wp (checked : BlockChecked env block)
    (parent : plain.bestBlock = pprev.hash) (unique : (block.vtx.map hash).Nodup)
    (absent : ∀ tx ∈ block.vtx, ∀ n, plain.coins ⟨tx.hash, n⟩ = none) :
    Wp (step Known) (connectBlockBody env block pindex pprev false) plain
      (BlockConnected Known env block pindex pprev plain) (· ≠ unspecified) := by
  refine lift_wp fun _ kind => ?_
  refine Wp.after_run (run_getBestAnchor plain) (Wp.after_run (run_getSaplingAnchorAt plain) ?_)
  cases stored : plain.anchors plain.bestAnchor with
  | none => exact Wp.fail (by simp)
  | some saplingTree =>
    refine (connectTxs_wp checked.transactions unique absent).bind fun totals middle _ loop => ?_
    refine Wp.after_run (run_pushAnchor middle (known _) (rooted _)) ?_
    refine lift_wp fun _ passed => ?_
    refine Wp.of_ok (run_bind_ok (run_setBestBlock _ pindex.notNull)) ?_
    exact ⟨checked, parent, kind, saplingTree, totals, middle, stored, loop, passed, rfl, rfl⟩

theorem connectBlock_wp (notGenesis : block.hash ≠ env.params.hashGenesisBlock)
    (unique : (block.vtx.map hash).Nodup)
    (absent : ∀ tx ∈ block.vtx, ∀ n, plain.coins ⟨tx.hash, n⟩ = none) :
    Wp (step Known) (connectBlock env block pindex (some pprev) false) plain
      (BlockConnected Known env block pindex pprev plain) (· ≠ unspecified) := by
  refine lift_wp fun _ passed => ?_
  have checked := checkBlock_ok passed
  refine Wp.after_run (run_getBestBlock plain) ?_
  split
  · exact Wp.fail (by simp)
  next parent => exact connectBlockBody_wp known rooted checked (not_not.mp parent) unique absent

end Transactions

end Deviant.Validation
