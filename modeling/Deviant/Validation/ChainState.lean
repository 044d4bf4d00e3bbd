import Deviant.Validation.ReplayBlocks
import Deviant.Validation.UncleanUndo

namespace Deviant.Validation

open Chain Coins Consensus Data Primitives SaplingMerkleTree Program

/-! The state of a chain: what connecting its blocks one after the other leaves. -/

def blank [PedersenHash] : PlainView where
  coins _ := none
  nullifiers _ := false
  anchors rt := if rt = emptyRoot then some [] else none
  bestAnchor := emptyRoot
  bestBlock := 0

/-- The blocks of a path, each connected by `ConnectBlock` to the state of its parent, and the state
they leave.  A block may have been connected under another state of the node than `env` is in.
Transaction ids are new when met (`NewBlock`), and so is the root of a tree that has grown.
Zerocoin spends have no other inputs, which nothing checks before `ZC_TimeStart`. -/
inductive ChainState [PedersenHash] (env : Env) (files : BlockFiles) : BlockPath → PlainView → Prop
  | start : ChainState env files [] blank
  | genesis {pindex : CBlockIndex} {block : CBlock} {blockundo : CBlockUndo} {now : Env}
      {after : PlainView} (rules : SameRules env now)
      (isGenesis : block.hash = env.params.hashGenesisBlock) (height : pindex.nHeight = 0)
      (anchored : anchorOf env.params pindex = emptyRoot)
      (ran : run (PlainView.step fun _ => True) (connectBlock now block pindex none false) blank =
        .ok (blockundo, after)) :
      ChainState env files [pindex] after
  | connect {pindex pprev : CBlockIndex} {path : BlockPath} {block : CBlock}
      {blockundo : CBlockUndo} {now : Env} {plain after : PlainView}
      (below : ChainState env files (pprev :: path) plain) (rules : SameRules env now)
      (notGenesis : block.hash ≠ env.params.hashGenesisBlock)
      (height : pindex.nHeight = pprev.nHeight + 1)
      (header : pindex.hashFinalSaplingRoot = block.hashFinalSaplingRoot)
      (read : files.readBlockFromDisk pindex = some block)
      (readUndo : files.undoReadFromDisk pindex = some blockundo)
      (atTip : now.node.tip = some (pprev.hash, pprev.nHeight)) (new : NewBlock block plain.coins)
      (onlyZerocoins : ∀ tx ∈ block.vtx, OnlyZerocoins tx)
      (ran : run (PlainView.step fun _ => True) (connectBlock now block pindex (some pprev) false)
        plain = .ok (blockundo, after))
      (unmet : after.bestAnchor ≠ plain.bestAnchor → plain.anchors after.bestAnchor = none) :
      ChainState env files (pindex :: pprev :: path) after

def IsOutputOnDisk (files : BlockFiles) (key : COutPoint) : Prop :=
  ∃ pindex block tx out, files.readBlockFromDisk pindex = some block ∧ tx ∈ block.vtx ∧
    (out, key.n) ∈ tx.vout.zipIdx ∧ key.hash = tx.hash ∧ isIgnoredOutput out = false

def OnDisk (files : BlockFiles) (plain : PlainView) : Prop :=
  ∀ key coin, plain.coins key = some coin → IsOutputOnDisk files key

/-- `ParseZerocoinPublicSpend` takes an input only if the output it names is a mint; a private spend
names the null hash, which no transaction has. -/
structure SpendsMints (zerocoin : Zerocoin) (files : BlockFiles) : Prop where
  hashed : ∀ pindex block, files.readBlockFromDisk pindex = some block →
    ∀ tx ∈ block.vtx, tx.hash ≠ 0
  mint : ∀ input tx denomination, zerocoin.parseZerocoinPublicSpend input tx = some denomination →
    ∀ pindex block, files.readBlockFromDisk pindex = some block → ∀ other ∈ block.vtx, ∀ out,
      (out, input.prevout.n) ∈ other.vout.zipIdx → input.prevout.hash = other.hash →
      out.isZerocoinMint = true

theorem OnDisk.connected (onDisk : OnDisk files plain)
    (read : files.readBlockFromDisk pindex = some block) (member : tx ∈ block.vtx) :
    OnDisk files (connected env nHeight tx plain) := by
  intro key coin found
  rcases connected_coin found with before | ⟨out, indexed, hash, kept, -⟩
  · exact onDisk key coin before
  · exact ⟨pindex, block, tx, out, read, member, indexed, hash, kept⟩

theorem connectZerocoinInputs_parsed
    (connected : connectZerocoinInputs env block pindex tx inputs nValueIn = .ok nValueIn') :
    ∀ input ∈ inputs, input.isZerocoinPublicSpend = true →
      ∃ denomination, env.zerocoin.parseZerocoinPublicSpend input tx = some denomination := by
  induction inputs generalizing nValueIn with
  | nil => exact fun input member => absurd member List.not_mem_nil
  | cons input rest ih =>
    intro other member isPublic
    rw [connectZerocoinInputs] at connected
    cases kind : (!input.isZerocoinSpend && !input.isZerocoinPublicSpend) with
    | true =>
      simp only [kind, if_true] at connected
      rcases List.mem_cons.mp member with rfl | later
      · rw [isPublic, Bool.not_true, Bool.and_false] at kind
        cases kind
      · exact ih connected other later isPublic
    | false =>
      simp only [kind, Bool.false_eq_true, if_false, require_bind_eq_ok] at connected
      obtain ⟨denomination, parsed, connected⟩ := bind_eq_ok.mp connected.2
      rw [require_bind_eq_ok] at connected
      rcases List.mem_cons.mp member with rfl | later
      · cases publicSpend : env.zerocoin.parseZerocoinPublicSpend other tx with
        | none => simp [parseZerocoinSpend, isPublic, publicSpend] at parsed
        | some denomination => exact ⟨denomination, rfl⟩
      · exact ih connected.2 other later isPublic

section

variable [PedersenHash] {env : Env} {files : BlockFiles}

variable (env files) in
structure ChainKept (path : BlockPath) (plain : PlainView) : Prop where
  numbered : path.Numbered
  best : plain.bestBlock = path.hash
  restorable : Restorable plain
  dated : ∀ key coin, plain.coins key = some coin → coin.nHeight ≠ 0
  onDisk : OnDisk files plain
  anchored : ∀ pindex ∈ path.head?, plain.bestAnchor = anchorOf env.params pindex
  stored : (plain.anchors plain.bestAnchor).isSome = true
  roots : ∀ rt tree, plain.anchors rt = some tree → root tree = rt

theorem ChainKept.bestAnchor_ne_zero (kept : ChainKept env files path plain)
    (rooted : ∀ tree, root tree ≠ 0) : plain.bestAnchor ≠ 0 := by
  obtain ⟨tree, found⟩ := Option.isSome_iff_exists.mp kept.stored
  rw [← kept.roots _ tree found]
  exact rooted tree

theorem blank_kept : ChainKept env files [] blank where
  numbered := trivial
  best := rfl
  restorable := ⟨fun _ _ found => (by cases found), fun _ _ found => (by cases found)⟩
  dated _ _ found := by cases found
  onDisk _ _ found := by cases found
  anchored _ member := by cases member
  stored := by simp [blank]
  roots rt tree found := by
    simp only [blank] at found
    split at found
    next same =>
      cases found
      exact same.symm
    · cases found

theorem genesis_effect (rules : SameRules env now) (isGenesis : block.hash = env.params.hashGenesisBlock)
    (ran : run (PlainView.step fun _ => True) (connectBlock now block pindex none false) blank =
      .ok (blockundo, after)) : after = { blank with bestBlock := pindex.hash } := by
  obtain ⟨_, _, ran⟩ := run_lift_bind ran
  rw [run_bind_ok (run_getBestBlock _)] at ran
  have sameHash : block.hash = now.params.hashGenesisBlock := by rw [rules.params, isGenesis]
  simp only [blank, Option.elim_none, ne_eq, not_true_eq_false, if_false, sameHash,
    if_true, finishBlock, Bool.false_eq_true] at ran
  rw [run_bind_ok (run_setBestBlock _ pindex.notNull), run_pure] at ran
  cases ran
  rfl

variable {path : BlockPath} {plain after : PlainView} {now : Env} {block : CBlock}
  {pindex pprev : CBlockIndex}
  {blockundo : CBlockUndo}

theorem TxsConnected.coin [DecidablePred Known]
    (loop : TxsConnected Known env block pindex pprev isFirst txs totals plain totals' after)
    {key : COutPoint} {coin : Coin} (found : after.coins key = some coin) :
    plain.coins key = some coin ∨ ∃ tx ∈ txs, ∃ out, (out, key.n) ∈ tx.vout.zipIdx ∧
      key.hash = tx.hash ∧ isIgnoredOutput out = false ∧
      coin = outputCoin tx pindex.nHeight out := by
  induction loop with
  | nil => exact .inl found
  | cons first later ih =>
    rcases ih found with middle | ⟨tx, member, output⟩
    · rw [first.effect] at middle
      exact (connected_coin middle).imp_right fun output => ⟨_, List.mem_cons_self, output⟩
    · exact .inr ⟨tx, List.mem_cons_of_mem _ member, output⟩

theorem blockConnected_of_run (rooted : ∀ tree, root tree ≠ 0) (rules : SameRules env now)
    (notGenesis : block.hash ≠ env.params.hashGenesisBlock) (new : NewBlock block plain.coins)
    (ran : run (PlainView.step fun _ => True)
      (connectBlock now block pindex (some pprev) false) plain = .ok (blockundo, after)) :
    BlockConnected (fun _ => True) now block pindex pprev plain blockundo after := by
  have notGenesis' : block.hash ≠ now.params.hashGenesisBlock := by rwa [rules.params]
  exact (connectBlock_wp (fun _ => trivial) rooted notGenesis' new.unique new.absent).post ran

theorem ChainKept.connect (kept : ChainKept env files (pprev :: path) plain)
    (rules : SameRules env now) (height : pindex.nHeight = pprev.nHeight + 1)
    (header : pindex.hashFinalSaplingRoot = block.hashFinalSaplingRoot)
    (read : files.readBlockFromDisk pindex = some block)
    (atTip : now.node.tip = some (pprev.hash, pprev.nHeight))
    (connected : BlockConnected (fun _ => True) now block pindex pprev plain blockundo after) :
    ChainKept env files (pindex :: pprev :: path) after := by
  obtain ⟨saplingTree, totals, middle, body⟩ := connected.body
  have anchored : plain.bestAnchor = anchorOf now.params pprev := by
    rw [rules.params]
    exact kept.anchored pprev rfl
  constructor
  case numbered =>
    refine ⟨?_, kept.numbered⟩
    rw [height, kept.numbered.1]
    rfl
  case best =>
    rw [body.effect]
    rfl
  case restorable => exact connected.restorable kept.restorable
  case dated =>
    intro key coin found
    rcases body.loop.coin (body.coins ▸ found) with before | ⟨tx, -, out, -, -, -, rfl⟩
    · exact kept.dated key coin before
    · change pindex.nHeight ≠ 0
      omega
  case onDisk =>
    intro key coin found
    rcases body.loop.coin (body.coins ▸ found) with before | ⟨tx, member, out, indexed,
      hash, kept, -⟩
    · exact kept.onDisk key coin before
    · exact ⟨pindex, block, tx, out, read, member, indexed, hash, kept⟩
  case anchored =>
    intro _ same
    cases same
    rw [← rules.params]
    exact connected.anchored height header atTip anchored (kept.roots plain.bestAnchor)
  case stored => exact body.stored_after
  case roots =>
    intro rt tree found
    rw [body.anchors, plain.pushed_anchors] at found
    split at found
    · exact kept.roots rt tree found
    · rw [Function.update_apply] at found
      split at found
      next same =>
        cases found
        exact same.symm
      · exact kept.roots rt tree found

theorem chainState_kept (rooted : ∀ tree, root tree ≠ 0) (state : ChainState env files path plain) :
    ChainKept env files path plain := by
  induction state with
  | start => exact blank_kept
  | genesis rules isGenesis height anchored ran =>
    rw [genesis_effect rules isGenesis ran]
    have kept := @blank_kept _ env files
    exact {
      numbered := ⟨height, trivial⟩
      best := rfl
      restorable := ⟨kept.restorable.storable, kept.restorable.unspent⟩
      dated := kept.dated
      onDisk := kept.onDisk
      anchored := fun _ same => by
        cases same
        exact anchored.symm
      stored := kept.stored
      roots := kept.roots }
  | connect below rules notGenesis height header read readUndo atTip new _ ran unmet ih =>
    exact ih.connect rules height header read atTip
      (blockConnected_of_run rooted rules notGenesis new ran)

theorem TxsConnected.deterministic [DecidablePred Known] (rules : SameRules env now)
    (rules' : SameRules env now')
    (loop : TxsConnected Known now block pindex pprev isFirst txs totals plain totals' after)
    (loop' : TxsConnected Known now' block pindex pprev isFirst txs totals₁ plain totals₁' after') :
    after = after' := by
  induction loop generalizing totals₁ with
  | nil =>
    cases loop'
    rfl
  | cons first later ih =>
    cases loop' with
    | cons first' later' =>
      have same := first.effect.trans ((congrFun rules.connected _).trans
        ((congrFun rules'.connected _).symm.trans first'.effect.symm))
      subst same
      exact ih later'

theorem BlockConnected.deterministic [DecidablePred Known] (rules : SameRules env now)
    (rules' : SameRules env now')
    (connected : BlockConnected Known now block pindex pprev plain blockundo after)
    (connected' : BlockConnected Known now' block pindex pprev plain blockundo' after') :
    after = after' := by
  obtain ⟨saplingTree, totals, middle, body⟩ := connected.body
  obtain ⟨saplingTree', totals', middle', body'⟩ := connected'.body
  have sameTree : saplingTree = saplingTree' :=
    Option.some.inj (body.stored.symm.trans body'.stored)
  have sameMiddle := body.loop.deterministic rules rules' body'.loop
  rw [body.effect, body'.effect, body.loop.tree, body'.loop.tree, sameTree, sameMiddle]

theorem chainState_unique (rooted : ∀ tree, root tree ≠ 0) (state : ChainState env files path plain)
    (state' : ChainState env files path plain') : plain = plain' := by
  induction state generalizing plain' with
  | start =>
    cases state'
    rfl
  | genesis rules isGenesis height anchored ran =>
    cases state' with
    | genesis rules' isGenesis' height' anchored' ran' =>
      rw [genesis_effect rules isGenesis ran, genesis_effect rules' isGenesis' ran']
  | connect below rules notGenesis height header read readUndo atTip new _ ran unmet ih =>
    cases state' with
    | connect below' rules' notGenesis' height' header' read' readUndo' atTip' new' _ ran' unmet' =>
      have samePlain := ih below'
      subst samePlain
      have sameBlock := Option.some.inj (read.symm.trans read')
      subst sameBlock
      exact (blockConnected_of_run rooted rules notGenesis new ran).deterministic rules rules'
        (blockConnected_of_run rooted rules' notGenesis' new' ran')

end

end Deviant.Validation
