import Deviant.Validation.ChainState

namespace Deviant.Validation

open Chain Coins Consensus List Primitives SaplingMerkleTree

/-! The Sapling side of a chain's state, read off the chain's blocks. -/

/-- The blocks of a path above a fork on it, the latest first.  The genesis block is never among
them: connecting it has no effect. -/
def blocksAbove (files : BlockFiles) (fork : BlockPath) : BlockPath → List CBlock
  | [] => []
  | [_] => []
  | pindex :: pprev :: path =>
    if pindex :: pprev :: path = fork then []
    else (files.readBlockFromDisk pindex).toList ++ blocksAbove files fork (pprev :: path)

def blockNullifiers (block : CBlock) : List Uint256 :=
  block.vtx.flatMap fun tx => tx.shieldedSpends.map SpendDescription.nullifier

def blockCommitments (block : CBlock) : List Uint256 := block.vtx.flatMap newCommitments

/-- The note commitments of a path, the earliest first: its note commitment tree. -/
def commitments (files : BlockFiles) (path : BlockPath) : SaplingMerkleTree :=
  (blocksAbove files [] path).reverse.flatMap blockCommitments

def Transparent (blocks : List CBlock) : Prop :=
  ∀ block ∈ blocks, ∀ tx ∈ block.vtx, tx.shieldedSpends = [] ∧ newCommitments tx = []

def RootsApart [PedersenHash] (tree : SaplingMerkleTree) : Prop :=
  ∀ earlier later, earlier <+: tree → later <+: tree → root earlier = root later → earlier = later

section

variable {files : BlockFiles} {fork path : BlockPath} {pindex pprev : CBlockIndex} {block : CBlock}

theorem cons_ne_of_suffix (deeper : fork <:+ path) : pindex :: path ≠ fork := by
  rintro rfl
  have shorter := deeper.length_le
  simp only [length_cons] at shorter
  omega

theorem blocksAbove_self : blocksAbove files path path = [] := by
  match path with
  | [] => rfl
  | [_] => rfl
  | pindex :: pprev :: path => exact if_pos rfl

theorem blocksAbove_cons (read : files.readBlockFromDisk pindex = some block)
    (notFork : pindex :: pprev :: path ≠ fork) :
    blocksAbove files fork (pindex :: pprev :: path) = block :: blocksAbove files fork
      (pprev :: path) := by
  rw [blocksAbove, if_neg notFork, read]
  rfl

theorem blocksAbove_split (suffix : fork <:+ path) :
    blocksAbove files [] path = blocksAbove files fork path ++ blocksAbove files [] fork := by
  induction path with
  | nil =>
    rw [suffix_nil.mp suffix]
    rfl
  | cons pindex rest ih =>
    rcases suffix_cons_iff.mp suffix with rfl | deeper
    · rw [blocksAbove_self, nil_append]
    · cases rest with
      | nil =>
        rw [suffix_nil.mp deeper]
        rfl
      | cons pprev path =>
        rw [blocksAbove, if_neg (cons_ne_nil _ _), blocksAbove, if_neg (cons_ne_of_suffix deeper),
          ih deeper, append_assoc]

theorem commitments_split (files : BlockFiles) (suffix : fork <:+ path) : commitments files path =
      commitments files fork ++ (blocksAbove files fork path).reverse.flatMap blockCommitments := by
  rw [commitments, blocksAbove_split suffix, reverse_append, flatMap_append]
  rfl

theorem commitments_cons (read : files.readBlockFromDisk pindex = some block) :
    commitments files (pindex :: pprev :: path) = commitments files (pprev :: path) ++
      blockCommitments block := by
  rw [commitments, blocksAbove_cons read (cons_ne_nil _ _), reverse_cons, flatMap_append,
    flatMap_singleton]
  rfl

end

variable [PedersenHash] {env : Env} {files : BlockFiles}

theorem RootsApart.earlier {tree earlier : SaplingMerkleTree} (apart : RootsApart tree)
    (grown : earlier <+: tree) :
    RootsApart earlier :=
  fun _ _ first second => apart _ _ (first.trans grown) (second.trans grown)

section

variable {Known : SaplingMerkleTree → Prop} [DecidablePred Known] {block : CBlock}
  {pindex pprev : CBlockIndex}
  {isFirst : Bool} {txs : List CTransaction} {totals totals' : BlockTotals} {plain after : PlainView}

omit [PedersenHash] in
theorem markNullifiers_spent :
    PlainView.markNullifiers nullifiers tx true nullifier = true ↔ nullifiers nullifier = true ∨
      nullifier ∈ tx.shieldedSpends.map SpendDescription.nullifier := by
  unfold PlainView.markNullifiers
  split
  next spent => exact ⟨fun _ => .inr spent, fun _ => rfl⟩
  next unspent => exact ⟨.inl, fun either => either.resolve_right unspent⟩

variable (loop : TxsConnected Known env block pindex pprev isFirst txs totals plain totals' after)

include loop

theorem TxsConnected.nullifiers :
    after.nullifiers nullifier = true ↔ plain.nullifiers nullifier = true ∨
        nullifier ∈ txs.flatMap fun tx => tx.shieldedSpends.map SpendDescription.nullifier := by
  induction loop with
  | nil => simp
  | cons first later ih =>
    rw [ih, first.effect, flatMap_cons, mem_append, ← or_assoc]
    exact or_congr_left markNullifiers_spent

theorem TxsConnected.nullifiers_fresh
    (spent : nullifier ∈ txs.flatMap fun tx => tx.shieldedSpends.map SpendDescription.nullifier) :
    plain.nullifiers nullifier = false := by
  induction loop with
  | nil => cases spent
  | cons first later ih =>
    rcases mem_append.mp (flatMap_cons ▸ spent) with here | there
    · obtain ⟨spend, member, rfl⟩ := mem_map.mp here
      exact first.applies.fresh spend member
    · have freshThen := ih there
      rw [first.effect] at freshThen
      refine Bool.eq_false_iff.mpr fun before => Bool.eq_false_iff.mp freshThen ?_
      exact markNullifiers_spent.mpr (.inl before)

end

section

variable {fork path : BlockPath} {base plain : PlainView} (rooted : ∀ tree, root tree ≠ 0)
  (state : ChainState env files path plain)

include rooted state

theorem chainState_nullifiers :
    plain.nullifiers nullifier = true ↔
      nullifier ∈ (blocksAbove files [] path).flatMap blockNullifiers := by
  induction state with
  | start => simp [blank, blocksAbove]
  | genesis rules isGenesis height anchored ran =>
    rw [genesis_effect rules isGenesis ran]
    simp [blank, blocksAbove]
  | connect below rules notGenesis height header read readUndo atTip new _ ran unmet ih =>
    obtain ⟨saplingTree, totals, middle, body⟩ :=
      (blockConnected_of_run rooted rules notGenesis new ran).body
    rw [blocksAbove_cons read (cons_ne_nil _ _), flatMap_cons, mem_append, body.nullifiers,
      body.loop.nullifiers, ih, or_comm]
    rfl

theorem chainState_fresh (forkState : ChainState env files fork base)
    (suffix : fork <:+ path)
    (spent : nullifier ∈ (blocksAbove files fork path).flatMap blockNullifiers) :
    base.nullifiers nullifier = false := by
  induction state with
  | start => cases spent
  | genesis rules isGenesis height anchored ran => cases spent
  | @connect pindex pprev path block _ _ _ _ below rules notGenesis height header read readUndo
      atTip new _ ran unmet ih =>
    rcases suffix_cons_iff.mp suffix with rfl | deeper
    · rw [blocksAbove_self] at spent
      cases spent
    · rw [blocksAbove_cons read (cons_ne_of_suffix deeper), flatMap_cons, mem_append] at spent
      rcases spent with here | there
      · obtain ⟨saplingTree, totals, middle, body⟩ :=
          (blockConnected_of_run rooted rules notGenesis new ran).body
        have fresh := body.loop.nullifiers_fresh here
        refine Bool.eq_false_iff.mpr fun before => Bool.eq_false_iff.mp fresh ?_
        rw [chainState_nullifiers rooted below, blocksAbove_split deeper, flatMap_append]
        exact mem_append_right _ ((chainState_nullifiers rooted forkState).mp before)
      · exact ih deeper there

theorem chainState_commitments (apart : RootsApart (commitments files path)) :
    plain.bestAnchor = root (commitments files path) ∧
      plain.anchors plain.bestAnchor = some (commitments files path) := by
  induction state with
  | start => exact ⟨rfl, if_pos rfl⟩
  | genesis rules isGenesis height anchored ran =>
    rw [genesis_effect rules isGenesis ran]
    exact ⟨rfl, if_pos rfl⟩
  | @connect pindex pprev path block _ _ _ _ below rules notGenesis height header read readUndo
      atTip new _ ran unmet ih =>
    obtain ⟨saplingTree, totals, middle, body⟩ :=
      (blockConnected_of_run rooted rules notGenesis new ran).body
    have grown := @commitments_cons files path pindex pprev block read
    have extended :
        commitments files (pprev :: path) <+: commitments files (pindex :: pprev :: path) :=
      ⟨_, grown.symm⟩
    obtain ⟨bestBelow, storedBelow⟩ := ih (apart.earlier extended)
    have sameTree : saplingTree = commitments files (pprev :: path) :=
      Option.some.inj (body.stored.symm.trans storedBelow)
    have tree : totals.saplingTree = commitments files (pindex :: pprev :: path) := by
      rw [body.loop.tree, grown, ← sameTree]
      rfl
    refine ⟨body.bestAnchor.trans (by rw [tree]), ?_⟩
    rw [body.anchors, body.bestAnchor, PlainView.pushed_anchors, tree]
    split
    next sameRoot =>
      rw [← sameRoot, storedBelow]
      exact congrArg some (apart _ _ extended prefix_rfl (bestBelow.symm.trans sameRoot))
    · exact Function.update_self ..

theorem chainState_emptyRoot : plain.anchors emptyRoot = some [] := by
  induction state with
  | start => exact if_pos rfl
  | genesis rules isGenesis height anchored ran =>
    rw [genesis_effect rules isGenesis ran]
    exact if_pos rfl
  | connect below rules notGenesis height header read readUndo atTip new _ ran unmet ih =>
    obtain ⟨saplingTree, totals, middle, body⟩ :=
      (blockConnected_of_run rooted rules notGenesis new ran).body
    rw [body.bestAnchor] at unmet
    rw [body.anchors, PlainView.pushed_anchors]
    split
    · exact ih
    next newRoot =>
      refine (Function.update_of_ne ?_ ..).trans ih
      intro isNew
      have absent := unmet (Ne.symm newRoot)
      rw [← isNew, ih] at absent
      cases absent

theorem chainState_sapling_iff (forkState : ChainState env files fork base)
    (suffix : fork <:+ path) (apart : RootsApart (commitments files path)) :
    (base.nullifiers = plain.nullifiers ∧ base.bestAnchor = plain.bestAnchor ∧
        base.anchors plain.bestAnchor = plain.anchors plain.bestAnchor) ↔
      Transparent (blocksAbove files fork path) := by
  have split := commitments_split files suffix
  have grown : commitments files fork <+: commitments files path := ⟨_, split.symm⟩
  obtain ⟨forkBest, forkStored⟩ := chainState_commitments rooted forkState (apart.earlier grown)
  obtain ⟨best, stored⟩ := chainState_commitments rooted state apart
  constructor
  · rintro ⟨sameNullifiers, sameBest, -⟩ block member tx inBlock
    constructor
    · refine eq_nil_iff_forall_not_mem.mpr fun spend spent => ?_
      have above : spend.nullifier ∈ (blocksAbove files fork path).flatMap blockNullifiers :=
        mem_flatMap.mpr ⟨block, member, mem_flatMap.mpr ⟨tx, inBlock, mem_map_of_mem spent⟩⟩
      have fresh := chainState_fresh rooted state forkState suffix above
      have marked : plain.nullifiers spend.nullifier = true := by
        rw [chainState_nullifiers rooted state, blocksAbove_split suffix, flatMap_append]
        exact mem_append_left _ above
      rw [sameNullifiers, marked] at fresh
      cases fresh
    · have sameTree := apart _ _ grown prefix_rfl (forkBest.symm.trans (sameBest.trans best))
      have none := append_right_eq_self.mp (split.symm.trans sameTree.symm)
      exact flatMap_eq_nil_iff.mp (flatMap_eq_nil_iff.mp none block (mem_reverse.mpr member)) tx inBlock
  · intro transparent
    have noSpends : (blocksAbove files fork path).flatMap blockNullifiers = [] := by
      refine flatMap_eq_nil_iff.mpr fun block member => flatMap_eq_nil_iff.mpr fun tx inBlock => ?_
      rw [(transparent block member tx inBlock).1]
      rfl
    have noOutputs : (blocksAbove files fork path).reverse.flatMap blockCommitments = [] :=
      flatMap_eq_nil_iff.mpr fun block member => flatMap_eq_nil_iff.mpr fun tx inBlock =>
        (transparent block (mem_reverse.mp member) tx inBlock).2
    rw [noOutputs, append_nil] at split
    have sameBest : base.bestAnchor = plain.bestAnchor := by rw [forkBest, best, split]
    refine ⟨funext fun nullifier => Bool.eq_iff_iff.mpr ?_, sameBest, ?_⟩
    · rw [chainState_nullifiers rooted forkState, chainState_nullifiers rooted state,
        blocksAbove_split suffix, flatMap_append, noSpends, nil_append]
    · rw [stored, ← sameBest, forkStored, split]

end

end Deviant.Validation
