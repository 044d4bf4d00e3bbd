import Deviant.Validation.AcceptBlock
import Deviant.Validation.ChainState

namespace Deviant.Validation

open Chain Coins Consensus Data Primitives
open List hiding after

/-! Whether the output that an accepted block stakes is a coin of the chain the block extends.  A
block on the tip is held against the coins at the tip.  For any other block only the blocks off the
active chain are searched, so what happened to the output before the split goes unnoticed. -/

section History

variable (env : Env)

def Spends (tx : CTransaction) (key : COutPoint) : Prop :=
  hasNoCoinInputs tx = false ∧ key ∈ tx.vin.map CTxIn.prevout

/-- Connecting the transaction removes an output on account of the list of invalid ones. -/
def Bans (entry : Nat × CTransaction) (key : COutPoint) : Prop :=
  skipInvalidUTXOS env.params entry.1 = true ∧ key ∈ env.invalidOutPoints ∧
    key.hash = entry.2.hash ∧ ∃ out, (out, key.n) ∈ entry.2.vout.zipIdx

def Creates (entry : Nat × CTransaction) (key : COutPoint) : Prop :=
  ¬(skipInvalidUTXOS env.params entry.1 = true ∧ key ∈ env.invalidOutPoints) ∧
    key.hash = entry.2.hash ∧ ∃ out, (out, key.n) ∈ entry.2.vout.zipIdx ∧
    isIgnoredOutput out = false

def LeavesCoin (txs : List (Nat × CTransaction)) (key : COutPoint) : Prop :=
  ∃ earlier entry later, txs = earlier ++ entry :: later ∧ Creates env entry key ∧
    ∀ other ∈ later, ¬ Spends other.2 key ∧ ¬ Bans env other key

end History

section

variable {env : Env} {key : COutPoint} {coins : COutPoint → Option Coin} {nHeight : Nat}
    {tx : CTransaction}

theorem zipIdx_unique {outs : List CTxOut} (here : (out, n) ∈ outs.zipIdx)
    (there : (other, n) ∈ outs.zipIdx) : out = other := by
  rw [mem_zipIdx_iff_getElem?] at here there
  exact Option.some.inj (here.symm.trans there)

theorem mem_outputWrites_at :
    (key, value) ∈ outputWrites env tx nHeight (skipInvalidUTXOS env.params nHeight) 0 tx.vout ↔
      (Bans env (nHeight, tx) key ∧ value = none) ∨
        (Creates env (nHeight, tx) key ∧ ∃ out, (out, key.n) ∈ tx.vout.zipIdx ∧
          value = some (outputCoin tx nHeight out)) := by
  rw [mem_outputWrites]
  constructor
  · rintro ⟨out, n, indexed, written⟩
    have isKey : key = ⟨tx.hash, n⟩ := outputWrite_key written
    subst isKey
    unfold outputWrite at written
    split at written
    next banned =>
      simp only [Bool.and_eq_true, decide_eq_true_eq] at banned
      rw [mem_singleton, Prod.mk.injEq] at written
      exact .inl ⟨⟨banned.1, banned.2, rfl, out, indexed⟩, written.2⟩
    next free =>
      simp only [Bool.and_eq_true, decide_eq_true_eq] at free
      split at written
      · cases written
      next kept =>
        rw [mem_singleton, Prod.mk.injEq] at written
        exact .inr ⟨⟨free, rfl, out, indexed, Bool.eq_false_iff.mpr kept⟩, out, indexed, written.2⟩
  · rintro (⟨⟨skips, listed, hash, out, indexed⟩, rfl⟩ | ⟨⟨free, hash, out, indexed, kept⟩, other,
      alsoIndexed, rfl⟩)
    · obtain ⟨keyHash, n⟩ := key
      obtain rfl : keyHash = tx.hash := hash
      refine ⟨out, n, indexed, ?_⟩
      simp [outputWrite, skips, listed]
    · obtain rfl := zipIdx_unique indexed alsoIndexed
      obtain ⟨keyHash, n⟩ := key
      obtain rfl : keyHash = tx.hash := hash
      refine ⟨out, n, indexed, ?_⟩
      have ignored : (outputCoin tx nHeight out).isIgnored = false := kept
      have notBanned : (skipInvalidUTXOS env.params nHeight &&
          decide ((⟨tx.hash, n⟩ : COutPoint) ∈ env.invalidOutPoints)) = false := by
        simpa using free
      simp [outputWrite, notBanned, ignored]

theorem not_creates_of_bans (bans : Bans env entry key) : ¬ Creates env entry key :=
  fun creates => creates.1 ⟨bans.1, bans.2.1⟩

theorem connectCoins_spent (spends : Spends tx key) :
    applyWrites coins (txInputWrites tx) key = none := by
  have writes : txInputWrites tx = inputWrites tx.vin := by
    rw [txInputWrites, spends.1]
    rfl
  obtain ⟨input, member, rfl⟩ := mem_map.mp spends.2
  apply applyWrites_written
  · rw [writes]
    exact mem_map_of_mem member
  · exact fun other written => txInputWrites_none written

theorem connectCoins_unspent (kept : ¬ Spends tx key) :
    applyWrites coins (txInputWrites tx) key = coins key := by
  apply applyWrites_untouched
  unfold txInputWrites
  split
  · simp
  next kind =>
    intro member
    apply kept
    refine ⟨Bool.eq_false_iff.mpr kind, ?_⟩
    simpa [inputWrites] using member

theorem isSome_connectCoins : (connectCoins env coins entry key).isSome = true ↔
      Creates env entry key ∨ ((coins key).isSome = true ∧ ¬ Spends entry.2 key ∧
        ¬ Bans env entry key) := by
  obtain ⟨nHeight, tx⟩ := entry
  unfold connectCoins connectWrites
  rw [applyWrites_append]
  by_cases bans : Bans env (nHeight, tx) key
  · have removed : applyWrites (applyWrites coins (txInputWrites tx))
        (outputWrites env tx nHeight (skipInvalidUTXOS env.params nHeight) 0 tx.vout) key = none := by
      apply applyWrites_written (mem_outputWrites_at.mpr (.inl ⟨bans, rfl⟩))
      intro other written
      rcases mem_outputWrites_at.mp written with ⟨-, isNone⟩ | ⟨creates, -⟩
      · exact isNone
      · exact absurd creates (not_creates_of_bans bans)
    simp [removed, bans, not_creates_of_bans bans]
  · by_cases creates : Creates env (nHeight, tx) key
    · obtain ⟨-, -, out, indexed, -⟩ := id creates
      have added : applyWrites (applyWrites coins (txInputWrites tx))
          (outputWrites env tx nHeight (skipInvalidUTXOS env.params nHeight) 0 tx.vout) key =
            some (outputCoin tx nHeight out) := by
        apply applyWrites_written (mem_outputWrites_at.mpr (.inr ⟨creates, out, indexed, rfl⟩))
        intro other written
        rcases mem_outputWrites_at.mp written with ⟨banned, -⟩ | ⟨-, another, alsoIndexed, isSome⟩
        · exact absurd banned bans
        · rw [isSome, zipIdx_unique indexed alsoIndexed]
      simp [added, creates]
    · have untouched : applyWrites (applyWrites coins (txInputWrites tx))
          (outputWrites env tx nHeight (skipInvalidUTXOS env.params nHeight) 0 tx.vout) key =
            applyWrites coins (txInputWrites tx) key := by
        apply applyWrites_untouched
        intro member
        obtain ⟨⟨_, value⟩, written, rfl⟩ := mem_map.mp member
        rcases mem_outputWrites_at.mp written with ⟨banned, -⟩ | ⟨created, -⟩
        · exact bans banned
        · exact creates created
      rw [untouched]
      by_cases spends : Spends tx key
      · simp [connectCoins_spent spends, spends, creates]
      · simp [connectCoins_unspent spends, spends, creates, bans]

theorem leavesCoin_cons : LeavesCoin env (entry :: txs) key ↔ LeavesCoin env txs key ∨
      (Creates env entry key ∧ ∀ other ∈ txs, ¬ Spends other.2 key ∧ ¬ Bans env other key) := by
  constructor
  · rintro ⟨earlier, middle, later, same, creates, kept⟩
    cases earlier with
    | nil =>
      cases same
      exact .inr ⟨creates, kept⟩
    | cons first earlier =>
      cases same
      exact .inl ⟨earlier, middle, later, rfl, creates, kept⟩
  · rintro (⟨earlier, middle, later, rfl, creates, kept⟩ | ⟨creates, kept⟩)
    · exact ⟨entry :: earlier, middle, later, rfl, creates, kept⟩
    · exact ⟨[], entry, txs, rfl, creates, kept⟩

theorem isSome_foldl_connectCoins (txs : List (Nat × CTransaction)) :
    (txs.foldl (connectCoins env) coins key).isSome = true ↔ LeavesCoin env txs key ∨
        ((coins key).isSome = true ∧ ∀ entry ∈ txs, ¬ Spends entry.2 key ∧ ¬ Bans env entry key) := by
  induction txs generalizing coins with
  | nil => simp [LeavesCoin]
  | cons entry txs ih =>
    rw [foldl_cons, ih, isSome_connectCoins, leavesCoin_cons, forall_mem_cons]
    tauto

end

section Fork

variable (files : BlockFiles) (chainActive : BlockPath)

def branch : BlockPath → List CBlockIndex
  | [] => []
  | pindex :: pprev => if contains chainActive (pindex :: pprev) then [] else pindex :: branch pprev

def forkPoint : BlockPath → BlockPath
  | [] => []
  | pindex :: pprev => if contains chainActive (pindex :: pprev) then pindex :: pprev
    else forkPoint pprev

def branchTxs (blocks : List CBlockIndex) :
    List (Nat × CTransaction) := blocks.reverse.flatMap (blockTxs files)

/-- The output is a coin where the chain of a block leaves the active chain, or becomes one on the
way to the block; or the block is on the tip and its stake has no zerocoin inputs.  Only outputs on
the list of invalid ones can be lost on the way. -/
def StakeKept (env : Env) (parent : BlockPath) (coinstake : CTransaction) (key : COutPoint) :
    Prop :=
  (parent = chainActive ∧ coinstake.hasZerocoinSpendInputs = false) ∨
    (LeavesCoin env (chainTxs files (forkPoint chainActive parent)) key ∧
      ∀ entry ∈ branchTxs files (branch chainActive parent), ¬ Bans env entry key) ∨
    ∃ earlier entry later, branchTxs files (branch chainActive parent) = earlier ++ entry :: later ∧
      Creates env entry key ∧ ∀ other ∈ later, ¬ Bans env other key

variable {files chainActive}

theorem branch_append_forkPoint : branch chainActive path ++ forkPoint chainActive path = path := by
  induction path with
  | nil => rfl
  | cons pindex pprev ih =>
    rw [branch, forkPoint]
    split
    · rfl
    · exact congrArg (pindex :: ·) ih

theorem chainTxs_append (nonempty : path ≠ []) :
    chainTxs files (blocks ++ path) = chainTxs files path ++ branchTxs files blocks := by
  induction blocks with
  | nil => simp [branchTxs]
  | cons pindex rest ih =>
    obtain ⟨next, below, above⟩ : ∃ next below, rest ++ path = next :: below := by
      apply exists_cons_of_ne_nil
      simp [nonempty]
    rw [cons_append, above, chainTxs, ← above, ih]
    simp [branchTxs]

theorem contains_self (nonempty : chainActive ≠ []) : contains chainActive chainActive = true := by
  obtain ⟨pindex, pprev, rfl⟩ := exists_cons_of_ne_nil nonempty
  simp [contains, BlockPath.nHeight, BlockPath.getAncestor]

theorem scanInputs_ok
    (passed : scanInputs sources deviantInputs hasZDEVInputs inputs before = .ok after) :
    ∀ input ∈ inputs, ∀ stakeIn ∈ deviantInputs, stakeIn.prevout ≠ input.prevout := by
  induction inputs generalizing before with
  | nil => simp
  | cons input rest ih =>
    obtain ⟨serials, -, passed⟩ := bind_eq_ok.mp passed
    rw [require_bind_eq_ok] at passed
    intro other member
    rcases mem_cons.mp member with rfl | later
    · simpa using passed.1
    · exact ih passed.2 other later

theorem scanFork_ok {prev : BlockPath} (read : prev.head?.bind files.readBlockFromDisk = some bl)
    (passed : scanFork staking sources files chainActive deviantInputs hasZDEVInputs prev bl
      readBlock before =
      .ok found) :
    forkPoint chainActive prev ≠ [] ∧ ∀ entry ∈ branchTxs files (branch chainActive prev),
      ∀ input ∈ entry.2.vin, ∀ stakeIn ∈ deviantInputs, stakeIn.prevout ≠ input.prevout := by
  induction prev generalizing bl readBlock before with
  | nil => cases passed
  | cons pindex pprev ih =>
    rw [scanFork] at passed
    rw [forkPoint, branch]
    cases onChain : contains chainActive (pindex :: pprev) with
    | true => simp [branchTxs]
    | false =>
      rw [onChain, if_neg Bool.false_ne_true, require_bind_eq_ok] at passed
      obtain ⟨serials, scanned, passed⟩ := bind_eq_ok.mp passed.2
      cases readNext : pprev.head?.bind files.readBlockFromDisk with
      | none =>
        rw [readNext] at passed
        cases passed
      | some next =>
        rw [readNext] at passed
        obtain ⟨meets, below⟩ := ih readNext passed
        refine ⟨meets, ?_⟩
        intro entry member
        simp only [Bool.false_eq_true, if_false, branchTxs, reverse_cons, flatMap_append,
          mem_append] at member
        rcases member with deeper | here
        · exact below entry deeper
        · have readHere : files.readBlockFromDisk pindex = some bl := read
          simp only [flatMap_cons, flatMap_nil, append_nil, blockTxs, readHere, Option.elim_some,
            mem_map] at here
          obtain ⟨tx, inBlock, rfl⟩ := here
          intro input inTx
          exact scanInputs_ok scanned input (mem_flatMap.mpr ⟨tx, inBlock, inTx⟩)

end Fork

section Stored

variable {env : Env} {files : BlockFiles} {staking : StakingParams} {sources : AcceptSources}
  {reconsider : ChainTip env files → BlockPath → ChainTip env files} {tip : ChainTip env files}
  {block : CBlock}
  {coinstake : CTransaction} {parent : BlockPath} {nHeight : Nat}

variable (reconsider tip block) in
def tipFor (parent : BlockPath) : ChainTip env files :=
  if tip.failed block.hashPrevBlock then reconsider tip parent else tip

theorem getPrevIndex_ok (notNull : found.2 ≠ [])
    (passed : getPrevIndex sources reconsider tip block = .ok found) :
    tip.mapBlockIndex.find block.hashPrevBlock = some found.2 ∧
      found.1 = tipFor reconsider tip block found.2 := by
  unfold getPrevIndex at passed
  split at passed
  · cases passed
    exact absurd rfl notNull
  · split at passed
    · cases passed
    next known =>
      unfold tipFor
      cases failed : tip.failed block.hashPrevBlock with
      | false =>
        rw [failed] at passed
        cases passed
        exact ⟨known, rfl⟩
      | true =>
        simp only [failed, Bool.not_true, Bool.false_eq_true, if_false] at passed
        split at passed
        · cases passed
          exact ⟨known, rfl⟩
        · cases passed

theorem checkStake_fork
    (passed : checkStake staking sources tip block coinstake nHeight parent = .ok ())
    (nonempty : parent ≠ []) (onFork : tip.chainActive ≠ parent) :
    forkPoint tip.chainActive parent ≠ [] ∧
      ∀ entry ∈ branchTxs files (branch tip.chainActive parent), ∀ input ∈ entry.2.vin,
      ∀ stakeIn ∈ coinstake.vin, stakeIn.isZerocoinSpend = false →
        stakeIn.prevout ≠ input.prevout := by
  have fromFork : (!parent.isEmpty && decide (tip.chainActive ≠ parent)) = true := by
    simp [nonempty, onFork]
  obtain ⟨_, -, passed⟩ := bind_eq_ok.mp passed
  rw [fromFork] at passed
  obtain ⟨_, scanned, -⟩ := bind_eq_ok.mp passed
  unfold checkFork at scanned
  cases read : parent.head?.bind files.readBlockFromDisk with
  | none =>
    rw [read] at scanned
    cases scanned
  | some bl =>
    rw [read] at scanned
    obtain ⟨found, scan, -⟩ := bind_eq_ok.mp scanned
    obtain ⟨meets, unspent⟩ := scanFork_ok read scan
    refine ⟨meets, ?_⟩
    intro entry member input inTx stakeIn staked transparent
    exact unspent entry member input inTx stakeIn (by simp [staked, transparent])

theorem checkStake_tip
    (passed : checkStake staking sources tip block coinstake nHeight tip.chainActive = .ok ())
    (transparent : coinstake.hasZerocoinSpendInputs = false) :
    ∀ input ∈ coinstake.vin, (tip.pcoinsTip input.prevout).isSome = true := by
  obtain ⟨_, -, passed⟩ := bind_eq_ok.mp passed
  have onTip : (!tip.chainActive.isEmpty && decide (tip.chainActive ≠ tip.chainActive)) =
    false := by simp
  rw [onTip] at passed
  simp only [Bool.false_eq_true, if_false, checkTipCoins, transparent, Bool.not_false, if_true,
    Bool.and_true, require_eq_ok, all_eq_true] at passed
  intro input member
  have unspent := passed input member
  cases coin : tip.pcoinsTip input.prevout with
  | none =>
    rw [coin] at unspent
    cases unspent
  | some coin => rfl

theorem acceptBlock_stake (second : block.vtx[1]? = some coinstake)
    (isStake : coinstake.isCoinStake = true)
    (stored : acceptBlock staking sources reconsider tip block = .ok .stored) :
    ∃ parent nHeight, parent ≠ [] ∧ tip.mapBlockIndex.find block.hashPrevBlock = some parent ∧
      checkStake staking sources (tipFor reconsider tip block parent)
      block coinstake nHeight parent = .ok () := by
  have proofOfStake : block.isProofOfStake = true := by
    match vtx : block.vtx with
    | [] | [_] => simp [vtx] at second
    | _ :: _ :: _ =>
      simp only [vtx, List.getElem?_cons_succ, List.getElem?_cons_zero, Option.some.injEq] at second
      simp [CBlock.isProofOfStake, vtx, second, isStake]
  obtain ⟨⟨node, parent⟩, found, stored⟩ := bind_eq_ok.mp stored
  simp only [acceptBlockOn, proofOfStake, if_true, require_bind_eq_ok, second] at stored
  obtain ⟨_, proved, stored⟩ := bind_eq_ok.mp stored.2
  have nonempty : parent ≠ [] := by
    rintro rfl
    cases proved
  obtain ⟨known, isNode⟩ := getPrevIndex_ok nonempty found
  obtain rfl : node = tipFor reconsider tip block parent := isNode
  obtain ⟨nHeight, -, stored⟩ := bind_eq_ok.mp stored
  refine ⟨parent, nHeight, nonempty, known, ?_⟩
  split at stored
  · cases stored
  · split at stored
    · obtain ⟨_, -, stored⟩ := bind_eq_ok.mp stored
      rw [require_bind_eq_ok] at stored
      obtain ⟨_, checked, -⟩ := bind_eq_ok.mp stored.2
      exact checked
    · obtain ⟨_, checked, -⟩ := bind_eq_ok.mp stored
      exact checked

theorem txs_hashed
    (hashed : ∀ pindex block, files.readBlockFromDisk pindex = some block → ∀ tx ∈ block.vtx, tx.hash ≠ 0)
    (member : entry ∈ blockTxs files pindex) : entry.2.hash ≠ 0 := by
  unfold blockTxs at member
  cases read : files.readBlockFromDisk pindex with
  | none => simp [read] at member
  | some block =>
    simp only [read, Option.elim_some, mem_map] at member
    obtain ⟨tx, inBlock, rfl⟩ := member
    exact hashed pindex block read tx inBlock

theorem mem_chainTxs (member : entry ∈ chainTxs files path) :
    ∃ pindex, entry ∈ blockTxs files pindex := by
  induction path using chainTxs.induct with
  | case1 => cases member
  | case2 => cases member
  | case3 pindex pprev path ih =>
    rcases mem_append.mp member with below | here
    · exact ih below
    · exact ⟨pindex, here⟩

theorem isSome_utxoSet_branch (meets : forkPoint chainActive parent ≠ [])
    (unspent : ∀ entry ∈ branchTxs files (branch chainActive parent), ¬ Spends entry.2 key) :
    (utxoSet env files parent key).isSome = true ↔
      (LeavesCoin env (chainTxs files (forkPoint chainActive parent)) key ∧
        ∀ entry ∈ branchTxs files (branch chainActive parent), ¬ Bans env entry key) ∨
      ∃ earlier entry later, branchTxs files (branch chainActive parent) = earlier ++
      entry :: later ∧
        Creates env entry key ∧ ∀ other ∈ later, ¬ Bans env other key := by
  have txs : chainTxs files parent =
      chainTxs files (forkPoint chainActive parent) ++ branchTxs files (branch chainActive parent) := by
    rw [← chainTxs_append meets, branch_append_forkPoint]
  have fork :=
    @isSome_foldl_connectCoins env key (fun _ => none)
    (chainTxs files (forkPoint chainActive parent))
  simp only [Option.isSome_none, Bool.false_eq_true, false_and, or_false] at fork
  rw [utxoSet, txs, foldl_append, isSome_foldl_connectCoins, fork, or_comm]
  apply or_congr
  · refine and_congr_right fun _ => forall₂_congr fun entry member => ?_
    simp [unspent entry member]
  · unfold LeavesCoin
    refine exists_congr fun earlier => exists_congr fun entry => exists_congr fun later => ?_
    refine and_congr_right fun same => and_congr_right fun _ => forall₂_congr fun other member => ?_
    have inBranch : other ∈ branchTxs files (branch chainActive parent) := by
      rw [same]
      exact mem_append_right _ (mem_cons_of_mem _ member)
    simp [unspent other inBranch]

/-- The output that an accepted block stakes is a coin of the chain the block extends exactly if the
coin was there before the chain left the active one, or was made after. -/
theorem stored_stake_unspent_iff {input : CTxIn}
    (hashed : ∀ pindex block, files.readBlockFromDisk pindex = some block →
      ∀ tx ∈ block.vtx, tx.hash ≠ 0)
    (second : block.vtx[1]? = some coinstake) (isStake : coinstake.isCoinStake = true)
    (first : coinstake.vin.head? = some input)
    (stored : acceptBlock staking sources reconsider tip block = .ok .stored) :
    ∃ parent, tip.mapBlockIndex.find block.hashPrevBlock = some parent ∧
      ((utxoSet env files parent input.prevout).isSome = true ↔
        StakeKept files (tipFor reconsider tip block parent).chainActive env parent coinstake
        input.prevout) := by
  obtain ⟨parent, nHeight, nonempty, known, checked⟩ := acceptBlock_stake second isStake stored
  refine ⟨parent, known, ?_⟩
  have member : input ∈ coinstake.vin := mem_of_mem_head? first
  generalize tipFor reconsider tip block parent = node at checked ⊢
  by_cases onTip : parent = node.chainActive ∧ coinstake.hasZerocoinSpendInputs = false
  · obtain ⟨rfl, transparent⟩ := id onTip
    have unspent := checkStake_tip checked transparent input member
    rw [node.current] at unspent
    exact iff_of_true unspent (.inl onTip)
  · cases zerocoin : input.isZerocoinSpend with
    | true =>
      have isNull : input.prevout.hash = 0 := by
        simp only [CTxIn.isZerocoinSpend, Bool.and_eq_true, beq_iff_eq] at zerocoin
        exact zerocoin.1
      have notMade (pindex : CBlockIndex) : ∀ entry ∈ blockTxs files pindex,
          ¬ Creates env entry input.prevout :=
        fun entry member creates => txs_hashed hashed member (creates.2.1.symm.trans isNull)
      apply iff_of_false
      · rw [utxoSet, isSome_foldl_connectCoins]
        rintro (⟨earlier, entry, later, same, creates, -⟩ | ⟨present, -⟩)
        · obtain ⟨pindex, inBlock⟩ := mem_chainTxs (same ▸ mem_append_right _ mem_cons_self)
          exact notMade pindex entry inBlock creates
        · cases present
      · rintro (tipCase | ⟨⟨earlier, entry, later, same, creates, -⟩, -⟩ | ⟨earlier, entry, later,
          same, creates, -⟩)
        · exact onTip tipCase
        · obtain ⟨pindex, inBlock⟩ := mem_chainTxs (same ▸ mem_append_right _ mem_cons_self)
          exact notMade pindex entry inBlock creates
        · obtain ⟨pindex, -, inBlock⟩ := mem_flatMap.mp
            (show entry ∈ branchTxs files _ from same ▸ mem_append_right _ mem_cons_self)
          exact notMade pindex entry inBlock creates
    | false =>
      have scanned : forkPoint node.chainActive parent ≠ [] ∧
          ∀ entry ∈ branchTxs files (branch node.chainActive parent),
          ¬ Spends entry.2 input.prevout := by
        by_cases same : node.chainActive = parent
        · have onChain := contains_self (same ▸ nonempty)
          rw [same] at onChain ⊢
          obtain ⟨pindex, pprev, rfl⟩ := exists_cons_of_ne_nil nonempty
          simp [forkPoint, branch, onChain, branchTxs]
        · obtain ⟨meets, unspent⟩ := checkStake_fork checked nonempty same
          refine ⟨meets, ?_⟩
          rintro entry inBranch ⟨-, spent⟩
          obtain ⟨other, inTx, isKey⟩ := mem_map.mp spent
          exact unspent entry inBranch other inTx input member zerocoin isKey.symm
      rw [isSome_utxoSet_branch scanned.1 scanned.2]
      exact (or_iff_right onTip).symm

end Stored

namespace SampleFork

def genesis :
    CBlockIndex := { hash := 1, nHeight := 0, hashFinalSaplingRoot := 0, notNull := one_ne_null }
def first : BlockPath :=
      [{ hash := 2, nHeight := 1, hashFinalSaplingRoot := 0, notNull := two_ne_null }, genesis]
def second :
    BlockPath :=
      { hash := 3, nHeight := 2, hashFinalSaplingRoot := 0, notNull := by decide } :: first
def third : BlockPath :=
      { hash := 4, nHeight := 3, hashFinalSaplingRoot := 0, notNull := by decide } :: second

def pays (hash : Uint256) (vin : List CTxIn) : CTransaction :=
  { hash, nVersion := 1, vin, vout := [{ nValue := 5, scriptPubKey := [1] }] }

def spend (hash : Uint256) : CTxIn := { prevout := ⟨hash, 0⟩, scriptSig := [], nSequence := 0 }

def block (hash hashPrevBlock : Uint256) (vtx : List CTransaction) : CBlock :=
  { hash, hashPrevBlock, hashMerkleRoot := 0, hashFinalSaplingRoot := 0, nTime := 0, vtx }

def files : BlockFiles where
  readBlockFromDisk pindex :=
    if pindex.hash = 2 then some (block 2 1 [pays 10 []])
    else if pindex.hash = 3 then some (block 3 2 [pays 11 [spend 10]])
    else none
  undoReadFromDisk _ := none

def blocks : BlockMap where
  genesis := genesis
  find hash := [first, second, third].find? fun path => path.hash = hash
  named hash path found := by simpa using List.find?_some found
  numbered hash path found := by
    have all : ∀ path ∈ [first, second, third], path.Numbered := by decide
    exact all path (mem_of_find?_eq_some found)
  rooted hash path found := by
    have all : ∀ path ∈ [first, second, third], [genesis] <:+ path := by decide
    exact all path (mem_of_find?_eq_some found)

def tip : ChainTip (Env.trusting mainParams) files where
  mapBlockIndex := blocks
  failed _ := false
  haveData _ := false
  chainActive := third
  pcoinsTip := utxoSet (Env.trusting mainParams) files third
  current := rfl

def sources : AcceptSources where
  checkWork _ _ := true
  matchesCheckpoint _ _ := false
  checkHeader _ _ := true
  contextualCheckBlock _ _ := true
  mempoolGet _ := none
  fTxIndex := true
  readTxIndex hash :=
    if hash = 10 then some (pays 10 [], 2) else if hash = 11 then some (pays 11 [spend 10], 3)
      else none
  blockTime _ := 0
  initLegacyStake _ _ := none
  legacyContextCheck _ _ _ := false
  checkKernelHash _ _ _ := true
  verifyStakeScript _ _ := true
  library := {
    getOutput := fun _ => none
    parseCoinSpend := fun _ _ _ => none
    validateInput := fun _ _ _ => false
    txInToZerocoinSpend := fun _ => none
    hashTxOut := fun _ => 0 }
  isSerialInBlockchain _ := none
  contextualCheckZerocoinSpendNoSerialCheck _ _ _ := false
  writeBlockToDisk _ := true

def coinstake (hash : Uint256) : CTransaction :=
  { hash := 20, nVersion := 1, vin := [spend hash],
    vout := [{ nValue := 0, scriptPubKey := [] }, { nValue := 6, scriptPubKey := [1] }] }

def rival (hash : Uint256) : CBlock := block 21 3 [pays 19 [], coinstake hash]

end SampleFork

open SampleFork in
/-- The stake of an output that is not spent: the block on the parent of the tip is stored. -/
theorem stored_stake_unspent_iff_rival :
    ∃ parent, blocks.find (rival 11).hashPrevBlock = some parent ∧
        ((utxoSet (Env.trusting mainParams) files parent (spend 11).prevout).isSome = true ↔
        StakeKept files (tipFor (fun tip _ => tip) tip (rival 11) parent).chainActive
        (Env.trusting mainParams) parent
          (coinstake 11) (spend 11).prevout) := by
  have hashed : ∀ pindex block, files.readBlockFromDisk pindex = some block → ∀ tx ∈ block.vtx,
      tx.hash ≠ 0 := by
    intro pindex block read
    simp only [files] at read
    split at read
    · cases read
      decide
    · split at read
      · cases read
        decide
      · cases read
  have stored :
    acceptBlock mainStaking sources (fun tip _ => tip) tip (rival 11) = .ok .stored := by decide
  exact stored_stake_unspent_iff hashed rfl rfl rfl stored

open SampleFork in
/-- An output that the parent of the tip spends is staked by another block on that parent. -/
theorem spent_before_split_stored :
    acceptBlock mainStaking sources (fun tip _ => tip) tip (rival 10) = .ok .stored ∧
        (rival 10).isProofOfStake = true ∧ blocks.find (rival 10).hashPrevBlock = some second ∧
      utxoSet (Env.trusting mainParams) files second (spend 10).prevout = none := by
  refine ⟨by decide, by decide, by decide, by decide⟩

end Deviant.Validation
